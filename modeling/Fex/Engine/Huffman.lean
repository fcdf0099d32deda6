import Fex.Lib.CInt
import Mathlib.Data.List.Sort
import Mathlib.Logic.Function.Basic

/-!
# CHuffman

Node pointers are indices into `m_aNodes`.  Output buffers are the bytes stored
so far.  A negative return value is `none`, or for `Decompress` an error that
carries what has been stored by then.
-/

namespace Fex.Engine.Huffman

def HUFFMAN_EOF_SYMBOL : Nat := 256

def HUFFMAN_MAX_SYMBOLS : Nat := HUFFMAN_EOF_SYMBOL + 1

def HUFFMAN_MAX_NODES : Nat := HUFFMAN_MAX_SYMBOLS * 2 - 1

def HUFFMAN_LUTBITS : Nat := 10

def HUFFMAN_LUTSIZE : Nat := 1 <<< HUFFMAN_LUTBITS

def HUFFMAN_LUTMASK : Nat := HUFFMAN_LUTSIZE - 1

def ms_aFreqTable : List Nat :=
  [1073741824, 4545, 2657, 431, 1950, 919, 444, 482, 2244, 617, 838, 542, 715, 1814, 304, 240,
    754, 212, 647, 186, 283, 131, 146, 166, 543, 164, 167, 136, 179, 859, 363, 113, 157, 154,
    204, 108, 137, 180, 202, 176, 872, 404, 168, 134, 151, 111, 113, 109, 120, 126, 129, 100,
    41, 20, 16, 22, 18, 18, 17, 19, 16, 37, 13, 21, 362, 166, 99, 78, 95, 88, 81, 70, 83, 284,
    91, 187, 77, 68, 52, 68, 59, 66, 61, 638, 71, 157, 50, 46, 69, 43, 11, 24, 13, 19, 10, 12,
    12, 20, 14, 9, 20, 20, 10, 10, 15, 15, 12, 12, 7, 19, 15, 14, 13, 18, 35, 19, 17, 14, 8, 5,
    15, 17, 9, 15, 14, 18, 8, 10, 2173, 134, 157, 68, 188, 60, 170, 60, 194, 62, 175, 71, 148,
    67, 167, 78, 211, 67, 156, 69, 1674, 90, 174, 53, 147, 89, 181, 51, 174, 63, 163, 80, 167,
    94, 128, 122, 223, 153, 218, 77, 200, 110, 190, 73, 174, 69, 145, 66, 277, 143, 141, 60,
    136, 53, 180, 57, 142, 57, 158, 61, 166, 112, 152, 92, 26, 22, 21, 28, 20, 26, 30, 21, 32,
    27, 20, 17, 23, 21, 30, 22, 22, 21, 27, 25, 17, 27, 23, 18, 39, 26, 15, 21, 12, 18, 18, 27,
    20, 18, 15, 19, 11, 17, 33, 12, 18, 15, 19, 18, 16, 26, 17, 18, 9, 10, 25, 22, 22, 17, 20,
    16, 6, 16, 15, 20, 14, 18, 24, 335, 1517]

structure CNode where
  m_Bits : Nat
  m_NumBits : Nat
  m_aLeafs : Bool → Nat
  m_Symbol : UInt8

/-- A node after `mem_zero`. -/
def CNode.zero : CNode := { m_Bits := 0, m_NumBits := 0, m_aLeafs := fun _ => 0, m_Symbol := 0 }

structure CHuffmanConstructNode where
  m_NodeId : Nat
  m_Frequency : Nat

structure CHuffman where
  m_aNodes : Nat → CNode
  m_apDecodeLut : Nat → Option Nat
  m_pStartNode : Nat
  m_NumNodes : Nat

/-! ## Building the tables -/

/-- Store to a node. -/
def CHuffman.setNode (h : CHuffman) (i : Nat) (n : CNode) : CHuffman :=
  { h with m_aNodes := Function.update h.m_aNodes i n }

/-- Sets the code of every symbol below `pNode`; the first argument bounds the recursion. -/
def Setbits_r : Nat → CHuffman → Nat → Nat → Nat → CHuffman
  | 0, h, _, _, _ => h
  | n + 1, h, pNode, Bits, Depth =>
      let h :=
        if (h.m_aNodes pNode).m_aLeafs true ≠ 0xffff then
          Setbits_r n h ((h.m_aNodes pNode).m_aLeafs true) (Bits ||| 1 <<< Depth) (Depth + 1)
        else h
      let h :=
        if (h.m_aNodes pNode).m_aLeafs false ≠ 0xffff then
          Setbits_r n h ((h.m_aNodes pNode).m_aLeafs false) Bits (Depth + 1)
        else h
      if (h.m_aNodes pNode).m_NumBits ≠ 0 then
        h.setNode pNode { h.m_aNodes pNode with m_Bits := Bits, m_NumBits := Depth }
      else h

/-- Add the symbols. -/
def AddSymbols (pFrequencies : Nat → Nat) : CHuffman × List CHuffmanConstructNode :=
  ({ m_aNodes := fun i =>
      if i < HUFFMAN_MAX_SYMBOLS then
        { m_Bits := 0, m_NumBits := 0xFFFFFFFF, m_aLeafs := fun _ => 0xffff
          m_Symbol := .ofNat i }
      else .zero
     m_apDecodeLut := fun _ => none
     m_pStartNode := 0
     m_NumNodes := HUFFMAN_MAX_SYMBOLS },
    (List.range HUFFMAN_MAX_SYMBOLS).map fun i =>
      { m_NodeId := i, m_Frequency := if i = HUFFMAN_EOF_SYMBOL then 1 else pFrequencies i })

/-- One round of the loop that constructs the table.  Insertion sort keeps the order of equal
frequencies, as `std::stable_sort` does. -/
def MergeNodes : CHuffman × List CHuffmanConstructNode → CHuffman × List CHuffmanConstructNode
  | (h, apNodesLeft) =>
      match (apNodesLeft.insertionSort fun a b => b.m_Frequency ≤ a.m_Frequency).reverse with
      | least :: second :: rest =>
          let h' := h.setNode h.m_NumNodes
            { h.m_aNodes h.m_NumNodes with
              m_NumBits := 0
              m_aLeafs := fun b => if b then second.m_NodeId else least.m_NodeId }
          ({ h' with m_NumNodes := h.m_NumNodes + 1 },
            rest.reverse ++ [{ m_NodeId := h.m_NumNodes
                               m_Frequency := least.m_Frequency + second.m_Frequency }])
      | _ => (h, apNodesLeft)

/-- The loop runs until one of the nodes is left. -/
def MergeAll (pFrequencies : Nat → Nat) : CHuffman :=
  (MergeNodes^[HUFFMAN_MAX_SYMBOLS - 1] (AddSymbols pFrequencies)).1

def ConstructTree (pFrequencies : Nat → Nat) : CHuffman :=
  let h := MergeAll pFrequencies
  let h := { h with m_pStartNode := h.m_NumNodes - 1 }
  Setbits_r HUFFMAN_MAX_NODES h h.m_pStartNode 0 0

/-- The walk that fills one entry of the LUT: at most `k` more bits, up to the first symbol. -/
def LutWalk (h : CHuffman) : Nat → Nat → Nat → Nat
  | 0, _, pNode => pNode
  | k + 1, Bits, pNode =>
      let pNode := (h.m_aNodes pNode).m_aLeafs (Bits.testBit 0)
      if (h.m_aNodes pNode).m_NumBits ≠ 0 then pNode else LutWalk h k (Bits >>> 1) pNode

def Init (pFrequencies : Nat → Nat) : CHuffman :=
  let h := ConstructTree pFrequencies
  { h with
    m_apDecodeLut := fun i =>
      if i < HUFFMAN_LUTSIZE then some (LutWalk h HUFFMAN_LUTBITS i h.m_pStartNode) else none }

/-- The tables of `CHuffman::Init()`. -/
def Default : CHuffman := Init fun i => ms_aFreqTable.getD i 0

/-! ## Compressing -/

/-- The bit register of `Compress` and the bytes stored so far. -/
structure Encoder where
  Bits : Nat
  Bitcount : Nat
  pDst : List UInt8

/-- `HUFFMAN_MACRO_LOADSYMBOL` -/
def LoadSymbol (h : CHuffman) (Sym : Nat) (e : Encoder) : Encoder :=
  { e with
    Bits := (e.Bits ||| (h.m_aNodes Sym).m_Bits <<< e.Bitcount) % 2 ^ 32
    Bitcount := e.Bitcount + (h.m_aNodes Sym).m_NumBits }

/-- The loop of `HUFFMAN_MACRO_WRITE`; the first argument bounds its rounds. -/
def WriteBytes (OutputSize : Int) : Nat → Encoder → Option Encoder
  | 0, e => some e
  | n + 1, e =>
      if 8 ≤ e.Bitcount then
        let pDst := e.pDst ++ [UInt8.ofNat (e.Bits &&& 0xff)]
        if pDst.length = OutputSize then none
        else WriteBytes OutputSize n
          { Bits := e.Bits >>> 8, Bitcount := e.Bitcount - 8, pDst := pDst }
      else some e

/-- `HUFFMAN_MACRO_WRITE` -/
def Write (OutputSize : Int) (e : Encoder) : Option Encoder :=
  WriteBytes OutputSize e.Bitcount e

/-- The loop of `Compress`, one symbol behind the input. -/
def CompressSymbols (h : CHuffman) (OutputSize : Int) :
    Nat → List UInt8 → Encoder → Option Encoder
  | Symbol, [], e => Write OutputSize (LoadSymbol h Symbol e)
  | Symbol, b :: pSrc, e => do
      let e ← Write OutputSize (LoadSymbol h Symbol e)
      CompressSymbols h OutputSize b.toNat pSrc e

/-- `Compress` up to the end of its input. -/
def CompressInput (h : CHuffman) (OutputSize : Int) : List UInt8 → Option Encoder
  -- make sure that we have data that we want to compress
  | [] => some { Bits := 0, Bitcount := 0, pDst := [] }
  | b :: pSrc =>
      CompressSymbols h OutputSize b.toNat pSrc { Bits := 0, Bitcount := 0, pDst := [] }

def CHuffman.Compress (h : CHuffman) (pInput : List UInt8) (OutputSize : Int) :
    Option (List UInt8) := do
  let e ← CompressInput h OutputSize pInput
  -- write EOF symbol
  let e ← Write OutputSize (LoadSymbol h HUFFMAN_EOF_SYMBOL e)
  -- write out the last bits
  return e.pDst ++ [UInt8.ofNat e.Bits]

/-! ## Decompressing -/

/-- The bit register of `Decompress` and the input left. -/
structure Decoder where
  Bits : Nat
  Bitcount : Nat
  pSrc : List UInt8

/-- Subtraction on `unsigned`. -/
def decrease (a b : Nat) : Nat := (a + 2 ^ 32 - b) % 2 ^ 32

/-- Fill with new bits. -/
def Fill : List UInt8 → Nat → Nat → Decoder
  | [], Bits, Bitcount => { Bits := Bits, Bitcount := Bitcount, pSrc := [] }
  | b :: pSrc, Bits, Bitcount =>
      if Bitcount < 24 then Fill pSrc (Bits ||| b.toNat <<< Bitcount) (Bitcount + 8)
      else { Bits := Bits, Bitcount := Bitcount, pSrc := b :: pSrc }

/-- Walk the tree bit by bit; the first argument bounds the depth. -/
def WalkTree (h : CHuffman) : Nat → Nat → Nat → Nat → Option (Nat × Nat × Nat)
  | 0, _, _, _ => none
  | n + 1, pNode, Bits, Bitcount =>
      -- traverse tree
      let pNode := (h.m_aNodes pNode).m_aLeafs (Bits.testBit 0)
      -- remove bit
      let Bitcount := decrease Bitcount 1
      let Bits := Bits >>> 1
      -- check if we hit a symbol
      if (h.m_aNodes pNode).m_NumBits ≠ 0 then some (pNode, Bits, Bitcount)
      -- no more bits, decoding error
      else if Bitcount = 0 then none
      else WalkTree h n pNode Bits Bitcount

/-- One round of the loop of `Decompress` up to the symbol it reads. -/
def ReadSymbol (h : CHuffman) (d : Decoder) : Option (Nat × Decoder) := do
  let early := if HUFFMAN_LUTBITS ≤ d.Bitcount then h.m_apDecodeLut (d.Bits &&& HUFFMAN_LUTMASK)
    else none
  let d := Fill d.pSrc d.Bits d.Bitcount
  -- load symbol now if we didn't that earlier
  let pNode ← early.or (h.m_apDecodeLut (d.Bits &&& HUFFMAN_LUTMASK))
  let NumBits := (h.m_aNodes pNode).m_NumBits
  -- check if we hit a symbol already
  if NumBits ≠ 0 then
    return (pNode, { d with Bits := d.Bits >>> NumBits, Bitcount := decrease d.Bitcount NumBits })
  else
    -- remove the bits that the lut checked up for us
    let (pNode, Bits, Bitcount) ← WalkTree h HUFFMAN_MAX_NODES pNode
      (d.Bits >>> HUFFMAN_LUTBITS) (decrease d.Bitcount HUFFMAN_LUTBITS)
    return (pNode, { d with Bits := Bits, Bitcount := Bitcount })

/-- The loop of `Decompress`.  Each round but the last stores a byte, so `OutputSize + 1`
rounds exhaust it. -/
def DecompressSymbols (h : CHuffman) (OutputSize : Nat) :
    Nat → Decoder → List UInt8 → Except (List UInt8) (List UInt8)
  | 0, _, pDst => .error pDst
  | n + 1, d, pDst =>
      match ReadSymbol h d with
      | none => .error pDst
      | some (pNode, d) =>
          -- check for eof
          if pNode = HUFFMAN_EOF_SYMBOL then .ok pDst
          -- output character
          else if pDst.length = OutputSize then .error pDst
          else DecompressSymbols h OutputSize n d (pDst ++ [(h.m_aNodes pNode).m_Symbol])

def CHuffman.Decompress (h : CHuffman) (pInput : List UInt8) (OutputSize : Nat) :
    Except (List UInt8) (List UInt8) :=
  DecompressSymbols h OutputSize (OutputSize + 1) { Bits := 0, Bitcount := 0, pSrc := pInput } []

end Fex.Engine.Huffman
