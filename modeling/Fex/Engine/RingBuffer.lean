import Fex.Lib.BlockList
import Fex.Lib.CInt

/-!
# CRingBufferBase

The buffer is tiled by blocks, each starting with a `CItem` header.  Pointers
are byte offsets from `m_pBuffer`; a header lives at its offset.  The payload
that follows a header belongs to the caller and is not part of this model.
`m_PopCallback` keeps the arguments the callback has been called with, oldest
first.
-/

namespace Fex.Engine.RingBuffer

open Fex.Lib

/-- `sizeof(CItem)`: two pointers and two ints. -/
def ITEM_SIZE : Nat := 24

def FLAG_RECYCLE : Nat := 1

structure CItem where
  m_pPrev : Option Nat
  m_pNext : Option Nat
  m_Free : Bool
  m_Size : Nat

structure CRingBufferBase where
  m_aItems : Nat → CItem
  m_pProduce : Nat
  m_pConsume : Nat
  m_pFirst : Nat
  m_pLast : Nat
  m_Size : Nat
  m_Flags : Nat
  m_PopCallback : List Nat

namespace CRingBufferBase

/-- Store through a header pointer. -/
def setItem (s : CRingBufferBase) (p : Nat) (f : CItem → CItem) : CRingBufferBase :=
  { s with m_aItems := Function.update s.m_aItems p (f (s.m_aItems p)) }

@[simp] theorem setItem_m_pProduce (s : CRingBufferBase) (p : Nat) (f : CItem → CItem) :
    (s.setItem p f).m_pProduce = s.m_pProduce := rfl

@[simp] theorem setItem_m_pConsume (s : CRingBufferBase) (p : Nat) (f : CItem → CItem) :
    (s.setItem p f).m_pConsume = s.m_pConsume := rfl

def NextBlock (s : CRingBufferBase) (pItem : Nat) : Nat :=
  ((s.m_aItems pItem).m_pNext).getD s.m_pFirst

def PrevBlock (s : CRingBufferBase) (pItem : Nat) : Nat :=
  ((s.m_aItems pItem).m_pPrev).getD s.m_pLast

def MergeBack (s : CRingBufferBase) (pItem : Nat) : CRingBufferBase × Nat :=
  match (s.m_aItems pItem).m_pPrev with
  | none => (s, pItem)
  | some pPrev =>
      -- make sure that this block and previous block is free
      if !(s.m_aItems pItem).m_Free || !(s.m_aItems pPrev).m_Free then (s, pItem)
      else
        let item := s.m_aItems pItem
        let s := s.setItem pPrev fun b =>
          { b with m_Size := b.m_Size + item.m_Size, m_pNext := item.m_pNext }
        let s := match item.m_pNext with
          | some pNext => s.setItem pNext fun b => { b with m_pPrev := some pPrev }
          | none => { s with m_pLast := pPrev }
        ({ s with
            m_pProduce := if pItem = s.m_pProduce then pPrev else s.m_pProduce
            m_pConsume := if pItem = s.m_pConsume then pPrev else s.m_pConsume }, pPrev)

def Clear (s : CRingBufferBase) : CRingBufferBase :=
  { s with
    m_aItems := Function.update s.m_aItems 0
      { m_pPrev := none, m_pNext := none, m_Free := true, m_Size := s.m_Size }
    m_pFirst := 0
    m_pLast := 0
    m_pProduce := 0
    m_pConsume := 0 }

/-- `Init` on memory whose headers hold the garbage `mem`. -/
def Init (mem : Nat → CItem) (Size Flags : Nat) : CRingBufferBase :=
  Clear
    { m_aItems := mem, m_pProduce := 0, m_pConsume := 0, m_pFirst := 0, m_pLast := 0
      m_Size := Size / ITEM_SIZE * ITEM_SIZE, m_Flags := Flags, m_PopCallback := [] }

/-- Iterations that cover any walk over the blocks. -/
def fuel (s : CRingBufferBase) : Nat := s.m_Size / ITEM_SIZE + 1

/-- The loop of `PopFirst` that advances `m_pConsume` over free blocks. -/
def CatchUp : Nat → CRingBufferBase → Exec CRingBufferBase
  | 0, _ => .error .diverges
  | n + 1, s =>
      if (s.m_aItems s.m_pConsume).m_Free && s.m_pConsume != s.m_pProduce then
        let (s, p) := s.MergeBack s.m_pConsume
        CatchUp n { s with m_pConsume := s.NextBlock p }
      else .ok s

/-- Returns whether a block was popped. -/
def PopFirst (s : CRingBufferBase) : Exec (CRingBufferBase × Bool) :=
  if (s.m_aItems s.m_pConsume).m_Free then .ok (s, false)
  else do
    let s := { s with m_PopCallback := s.m_PopCallback ++ [s.m_pConsume] }
    -- set the free flag
    let s := s.setItem s.m_pConsume fun b => { b with m_Free := true }
    -- previous block is also free, merge them
    let (s, p) := s.MergeBack s.m_pConsume
    -- advance the consume pointer
    let s ← CatchUp s.fuel { s with m_pConsume := s.NextBlock p }
    -- in the case that we have caught up with the produce pointer
    -- we might stand on a free block so merge em
    return ((s.MergeBack s.m_pConsume).1, true)

/-- `Size` and a header, rounded up to whole headers in `size_t`. -/
def RoundedSize (Size : Nat) : Nat := (Size + ITEM_SIZE + ITEM_SIZE - 1) / ITEM_SIZE * ITEM_SIZE

/-- `WantedSize`: the rounded size stored in an `int`. -/
def WantedSize (Size : Nat) : Int := wrap32 (RoundedSize Size)

/-- The "check for space" at the head of the loop in `Allocate`. -/
def CheckForSpace (s : CRingBufferBase) (wanted : Int) : Option Nat :=
  if (s.m_aItems s.m_pProduce).m_Free then
    if ((s.m_aItems s.m_pProduce).m_Size : Int) ≥ wanted then some s.m_pProduce
    -- wrap around to try to find a block
    else if (s.m_aItems s.m_pFirst).m_Free && ((s.m_aItems s.m_pFirst).m_Size : Int) ≥ wanted then
      some s.m_pFirst
    else none
  else none

/-- Will start to destroy items to try to fit the next one. -/
def Recycles (s : CRingBufferBase) : Prop := s.m_Flags &&& FLAG_RECYCLE ≠ 0

instance (s : CRingBufferBase) : Decidable s.Recycles := inferInstanceAs (Decidable (_ ≠ _))

/-- The loop of `Allocate`: look for a block, recycling old items if the policy says so. -/
def FindBlock : Nat → CRingBufferBase → Int → Exec (CRingBufferBase × Option Nat)
  | 0, _, _ => .error .diverges
  | n + 1, s, wanted =>
      match s.CheckForSpace wanted with
      | some pBlock => .ok (s, some pBlock)
      | none =>
          -- we have no block, check our policy and see what todo
          if s.Recycles then do
            let (s, popped) ← s.PopFirst
            if popped then FindBlock n s wanted else return (s, none)
          else .ok (s, none)

/-- Split the block if needed. -/
def SplitBlock (s : CRingBufferBase) (pBlock : Nat) (wanted : Int) : Exec CRingBufferBase :=
  if wanted + ITEM_SIZE > intMax then .error .overflow
  else if ((s.m_aItems pBlock).m_Size : Int) > wanted + ITEM_SIZE then
    let pNew : Int := (pBlock : Int) + wanted
    if pNew < 0 ∨ (s.m_Size : Int) < pNew + ITEM_SIZE then .error .outOfBounds
    else
      let pNewItem := pNew.toNat
      let block := s.m_aItems pBlock
      let s := s.setItem pNewItem fun _ =>
        { m_pPrev := some pBlock, m_pNext := block.m_pNext, m_Free := true
          m_Size := block.m_Size - wanted.toNat }
      let s := match block.m_pNext with
        | some pNext => s.setItem pNext fun b => { b with m_pPrev := some pNewItem }
        | none => { s with m_pLast := pNewItem }
      .ok (s.setItem pBlock fun b => { b with m_pNext := some pNewItem, m_Size := wanted.toNat })
  else .ok s

/-- The end of `Allocate`: split, set the next produce block and mark the block used. -/
def TakeBlock (s : CRingBufferBase) (pBlock : Nat) (wanted : Int) : Exec CRingBufferBase := do
  let s ← s.SplitBlock pBlock wanted
  let s := { s with m_pProduce := s.NextBlock pBlock }
  return s.setItem pBlock fun b => { b with m_Free := false }

/-- Returns the header of the block handed out; the caller gets the bytes after it. -/
def Allocate (s : CRingBufferBase) (Size : Nat) : Exec (CRingBufferBase × Option Nat) := do
  let wanted := WantedSize Size
  -- check if we even can fit this block
  if wanted > s.m_Size then return (s, none)
  let (s, pBlock?) ← FindBlock s.fuel s wanted
  match pBlock? with
  | none => return (s, none)
  | some pBlock => return (← s.TakeBlock pBlock wanted, some pBlock)

/-- Walk of `Prev` and `Next`: step until a used block or the produce pointer is met. -/
def Walk (step : Nat → Nat) (s : CRingBufferBase) : Nat → Nat → Exec (Option Nat)
  | 0, _ => .error .diverges
  | n + 1, pItem =>
      let pItem := step pItem
      if pItem = s.m_pProduce then .ok none
      else if (s.m_aItems pItem).m_Free then Walk step s n pItem
      else .ok (some pItem)

def Prev (s : CRingBufferBase) (pCurrent : Nat) : Exec (Option Nat) :=
  Walk s.PrevBlock s s.fuel pCurrent

def Next (s : CRingBufferBase) (pCurrent : Nat) : Exec (Option Nat) :=
  Walk s.NextBlock s s.fuel pCurrent

def First (s : CRingBufferBase) : Option Nat :=
  if (s.m_aItems s.m_pConsume).m_Free then none else some s.m_pConsume

def Last (s : CRingBufferBase) : Exec (Option Nat) := s.Prev s.m_pProduce

end CRingBufferBase

end Fex.Engine.RingBuffer
