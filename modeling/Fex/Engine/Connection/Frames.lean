import Fex.Engine.Connection.Bounds
import Fex.Engine.Network.Wire
import Mathlib.Data.List.Induction

/-!
# Packets of chunks

The data of a packet is a run of chunks, each a packed header and a payload.
`Carries` says that a packet holds such a run, possibly more of it than its
count of chunks admits; fetching then takes the chunks one after the other.
-/

namespace Fex.Engine.Connection

open Fex.Lib Fex.Engine.Network CNetRecvUnpacker

structure Chunk where
  Flags : Nat
  Data : List UInt8
  Sequence : Nat

namespace Chunk

def Vital (ch : Chunk) : Prop := ch.Flags &&& NET_CHUNKFLAG_VITAL ≠ 0

instance (ch : Chunk) : Decidable ch.Vital := inferInstanceAs (Decidable (_ ≠ _))

def packed (ch : Chunk) : CNetChunkHeader :=
  { m_Flags := ch.Flags, m_Size := ch.Data.length, m_Sequence := ch.Sequence }

/-- The header that comes back. -/
def header (ch : Chunk) : CNetChunkHeader :=
  { m_Flags := ch.Flags
    m_Size := ch.Data.length
    m_Sequence := if ch.Flags &&& NET_CHUNKFLAG_VITAL ≠ 0 then ch.Sequence else -1 }

def encode (Split : Nat) (ch : Chunk) : List UInt8 := ch.packed.Pack Split ++ ch.Data

/-- Every field fits its bits in a header. -/
structure Small (Split : Nat) (ch : Chunk) : Prop where
  flags : ch.Flags < 4
  size : ch.Data.length < 2 ^ (6 + Split)
  seq : ch.Sequence < NET_MAX_SEQUENCE

@[simp] theorem length_encode (Split : Nat) (ch : Chunk) :
    (ch.encode Split).length = headerSize ch.Flags + ch.Data.length := by
  simp [encode, packed]

end Chunk

/-- A run of chunks. -/
def encode (Split : Nat) (chs : List Chunk) : List UInt8 := chs.flatMap (Chunk.encode Split)

@[simp] theorem encode_nil (Split : Nat) : encode Split [] = [] := rfl

@[simp] theorem encode_cons (Split : Nat) (ch : Chunk) (chs : List Chunk) :
    encode Split (ch :: chs) = ch.encode Split ++ encode Split chs := rfl

@[simp] theorem encode_append (Split : Nat) (xs ys : List Chunk) :
    encode Split (xs ++ ys) = encode Split xs ++ encode Split ys := List.flatMap_append

structure Carries (p : CNetPacketConstruct) (Split : Nat) (chs : List Chunk) : Prop where
  small : ∀ ch ∈ chs, ch.Small Split
  data : p.m_aChunkData.slice 0 (encode Split chs).length = encode Split chs
  payload : (encode Split chs).length ≤ NET_MAX_PAYLOAD
  count : p.m_NumChunks ≤ chs.length

theorem slice_memory {p : CNetPacketConstruct} {a n : Nat} (h : a + n ≤ NET_MAX_PAYLOAD) :
    p.memory.slice a n = p.m_aChunkData.slice a n :=
  Buffer.slice_congr fun _ _ hi => if_pos (by omega)

namespace Carries

variable {p : CNetPacketConstruct} {Split : Nat} {xs ys : List Chunk} {ch : Chunk}

theorem fits (h : Carries p Split (xs ++ ch :: ys)) :
    (encode Split xs).length + (headerSize ch.Flags + ch.Data.length) +
      (encode Split ys).length ≤ NET_MAX_PAYLOAD := by
  have hle := h.payload
  rw [encode_append, encode_cons, List.length_append, List.length_append,
    Chunk.length_encode] at hle
  omega

/-- The bytes of a chunk in the middle of the run. -/
theorem chunk_bytes (h : Carries p Split (xs ++ ch :: ys)) :
    p.m_aChunkData.slice (encode Split xs).length (ch.encode Split).length = ch.encode Split := by
  have hdata := h.data
  rw [encode_append, encode_cons] at hdata
  have hslice := Buffer.slice_eq_drop_take p.m_aChunkData (a := 0)
    (n := (encode Split xs ++ (ch.encode Split ++ encode Split ys)).length)
    (c := (encode Split xs).length) (m := (ch.encode Split).length)
    (by simp only [List.length_append]; omega)
  rw [Nat.zero_add, hdata, List.drop_left, List.take_left] at hslice
  exact hslice

theorem chunk_data (h : Carries p Split (xs ++ ch :: ys)) :
    p.m_aChunkData.slice ((encode Split xs).length + headerSize ch.Flags) ch.Data.length =
      ch.Data := by
  have hbytes := h.chunk_bytes
  rw [Chunk.length_encode, Buffer.slice_add] at hbytes
  have hlen : (p.m_aChunkData.slice (encode Split xs).length (headerSize ch.Flags)).length =
      (ch.packed.Pack Split).length := by
    simp [Chunk.packed]
  exact (List.append_inj hbytes hlen).2

theorem unpack (hSplit : Split = 4 ∨ Split = 6) (h : Carries p Split (xs ++ ch :: ys)) :
    CNetChunkHeader.Unpack p.memory (encode Split xs).length Split =
      (ch.header, (encode Split xs).length + headerSize ch.Flags) := by
  have hsmall := h.small ch (by simp)
  have hfits := h.fits
  have hbytes := h.chunk_bytes
  rw [Chunk.length_encode, Buffer.slice_add] at hbytes
  have hlen : (p.m_aChunkData.slice (encode Split xs).length (headerSize ch.Flags)).length =
      (ch.packed.Pack Split).length := by
    simp [Chunk.packed]
  have hpack := (List.append_inj hbytes hlen).1
  rw [← slice_memory (by omega)] at hpack
  have hunpack := unpack_pack (h := ch.packed) hSplit hsmall.flags rfl hsmall.seq hpack
  rw [hunpack]
  unfold Chunk.header Chunk.packed
  rw [Nat.mod_eq_of_lt hsmall.size]

/-- The walk over the first chunks ends where the next one starts. -/
theorem skipChunks (hSplit : Split = 4 ∨ Split = 6) (h : Carries p Split (xs ++ ys)) :
    SkipChunks p Split xs.length 0 = .ok (encode Split xs).length := by
  induction xs using List.reverseRecOn generalizing ys with
  | nil => rfl
  | append_singleton xs ch ih =>
      rw [List.append_assoc, List.singleton_append] at h
      have hfits := h.fits
      have hskip := skipChunks_succ (ih h) (by omega)
      rw [List.length_append, List.length_singleton, hskip, unpack hSplit h]
      simp [Chunk.header, Nat.add_assoc]

end Carries

/-! ## Fetching -/

theorem split_cases (c : Option CNetConnection) : splitOf c = 4 ∨ splitOf c = 6 := by
  cases c with
  | none => exact .inl rfl
  | some c =>
      simp only [splitOf, CNetConnection.Split]
      cases c.m_Sixup
      · exact .inl rfl
      · exact .inr rfl

/-- No chunk is left. -/
theorem fetchLoop_end {n : Nat} {u : CNetRecvUnpacker} {c : Option CNetConnection}
    (h : u.m_Data.m_NumChunks ≤ u.m_CurrentChunk) :
    FetchLoop (n + 1) u c = .ok (u.Clear, c, none) := by
  unfold FetchLoop
  exact if_pos (.inr h)

/-- The next chunk is handed out or skipped, unless the data ends before it does. -/
theorem fetchLoop_next {n : Nat} {u : CNetRecvUnpacker} {c : Option CNetConnection}
    {xs ys : List Chunk} {ch : Chunk} (h : Carries u.m_Data (splitOf c) (xs ++ ch :: ys))
    (hvalid : u.m_Valid = true) (hcur : u.m_CurrentChunk = xs.length)
    (hlt : xs.length < u.m_Data.m_NumChunks) :
    FetchLoop (n + 1) u c =
      if (((encode (splitOf c) (xs ++ [ch])).length : Nat) : Int) > u.m_Data.m_DataSize then .ok
        (({ u with m_CurrentChunk := xs.length + 1 } : CNetRecvUnpacker).Clear, c, none)
      else if (Sequenced c ch.header).2 then .ok
        ({ u with m_CurrentChunk := xs.length + 1 }, (Sequenced c ch.header).1, some
          { m_ClientId := u.m_ClientId, m_Address := u.m_Addr, m_Flags := ch.Flags
            m_DataSize := ch.Data.length
            m_pData := (encode (splitOf c) xs).length + headerSize ch.Flags })
      else FetchLoop n { u with m_CurrentChunk := xs.length + 1 } (Sequenced c ch.header).1 := by
  have hSplit := split_cases c
  have hfits := h.fits
  have hend : ¬ (!u.m_Valid ∨ u.m_CurrentChunk ≥ u.m_Data.m_NumChunks) := by
    rw [hvalid, hcur]
    simpa using hlt
  have hlen : (encode (splitOf c) (xs ++ [ch])).length =
      (encode (splitOf c) xs).length + headerSize ch.Flags + ch.Data.length := by
    simp [Nat.add_assoc]
  rw [FetchLoop, if_neg hend, hcur, h.skipChunks hSplit, hlen]
  simp only [bind, Except.bind]
  rw [readHeader_ok (by omega), h.unpack hSplit]
  rfl

end Fex.Engine.Connection
