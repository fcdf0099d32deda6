import Fex.Engine.Datafile
import Fex.Lib.Run

/-!
# The data blocks of a datafile

Model of `GetData`, `GetDataSize`, `ReplaceData` and `UnloadData` on blocks of bytes.
What the file, the allocator and zlib answer to a load is an argument of the call.
`GetDataSize` looks at the error marker of blocks in memory only, so that a block that
could not be loaded still has the size of the file.
-/

namespace Fex.Engine.DataCache

open Fex.Lib

/-! ## Functions -/

/-- The answers to one load: two allocations, the position, the bytes read and `uncompress`. -/
structure Answers where
  mallocCompressed : Bool
  mallocData : Bool
  io_seek : Bool
  io_read : List UInt8
  uncompress : Option (List UInt8)

/-- The blocks in memory, and their sizes or -1 where loading failed. -/
structure Cache where
  m_ppDataPtrs : Int → Option (List UInt8)
  m_pDataSizes : Int → Int

/-- The bytes of every `int` are reversed. -/
def swap_endian : List UInt8 → List UInt8
  | a :: b :: c :: d :: l => d :: c :: b :: a :: swap_endian l
  | l => l

def SwapEndianInPlace (bigEndian : Bool) (data : List UInt8) : List UInt8 :=
  if bigEndian then swap_endian data else data

def Cache.set (s : Cache) (Index : Int) (ptr : Option (List UInt8)) (size : Int) : Cache :=
  { m_ppDataPtrs := fun i => if i = Index then ptr else s.m_ppDataPtrs i
    m_pDataSizes := fun i => if i = Index then size else s.m_pDataSizes i }

section

variable (d : CDataFileReader)

/-- The end of `GetData`, where the block is read. -/
def load (a : Answers) (Index : Int) : Option (List UInt8) :=
  let DataSize := d.GetFileDataSize Index
  let data := if a.io_seek then a.io_read else []
  match d.m_Info.m_pDataSizes with
  | some m_pDataSizes =>
      -- v4 has compressed data
      let OriginalUncompressedSize := m_pDataSizes.getD Index.toNat 0
      if OriginalUncompressedSize = 0 then none
      else if ¬ a.mallocCompressed then none
      else if DataSize ≠ data.length then none
      else if ¬ a.mallocData then none
      else
        match a.uncompress with
        | none => none
        | some data => if (data.length : Int) ≠ OriginalUncompressedSize then none else some data
  | none =>
      if ¬ a.mallocData then none
      else if DataSize ≠ data.length then none
      else some data

def GetDataSize (s : Cache) (Index : Int) : Int :=
  if Index < 0 ∨ Index ≥ d.m_NumRawData then 0
  else
    match s.m_ppDataPtrs Index with
    | none =>
        match d.m_Info.m_pDataSizes with
        | some m_pDataSizes => m_pDataSizes.getD Index.toNat 0
        | none => d.GetFileDataSize Index
    | some _ => if s.m_pDataSizes Index < 0 then 0 else s.m_pDataSizes Index

def GetData (bigEndian : Bool) (a : Answers) (s : Cache) (Index : Int) (Swap : Bool) :
    Option (List UInt8) × Cache :=
  if Index < 0 ∨ Index ≥ d.m_NumRawData then (none, s)
  else
    match s.m_ppDataPtrs Index with
    -- Data already loaded
    | some data => (some data, s)
    | none =>
        -- Don't try to load the data again if it previously failed
        if s.m_pDataSizes Index < 0 then (none, s)
        else
          match load d a Index with
          | none => (none, s.set Index none (-1))
          | some data =>
              let swapped := if Swap then SwapEndianInPlace bigEndian data else data
              (some swapped, s.set Index (some swapped) data.length)

/-- The size is stored in an `int`. -/
def ReplaceData (s : Cache) (Index : Int) (pData : Option (List UInt8)) (Size : Nat) : Exec Cache :=
  if Index ≥ 0 ∧ Index < d.m_NumRawData then .ok (s.set Index pData (wrap32 Size))
  else .error .assertion

def UnloadData (s : Cache) (Index : Int) : Cache :=
  if Index < 0 ∨ Index ≥ d.m_NumRawData then s else s.set Index none 0

end

/-! ## Runs -/

/-- The calls of a run; `GetDataSwapped` is `GetData` with `Swap`. -/
inductive Call
  | GetData (Index : Int) (Swap : Bool) (a : Answers)
  | ReplaceData (Index : Int) (pData : Option (List UInt8)) (Size : Nat)
  | UnloadData (Index : Int)

/-- The blocks, and where loading failed since the last replacement or unloading. -/
structure State where
  cache : Cache
  failed : Int → Bool

/-- After the file was opened. -/
def start : State :=
  { cache := { m_ppDataPtrs := fun _ => none, m_pDataSizes := fun _ => 0 }, failed := fun _ => false }

def State.mark (s : State) (cache : Cache) (Index : Int) (failed : Bool) : State :=
  { cache, failed := fun i => if i = Index then failed else s.failed i }

section

variable (d : CDataFileReader) (bigEndian : Bool)

def step (s : State) : Call → Exec State
  | .GetData Index Swap a =>
      let (data, cache) := GetData d bigEndian a s.cache Index Swap
      .ok (s.mark cache Index data.isNone)
  | .ReplaceData Index pData Size => do
      let cache ← ReplaceData d s.cache Index pData Size
      return s.mark cache Index false
  | .UnloadData Index => .ok (s.mark (UnloadData d s.cache Index) Index false)

/-- The size of a block as the file has it. -/
def declaredSize (Index : Int) : Int :=
  match d.m_Info.m_pDataSizes with
  | some m_pDataSizes => m_pDataSizes.getD Index.toNat 0
  | none => d.GetFileDataSize Index

/-- `GetData` is going to read the block. -/
def Loads (s : Cache) (Index : Int) : Prop :=
  0 ≤ Index ∧ Index < d.m_NumRawData ∧ s.m_ppDataPtrs Index = none ∧ 0 ≤ s.m_pDataSizes Index

/-- Only a block of size zero may fail to load, and a block is replaced by one whose size is that
of the buffer and an `int`. -/
def Meets (s : State) : Call → Prop
  | .GetData Index _ a =>
      Loads d s.cache Index → (load d a Index).isSome = true ∨ declaredSize d Index = 0
  | .ReplaceData _ pData Size => (∀ data, pData = some data → Size = data.length) ∧ Size ≤ intMax
  | .UnloadData _ => True

/-- Blocks in memory have their sizes; where loading failed there is no block, and none of the
file. -/
structure Inv (s : State) : Prop where
  sizes : ∀ Index data, s.cache.m_ppDataPtrs Index = some data →
    s.cache.m_pDataSizes Index = data.length
  failed : ∀ Index, s.failed Index = true → 0 ≤ Index → Index < d.m_NumRawData →
    s.cache.m_ppDataPtrs Index = none ∧ s.cache.m_pDataSizes Index < 0 ∧ declaredSize d Index = 0
  marked : ∀ Index, 0 ≤ Index → Index < d.m_NumRawData → s.cache.m_ppDataPtrs Index = none →
    s.cache.m_pDataSizes Index < 0 → s.failed Index = true

end

theorem length_swap_endian (l : List UInt8) : (swap_endian l).length = l.length := by
  fun_induction swap_endian l with
  | case1 a b c d l ih => simp only [List.length_cons, ih]
  | case2 l => rfl

theorem length_SwapEndianInPlace (bigEndian : Bool) (data : List UInt8) :
    (SwapEndianInPlace bigEndian data).length = data.length := by
  unfold SwapEndianInPlace
  split
  · exact length_swap_endian data
  · rfl

section

variable {d : CDataFileReader} {bigEndian : Bool}

/-- A block is loaded with the size that the file has for it. -/
theorem length_load {a : Answers} {Index : Int} {data : List UInt8}
    (h : load d a Index = some data) : (data.length : Int) = declaredSize d Index := by
  obtain ⟨read, hread⟩ : ∃ read, read = if a.io_seek = true then a.io_read else [] := ⟨_, rfl⟩
  unfold load at h
  simp only [← hread] at h
  unfold declaredSize
  cases hsizes : d.m_Info.m_pDataSizes with
  | some m_pDataSizes =>
      rw [hsizes] at h
      simp only at h
      split at h
      · cases h
      split at h
      · cases h
      split at h
      · cases h
      split at h
      · cases h
      split at h
      · cases h
      · split at h
        · cases h
        next hlength =>
          cases h
          exact not_not.mp hlength
  | none =>
      rw [hsizes] at h
      simp only at h
      split at h
      · cases h
      split at h
      · cases h
      next hlength =>
        cases h
        exact (not_not.mp hlength).symm

theorem GetDataSize_none {s : Cache} {Index : Int} (h : 0 ≤ Index ∧ Index < d.m_NumRawData)
    (hptr : s.m_ppDataPtrs Index = none) : GetDataSize d s Index = declaredSize d Index := by
  unfold GetDataSize
  rw [if_neg (by omega), hptr]
  rfl

theorem GetDataSize_some {s : Cache} {Index : Int} {data : List UInt8}
    (h : 0 ≤ Index ∧ Index < d.m_NumRawData) (hptr : s.m_ppDataPtrs Index = some data)
    (hsize : s.m_pDataSizes Index = data.length) : GetDataSize d s Index = data.length := by
  unfold GetDataSize
  rw [if_neg (by omega), hptr]
  simp only
  rw [if_neg (by omega), hsize]

@[simp] theorem set_ptr_self (s : Cache) (Index : Int) (ptr : Option (List UInt8)) (size : Int) :
    (s.set Index ptr size).m_ppDataPtrs Index = ptr := if_pos rfl

@[simp] theorem set_size_self (s : Cache) (Index : Int) (ptr : Option (List UInt8)) (size : Int) :
    (s.set Index ptr size).m_pDataSizes Index = size := if_pos rfl

theorem set_ptr_of_ne (s : Cache) {Index i : Int} (ptr : Option (List UInt8)) (size : Int)
    (h : i ≠ Index) : (s.set Index ptr size).m_ppDataPtrs i = s.m_ppDataPtrs i := if_neg h

theorem set_size_of_ne (s : Cache) {Index i : Int} (ptr : Option (List UInt8)) (size : Int)
    (h : i ≠ Index) : (s.set Index ptr size).m_pDataSizes i = s.m_pDataSizes i := if_neg h

/-- What `GetData` does with an index of the file. -/
inductive Got (d : CDataFileReader) (a : Answers) (s : Cache) (Index : Int) :
    Option (List UInt8) × Cache → Prop
  | kept {data : List UInt8} : s.m_ppDataPtrs Index = some data → Got d a s Index (some data, s)
  | again : s.m_ppDataPtrs Index = none → s.m_pDataSizes Index < 0 → Got d a s Index (none, s)
  | failed : Loads d s Index → load d a Index = none → Got d a s Index (none, s.set Index none (-1))
  | loaded {data : List UInt8} : Loads d s Index → (data.length : Int) = declaredSize d Index →
      Got d a s Index (some data, s.set Index (some data) data.length)

theorem got (a : Answers) (s : Cache) {Index : Int} (Swap : Bool)
    (h : 0 ≤ Index ∧ Index < d.m_NumRawData) :
    Got d a s Index (GetData d bigEndian a s Index Swap) := by
  unfold GetData
  rw [if_neg (by omega)]
  cases hptr : s.m_ppDataPtrs Index with
  | some data => exact .kept hptr
  | none =>
      simp only
      split
      next hsize => exact .again hptr hsize
      next hsize =>
        have hloads : Loads d s Index := ⟨h.1, h.2, hptr, Int.not_lt.mp hsize⟩
        cases hload : load d a Index with
        | none => exact .failed hloads hload
        | some data =>
            have hlength := length_load hload
            simp only
            split
            · rw [← length_SwapEndianInPlace bigEndian data] at hlength ⊢
              exact .loaded hloads hlength
            · exact .loaded hloads hlength

/-- A write to one block keeps the others, and the mark is that of the block. -/
theorem Inv.set {s : State} (h : Inv d s) {Index : Int} {ptr : Option (List UInt8)} {size : Int}
    {failed : Bool} (hsize : ∀ data, ptr = some data → size = data.length)
    (hfailed : failed = true → 0 ≤ Index → Index < d.m_NumRawData →
      ptr = none ∧ size < 0 ∧ declaredSize d Index = 0)
    (hmarked : 0 ≤ Index → Index < d.m_NumRawData → ptr = none → size < 0 → failed = true) :
    Inv d (s.mark (s.cache.set Index ptr size) Index failed) := by
  constructor
  · intro i data hi
    by_cases heq : i = Index
    · rw [heq] at hi ⊢
      rw [State.mark, set_ptr_self] at hi
      rw [State.mark, set_size_self]
      exact hsize data hi
    · rw [State.mark, set_ptr_of_ne _ _ _ heq] at hi
      rw [State.mark, set_size_of_ne _ _ _ heq]
      exact h.sizes i data hi
  · intro i hi hpos hlt
    by_cases heq : i = Index
    · rw [heq] at hi hpos hlt ⊢
      rw [State.mark, set_ptr_self, set_size_self]
      exact hfailed ((if_pos rfl).symm.trans hi) hpos hlt
    · rw [State.mark, set_ptr_of_ne _ _ _ heq, set_size_of_ne _ _ _ heq]
      exact h.failed i ((if_neg heq).symm.trans hi) hpos hlt
  · intro i hpos hlt hptr hneg
    by_cases heq : i = Index
    · rw [heq] at hpos hlt hptr hneg ⊢
      rw [State.mark, set_ptr_self] at hptr
      rw [State.mark, set_size_self] at hneg
      exact (if_pos rfl).trans (hmarked hpos hlt hptr hneg)
    · rw [State.mark, set_ptr_of_ne _ _ _ heq] at hptr
      rw [State.mark, set_size_of_ne _ _ _ heq] at hneg
      exact (if_neg heq).trans (h.marked i hpos hlt hptr hneg)

/-- Where the block is kept only the mark changes. -/
theorem Inv.mark {s : State} (h : Inv d s) {Index : Int} {failed : Bool}
    (hfailed : failed = true → 0 ≤ Index → Index < d.m_NumRawData →
      s.cache.m_ppDataPtrs Index = none ∧ s.cache.m_pDataSizes Index < 0 ∧
        declaredSize d Index = 0)
    (hmarked : 0 ≤ Index → Index < d.m_NumRawData → s.cache.m_ppDataPtrs Index = none →
      s.cache.m_pDataSizes Index < 0 → failed = true) : Inv d (s.mark s.cache Index failed) := by
  have hset : s.cache.set Index (s.cache.m_ppDataPtrs Index) (s.cache.m_pDataSizes Index) =
      s.cache := by
    have hptr : (fun i => if i = Index then s.cache.m_ppDataPtrs Index
        else s.cache.m_ppDataPtrs i) = s.cache.m_ppDataPtrs := by
      funext i
      split
      next heq => rw [heq]
      next => rfl
    have hsize : (fun i => if i = Index then s.cache.m_pDataSizes Index
        else s.cache.m_pDataSizes i) = s.cache.m_pDataSizes := by
      funext i
      split
      next heq => rw [heq]
      next => rfl
    unfold Cache.set
    rw [hptr, hsize]
  have hinv := h.set (h.sizes Index) hfailed hmarked
  rw [hset] at hinv
  exact hinv

theorem inv_start : Inv d start where
  sizes _ _ h := by cases h
  failed _ h := by cases h
  marked _ _ _ _ h := by
    have hzero : (0 : Int) < 0 := h
    omega

/-- Every call that meets the condition keeps the invariant. -/
theorem Inv.step {s t : State} (h : Inv d s) {c : Call} (hmeets : Meets d s c)
    (hstep : step d bigEndian s c = .ok t) : Inv d t := by
  cases c with
  | GetData Index Swap a =>
      unfold DataCache.step at hstep
      simp only at hstep
      cases hstep
      by_cases hindex : 0 ≤ Index ∧ Index < d.m_NumRawData
      · have hgot := @got d bigEndian a s.cache Index Swap hindex
        generalize GetData d bigEndian a s.cache Index Swap = r at hgot
        cases hgot with
        | kept hptr =>
            apply h.mark
            · intro hfalse
              cases hfalse
            · intro _ _ hnone
              rw [hptr] at hnone
              cases hnone
        | again hptr hsize =>
            have hfailed := h.marked Index hindex.1 hindex.2 hptr hsize
            exact h.mark (fun _ hpos hlt => h.failed Index hfailed hpos hlt) fun _ _ _ _ => rfl
        | failed hloads hload =>
            have hzero : declaredSize d Index = 0 := by
              rcases hmeets hloads with hsome | hzero
              · rw [hload] at hsome
                cases hsome
              · exact hzero
            apply h.set
            · intro data hdata
              cases hdata
            · exact fun _ _ _ => ⟨rfl, by decide, hzero⟩
            · exact fun _ _ _ _ => rfl
        | loaded hloads hlength =>
            apply h.set
            · intro data hdata
              cases hdata
              rfl
            · intro hfalse
              cases hfalse
            · intro _ _ hnone
              cases hnone
      · have hout : GetData d bigEndian a s.cache Index Swap = (none, s.cache) := if_pos (by omega)
        rw [hout]
        exact h.mark (fun _ hpos hlt => absurd ⟨hpos, hlt⟩ hindex) fun _ _ _ _ => rfl
  | ReplaceData Index pData Size =>
      obtain ⟨hsize, hle⟩ := hmeets
      unfold DataCache.step ReplaceData at hstep
      simp only at hstep
      split at hstep
      next hindex =>
        cases hstep
        have hwrap : wrap32 (Size : Int) = Size := by
          apply wrap32_of_isInt32
          unfold IsInt32
          unfold intMax at hle
          omega
        rw [hwrap]
        apply h.set
        · intro data hdata
          rw [hsize data hdata]
        · intro hfalse
          cases hfalse
        · intro _ _ _ hneg
          omega
      next => cases hstep
  | UnloadData Index =>
      unfold DataCache.step UnloadData at hstep
      simp only at hstep
      cases hstep
      split
      · apply h.mark
        · intro hfalse
          cases hfalse
        · intro hpos hlt
          omega
      · apply h.set
        · intro data hdata
          cases hdata
        · intro hfalse
          cases hfalse
        · intro _ _ _ hneg
          omega

/-- In runs in which only blocks of size zero fail to load and blocks are replaced by ones whose
size is an `int`, `GetDataSize` is the length of the block that `GetData` returns, and zero where
loading failed.  Where another block fails to load its size stays that of the file. -/
theorem data_cache_runs {s : State} (h : Reachable (step d bigEndian) (Meets d) start s)
    (Index : Int) :
    (∀ a Swap data cache, GetData d bigEndian a s.cache Index Swap = (some data, cache) →
        GetDataSize d s.cache Index = data.length ∧ GetDataSize d cache Index = data.length) ∧
      (s.failed Index = true → GetDataSize d s.cache Index = 0 ∧
        ∀ a Swap, (GetData d bigEndian a s.cache Index Swap).1 = none) ∧
      ∀ a Swap, ¬ Meets d s (.GetData Index Swap a) →
        (GetData d bigEndian a s.cache Index Swap).1 = none ∧
          GetDataSize d (GetData d bigEndian a s.cache Index Swap).2 Index ≠ 0 := by
  have hinv : Inv d s := h.invariant inv_start fun s t c hs hmeets hstep => hs.step hmeets hstep
  by_cases hindex : 0 ≤ Index ∧ Index < d.m_NumRawData
  · refine ⟨fun a Swap data cache hget => ?_, fun hfailed => ?_, fun a Swap hnot => ?_⟩
    · have hgot := @got d bigEndian a s.cache Index Swap hindex
      rw [hget] at hgot
      cases hgot with
      | kept hptr =>
          have hsize := GetDataSize_some hindex hptr (hinv.sizes Index data hptr)
          exact ⟨hsize, hsize⟩
      | loaded hloads hlength =>
          constructor
          · rw [GetDataSize_none hindex hloads.2.2.1, hlength]
          · exact GetDataSize_some hindex (set_ptr_self _ _ _ _) (set_size_self _ _ _ _)
    · obtain ⟨hptr, hneg, hzero⟩ := hinv.failed Index hfailed hindex.1 hindex.2
      refine ⟨?_, fun a Swap => ?_⟩
      · rw [GetDataSize_none hindex hptr, hzero]
      · unfold GetData
        rw [if_neg (by omega), hptr]
        simp only
        rw [if_pos hneg]
    · have hbreaks : Loads d s.cache Index ∧ load d a Index = none ∧ declaredSize d Index ≠ 0 := by
        by_contra hmeets
        apply hnot
        intro hloads
        cases hload : load d a Index with
        | none => exact .inr (by_contra fun hzero => hmeets ⟨hloads, hload, hzero⟩)
        | some data => exact .inl rfl
      obtain ⟨hloads, hload, hnonzero⟩ := hbreaks
      have hget : GetData d bigEndian a s.cache Index Swap = (none, s.cache.set Index none (-1)) := by
        unfold GetData
        rw [if_neg (by omega), hloads.2.2.1]
        simp only
        rw [if_neg (Int.not_lt.mpr hloads.2.2.2), hload]
      rw [hget]
      refine ⟨rfl, ?_⟩
      rw [GetDataSize_none hindex (set_ptr_self _ _ _ _)]
      exact hnonzero
  · have hout : ∀ a Swap, GetData d bigEndian a s.cache Index Swap = (none, s.cache) :=
      fun a Swap => if_pos (by omega)
    refine ⟨fun a Swap data cache hget => ?_, fun _ => ⟨if_pos (by omega), fun a Swap => ?_⟩,
      fun a Swap hnot => ?_⟩
    · rw [hout] at hget
      cases hget
    · rw [hout]
    · exact absurd (fun hloads : Loads d s.cache Index => absurd ⟨hloads.1, hloads.2.1⟩ hindex) hnot

end

/-- A file of version 3 with one block of four bytes. -/
def oneBlock : CDataFileReader where
  m_Info :=
    { m_pItemTypes := [], m_pItemOffsets := [], m_pDataOffsets := [0], m_pDataSizes := none
      m_pItemStart := [] }
  m_DataSize := 4
  accepted := by decide
  sizes_length := fun sizes h => by cases h
  numItems_le := by decide

/-- Everything succeeds and four bytes are read. -/
def fourBytes : Answers :=
  { mallocCompressed := true, mallocData := true, io_seek := true, io_read := [1, 2, 3, 4]
    uncompress := none }

/-- The block is loaded and replaced by a longer one. -/
theorem data_cache_runs_replaced :
    ∃ s, Reachable (step oneBlock false) (Meets oneBlock) start s ∧
      GetDataSize oneBlock s.cache 0 = 5 := by
  have h₁ : Reachable (step oneBlock false) (Meets oneBlock) start _ :=
    .next (.GetData 0 false fourBytes) .init (fun _ => .inl rfl) rfl
  have h₂ : Reachable (step oneBlock false) (Meets oneBlock) start _ :=
    .next (.ReplaceData 0 (some [1, 2, 3, 4, 5]) 5) h₁ ⟨fun data hdata => by cases hdata; rfl, by decide⟩ rfl
  exact ⟨_, h₂, ((data_cache_runs h₂ 0).1 fourBytes false [1, 2, 3, 4, 5] _ rfl).1⟩

/-- The file has become shorter: the block cannot be loaded and keeps its size. -/
theorem data_cache_breaks :
    ∃ s, step oneBlock false start (.GetData 0 false { fourBytes with io_read := [1, 2] }) = .ok s ∧
      s.failed 0 = true ∧ GetDataSize oneBlock s.cache 0 = 4 :=
  ⟨_, rfl, rfl, rfl⟩

end Fex.Engine.DataCache
