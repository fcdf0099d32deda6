import Fex.Engine.Ghost
import Fex.Engine.Huffman.Codec
import Fex.Engine.Snapshot.Loops
import Fex.Lib.Runs

/-!
# Recording ghosts

The items are cut into runs of one type, and a run becomes a chunk: the first item and the
differences of the others, packed and compressed.  A run that does not fit leaves nothing.
-/

namespace Fex.Engine.Ghost

open Fex.Lib Fex.Engine.Compression

/-! ## Chunks -/

def words (item : Item) : List Int := ints item.2

/-- What is recorded after an item: the differences. -/
def diffWords : List Int → List (List Int) → List Int
  | _, [] => []
  | past, w :: ws => Snapshot.DiffItem past w ++ diffWords w ws

def chunkWords : List (List Int) → List Int
  | [] => []
  | w :: ws => w ++ diffWords w ws

/-- The words of a run. -/
def runWords (run : List Item) : List Int := chunkWords (run.map words)

/-- The words packed and compressed, `none` where they leave the buffers. -/
def packWords (words : List Int) : Option (List UInt8) :=
  if (packedAll words).length ≤ MAX_CHUNK_SIZE then
    Network.ms_Huffman.Compress (packedAll words) MAX_CHUNK_SIZE
  else none

/-- The type of the last item. -/
def runType (run : List Item) : Int :=
  match run.getLast? with
  | none => -1
  | some x => x.1

/-- What is written for a run. -/
def runBytes (run : List Item) : List UInt8 :=
  match packWords (runWords run) with
  | none => []
  | some data =>
      [UInt8.ofNat (runType run % 256).toNat, UInt8.ofNat run.length,
        UInt8.ofNat (data.length / 256), UInt8.ofNat data.length] ++ data

/-- An item that the recorder takes, of the size that its type has. -/
structure Regular (sizeOf : Int → Nat) (item : Item) : Prop where
  valid : ValidItem item.1 item.2.length
  size : item.2.length = sizeOf item.1

theorem Regular.length_words {sizeOf : Int → Nat} {item : Item} (h : Regular sizeOf item) :
    (words item).length = sizeOf item.1 / 4 := by
  unfold words
  rw [length_ints, h.size]

theorem length_diffItem {past w : List Int} (h : past.length = w.length) :
    (Snapshot.DiffItem past w).length = w.length := by
  unfold Snapshot.DiffItem
  rw [List.length_zipWith, h, Nat.min_self]

theorem length_diffWords {k : Nat} {past : List Int} {ws : List (List Int)}
    (hpast : past.length = k) (h : ∀ w ∈ ws, w.length = k) :
    (diffWords past ws).length = k * ws.length := by
  induction ws generalizing past with
  | nil => rfl
  | cons w ws ih =>
      have hw := h w List.mem_cons_self
      unfold diffWords
      rw [List.length_append, length_diffItem (hpast.trans hw.symm), hw,
        ih hw fun v hv => h v (List.mem_cons_of_mem _ hv), List.length_cons, Nat.mul_add, Nat.mul_one,
        Nat.add_comm]

theorem length_chunkWords {k : Nat} {ws : List (List Int)} (h : ∀ w ∈ ws, w.length = k) :
    (chunkWords ws).length = k * ws.length := by
  cases ws with
  | nil => rfl
  | cons w ws =>
      have hw := h w List.mem_cons_self
      unfold chunkWords
      rw [List.length_append, hw, length_diffWords hw fun v hv => h v (List.mem_cons_of_mem _ hv),
        List.length_cons, Nat.mul_add, Nat.mul_one, Nat.add_comm]

theorem diffWords_append (past w : List Int) (ws : List (List Int)) :
    diffWords past (ws ++ [w]) =
      diffWords past ws ++ Snapshot.DiffItem (ws.getLast?.getD past) w := by
  induction ws generalizing past with
  | nil => simp [diffWords]
  | cons v ws ih =>
      rw [List.cons_append, diffWords, diffWords, ih, List.append_assoc, List.getLast?_cons,
        Option.getD_some]

theorem chunkWords_append {v w : List Int} {ws : List (List Int)} (h : ws.getLast? = some v) :
    chunkWords (ws ++ [w]) = chunkWords ws ++ Snapshot.DiffItem v w := by
  cases ws with
  | nil => cases h
  | cons u ws =>
      rw [List.getLast?_cons] at h
      rw [List.cons_append, chunkWords, chunkWords, diffWords_append, List.append_assoc,
        Option.some.inj h]

theorem isInt32_diffWords {past : List Int} {ws : List (List Int)} {x : Int}
    (h : x ∈ diffWords past ws) : IsInt32 x := by
  induction ws generalizing past with
  | nil => cases h
  | cons w ws ih =>
      unfold diffWords at h
      rcases List.mem_append.mp h with h | h
      · exact Snapshot.isInt32_of_mem_diffItem h
      · exact ih h

theorem isInt32_runWords {run : List Item} {x : Int} (h : x ∈ runWords run) : IsInt32 x := by
  cases run with
  | nil => cases h
  | cons item run =>
      unfold runWords at h
      rw [List.map_cons, chunkWords] at h
      rcases List.mem_append.mp h with h | h
      · exact isInt32_of_mem_ints h
      · exact isInt32_diffWords h

theorem length_runWords {sizeOf : Int → Nat} {run : List Item} {ItemType : Int}
    (hregular : ∀ x ∈ run, Regular sizeOf x) (htype : ∀ x ∈ run, x.1 = ItemType) :
    (runWords run).length = sizeOf ItemType / 4 * run.length := by
  unfold runWords
  have hall : ∀ w ∈ run.map words, w.length = sizeOf ItemType / 4 := by
    intro w hw
    obtain ⟨x, hx, rfl⟩ := List.mem_map.mp hw
    rw [(hregular x hx).length_words, htype x hx]
  rw [length_chunkWords hall, List.length_map]

/-- The ints are packed where they fit. -/
theorem compress_words {src : List Int} (hsrc : ∀ i ∈ src, IsInt32 i) :
    ∃ dst, Compress src (List.replicate MAX_CHUNK_SIZE 0) MAX_CHUNK_SIZE =
        .ok (if (packedAll src).length ≤ MAX_CHUNK_SIZE then ((packedAll src).length : Int) else -1,
          dst) ∧
      ((packedAll src).length ≤ MAX_CHUNK_SIZE → dst.take (packedAll src).length = packedAll src) := by
  obtain ⟨rest, hrun, -, hwritten⟩ := @compressLoop_spec [] (List.replicate MAX_CHUNK_SIZE 0) src
    MAX_CHUNK_SIZE hsrc (by simp)
  rw [List.length_replicate] at hrun hwritten
  refine ⟨rest, ?_, fun hle => ?_⟩
  · unfold Compress
    simpa using hrun
  · exact (List.prefix_iff_eq_take.mp (hwritten hle)).symm

/-! ## The recorder -/

/-- The recorder has written `File` and is at a run. -/
structure Records (r : CGhostRecorder) (File : List UInt8) (run : List Item) : Prop where
  file : r.m_File = some File
  buffer : r.m_aBuffer = runWords run
  count : r.m_BufferNumItems = run.length
  type : r.m_LastItem.m_Type = runType run
  last : ∀ x, run.getLast? = some x → r.m_LastItem.m_aData = words x

theorem records_flushed (r : CGhostRecorder) (File : List UInt8) :
    Records (r.flushed File) File [] :=
  ⟨rfl, rfl, rfl, rfl, fun x h => by cases h⟩

section

variable {r : CGhostRecorder} {File : List UInt8} {run : List Item}

theorem Records.flushChunk_nil (h : Records r File []) : r.FlushChunk = .ok r := by
  unfold CGhostRecorder.FlushChunk
  rw [h.file]
  exact if_pos (.inr h.count)

/-- The run is written, or nothing where it does not fit. -/
theorem Records.flushChunk (h : Records r File run) (hne : runWords run ≠ []) :
    ∃ r', r.FlushChunk = .ok r' ∧ Records r' (File ++ runBytes run) [] := by
  have hrun : run ≠ [] := by
    rintro rfl
    exact hne rfl
  obtain ⟨dst, hcompress, htake⟩ := compress_words fun i hi => @isInt32_runWords run _ hi
  unfold CGhostRecorder.FlushChunk
  rw [h.file, h.buffer, h.count, h.type]
  simp only
  rw [if_neg (by
    rintro (hc | hc)
    · exact hne (List.eq_nil_of_length_eq_zero hc)
    · exact hrun (List.eq_nil_of_length_eq_zero hc)), hcompress]
  simp only [bind, Except.bind]
  unfold runBytes packWords
  by_cases hle : (packedAll (runWords run)).length ≤ MAX_CHUNK_SIZE
  · rw [if_pos hle, if_pos hle, if_neg (by omega), Int.toNat_natCast, htake hle]
    cases hdata : Network.ms_Huffman.Compress (packedAll (runWords run)) MAX_CHUNK_SIZE with
    | none =>
        refine ⟨_, rfl, ?_⟩
        rw [List.append_nil]
        exact records_flushed r File
    | some data =>
        refine ⟨_, rfl, ?_⟩
        rw [← List.append_assoc]
        exact records_flushed r _
  · rw [if_neg hle, if_neg hle, if_pos (by decide)]
    refine ⟨_, rfl, ?_⟩
    rw [List.append_nil]
    exact records_flushed r File

/-- One more item and its words. -/
theorem Records.putWords (h : Records r File run) {x : Item} {ws : List Int}
    (hroom : 4 * ((runWords run).length + ws.length) ≤ MAX_CHUNK_SIZE)
    (hws : runWords (run ++ [x]) = runWords run ++ ws) :
    ∃ r', r.putWords ws { m_Type := x.1, m_aData := words x } = .ok r' ∧
      Records r' File (run ++ [x]) := by
  unfold CGhostRecorder.putWords
  rw [h.buffer, if_neg (by omega), h.count]
  refine ⟨_, rfl, h.file, hws.symm, ?_, ?_, fun y hy => ?_⟩
  · rw [List.length_append, List.length_singleton]
  · unfold runType
    rw [List.getLast?_append]
    rfl
  · rw [List.getLast?_append] at hy
    cases hy
    rfl

variable {sizeOf : Int → Nat}

theorem runType_eq (hrun : IsRun Prod.fst NUM_ITEMS_PER_CHUNK run) {x : Item} (hx : x ∈ run) :
    x.1 = runType run := by
  unfold runType
  cases hlast : run.getLast? with
  | none =>
      rw [List.getLast?_eq_none_iff.mp hlast] at hx
      cases hx
  | some y => exact hrun.key x hx y (List.mem_of_getLast? hlast)

theorem Regular.words_bounds {x : Item} (h : Regular sizeOf x) :
    1 ≤ sizeOf x.1 / 4 ∧ sizeOf x.1 / 4 ≤ 32 := by
  obtain ⟨-, hpos, hmax, hmod⟩ := h.valid
  have hsize := h.size
  unfold MAX_ITEM_SIZE at hmax
  omega

theorem runWords_ne_nil (hrun : IsRun Prod.fst NUM_ITEMS_PER_CHUNK run)
    (hregular : ∀ x ∈ run, Regular sizeOf x) : runWords run ≠ [] := by
  intro hnil
  have hlength := length_runWords hregular fun x hx => runType_eq hrun hx
  obtain ⟨x, hx⟩ := List.exists_mem_of_ne_nil _ hrun.nonempty
  have hbounds := (hregular x hx).words_bounds
  rw [runType_eq hrun hx] at hbounds
  have hpos := Nat.mul_pos hbounds.1 (List.length_pos_iff.mpr hrun.nonempty)
  rw [hnil, List.length_nil] at hlength
  omega

end

/-! ## One item -/

/-- The file so far: the header and the closed runs. -/
def fileOf (Header : List UInt8) (closed : List (List Item)) : List UInt8 :=
  Header ++ closed.flatMap runBytes

theorem fileOf_append (Header : List UInt8) (closed : List (List Item)) (run : List Item) :
    fileOf Header (closed ++ [run]) = fileOf Header closed ++ runBytes run := by
  unfold fileOf
  rw [List.flatMap_append, List.flatMap_singleton, List.append_assoc]

section

variable {r : CGhostRecorder} {Header : List UInt8} {s : List (List Item) × List Item}
  {sizeOf : Int → Nat} {x : Item}

/-- The difference of the two ends of the buffer is never too small for an item. -/
theorem Records.makeRoom (h : Records r (fileOf Header s.1) s.2)
    (hstate : RunState Prod.fst NUM_ITEMS_PER_CHUNK s) (hregular : ∀ y ∈ s.2, Regular sizeOf y)
    (hx : Regular sizeOf x) :
    r.makeRoom x.2.length = .ok r := by
  unfold CGhostRecorder.makeRoom
  obtain ⟨-, hpos, hmax, -⟩ := hx.valid
  unfold MAX_ITEM_SIZE at hmax
  cases hrun : s.2 with
  | nil =>
      rw [hrun] at h
      rw [h.flushChunk_nil, ite_self]
  | cons y ys =>
      have hne : s.2 ≠ [] := by
        rw [hrun]
        exact List.cons_ne_nil _ _
      have hisrun := hstate.isRun hne
      have hmem : y ∈ s.2 := hrun ▸ List.mem_cons_self
      have hlength := length_runWords hregular fun z hz => runType_eq hisrun hz
      have hnonempty := List.length_pos_iff.mpr (runWords_ne_nil hisrun hregular)
      have hbounds := (hregular y hmem).words_bounds
      rw [runType_eq hisrun hmem] at hbounds
      have hle : sizeOf (runType s.2) / 4 * s.2.length ≤ 32 * 50 :=
        Nat.mul_le_mul hbounds.2 hisrun.length
      rw [h.buffer, if_neg]
      rw [Nat.mod_eq_of_lt (by omega)]
      omega

/-- The item extends the run or closes it. -/
theorem Records.putItem (h : Records r (fileOf Header s.1) s.2)
    (hstate : RunState Prod.fst NUM_ITEMS_PER_CHUNK s) (hregular : ∀ y ∈ s.2, Regular sizeOf y)
    (hx : Regular sizeOf x) :
    ∃ r', r.putItem { m_Type := x.1, m_aData := words x } = .ok r' ∧
      Records r' (fileOf Header (extendRun Prod.fst s x).1) (extendRun Prod.fst s x).2 := by
  have hbounds := hx.words_bounds
  have hlength := hx.length_words
  -- a run of one item
  have hsingle : ∀ {r₁ : CGhostRecorder} {File : List UInt8}, Records r₁ File [] →
      ∃ r', r₁.putWords (words x) { m_Type := x.1, m_aData := words x } = .ok r' ∧
        Records r' File [x] := by
    intro r₁ File h₁
    apply h₁.putWords
    · show 4 * (0 + (words x).length) ≤ 6400
      omega
    · show words x ++ [] = [] ++ words x
      rw [List.append_nil, List.nil_append]
  unfold extendRun CGhostRecorder.putItem
  cases hlast : s.2.getLast? with
  | none =>
      have hnil := List.getLast?_eq_none_iff.mp hlast
      have htype : r.m_LastItem.m_Type ≠ x.1 := by
        have h₀ := hx.valid.1.1
        rw [h.type, hnil]
        show (-1 : Int) ≠ x.1
        omega
      rw [hnil] at h
      rw [if_neg htype, h.flushChunk_nil]
      exact hsingle h
  | some y =>
      have hy : y ∈ s.2 := List.mem_of_getLast? hlast
      have hisrun := hstate.isRun (List.ne_nil_of_mem hy)
      have htype : r.m_LastItem.m_Type = y.1 := by
        rw [h.type, runType_eq hisrun hy]
      simp only
      rw [htype]
      by_cases hkey : y.1 = x.1
      · rw [if_pos hkey, if_pos hkey]
        have hsame : (words y).length = (words x).length := by
          rw [(hregular y hy).length_words, hlength, hkey]
        have hdiff : DiffItem r.m_LastItem.m_aData (words x) =
            .ok (Snapshot.DiffItem (words y) (words x)) := by
          unfold DiffItem
          rw [h.last y hlast, if_neg (by omega)]
        rw [hdiff]
        apply h.putWords
        · have hrun := length_runWords hregular fun z hz => runType_eq hisrun hz
          have hcount := hstate.length
          have hle : sizeOf x.1 / 4 * (s.2.length + 1) ≤ 32 * 50 :=
            Nat.mul_le_mul hbounds.2 hcount
          rw [← runType_eq hisrun hy, hkey] at hrun
          rw [length_diffItem hsame, hrun, hlength]
          rw [Nat.mul_add, Nat.mul_one] at hle
          exact Nat.mul_le_mul_left 4 hle
        · unfold runWords
          rw [List.map_append, List.map_singleton]
          apply chunkWords_append
          rw [List.getLast?_map, hlast]
          rfl
      · rw [if_neg hkey, if_neg hkey]
        obtain ⟨r₁, hflush, h₁⟩ := h.flushChunk (runWords_ne_nil hisrun hregular)
        rw [← fileOf_append] at h₁
        rw [hflush]
        exact hsingle h₁

/-- One call of `WriteData`. -/
theorem Records.writeData (h : Records r (fileOf Header s.1) s.2)
    (hstate : RunState Prod.fst NUM_ITEMS_PER_CHUNK s) (hregular : ∀ y ∈ s.2, Regular sizeOf y)
    (hx : Regular sizeOf x) :
    ∃ r', r.WriteData x.1 x.2 = .ok r' ∧
      Records r' (fileOf Header (addRun Prod.fst NUM_ITEMS_PER_CHUNK s x).1)
        (addRun Prod.fst NUM_ITEMS_PER_CHUNK s x).2 := by
  have hopen : ¬ (r.m_File.isNone = true ∨ ¬ ValidItem x.1 x.2.length) := by
    rw [h.file]
    rintro (hc | hc)
    · cases hc
    · exact hc hx.valid
  obtain ⟨r₁, hput, h₁⟩ := h.putItem hstate hregular hx
  obtain ⟨-, hisrun⟩ := hstate.extendRun x
  have hregular₁ : ∀ y ∈ (extendRun Prod.fst s x).2, Regular sizeOf y := by
    intro y hy
    rcases mem_of_mem_extendRun hy with hy | rfl
    · exact hregular y hy
    · exact hx
  have hrun : r.WriteData x.1 x.2 =
      if r₁.m_BufferNumItems ≥ NUM_ITEMS_PER_CHUNK then r₁.FlushChunk else .ok r₁ := by
    unfold CGhostRecorder.WriteData
    rw [if_neg hopen, h.makeRoom hstate hregular hx]
    show (do
      let r ← r.putItem { m_Type := x.1, m_aData := words x }
      _ : Exec CGhostRecorder) = _
    rw [hput]
    rfl
  rw [hrun, h₁.count]
  unfold addRun closeFull
  by_cases hfull : (extendRun Prod.fst s x).2.length ≥ NUM_ITEMS_PER_CHUNK
  · rw [if_pos hfull, if_pos hfull]
    obtain ⟨r₂, hflush, h₂⟩ := h₁.flushChunk (runWords_ne_nil hisrun hregular₁)
    rw [← fileOf_append] at h₂
    exact ⟨r₂, hflush, h₂⟩
  · rw [if_neg hfull, if_neg hfull]
    exact ⟨r₁, rfl, h₁⟩

end

end Fex.Engine.Ghost
