import Fex.Engine.Ghost.Recording

/-!
# Playing ghosts back

Every chunk gives the items of its run again, unless its type is not known, and the loader
ends at the end of the file.
-/

namespace Fex.Engine.Ghost

open Fex.Lib Fex.Engine.Compression

/-! ## A chunk -/

theorem length_compress_pos {h : Huffman.CHuffman} {x data : List UInt8} {OutputSize : Int}
    (hrun : h.Compress x OutputSize = some data) : 0 < data.length := by
  unfold Huffman.CHuffman.Compress at hrun
  simp only [Option.bind_eq_bind, Option.bind_eq_some_iff] at hrun
  obtain ⟨e, -, e', -, hdata⟩ := hrun
  rw [← Option.some.inj hdata, List.length_append, List.length_singleton]
  exact Nat.succ_pos _

/-- What was packed and compressed is not empty, fits and is unpacked again. -/
theorem packWords_spec {words : List Int} {data : List UInt8} (h : packWords words = some data) :
    0 < data.length ∧ data.length ≤ MAX_CHUNK_SIZE ∧
      Network.ms_Huffman.Decompress data MAX_CHUNK_SIZE = .ok (packedAll words) := by
  unfold packWords at h
  split at h
  next hle =>
    obtain ⟨t, hcodes, hdepth⟩ := Huffman.codes_default
    have hfits := (Huffman.compress_spec hcodes hdepth h).2 (by decide)
    refine ⟨length_compress_pos h, ?_, Huffman.decompress_compress hcodes hdepth h hle⟩
    exact Int.ofNat_le.mp hfits
  · cases h

theorem decompress_words {words : List Int} (hwords : ∀ i ∈ words, IsInt32 i)
    (hlength : 4 * words.length ≤ MAX_CHUNK_SIZE) :
    ∃ dst, Decompress (packedAll words) (List.replicate (MAX_CHUNK_SIZE / 4) 0) MAX_CHUNK_SIZE =
        .ok (4 * (words.length : Int), dst) ∧ dst.take words.length = words := by
  have hdecodes := decodes_packedAll hwords
  obtain ⟨r, dst, hrun, hr⟩ := @Decompress_spec (packedAll words)
    (List.replicate (MAX_CHUNK_SIZE / 4) 0) MAX_CHUNK_SIZE (by decide)
    (by rw [List.length_replicate]; decide)
  refine ⟨dst, ?_⟩
  rcases hr with ⟨-, hlong⟩ | ⟨is, his, rfl, hprefix⟩
  · have hlt := hlong words hdecodes
    omega
  · rw [his.unique hdecodes] at hrun hprefix
    exact ⟨hrun, (List.prefix_iff_eq_take.mp hprefix).symm⟩

/-! ## Reading -/

/-- The next call of `ReadNextType` reads a chunk from here. -/
structure AtChunk (l : CGhostLoader) (File : List UInt8) : Prop where
  file : l.m_File = File
  version : l.m_Version ≠ 4
  item : ¬ (l.m_BufferCurItem ≠ l.m_BufferPrevItem ∧ l.m_BufferCurItem < l.m_BufferNumItems)

/-- An item was read and others are left in the chunk. -/
structure InChunk (l : CGhostLoader) (File : List UInt8) (past : Item) (left : List Item) :
    Prop where
  file : l.m_File = File
  version : l.m_Version ≠ 4
  last : l.m_LastItem = { m_Type := past.1, m_aData := words past }
  buffer : l.m_aBuffer = diffWords (words past) (left.map words)
  count : l.m_BufferCurItem + left.length = l.m_BufferNumItems
  item : l.m_BufferCurItem ≠ l.m_BufferPrevItem

theorem InChunk.atChunk {l : CGhostLoader} {File : List UInt8} {past : Item}
    (h : InChunk l File past []) : AtChunk l File := by
  refine ⟨h.file, h.version, ?_⟩
  have hcount := h.count
  rw [List.length_nil] at hcount
  omega

/-- The chunk of a run was read and no item of it. -/
structure OpenChunk (l : CGhostLoader) (File : List UInt8) (run : List Item) : Prop where
  file : l.m_File = File
  version : l.m_Version ≠ 4
  last : l.m_LastItem.m_Type = -1
  buffer : l.m_aBuffer = runWords run
  count : l.m_BufferNumItems = run.length
  cur : l.m_BufferCurItem = 0
  prev : l.m_BufferPrevItem = 0

theorem OpenChunk.atChunk {l : CGhostLoader} {File : List UInt8} {run : List Item}
    (h : OpenChunk l File run) : AtChunk l File := by
  refine ⟨h.file, h.version, ?_⟩
  rw [h.cur, h.prev]
  exact fun hc => hc.1 rfl

section

variable {sizeOf : Int → Nat} {l : CGhostLoader} {File : List UInt8} {run : List Item}

theorem runType_bounds (hrun : IsRun Prod.fst NUM_ITEMS_PER_CHUNK run)
    (hregular : ∀ x ∈ run, Regular sizeOf x) : 0 ≤ runType run ∧ runType run ≤ 255 := by
  obtain ⟨x, hx⟩ := List.exists_mem_of_ne_nil _ hrun.nonempty
  rw [← runType_eq hrun hx]
  exact (hregular x hx).valid.1

theorem length_runWords_le (hrun : IsRun Prod.fst NUM_ITEMS_PER_CHUNK run)
    (hregular : ∀ x ∈ run, Regular sizeOf x) : 4 * (runWords run).length ≤ MAX_CHUNK_SIZE := by
  obtain ⟨x, hx⟩ := List.exists_mem_of_ne_nil _ hrun.nonempty
  have hbounds := (hregular x hx).words_bounds
  rw [runType_eq hrun hx] at hbounds
  rw [length_runWords hregular fun y hy => runType_eq hrun hy]
  exact Nat.mul_le_mul_left 4 (Nat.mul_le_mul hbounds.2 hrun.length)

/-- The chunk that is read is the run that was written. -/
theorem AtChunk.readNextType (hrun : IsRun Prod.fst NUM_ITEMS_PER_CHUNK run)
    (hregular : ∀ x ∈ run, Regular sizeOf x) {data : List UInt8}
    (hpack : packWords (runWords run) = some data) (h : AtChunk l (runBytes run ++ File)) :
    ∃ l', l.ReadNextType = .ok (l', some (runType run)) ∧ OpenChunk l' File run := by
  obtain ⟨hpos, hle, hhuffman⟩ := packWords_spec hpack
  obtain ⟨dst, hunpack, htake⟩ :=
    decompress_words (fun i hi => isInt32_runWords hi) (length_runWords_le hrun hregular)
  obtain ⟨htype₀, htype₁⟩ := runType_bounds hrun hregular
  have hmax : MAX_CHUNK_SIZE = 6400 := rfl
  have hcount := hrun.length
  have hnum : NUM_ITEMS_PER_CHUNK = 50 := rfl
  have hsize : (UInt8.ofNat (data.length / 256)).toNat * 256 + (UInt8.ofNat data.length).toNat =
      data.length := by
    rw [UInt8.toNat_ofNat', UInt8.toNat_ofNat']
    omega
  have hitems : (UInt8.ofNat run.length).toNat = run.length := by
    rw [UInt8.toNat_ofNat']
    omega
  have htypeByte : ((UInt8.ofNat (runType run % 256).toNat).toNat : Int) = runType run := by
    rw [UInt8.toNat_ofNat']
    omega
  have hbytes : runBytes run ++ File = UInt8.ofNat (runType run % 256).toNat ::
      UInt8.ofNat run.length :: UInt8.ofNat (data.length / 256) :: UInt8.ofNat data.length ::
        (data ++ File) := by
    unfold runBytes
    rw [hpack]
    rfl
  unfold CGhostLoader.ReadNextType
  rw [if_neg h.item]
  unfold CGhostLoader.ReadChunk
  rw [if_pos h.version]
  have hfile := h.file
  rw [hbytes] at hfile
  unfold CGhostLoader.ResetBuffer
  simp only [hfile, hsize, hitems, htypeByte]
  rw [if_neg (by omega), List.take_left, List.drop_left, if_neg (not_not_intro rfl), hhuffman]
  simp only [hunpack, bind, Except.bind]
  rw [if_neg (by omega)]
  refine ⟨_, rfl, rfl, h.version, rfl, ?_, rfl, rfl, rfl⟩
  show dst.take ((4 * ((runWords run).length : Int)).toNat / 4) = runWords run
  rw [← htake]
  congr 1
  rw [htake]
  omega

/-- The first item of a chunk. -/
theorem OpenChunk.readData {x : Item} {left : List Item} (hx : Regular sizeOf x)
    (h : OpenChunk l File (x :: left)) :
    ∃ l', l.ReadData x.1 (sizeOf x.1) = .ok (l', some x.2) ∧ InChunk l' File x left := by
  have hvalid := hx.valid
  rw [hx.size] at hvalid
  have hlength := hx.length_words
  have hmod := hvalid.2.2.2
  have hbuffer : l.m_aBuffer = words x ++ diffWords (words x) (left.map words) := h.buffer
  have htake : l.m_aBuffer.take (sizeOf x.1 / 4) = words x := by
    rw [hbuffer, ← hlength, List.take_left]
  have hdrop : l.m_aBuffer.drop (sizeOf x.1 / 4) = diffWords (words x) (left.map words) := by
    rw [hbuffer, ← hlength, List.drop_left]
  have hroom : ¬ 4 * l.m_aBuffer.length < sizeOf x.1 := by
    rw [hbuffer, List.length_append, hlength]
    omega
  have htype : l.m_LastItem.m_Type ≠ x.1 := by
    have h₀ := hx.valid.1.1
    rw [h.last]
    omega
  unfold CGhostLoader.ReadData
  rw [if_neg (not_not_intro hvalid), if_neg hroom]
  simp only [htake, hdrop, if_neg htype, bind, Except.bind]
  refine ⟨{ l with
    m_LastItem := { m_Type := x.1, m_aData := words x }
    m_aBuffer := diffWords (words x) (left.map words)
    m_BufferCurItem := l.m_BufferCurItem + 1 }, ?_, h.file, h.version, rfl, rfl, ?_, ?_⟩
  · have hback : (words x).flatMap intBytes = x.2 := flatMap_ints hx.valid.2.2.2
    rw [hback]
    rfl
  · have hcount := h.count
    have hcur := h.cur
    rw [List.length_cons] at hcount
    simp only
    omega
  · have hcur := h.cur
    have hprev := h.prev
    simp only
    omega

/-- Another item of the chunk. -/
theorem InChunk.readNext {past x : Item} {left : List Item} (hx : Regular sizeOf x)
    (hpast : Regular sizeOf past) (hkey : x.1 = past.1) (h : InChunk l File past (x :: left)) :
    ∃ l₁ l₂, l.ReadNextType = .ok (l₁, some x.1) ∧
      l₁.ReadData x.1 (sizeOf x.1) = .ok (l₂, some x.2) ∧ InChunk l₂ File x left := by
  have hvalid := hx.valid
  rw [hx.size] at hvalid
  have hlength := hx.length_words
  have hmod := hvalid.2.2.2
  have hsame : (words past).length = (words x).length := by
    rw [hpast.length_words, hlength, hkey]
  have hdiff := length_diffItem hsame
  have hbuffer : l.m_aBuffer =
      Snapshot.DiffItem (words past) (words x) ++ diffWords (words x) (left.map words) := h.buffer
  have htake : l.m_aBuffer.take (sizeOf x.1 / 4) = Snapshot.DiffItem (words past) (words x) := by
    rw [hbuffer, ← hlength, ← hdiff, List.take_left]
  have hdrop : l.m_aBuffer.drop (sizeOf x.1 / 4) = diffWords (words x) (left.map words) := by
    rw [hbuffer, ← hlength, ← hdiff, List.drop_left]
  have hroom : ¬ 4 * l.m_aBuffer.length < sizeOf x.1 := by
    rw [hbuffer, List.length_append, hdiff, hlength]
    omega
  have hundiff : UndiffItem (words past) (Snapshot.DiffItem (words past) (words x)) =
      .ok (words x) := by
    unfold UndiffItem
    rw [if_neg (by omega), Snapshot.undiffItem_diffItem hsame fun i hi => isInt32_of_mem_ints hi]
  have hcount := h.count
  rw [List.length_cons] at hcount
  have hnext : l.ReadNextType =
      .ok ({ l with m_BufferPrevItem := l.m_BufferCurItem }, some x.1) := by
    have htype : l.m_LastItem.m_Type = x.1 := by
      rw [h.last]
      exact hkey.symm
    unfold CGhostLoader.ReadNextType
    rw [if_pos ⟨h.item, by omega⟩, htype]
    rfl
  have hback : (words x).flatMap intBytes = x.2 := flatMap_ints hx.valid.2.2.2
  refine ⟨_, { l with
    m_BufferPrevItem := l.m_BufferCurItem
    m_LastItem := { m_Type := x.1, m_aData := words x }
    m_aBuffer := diffWords (words x) (left.map words)
    m_BufferCurItem := l.m_BufferCurItem + 1 }, hnext, ?_, ?_⟩
  · unfold CGhostLoader.ReadData
    rw [if_neg (not_not_intro hvalid), if_neg hroom, h.last]
    simp only
    rw [if_pos hkey.symm, htake, hundiff, hdrop]
    simp only [bind, Except.bind, hback]
    rfl
  · refine ⟨h.file, h.version, rfl, rfl, ?_, ?_⟩
    · simp only
      omega
    · simp only
      omega

/-! ## Playing back -/

variable {known : Int → Bool} {n : Nat}

/-- Behind an item that was read come the others of the chunk. -/
theorem InChunk.playback {past : Item} {left : List Item} (h : InChunk l File past left)
    (hknown : known past.1 = true) (hpast : Regular sizeOf past)
    (hregular : ∀ x ∈ left, Regular sizeOf x) (hkey : ∀ x ∈ left, x.1 = past.1) :
    ∃ l', AtChunk l' File ∧ ∀ n out, playback sizeOf known n l' = .ok (some out) →
      playback sizeOf known (n + left.length) l = .ok (some (left ++ out)) := by
  induction left generalizing l past with
  | nil => exact ⟨l, h.atChunk, fun n out hout => hout⟩
  | cons x left ih =>
      have hx := hregular x List.mem_cons_self
      have hkeyx := hkey x List.mem_cons_self
      obtain ⟨l₁, l₂, hnext, hdata, h₂⟩ := h.readNext hx hpast hkeyx
      have hknownx : known x.1 = true := by rw [hkeyx, hknown]
      obtain ⟨l', hl', hrest⟩ := ih h₂ hknownx hx
        (fun y hy => hregular y (List.mem_cons_of_mem _ hy))
        fun y hy => (hkey y (List.mem_cons_of_mem _ hy)).trans hkeyx.symm
      refine ⟨l', hl', fun n out hout => ?_⟩
      have htail := hrest n out hout
      rw [List.length_cons, ← Nat.add_assoc]
      conv_lhs => unfold Ghost.playback
      simp only [hnext, hdata, htail, bind, Except.bind, if_pos hknownx]
      rfl

/-- The items of a chunk that is played back. -/
theorem AtChunk.playback_run (hrun : IsRun Prod.fst NUM_ITEMS_PER_CHUNK run)
    (hregular : ∀ x ∈ run, Regular sizeOf x) {data : List UInt8}
    (hpack : packWords (runWords run) = some data) (h : AtChunk l (runBytes run ++ File)) :
    ∃ l', AtChunk l' File ∧ ∀ n out,
      (∀ m, n ≤ m → playback sizeOf known m l' = .ok (some out)) →
      ∀ m, n + run.length ≤ m →
        playback sizeOf known m l = .ok (some (run.filter (fun x => known x.1) ++ out)) := by
  obtain ⟨l₀, hnext, h₀⟩ := h.readNextType hrun hregular hpack
  cases run with
  | nil => exact absurd rfl hrun.nonempty
  | cons x left =>
      have hx := hregular x List.mem_cons_self
      have htype := runType_eq hrun List.mem_cons_self
      have hkey : ∀ y ∈ left, y.1 = x.1 := fun y hy =>
        hrun.key y (List.mem_cons_of_mem _ hy) x List.mem_cons_self
      rw [← htype] at hnext
      by_cases hknown : known x.1 = true
      · obtain ⟨l₁, hdata, h₁⟩ := h₀.readData hx
        obtain ⟨l', hl', hrest⟩ := h₁.playback hknown hx
          (fun y hy => hregular y (List.mem_cons_of_mem _ hy)) hkey
        refine ⟨l', hl', fun n out hout m hm => ?_⟩
        rw [List.length_cons] at hm
        obtain ⟨k, rfl⟩ : ∃ k, m = k + left.length + 1 := ⟨m - left.length - 1, by omega⟩
        have htail := hrest k out (hout k (by omega))
        have hall : (x :: left).filter (fun y => known y.1) = x :: left := by
          apply List.filter_eq_self.mpr
          intro y hy
          rcases List.mem_cons.mp hy with rfl | hy
          · exact hknown
          · rw [hkey y hy, hknown]
        conv_lhs => unfold playback
        simp only [hnext, hdata, htail, bind, Except.bind, if_pos hknown, hall]
        rfl
      · refine ⟨l₀, h₀.atChunk, fun n out hout m hm => ?_⟩
        rw [List.length_cons] at hm
        obtain ⟨k, rfl⟩ : ∃ k, m = k + 1 := ⟨m - 1, by omega⟩
        have htail := hout k (by omega)
        have hnone : (x :: left).filter (fun y => known y.1) = [] := by
          apply List.filter_eq_nil_iff.mpr
          intro y hy
          rcases List.mem_cons.mp hy with rfl | hy
          · exact hknown
          · rw [hkey y hy]
            exact hknown
        conv_lhs => unfold playback
        simp only [hnext, htail, bind, Except.bind, if_neg hknown, hnone]
        rfl

/-- At the end of the file nothing more is read. -/
theorem AtChunk.playback_end (h : AtChunk l []) (hn : 1 ≤ n) :
    playback sizeOf known n l = .ok (some []) := by
  obtain ⟨n, rfl⟩ : ∃ k, n = k + 1 := ⟨n - 1, by omega⟩
  have hnext : ∃ l', l.ReadNextType = .ok (l', none) := by
    unfold CGhostLoader.ReadNextType
    rw [if_neg h.item]
    unfold CGhostLoader.ReadChunk CGhostLoader.ResetBuffer
    rw [if_pos h.version]
    simp only [h.file]
    exact ⟨_, rfl⟩
  obtain ⟨l', hnext⟩ := hnext
  unfold playback
  simp only [hnext, h.file, bind, Except.bind]
  rfl

end

end Fex.Engine.Ghost
