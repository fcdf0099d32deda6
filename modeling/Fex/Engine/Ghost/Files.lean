import Fex.Engine.Ghost.Playback
import Mathlib.Data.List.Flatten

/-!
# Ghost files are read back

A recording is its header and the chunks of its runs.  It is played back exactly where every
run fits the buffers it is packed and compressed in.
-/

namespace Fex.Engine.Ghost

open Fex.Lib Fex.Base

/-! ## The header -/

theorem length_str_copy_le (src : List UInt8) (size : Nat) :
    (str_copy src size).length ≤ (src.take (size - 1)).length := by
  unfold str_copy str_utf8_fix_truncation
  split
  · simp only
    split
    · rw [List.length_take]
      exact Nat.min_le_right _ _
    · exact Nat.le_refl _
  · exact Nat.le_refl _

theorem length_copyField (src : List UInt8) {size : Nat} (hsize : 0 < size) :
    (copyField src size).length = size := by
  have hle := length_str_copy_le src size
  unfold copyField
  simp only [List.length_append, List.length_replicate, List.length_cons, List.length_drop]
  rw [List.length_take] at hle ⊢
  omega

/-- The arrays of a header have their sizes. -/
structure Sized (Header : CGhostHeader) : Prop where
  marker : Header.m_aMarker.length = 8
  owner : Header.m_aOwner.length = MAX_NAME_LENGTH
  map : Header.m_aMap.length = 64
  zeroes : Header.m_aZeroes.length = 4
  ticks : Header.m_aNumTicks.length = 4
  time : Header.m_aTime.length = 4
  sha : Header.m_MapSha256.length = sizeofSha256

theorem Sized.length_bytes {Header : CGhostHeader} (h : Sized Header) :
    Header.bytes.length = sizeofHeader := by
  unfold CGhostHeader.bytes
  simp only [List.length_append, List.length_cons, h.marker, h.owner, h.map, h.zeroes, h.ticks,
    h.time, h.sha]
  rfl

/-- Reading a header gives what was written. -/
theorem Sized.ofBytes {Header : CGhostHeader} (h : Sized Header) (tail : List UInt8) :
    CGhostHeader.ofBytes (Header.bytes ++ tail) = Header := by
  -- where a field starts, the fields before it end
  have hfield : ∀ (front field rest : List UInt8) (n k : Nat), front.length = n →
      field.length = k → ((front ++ (field ++ rest)).drop n).take k = field := by
    rintro front field rest _ _ rfl rfl
    rw [List.drop_left, List.take_left]
  have hsize : MAX_NAME_LENGTH = 16 := rfl
  obtain ⟨m_aMarker, m_Version, m_aOwner, m_aMap, m_aZeroes, m_aNumTicks, m_aTime, m_MapSha256⟩ := Header
  obtain ⟨hmarker, howner, hmap, hzeroes, hticks, htime, hsha⟩ := h
  simp only at hmarker howner hmap hzeroes hticks htime hsha
  unfold CGhostHeader.ofBytes CGhostHeader.bytes
  simp only [CGhostHeader.mk.injEq]
  refine ⟨?_, ?_, ?_, ?_, ?_, ?_, ?_, ?_⟩
  · simp only [List.append_assoc]
    rw [← hmarker, List.take_left]
  · simp only [List.append_assoc, List.cons_append]
    rw [List.getD_append_right _ _ _ _ (by omega), hmarker]
    rfl
  · simpa only [List.append_assoc, List.cons_append, List.nil_append] using
      hfield (m_aMarker ++ [m_Version]) m_aOwner
        (m_aMap ++ m_aZeroes ++ m_aNumTicks ++ m_aTime ++ m_MapSha256 ++ tail) 9 MAX_NAME_LENGTH
        (by simp [hmarker]) howner
  · simpa only [List.append_assoc, List.cons_append, List.nil_append] using
      hfield (m_aMarker ++ m_Version :: m_aOwner) m_aMap
        (m_aZeroes ++ m_aNumTicks ++ m_aTime ++ m_MapSha256 ++ tail) 25 64
        (by simp [hmarker, howner, hsize]) hmap
  · simpa only [List.append_assoc, List.cons_append, List.nil_append] using
      hfield (m_aMarker ++ m_Version :: m_aOwner ++ m_aMap) m_aZeroes
        (m_aNumTicks ++ m_aTime ++ m_MapSha256 ++ tail) 89 4
        (by simp [hmarker, howner, hsize, hmap]) hzeroes
  · simpa only [List.append_assoc, List.cons_append, List.nil_append] using
      hfield (m_aMarker ++ m_Version :: m_aOwner ++ m_aMap ++ m_aZeroes) m_aNumTicks
        (m_aTime ++ m_MapSha256 ++ tail) 93 4
        (by simp [hmarker, howner, hsize, hmap, hzeroes]) hticks
  · simpa only [List.append_assoc, List.cons_append, List.nil_append] using
      hfield (m_aMarker ++ m_Version :: m_aOwner ++ m_aMap ++ m_aZeroes ++ m_aNumTicks) m_aTime
        (m_MapSha256 ++ tail) 97 4
        (by simp [hmarker, howner, hsize, hmap, hzeroes, hticks]) htime
  · simpa only [List.append_assoc, List.cons_append, List.nil_append] using
      hfield (m_aMarker ++ m_Version :: m_aOwner ++ m_aMap ++ m_aZeroes ++ m_aNumTicks ++ m_aTime)
        m_MapSha256 tail 101 sizeofSha256
        (by simp [hmarker, howner, hsize, hmap, hzeroes, hticks, htime]) hsha

/-- The header of a recording that was stopped. -/
def headerOf (pMap : List UInt8) (MapSha256 : SHA256_DIGEST) (pName : List UInt8)
    (Ticks Time : Int) : CGhostHeader :=
  { m_aMarker := gs_aHeaderMarker
    m_Version := gs_CurVersion
    m_aOwner := copyField pName MAX_NAME_LENGTH
    m_aMap := copyField pMap 64
    m_aZeroes := List.replicate 4 0
    m_aNumTicks := uint_to_bytes_be Ticks
    m_aTime := uint_to_bytes_be Time
    m_MapSha256 := MapSha256.data }

theorem sized_headerOf (pMap : List UInt8) (MapSha256 : SHA256_DIGEST) (pName : List UInt8)
    (Ticks Time : Int) : Sized (headerOf pMap MapSha256 pName Ticks Time) :=
  ⟨rfl, length_copyField pName (by decide), length_copyField pMap (by decide), rfl, rfl, rfl,
    MapSha256.size⟩

/-! ## The recording -/

section

variable {sizeOf : Int → Nat} {r : CGhostRecorder} {Header : List UInt8}

/-- The calls of `WriteData`. -/
theorem Records.writeAll {s : List (List Item) × List Item} (items : List Item)
    (h : Records r (fileOf Header s.1) s.2) (hstate : RunState Prod.fst NUM_ITEMS_PER_CHUNK s)
    (hregular : ∀ x ∈ s.2, Regular sizeOf x) (hitems : ∀ x ∈ items, Regular sizeOf x) :
    ∃ r', items.foldlM (fun r item => r.WriteData item.1 item.2) r = .ok r' ∧
      Records r' (fileOf Header (items.foldl (addRun Prod.fst NUM_ITEMS_PER_CHUNK) s).1)
        (items.foldl (addRun Prod.fst NUM_ITEMS_PER_CHUNK) s).2 ∧
      ∀ x ∈ (items.foldl (addRun Prod.fst NUM_ITEMS_PER_CHUNK) s).2, Regular sizeOf x := by
  induction items generalizing r s with
  | nil => exact ⟨r, rfl, h, hregular⟩
  | cons x items ih =>
      have hx := hitems x List.mem_cons_self
      obtain ⟨r₁, hwrite, h₁⟩ := h.writeData hstate hregular hx
      have hregular₁ : ∀ y ∈ (addRun Prod.fst NUM_ITEMS_PER_CHUNK s x).2, Regular sizeOf y := by
        intro y hy
        rcases mem_of_mem_addRun hy with hy | rfl
        · exact hregular y hy
        · exact hx
      rw [List.foldlM_cons, hwrite, List.foldl_cons]
      exact ih h₁ (hstate.addRun x) hregular₁ fun y hy => hitems y (List.mem_cons_of_mem _ hy)

/-- What `Stop` leaves: the last run is written and the ticks and the time are put in the header. -/
theorem Records.stop {s : List (List Item) × List Item} (h : Records r (fileOf Header s.1) s.2)
    (hstate : RunState Prod.fst NUM_ITEMS_PER_CHUNK s) (hregular : ∀ x ∈ s.2, Regular sizeOf x)
    {Ticks Time : Int} (hticks : 0 < Ticks) (htime : 0 < Time) :
    ∃ r', r.Stop Ticks Time = .ok (r', some
      ((fileOf Header (closeRuns s)).take offsetofNumTicks ++ uint_to_bytes_be Ticks ++
        uint_to_bytes_be Time ++ (fileOf Header (closeRuns s)).drop (offsetofNumTicks + 8))) := by
  have hflush : ∃ r', r.FlushChunk = .ok r' ∧ r'.m_File = some (fileOf Header (closeRuns s)) := by
    unfold closeRuns
    cases hrun : s.2 with
    | nil =>
        rw [hrun] at h
        exact ⟨r, h.flushChunk_nil, h.file⟩
    | cons x run =>
        have hne : s.2 ≠ [] := by
          rw [hrun]
          exact List.cons_ne_nil _ _
        obtain ⟨r', hflush, h'⟩ := h.flushChunk (runWords_ne_nil (hstate.isRun hne) hregular)
        rw [← fileOf_append, hrun] at h'
        exact ⟨r', hflush, h'.file⟩
  obtain ⟨r', hflush, hfile⟩ := hflush
  unfold CGhostRecorder.Stop
  rw [h.file, hflush]
  simp only [Option.isNone_some, Bool.false_eq_true, if_false, bind, Except.bind]
  rw [if_neg (by omega), hfile]
  exact ⟨_, rfl⟩

end

/-- A recording is its header and the chunks. -/
theorem record_spec {sizeOf : Int → Nat} {items : List Item}
    (hitems : ∀ x ∈ items, Regular sizeOf x) (pMap : List UInt8) (MapSha256 : SHA256_DIGEST)
    (pName : List UInt8) {Ticks Time : Int} (hticks : 0 < Ticks) (htime : 0 < Time) :
    record pMap MapSha256 pName items Ticks Time =
      .ok (some (fileOf (headerOf pMap MapSha256 pName Ticks Time).bytes
        (runs Prod.fst NUM_ITEMS_PER_CHUNK items))) := by
  have howner := length_copyField pName (show 0 < MAX_NAME_LENGTH by decide)
  have hmap := length_copyField pMap (show 0 < 64 by decide)
  -- the header before the ticks and behind the time
  let front := gs_aHeaderMarker ++ gs_CurVersion :: copyField pName MAX_NAME_LENGTH ++
    copyField pMap 64 ++ List.replicate 4 0
  have hfront : front.length = offsetofNumTicks := by
    show (gs_aHeaderMarker ++ gs_CurVersion :: copyField pName MAX_NAME_LENGTH ++
      copyField pMap 64 ++ List.replicate 4 0).length = 93
    simp only [List.length_append, List.length_cons, List.length_replicate, howner, hmap]
    rfl
  let started := front ++ (List.replicate 8 0 ++ MapSha256.data)
  have hstart : ∃ r, CGhostRecorder.new.Start pMap MapSha256 pName = .ok r ∧
      Records r (fileOf started []) [] := by
    refine ⟨_, rfl, ?_⟩
    have hfile : fileOf started [] = _ := List.append_nil _
    rw [hfile]
    have hbytes : started = CGhostHeader.bytes
        { m_aMarker := gs_aHeaderMarker
          m_Version := gs_CurVersion
          m_aOwner := copyField pName MAX_NAME_LENGTH
          m_aMap := copyField pMap 64
          m_aZeroes := List.replicate 4 0
          m_aNumTicks := List.replicate 4 0
          m_aTime := List.replicate 4 0
          m_MapSha256 := MapSha256.data } := by
      simp [started, front, CGhostHeader.bytes, List.replicate_succ]
    rw [hbytes]
    exact records_flushed _ _
  obtain ⟨r, hstart, h⟩ := hstart
  have hempty : RunState Prod.fst NUM_ITEMS_PER_CHUNK (([], []) : List (List Item) × List Item) :=
    runState_foldl (by decide) []
  obtain ⟨r₁, hwrite, h₁, hregular⟩ :=
    @Records.writeAll sizeOf r started ([], []) items h hempty
      (fun _ hx => absurd hx List.not_mem_nil) hitems
  obtain ⟨r₂, hstop⟩ := h₁.stop (runState_foldl (by decide) items) hregular hticks htime
  unfold record
  rw [hstart]
  show (do
    let r ← items.foldlM (fun (r : CGhostRecorder) (item : Item) => r.WriteData item.1 item.2) r
    return (← r.Stop Ticks Time).2) = _
  rw [hwrite]
  show (do return (← r₁.Stop Ticks Time).2) = _
  rw [hstop]
  show Except.ok (some _) = _
  have hsplit : fileOf started (closeRuns (items.foldl (addRun Prod.fst NUM_ITEMS_PER_CHUNK)
      ([], []))) = front ++ (List.replicate 8 0 ++ (MapSha256.data ++
        (runs Prod.fst NUM_ITEMS_PER_CHUNK items).flatMap runBytes)) := by
    unfold fileOf runs
    simp [started]
  rw [hsplit, ← hfront, List.take_left, ← List.drop_drop, List.drop_left]
  have hdrop : (List.replicate 8 (0 : UInt8) ++ (MapSha256.data ++
      (runs Prod.fst NUM_ITEMS_PER_CHUNK items).flatMap runBytes)).drop 8 =
        MapSha256.data ++ (runs Prod.fst NUM_ITEMS_PER_CHUNK items).flatMap runBytes :=
    List.drop_left' List.length_replicate
  rw [hdrop]
  simp [front, fileOf, headerOf, CGhostHeader.bytes]

/-! ## Reading a recording -/

/-- The items of the run are packed and compressed within the buffers. -/
def Fits (run : List Item) : Prop := (packWords (runWords run)).isSome

instance (run : List Item) : Decidable (Fits run) := inferInstanceAs (Decidable (_ = true))

section

variable {sizeOf : Int → Nat} {known : Int → Bool}

/-- The runs that fit are played back. -/
theorem playback_runs {l : CGhostLoader} {rs : List (List Item)}
    (hrs : ∀ run ∈ rs, IsRun Prod.fst NUM_ITEMS_PER_CHUNK run)
    (hregular : ∀ run ∈ rs, ∀ x ∈ run, Regular sizeOf x) (h : AtChunk l (rs.flatMap runBytes))
    {n : Nat} (hn : rs.flatten.length + 1 ≤ n) :
    playback sizeOf known n l =
      .ok (some ((rs.filter fun run => Fits run).flatten.filter fun x => known x.1)) := by
  induction rs generalizing l n with
  | nil => exact h.playback_end (Nat.le_of_add_left_le hn)
  | cons run rs ih =>
      have hrun := hrs run List.mem_cons_self
      have hrest := fun {l : CGhostLoader} =>
        @ih l (fun r hr => hrs r (List.mem_cons_of_mem _ hr))
          (fun r hr => hregular r (List.mem_cons_of_mem _ hr))
      rw [List.flatMap_cons] at h
      rw [List.flatten_cons, List.length_append] at hn
      cases hpack : packWords (runWords run) with
      | none =>
          have hnone : runBytes run = [] := by
            unfold runBytes
            rw [hpack]
          have hfits : ¬ Fits run := by
            unfold Fits
            rw [hpack]
            exact Bool.false_ne_true
          rw [hnone, List.nil_append] at h
          rw [List.filter_cons_of_neg (by simpa using hfits)]
          exact hrest h (by omega)
      | some data =>
          have hfits : Fits run := by
            unfold Fits
            rw [hpack]
            rfl
          obtain ⟨l', h', hplay⟩ :=
            h.playback_run hrun (hregular run List.mem_cons_self) hpack
          rw [List.filter_cons_of_pos (by simpa using hfits), List.flatten_cons, List.filter_append]
          exact hplay (rs.flatten.length + 1) _ (fun m hm => hrest h' hm) n (by omega)

end

/-- A loader of a recording is behind its header. -/
theorem load_recording {Header : CGhostHeader} (h : Sized Header)
    (hversion : Header.m_Version = gs_CurVersion) (rs : List (List Item)) (pMap : List UInt8)
    (MapSha256 : SHA256_DIGEST) (MapCrc : Nat) (strict : Bool) :
    if Header.Validate = true ∧ Header.CheckMap pMap MapSha256 MapCrc strict = true then
      ∃ l, CGhostLoader.Load (fileOf Header.bytes rs) pMap MapSha256 MapCrc strict = some l ∧
        AtChunk l (rs.flatMap runBytes)
    else CGhostLoader.Load (fileOf Header.bytes rs) pMap MapSha256 MapCrc strict = none := by
  have hlength : ¬ (fileOf Header.bytes rs).length < sizeofHeader := by
    unfold fileOf
    rw [List.length_append, h.length_bytes]
    omega
  have hof : CGhostHeader.ofBytes (fileOf Header.bytes rs) = Header := h.ofBytes _
  unfold CGhostLoader.Load
  simp only [hof]
  rw [if_neg hlength]
  split
  next hok =>
    rw [if_neg (by rintro (hc | hc); exacts [hc hok.1, hc hok.2]), hversion, if_neg (by decide)]
    refine ⟨_, rfl, ?_, show gs_CurVersion ≠ 4 by decide,
      fun hc => absurd hc.2 (show ¬ (0 : Int) < ((0 : Nat) : Int) by decide)⟩
    unfold fileOf
    rw [← h.length_bytes, List.drop_left]
  next hbad =>
    rw [if_pos]
    by_contra hc
    push Not at hc
    exact hbad hc

/-- Leaving lists out leaves elements out, unless the lists are empty. -/
theorem flatten_filter_eq {α : Type} {p : List α → Bool} {rs : List (List α)}
    (hne : ∀ run ∈ rs, run ≠ []) (h : (rs.filter p).flatten = rs.flatten) :
    ∀ run ∈ rs, p run = true := by
  induction rs with
  | nil => exact fun _ hr => absurd hr List.not_mem_nil
  | cons r rs ih =>
      have hle : (rs.filter p).flatten.length ≤ rs.flatten.length :=
        (List.Sublist.flatten List.filter_sublist).length_le
      by_cases hp : p r = true
      · rw [List.filter_cons_of_pos hp, List.flatten_cons, List.flatten_cons] at h
        have hrest := ih (fun s hs => hne s (List.mem_cons_of_mem _ hs)) (List.append_cancel_left h)
        intro s hs
        rcases List.mem_cons.mp hs with rfl | hs
        · exact hp
        · exact hrest s hs
      · rw [List.filter_cons_of_neg hp] at h
        have hlength := congrArg List.length h
        rw [List.flatten_cons, List.length_append] at hlength
        have hpos := List.length_pos_iff.mpr (hne r List.mem_cons_self)
        omega

/-- The items are read back, without those of unknown types, up to the end of the file. -/
def PlaysBack (sizeOf : Int → Nat) (items : List Item) (l : CGhostLoader) : Prop :=
  ∀ (known : Int → Bool) (n : Nat), items.length < n →
    playback sizeOf known n l = .ok (some (items.filter fun x => known x.1))

theorem playsBack_iff {sizeOf : Int → Nat} {items : List Item}
    (hitems : ∀ x ∈ items, Regular sizeOf x) {l : CGhostLoader}
    (hstart : AtChunk l ((runs Prod.fst NUM_ITEMS_PER_CHUNK items).flatMap runBytes)) :
    PlaysBack sizeOf items l ↔ ∀ run ∈ runs Prod.fst NUM_ITEMS_PER_CHUNK items, Fits run := by
  have hflatten : (runs Prod.fst NUM_ITEMS_PER_CHUNK items).flatten = items := flatten_runs items
  have hruns : ∀ run ∈ runs Prod.fst NUM_ITEMS_PER_CHUNK items,
      IsRun Prod.fst NUM_ITEMS_PER_CHUNK run := fun run hr => isRun_of_mem_runs (by decide) hr
  have hregular : ∀ run ∈ runs Prod.fst NUM_ITEMS_PER_CHUNK items, ∀ x ∈ run, Regular sizeOf x := by
    intro run hrun x hx
    apply hitems
    rw [← hflatten]
    exact List.mem_flatten_of_mem hrun hx
  have hplay := fun (known : Int → Bool) (n : Nat) (hn : items.length < n) =>
    @playback_runs sizeOf known l _ hruns hregular hstart n (by rw [hflatten]; exact hn)
  constructor
  · intro hback
    have hall := hback (fun _ => true) (items.length + 1) (Nat.lt_succ_self _)
    rw [hplay _ _ (Nat.lt_succ_self _)] at hall
    have hsame := Option.some.inj (Except.ok.inj hall)
    simp only [List.filter_true] at hsame
    have hfits := flatten_filter_eq (fun run hr => (hruns run hr).nonempty)
      (hsame.trans hflatten.symm)
    exact fun run hr => by simpa using hfits run hr
  · intro hfits known n hn
    have hall : (runs Prod.fst NUM_ITEMS_PER_CHUNK items).filter (fun run => Fits run) =
        runs Prod.fst NUM_ITEMS_PER_CHUNK items :=
      List.filter_eq_self.mpr fun run hr => by simpa using hfits run hr
    rw [hplay known n hn, hall, hflatten]

/-- A recording is read back exactly where all of its runs fit the buffers. -/
theorem ghost_roundtrip {sizeOf : Int → Nat} {items : List Item}
    (hitems : ∀ x ∈ items, Regular sizeOf x) (pMap : List UInt8) (MapSha256 : SHA256_DIGEST)
    (pName : List UInt8) {Ticks Time : Int} (hticks : 0 < Ticks) (htime : 0 < Time) :
    ∃ File, record pMap MapSha256 pName items Ticks Time = .ok (some File) ∧
      ∀ (pMap' : List UInt8) (MapSha256' : SHA256_DIGEST) (MapCrc : Nat) (strict : Bool)
        (l : CGhostLoader), CGhostLoader.Load File pMap' MapSha256' MapCrc strict = some l →
        (PlaysBack sizeOf items l ↔ ∀ run ∈ runs Prod.fst NUM_ITEMS_PER_CHUNK items, Fits run) := by
  refine ⟨_, record_spec hitems pMap MapSha256 pName hticks htime,
    fun pMap' MapSha256' MapCrc strict l hload => playsBack_iff hitems ?_⟩
  have hopened := load_recording (sized_headerOf pMap MapSha256 pName Ticks Time) rfl
    (runs Prod.fst NUM_ITEMS_PER_CHUNK items) pMap' MapSha256' MapCrc strict
  split at hopened
  · obtain ⟨l', hl', hstart⟩ := hopened
    rw [hload] at hl'
    rw [Option.some.inj hl']
    exact hstart
  · rw [hload] at hopened
    cases hopened

def zeroSha256 : SHA256_DIGEST := ⟨List.replicate 32 0, rfl⟩

theorem regular_constant {n : Nat} {items : List Item}
    (h : ∀ x ∈ items, ValidItem x.1 x.2.length ∧ x.2.length = n) :
    ∀ x ∈ items, Regular (fun _ => n) x :=
  fun x hx => ⟨(h x hx).1, (h x hx).2⟩

/-- Two items of one type and one of another on a map named "a". -/
theorem ghost_roundtrip_three :
    ∃ File l, record [97] zeroSha256 [98] [(3, [1, 0, 0, 0]), (3, [2, 0, 0, 0]), (4, [7, 0, 0, 0])]
        5 6 = .ok (some File) ∧
      CGhostLoader.Load File [97] zeroSha256 0 true = some l ∧
      (PlaysBack (fun _ => 4) [(3, [1, 0, 0, 0]), (3, [2, 0, 0, 0]), (4, [7, 0, 0, 0])] l ↔
        ∀ run ∈ runs Prod.fst NUM_ITEMS_PER_CHUNK
          [(3, [1, 0, 0, 0]), (3, [2, 0, 0, 0]), (4, [7, 0, 0, 0])], Fits run) := by
  have hitems := @regular_constant 4
    [(3, [1, 0, 0, 0]), (3, [2, 0, 0, 0]), (4, [7, 0, 0, 0])] (by decide)
  have hticks : (0 : Int) < 5 := by decide
  have htime : (0 : Int) < 6 := by decide
  obtain ⟨File, hrecord, hback⟩ := ghost_roundtrip hitems [97] zeroSha256 [98] hticks htime
  have hload := load_recording (sized_headerOf [97] zeroSha256 [98] 5 6) rfl
    (runs Prod.fst NUM_ITEMS_PER_CHUNK [(3, [1, 0, 0, 0]), (3, [2, 0, 0, 0]), (4, [7, 0, 0, 0])])
    [97] zeroSha256 0 true
  rw [if_pos (by decide +kernel)] at hload
  obtain ⟨l, hload, -⟩ := hload
  have hspec := record_spec hitems [97] zeroSha256 [98] hticks htime
  rw [hrecord] at hspec
  rw [← Option.some.inj (Except.ok.inj hspec)] at hload
  exact ⟨File, l, hrecord, hload, hback _ _ _ _ _ hload⟩

/-- Fifty items of the largest size, each far from the one before. -/
def farItems : List Item :=
  (List.range 50).map fun i : Nat =>
    (0, (List.replicate 32 (if i % 2 = 0 then 2147483647 else 0)).flatMap intBytes)

/-- The run takes more bytes packed than unpacked, and all of it is lost. -/
theorem ghost_lost :
    ∃ File l, record [97] zeroSha256 [98] farItems 5 6 = .ok (some File) ∧
      CGhostLoader.Load File [97] zeroSha256 0 true = some l ∧
      ¬ PlaysBack (fun _ => 128) farItems l := by
  have hitems := @regular_constant 128 farItems (by decide +kernel)
  have hload := load_recording (sized_headerOf [97] zeroSha256 [98] 5 6) rfl
    (runs Prod.fst NUM_ITEMS_PER_CHUNK farItems) [97] zeroSha256 0 true
  rw [if_pos (by decide +kernel)] at hload
  obtain ⟨l, hload, hstart⟩ := hload
  refine ⟨_, l, record_spec hitems [97] zeroSha256 [98] (by decide) (by decide), hload, ?_⟩
  rw [playsBack_iff hitems hstart]
  have hruns : runs Prod.fst NUM_ITEMS_PER_CHUNK farItems = [farItems] := by decide +kernel
  have hlong : ¬ (Compression.packedAll (runWords farItems)).length ≤ MAX_CHUNK_SIZE := by
    decide +kernel
  intro hfits
  have hrun := hfits farItems (by rw [hruns]; exact List.mem_singleton_self _)
  unfold Fits packWords at hrun
  rw [if_neg hlong] at hrun
  cases hrun

end Fex.Engine.Ghost
