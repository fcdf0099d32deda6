import Fex.Engine.Compression
import Fex.Engine.Snapshot.RoundTrip
import Fex.Engine.Snapshot.Transported

/-!
# The deltas that are transported

The snapshot that a client unpacks a delta with has the items of the one that the server compared,
but in an order of its own.  The delta does not depend on that order unless a hash list is full.
-/

namespace Fex.Engine.SnapshotTransport

open Fex.Lib Fex.Engine.Snapshot CSnapshotDelta CSnapshotBuilder

variable {d : CSnapshotDelta} {items fromItems baseItems toItems : List CSnapshotItem}

/-! ## Hash lists with room -/

/-- No hash list is full before its last item. -/
def Buckets (items : List CSnapshotItem) : Prop :=
  ∀ x ∈ items, (items.filter fun y => CalcHashId y.Key == CalcHashId x.Key).length ≤
    HASHLIST_BUCKET_SIZE

theorem Buckets.hashed (h : Buckets items) {x : CSnapshotItem} (hx : x ∈ items) :
    Hashed items x.Key := by
  have hsplit := List.takeWhile_append_dropWhile (p := fun y => y.Key != x.Key) (l := items)
  have hne : items.dropWhile (fun y => y.Key != x.Key) ≠ [] := by
    intro hnil
    have hall := List.dropWhile_eq_nil_iff.mp hnil x hx
    simp at hall
  obtain ⟨y, rest, hy⟩ := List.exists_cons_of_ne_nil hne
  have hykey : y.Key = x.Key := by
    have hhead := List.head?_dropWhile_not (fun y => y.Key != x.Key) items
    rw [hy] at hhead
    simpa using hhead
  have hle := h x hx
  rw [← hsplit, hy, List.filter_append, List.length_append,
    List.filter_cons_of_pos (by simp [hykey]), List.length_cons] at hle
  unfold Hashed
  omega

/-! ## Another order -/

/-- The items are those of the other list. -/
structure Reordered (fromItems baseItems : List CSnapshotItem) : Prop where
  same : ∀ x, x ∈ fromItems ↔ x ∈ baseItems
  keysFrom : (fromItems.map CSnapshotItem.Key).Nodup
  keysBase : (baseItems.map CSnapshotItem.Key).Nodup

theorem Reordered.perm (h : Reordered fromItems baseItems) : fromItems.Perm baseItems :=
  (List.perm_ext_iff_of_nodup h.keysFrom.of_map h.keysBase.of_map).mpr h.same

theorem Reordered.buckets (h : Reordered fromItems baseItems) (hb : Buckets fromItems) :
    Buckets baseItems := by
  intro x hx
  rw [← (h.perm.filter _).length_eq]
  exact hb x ((h.same x).mpr hx)

theorem Reordered.pastOf (h : Reordered fromItems baseItems) (hb : Buckets fromItems)
    (t : CSnapshotItem) : pastOf fromItems t = pastOf baseItems t := by
  by_cases hold : ∃ f ∈ fromItems, f.Key = t.Key
  · obtain ⟨f, hf, hkey⟩ := hold
    have hbase := (h.same f).mp hf
    rw [pastOf_of_mem h.keysFrom hf hkey (hkey ▸ hb.hashed hf),
      pastOf_of_mem h.keysBase hbase hkey (hkey ▸ (h.buckets hb).hashed hbase)]
  · have hnone : ∀ l : List CSnapshotItem, (∀ x, x ∈ l → x ∈ fromItems) →
        Snapshot.pastOf l t = none := by
      intro l hl
      cases hpast : Snapshot.pastOf l t with
      | none => rfl
      | some f =>
          obtain ⟨hf, hkey, -⟩ := mem_of_pastOf hpast
          exact absurd ⟨f, hl f hf, hkey⟩ hold
    rw [hnone fromItems fun x hx => hx, hnone baseItems fun x hx => (h.same x).mpr hx]

theorem Reordered.chunk (h : Reordered fromItems baseItems) (hb : Buckets fromItems)
    (t : CSnapshotItem) : chunk d fromItems t = chunk d baseItems t := by
  unfold Snapshot.chunk
  rw [h.pastOf hb]

theorem Reordered.deletedKeys (h : Reordered fromItems baseItems) (toItems : List CSnapshotItem) :
    (deletedKeys fromItems toItems).Perm (deletedKeys baseItems toItems) :=
  (h.perm.filter _).map _

theorem Reordered.pair (h : Reordered fromItems baseItems) (hpair : Pair d fromItems toItems) :
    Pair d baseItems toItems where
  keysFrom := h.keysBase
  keysTo := hpair.keysTo
  regularFrom := fun f hf => hpair.regularFrom f ((h.same f).mpr hf)
  regularTo := hpair.regularTo
  sizes := fun f hf => hpair.sizes f ((h.same f).mpr hf)

/-! ## The codec of the program -/

section

/-- What the transport takes from the game. -/
structure Game where
  Obj_SixToSeven : Int → Int
  g_UuidManager : CUuidManager
  UnpackAndValidateSnapshot : CSnapshot → Option CSnapshot

def Game.codec (g : Game) (d : CSnapshotDelta) : Codec CSnapshot (List Int) where
  EmptySnapshot := snapOf []
  Crc s := s.Crc.toOption.getD 0
  CreateDelta From To :=
    match d.CreateDelta From To with
    | .ok (Out, DeltaSize) => if DeltaSize = 0 then none else some Out.words
    | .error _ => none
  EmptyDelta := [0, 0, 0]
  Compress aDeltaData :=
    match Compression.Compress aDeltaData (List.replicate Snapshot.MAX_SIZE 0)
        Snapshot.MAX_SIZE with
    | .ok (SnapshotSize, aCompData) =>
        if SnapshotSize < 0 then none else some (aCompData.take SnapshotSize.toNat)
    | .error _ => none
  Decompress data :=
    match Compression.Decompress data (List.replicate (Snapshot.MAX_SIZE / 4) 0)
        Snapshot.MAX_SIZE with
    | .ok (IntSize, aTmpBuffer2) =>
        if IntSize < 0 then none else some (aTmpBuffer2.take (IntSize.toNat / 4))
    | .error _ => none
  UnpackDelta pFrom pDeltaData :=
    match d.UnpackDelta g.Obj_SixToSeven g.g_UuidManager pFrom (pDeltaData.flatMap intBytes)
        false with
    | .ok (.inr pTo) => some pTo
    | _ => none
  IsValid s := s.IsValid s.TotalSize
  UnpackAndValidateSnapshot := g.UnpackAndValidateSnapshot

/-- The items are laid out as the builder does. -/
def Shaped (s : CSnapshot) : Prop :=
  ∃ items, s = snapOf items ∧ Limits items ∧ (items.map CSnapshotItem.Key).Nodup ∧
    ∀ x ∈ items, IsInt32 x.Key

/-- What a snapshot is about: its items in any order. -/
def content (s : CSnapshot) : Set CSnapshotItem × Prop := ({x | x ∈ s.Items}, Shaped s)

/-- A snapshot that the game makes: built with distinct keys, whole ints, the static sizes and no
full hash list. -/
structure Sendable (g : Game) (d : CSnapshotDelta) (s : CSnapshot) : Prop where
  built : Built g.Obj_SixToSeven g.g_UuidManager s
  keys : (s.Items.map CSnapshotItem.Key).Nodup
  type : ∀ x ∈ s.Items, 0 ≤ x.ItemType ∧ x.ItemType ≤ MAX_TYPE
  words : ∀ x ∈ s.Items, x.Data.length % 4 = 0
  static : ∀ x ∈ s.Items, x.ItemType < MAX_NETOBJSIZES →
    d.m_aItemSizes x.ItemType.toNat ≠ 0 → x.Data.length = d.m_aItemSizes x.ItemType.toNat
  buckets : Buckets s.Items

variable {g : Game}

theorem Shaped.reads {s : CSnapshot} (h : Shaped s) :
    Reads s s.Items ∧ Limits s.Items ∧ (s.Items.map CSnapshotItem.Key).Nodup ∧
      s = snapOf s.Items := by
  obtain ⟨items, rfl, hlimits, hkeys, hint⟩ := h
  have hreads := reads_snapOf hint
  rw [hreads.items_eq]
  exact ⟨hreads, hlimits, hkeys, rfl⟩

theorem Sendable.shaped {s : CSnapshot} (h : Sendable g d s) :
    Shaped s := by
  obtain ⟨items, rfl, hlimits, hint⟩ := h.built.items
  have hkeys := h.keys
  rw [(reads_snapOf hint).items_eq] at hkeys
  exact ⟨items, rfl, hlimits, hkeys, hint⟩

theorem sendable_empty : Sendable g d (snapOf []) := by
  have hitems : (snapOf []).Items = [] := (reads_snapOf (List.forall_mem_nil _)).items_eq
  refine ⟨built_snapOf _ _ ⟨by decide, by decide⟩ (List.forall_mem_nil _), ?_, ?_, ?_, ?_, ?_⟩ <;>
    rw [hitems]
  · exact List.nodup_nil
  all_goals exact List.forall_mem_nil _

theorem Sendable.pair {From To : CSnapshot} (hF : Sendable g d From)
    (hT : Sendable g d To) (hsizes : SameSizes From.Items To.Items) :
    Pair d From.Items To.Items := by
  have hregular : ∀ {s : CSnapshot}, Sendable g d s →
      ∀ x ∈ s.Items, Regular d x := by
    intro s hs x hx
    obtain ⟨items, rfl, -, -, hint⟩ := hs.shaped
    have hkey := hint x (by rwa [(reads_snapOf hint).items_eq] at hx)
    exact ⟨hs.type x hx, hs.words x hx, hs.static x hx, hkey⟩
  exact ⟨hF.keys, hT.keys, hregular hF, hregular hT, hsizes⟩

theorem survives_of_buckets (hF : Buckets fromItems) (hT : Buckets toItems) :
    Survives fromItems toItems := by
  intro f hf t ht hkey
  rw [if_pos (hF.hashed hf), hkey]
  exact .inl (hT.hashed ht)

/-! ## The law of the codec -/

theorem compress_decompress {ws ws' : List Int} (hws : ∀ i ∈ ws, IsInt32 i) {bytes : List UInt8}
    (hcompress : (g.codec d).Compress ws = some bytes)
    (hdecompress : (g.codec d).Decompress bytes = some ws') : ws' = ws := by
  have hsize : Snapshot.MAX_SIZE = (List.replicate Snapshot.MAX_SIZE (0 : UInt8)).length :=
    List.length_replicate.symm
  obtain ⟨rest, hrun, hlength, hcopied⟩ := @Compression.compressLoop_spec []
    (List.replicate Snapshot.MAX_SIZE 0) ws Snapshot.MAX_SIZE hws (by rw [← hsize]; rfl)
  rw [List.length_nil, Nat.zero_add, List.nil_append, List.nil_append] at hrun
  simp only [Game.codec, Compression.Compress, hrun] at hcompress
  by_cases hfits : (Compression.packedAll ws).length ≤
      (List.replicate Snapshot.MAX_SIZE (0 : UInt8)).length
  · rw [if_pos hfits, if_neg (by omega), Int.toNat_natCast] at hcompress
    have hbytes : bytes = Compression.packedAll ws := by
      rw [← Option.some.inj hcompress]
      exact (List.prefix_iff_eq_take.mp (hcopied hfits)).symm
    have hints : Snapshot.MAX_SIZE ≤
        4 * (List.replicate (Snapshot.MAX_SIZE / 4) (0 : Int)).length := by
      rw [List.length_replicate]
      decide
    obtain ⟨r, dst', hrun', hr⟩ :=
      @Compression.Decompress_spec bytes _ Snapshot.MAX_SIZE (by decide) hints
    simp only [Game.codec, hrun'] at hdecompress
    rcases hr with ⟨hfail, -⟩ | ⟨is, his, hr, hdst⟩
    · rw [if_pos (by omega)] at hdecompress
      cases hdecompress
    · rw [if_neg (by omega), hr] at hdecompress
      have hcount : (4 * (is.length : Int)).toNat / 4 = is.length := by omega
      rw [hcount, ← List.prefix_iff_eq_take.mp hdst] at hdecompress
      rw [← Option.some.inj hdecompress]
      rw [hbytes] at his
      exact his.unique (Compression.decodes_packedAll hws)
  · rw [if_neg hfits, if_pos (by decide)] at hcompress
    cases hcompress

/-- What is compressed is the delta between the items. -/
theorem Sendable.createDelta {From To : CSnapshot} (hF : Sendable g d From)
    (hT : Sendable g d To) (hsizes : SameSizes From.Items To.Items) :
    (((g.codec d).CreateDelta From To).getD [0, 0, 0]).flatMap intBytes =
        (deltaOutput d From.Items To.Items).bytes ∧
      ∀ ws, (g.codec d).CreateDelta From To = some ws →
        ws = (deltaOutput d From.Items To.Items).words := by
  have hcreate := hF.shaped.reads.1.createDelta hT.shaped.reads.1 d hF.keys hsizes
  by_cases hempty : (deltaOutput d From.Items To.Items).m_NumDeletedItems = 0 ∧
      (deltaOutput d From.Items To.Items).m_NumUpdateItems = 0
  · rw [if_pos hempty] at hcreate
    have hnone : (g.codec d).CreateDelta From To = none := by
      simp only [Game.codec, hcreate]
      rfl
    rw [hnone]
    refine ⟨?_, fun ws hws => by cases hws⟩
    obtain ⟨hdel, hdata, hupd⟩ := deltaOutput_spec d From.Items To.Items
    rw [hempty.1] at hdel
    rw [hempty.2] at hupd
    have hnil : To.Items.flatMap (chunk d From.Items) = [] := by
      refine List.flatMap_eq_nil_iff.mpr fun t ht => ?_
      have hfilter := List.filter_eq_nil_iff.mp (List.eq_nil_of_length_eq_zero hupd.symm) t ht
      simpa using hfilter
    rw [List.eq_nil_of_length_eq_zero hdel.symm, hnil, List.append_nil] at hdata
    unfold Output.bytes
    rw [hempty.1, hempty.2, hdata]
    rfl
  · rw [if_neg hempty] at hcreate
    have hsome : (g.codec d).CreateDelta From To =
        some (deltaOutput d From.Items To.Items).words := by
      simp only [Game.codec, hcreate]
      rw [if_neg (by omega)]
    rw [hsome]
    exact ⟨rfl, fun ws hws => (Option.some.inj hws).symm⟩

theorem Sendable.isInt32_words {From To : CSnapshot} (hF : Sendable g d From)
    (hT : Sendable g d To) (hsizes : SameSizes From.Items To.Items) :
    ∀ w ∈ (deltaOutput d From.Items To.Items).words, IsInt32 w := by
  have hpair := hF.pair hT hsizes
  obtain ⟨-, hlimitsF, -⟩ := hF.shaped.reads
  obtain ⟨-, hlimitsT, -⟩ := hT.shaped.reads
  obtain ⟨hdel, hdata, hupd⟩ := deltaOutput_spec d From.Items To.Items
  have hmaxI : MAX_ITEMS = 1024 := rfl
  have hcountF := hlimitsF.count
  have hcountT := hlimitsT.count
  have hdelle : (Snapshot.deletedKeys From.Items To.Items).length ≤ From.Items.length := by
    unfold Snapshot.deletedKeys
    rw [List.length_map]
    exact List.length_filter_le _ _
  have hupdle := List.length_filter_le (fun t => !(chunk d From.Items t).isEmpty) To.Items
  intro w hw
  unfold Output.words at hw
  rw [hdel, hdata, hupd] at hw
  rcases List.mem_cons.mp hw with rfl | hw
  · unfold IsInt32
    omega
  rcases List.mem_cons.mp hw with rfl | hw
  · unfold IsInt32
    omega
  rcases List.mem_cons.mp hw with rfl | hw
  · decide
  rcases List.mem_append.mp hw with hw | hw
  · obtain ⟨f, hf, rfl⟩ := List.mem_map.mp hw
    exact (hpair.regularFrom f (List.mem_filter.mp hf).1).key
  · obtain ⟨t, ht, hwt⟩ := List.mem_flatMap.mp hw
    exact isInt32_of_mem_chunk (hpair.regularTo t ht) (length_le_of_limits hlimitsT ht) hwt

/-- Between snapshots that the game makes the deltas are lawful. -/
theorem lawful_of_sendable {e : Encoded CSnapshot}
    (hF : Sendable g d e.pDeltashot)
    (hT : Sendable g d e.pData)
    (hsizes : SameSizes e.pDeltashot.Items e.pData.Items) :
    Lawful (g.codec d) content e := by
  obtain ⟨hbytes, hwords⟩ := hF.createDelta hT hsizes
  constructor
  · intro base S hcontent hunpack
    obtain ⟨hitems, hshaped⟩ := Prod.mk.inj hcontent
    obtain ⟨hreads, -, hkeys, -⟩ := Shaped.reads (hshaped.mpr hF.shaped)
    have hre : Reordered e.pDeltashot.Items base.Items :=
      ⟨fun x => (Set.ext_iff.mp hitems x).symm, hF.keys, hkeys⟩
    have hpair := hF.pair hT hsizes
    obtain ⟨hrun, hlimits, hkeysS, hint⟩ := hreads.unpackDelta_of_chunk g.Obj_SixToSeven
      g.g_UuidManager (hre.pair hpair) hpair (funext (hre.chunk hF.buckets))
      (fun key => (hre.deletedKeys e.pData.Items).mem_iff) hF.shaped.reads.2.1
      hT.shaped.reads.2.1
    have hS : S = snapOf (unpackedItems d base.Items e.pData.Items) := by
      change (match d.UnpackDelta g.Obj_SixToSeven g.g_UuidManager base
        ((e.delta (g.codec d)).flatMap intBytes) false with
        | .ok (.inr pTo) => some pTo
        | _ => none) = some S at hunpack
      have hdelta : (e.delta (g.codec d)).flatMap intBytes =
          (deltaOutput d e.pDeltashot.Items e.pData.Items).bytes := hbytes
      rw [hdelta, hrun] at hunpack
      exact (Option.some.inj hunpack).symm
    have hsame := (hre.pair hpair).same_of_survives
      (survives_of_buckets (hre.buckets hF.buckets) hT.buckets)
    refine Prod.ext ?_ ?_
    · ext x
      change x ∈ S.Items ↔ x ∈ e.pData.Items
      rw [hS, (reads_snapOf hint).items_eq]
      exact hsame x
    · exact propext (iff_of_true ⟨_, hS, hlimits, hkeysS, hint⟩ hT.shaped)
  · intro ws ws' bytes hcreate hcompress hdecompress
    rw [hwords ws hcreate] at hcompress ⊢
    exact compress_decompress (hF.isInt32_words hT hsizes) hcompress hdecompress

/-! ## Runs -/

variable (g d)

/-- What may happen: the ticks increase, the game makes its snapshots with one size for a key, and
messages arrive that were sent. -/
def Plays (s : System CSnapshot) : Event CSnapshot → Prop
  | .snapshot m_CurrentGameTick _ pData =>
      0 ≤ m_CurrentGameTick ∧ (∀ e ∈ s.history, e.m_Tick < m_CurrentGameTick) ∧
        Sendable g d pData ∧
        ∀ e ∈ s.history, SameSizes e.pData.Items pData.Items
  | .input _ => True
  | .recv m _ => m ∈ s.sent
  | .switch => True

variable {g d}

theorem Plays.allowed {s : System CSnapshot} {event : Event CSnapshot}
    (h : Plays d g s event) (hinv : Inv (g.codec d) content s)
    (hsendable : ∀ e ∈ s.history, Sendable g d e.pData) :
    Allowed (g.codec d) content s event := by
  cases event with
  | input LastAckedSnapshot => trivial
  | switch => trivial
  | recv m Now => exact h
  | snapshot m_CurrentGameTick Now pData =>
      obtain ⟨hpos, hnew, hdata, hsizes⟩ := h
      refine ⟨hpos, hnew, fun e he => ?_⟩
      obtain hnone | ⟨slot', e', hrun, -, hpData, hsnapshots, hbase⟩ := s.slot.doSnapshot_cases
        (g.codec d) m_CurrentGameTick Now pData
      · rw [hnone] at he
        cases he
      · rw [hrun] at he
        obtain rfl : e' = e := Option.some.inj he
        have hself : SameSizes pData.Items pData.Items := by
          intro f hf t ht hkey
          rw [List.inj_on_of_nodup_map hdata.keys hf ht hkey]
        obtain ⟨hshot, hsame⟩ : Sendable g d e'.pDeltashot ∧
            SameSizes e'.pDeltashot.Items pData.Items := by
          rcases hbase with ⟨-, hempty⟩ | ⟨x, hx, -, hsnap⟩
          · have hitems : (snapOf []).Items = [] := (reads_snapOf (List.forall_mem_nil _)).items_eq
            rw [hempty]
            refine ⟨sendable_empty, fun f hf => ?_⟩
            change f ∈ (snapOf []).Items at hf
            rw [hitems] at hf
            cases hf
          · rw [← hsnap]
            rw [hsnapshots] at hx
            rcases List.mem_append.mp hx with hx | hx
            · obtain ⟨y, hy, -, hydata⟩ :=
                hinv.sends.stored x ((purgeUntil_sublist _ _).subset hx)
              rw [← hydata]
              exact ⟨hsendable y hy, hsizes y hy⟩
            · rw [List.mem_singleton.mp hx]
              exact ⟨hdata, hself⟩
        rw [← hpData] at hdata hsame
        exact lawful_of_sendable hshot hdata hsame

theorem Plays.step {s t : System CSnapshot} {event : Event CSnapshot}
    (h : Plays d g s event)
    (hinv : Inv (g.codec d) content s ∧ ∀ e ∈ s.history, Sendable g d e.pData)
    (hstep : step (g.codec d) s event = .ok t) :
    Inv (g.codec d) content t ∧ ∀ e ∈ t.history, Sendable g d e.pData := by
  refine ⟨hinv.1.step (h.allowed hinv.1 hinv.2) hstep, ?_⟩
  cases event with
  | input _ | switch | recv _ _ =>
      cases hstep
      exact hinv.2
  | snapshot m_CurrentGameTick Now pData =>
      obtain ⟨-, -, hdata, -⟩ := h
      obtain hnone | ⟨slot', e', hrun, -, hpData, -⟩ := s.slot.doSnapshot_cases
        (g.codec d) m_CurrentGameTick Now pData
      · simp only [SnapshotTransport.step, hnone] at hstep
        cases hstep
        simpa using hinv.2
      · simp only [SnapshotTransport.step, hrun] at hstep
        cases hstep
        intro e he
        rcases List.mem_append.mp he with he | he
        · exact hinv.2 e he
        · rw [Option.toList_some, List.mem_singleton] at he
          rw [he, hpData]
          exact hdata

end

end Fex.Engine.SnapshotTransport
