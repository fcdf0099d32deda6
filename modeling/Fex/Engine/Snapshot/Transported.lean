import Fex.Engine.Snapshot.Transport

/-!
# What the transport promises

A message is a part of the only snapshot of its tick.  The parts that a client has are parts of the
bytes of that snapshot, so what it unpacks has the content that the server stored.
-/

namespace Fex.Engine.SnapshotTransport

open Fex.Lib
open Fex.Engine.Snapshot (MAX_PARTS MAX_SIZE MAX_SNAPSHOT_PACKSIZE)

variable {σ δ κ : Type} {C : Codec σ δ} {content : σ → κ}

/-! ## Storage -/

/-- The ticks of the holders increase. -/
def Sorted (storage : List (CHolder σ)) : Prop :=
  storage.Pairwise fun x y => x.m_Tick < y.m_Tick

/-- There is a holder of the tick. -/
def Stored (storage : List (CHolder σ)) (Tick : Int) : Prop := ∃ h ∈ storage, h.m_Tick = Tick

variable {storage : List (CHolder σ)} {Tick : Int}

theorem purgeUntil_sublist (storage : List (CHolder σ)) (Tick : Int) :
    (PurgeUntil storage Tick).Sublist storage := List.dropWhile_sublist _

/-- What is not older stays. -/
theorem mem_purgeUntil (hsorted : Sorted storage) {h : CHolder σ} (hmem : h ∈ storage)
    (hle : Tick ≤ h.m_Tick) : h ∈ PurgeUntil storage Tick := by
  induction storage with
  | nil => exact absurd hmem List.not_mem_nil
  | cons x rest ih =>
      obtain ⟨-, hrest⟩ := List.pairwise_cons.mp hsorted
      unfold PurgeUntil
      by_cases hx : x.m_Tick < Tick
      · rw [List.dropWhile_cons_of_pos (by simpa using hx)]
        refine ih hrest ((List.mem_cons.mp hmem).resolve_left ?_)
        rintro rfl
        omega
      · rwa [List.dropWhile_cons_of_neg (by simpa using hx)]

theorem Stored.purgeUntil (hsorted : Sorted storage) {t : Int} (h : Stored storage t)
    (hle : Tick ≤ t) : Stored (PurgeUntil storage Tick) t := by
  obtain ⟨x, hx, rfl⟩ := h
  exact ⟨x, mem_purgeUntil hsorted hx hle, rfl⟩

theorem purgeUntil_eq_self (h : ∀ x ∈ storage, Tick ≤ x.m_Tick) :
    PurgeUntil storage Tick = storage := by
  cases storage with
  | nil => rfl
  | cons x rest =>
      have hx := h x List.mem_cons_self
      exact List.dropWhile_cons_of_neg (by simpa using hx)

theorem mem_of_get {h : CHolder σ} (hget : Get storage Tick = some h) :
    h ∈ storage ∧ h.m_Tick = Tick :=
  ⟨List.mem_of_find?_eq_some hget, by simpa using List.find?_some hget⟩

/-! ## What a message carries -/

/-- The difference to the snapshot that was compared. -/
def Encoded.delta (C : Codec σ δ) (e : Encoded σ) : δ :=
  (C.CreateDelta e.pDeltashot e.pData).getD C.EmptyDelta

/-- The bytes that are sent. -/
def Encoded.payload (C : Codec σ δ) (e : Encoded σ) : List UInt8 :=
  ((C.CreateDelta e.pDeltashot e.pData).bind C.Compress).getD []

def Encoded.numParts (C : Codec σ δ) (e : Encoded σ) : Nat :=
  max 1 (numFragments MAX_SNAPSHOT_PACKSIZE (e.payload C))

/-- The delta leads from everything with the content of the old snapshot to the content of the new
one, and nothing else is read from its bytes. -/
structure Lawful (C : Codec σ δ) (content : σ → κ) (e : Encoded σ) : Prop where
  unpack : ∀ base S, content base = content e.pDeltashot →
    C.UnpackDelta base (e.delta C) = some S → content S = content e.pData
  decompress : ∀ d d' bytes, C.CreateDelta e.pDeltashot e.pData = some d →
    C.Compress d = some bytes → C.Decompress bytes = some d' → d' = d

/-- A message is a part of the snapshot. -/
structure PartOf (C : Codec σ δ) (m : Message) (e : Encoded σ) : Prop where
  GameTick : m.GameTick = e.m_Tick
  DeltaTick : m.DeltaTick = e.DeltaTick
  NumParts : m.NumParts = e.numParts C
  Part : m.Part < e.numParts C
  pData : m.pData = fragment MAX_SNAPSHOT_PACKSIZE (e.payload C) m.Part

theorem numFragments_pos {data : List UInt8} (h : data ≠ []) :
    1 ≤ numFragments MAX_SNAPSHOT_PACKSIZE data := by
  have hpos := List.length_pos_iff.mpr h
  exact Nat.div_pos (by omega) (by decide)

theorem partOf_of_mem {m : Message} {e : Encoded σ} (hm : m ∈ e.messages C) : PartOf C m e := by
  unfold Encoded.messages at hm
  split at hm
  next hcreate =>
    have hpayload : e.payload C = [] := by
      rw [Encoded.payload, hcreate]
      rfl
    have hparts : e.numParts C = 1 := by
      have hnum : numFragments MAX_SNAPSHOT_PACKSIZE [] = 0 := Nat.div_eq_of_lt (by decide)
      rw [Encoded.numParts, hpayload, hnum]
      rfl
    rw [List.mem_singleton.mp hm]
    refine ⟨rfl, Int.sub_sub_self _ _, hparts.symm, ?_, ?_⟩
    · rw [hparts]
      exact Nat.one_pos
    · rw [hpayload, fragment, List.drop_nil, List.take_nil]
      rfl
  next aDeltaData hcreate =>
    split at hm
    · cases hm
    next aCompData hcompress =>
      have hpayload : e.payload C = aCompData := by
        rw [Encoded.payload, hcreate, Option.bind_some, hcompress]
        rfl
      obtain ⟨n, hn, rfl⟩ := List.mem_map.mp hm
      have hlt := List.mem_range.mp hn
      have hparts : e.numParts C = numFragments MAX_SNAPSHOT_PACKSIZE aCompData := by
        rw [Encoded.numParts, hpayload, Nat.max_eq_right]
        omega
      rw [← hpayload] at hlt hparts ⊢
      by_cases hone : numFragments MAX_SNAPSHOT_PACKSIZE (e.payload C) = 1
      · have hzero : n = 0 := by omega
        rw [if_pos hone, hzero]
        rw [hone] at hparts
        refine ⟨rfl, Int.sub_sub_self _ _, hparts.symm, ?_, ?_⟩
        · rw [hparts]
          exact Nat.one_pos
        · rw [Message.pData, Message.Part]
      · rw [if_neg hone]
        exact ⟨rfl, Int.sub_sub_self _ _, hparts.symm, by rw [hparts]; exact hlt, rfl⟩

/-- The bytes of a snapshot that was sent are its delta. -/
theorem Lawful.decode {m : Message} {e : Encoded σ} (h : Lawful C content e)
    (hm : m ∈ e.messages C) {d : δ} (hdecode : Client.decode C (e.payload C) = some d) :
    d = e.delta C := by
  unfold Encoded.messages at hm
  unfold Encoded.payload at hdecode
  unfold Encoded.delta
  split at hm
  next hcreate =>
    rw [hcreate] at hdecode ⊢
    exact (Option.some.inj hdecode).symm
  next aDeltaData hcreate =>
    split at hm
    · cases hm
    next aCompData hcompress =>
      obtain ⟨n, hn, -⟩ := List.mem_map.mp hm
      have hlt := List.mem_range.mp hn
      have hne : aCompData.length ≠ 0 := by
        intro hzero
        rw [List.length_eq_zero_iff.mp hzero] at hlt
        exact absurd hlt (Nat.not_lt_zero n)
      rw [hcreate, Option.bind_some, hcompress, Option.getD_some, Client.decode,
        if_neg hne] at hdecode
      rw [hcreate]
      exact h.decompress aDeltaData d aCompData hcreate hcompress hdecode

/-! ## The invariant -/

/-- The snapshot is compared with none or with one of the history. -/
def Based (C : Codec σ δ) (history : List (Encoded σ)) (e : Encoded σ) : Prop :=
  e.DeltaTick = -1 ∧ e.pDeltashot = C.EmptySnapshot ∨
    0 ≤ e.DeltaTick ∧ ∃ b ∈ history, b.m_Tick = e.DeltaTick ∧ b.pData = e.pDeltashot

/-- The server and the messages. -/
structure Sends (C : Codec σ δ) (content : σ → κ) (slot : Slot σ) (sent : List Message)
    (history : List (Encoded σ)) : Prop where
  ticks : history.Pairwise fun x y => x.m_Tick < y.m_Tick
  nonneg : ∀ e ∈ history, 0 ≤ e.m_Tick
  lawful : ∀ e ∈ history, Lawful C content e
  based : ∀ e ∈ history, Based C history e
  stored : ∀ h ∈ slot.m_Snapshots, ∃ e ∈ history, e.m_Tick = h.m_Tick ∧ e.pData = h.m_pSnap
  sent : ∀ m ∈ sent, ∃ e ∈ history, m ∈ e.messages C

/-- What the client added has the content that the server stored, and what the pointers are to is
in the storage. -/
structure Keeps (content : σ → κ) (history : List (Encoded σ)) (added storage : List (CHolder σ))
    (m_aapSnapshots : Option (Int × Int)) : Prop where
  agrees : ∀ h ∈ added, ∃ e ∈ history, e.m_Tick = h.m_Tick ∧ content h.m_pSnap = content e.pData
  sorted : Sorted added
  sublist : storage.Sublist added
  early : added.length ≤ 1 → storage = added ∧ m_aapSnapshots = none
  held : 2 ≤ added.length → ∃ prev current, m_aapSnapshots = some (prev, current) ∧
    prev < current ∧ Stored storage prev ∧ Stored storage current

/-- The last tick and the one that is acknowledged. -/
structure Acks (added : List (CHolder σ)) (m_aCurrentRecvTick m_aAckGameTick : Int) : Prop where
  recent : ∀ h ∈ added, h.m_Tick ≤ m_aCurrentRecvTick ∧
    (h.m_Tick = m_aCurrentRecvTick → m_aAckGameTick = m_aCurrentRecvTick)
  ack : m_aAckGameTick = -1 ∨ Stored added m_aAckGameTick

/-- The parts of a snapshot that came in. -/
structure Assembling (C : Codec σ δ) (c : Client σ) (e : Encoded σ) : Prop where
  filled : Filled MAX_SNAPSHOT_PACKSIZE (e.payload C) c.m_aaSnapshotIncomingData c.m_aSnapshotParts
  size : c.m_aSnapshotParts.testBit (e.numParts C - 1) = true →
    c.m_aSnapshotIncomingDataSize = (e.payload C).length

structure Receives (C : Codec σ δ) (content : σ → κ) (history : List (Encoded σ))
    (added : List (CHolder σ)) (c : Client σ) : Prop where
  keeps : Keeps content history added c.m_aSnapshotStorage c.m_aapSnapshots
  acks : Acks added c.m_aCurrentRecvTick c.m_aAckGameTick
  count : c.m_aReceivedSnapshots = added.length
  parts : ∀ e ∈ history, e.m_Tick = c.m_aCurrentRecvTick → Assembling C c e
  current : (∃ e ∈ history, e.m_Tick = c.m_aCurrentRecvTick) ∨ c.m_aSnapshotParts = 0

/-- The invariant of the system. -/
structure Inv (C : Codec σ δ) (content : σ → κ) (s : System σ) : Prop where
  sends : Sends C content s.slot s.sent s.history
  receives : Receives C content s.history s.added s.client

/-- What may happen: ticks increase, the deltas are lawful and messages arrive that were sent. -/
def Allowed (C : Codec σ δ) (content : σ → κ) (s : System σ) : Event σ → Prop
  | .snapshot m_CurrentGameTick Now pData =>
      0 ≤ m_CurrentGameTick ∧ (∀ e ∈ s.history, e.m_Tick < m_CurrentGameTick) ∧
        ∀ e, (s.slot.DoSnapshot C m_CurrentGameTick Now pData).2 = some e → Lawful C content e
  | .input _ => True
  | .recv m _ => m ∈ s.sent
  | .switch => True

/-- A history has one snapshot of a tick. -/
theorem eq_of_tick {history : List (Encoded σ)}
    (h : history.Pairwise fun x y => x.m_Tick < y.m_Tick) {e e' : Encoded σ} (he : e ∈ history)
    (he' : e' ∈ history) (htick : e.m_Tick = e'.m_Tick) : e = e' := by
  induction history with
  | nil => exact absurd he List.not_mem_nil
  | cons x rest ih =>
      obtain ⟨hx, hrest⟩ := List.pairwise_cons.mp h
      rcases List.mem_cons.mp he with heq | hmem
      · rcases List.mem_cons.mp he' with heq' | hmem'
        · rw [heq, heq']
        · have hlt := hx e' hmem'
          rw [← heq, htick] at hlt
          exact absurd hlt (Int.lt_irrefl _)
      · rcases List.mem_cons.mp he' with heq' | hmem'
        · have hlt := hx e hmem
          rw [← heq', htick] at hlt
          exact absurd hlt (Int.lt_irrefl _)
        · exact ih hrest hmem hmem'

/-! ## The client -/

section

variable {history : List (Encoded σ)} {added : List (CHolder σ)} {c : Client σ} {e : Encoded σ}
  {m : Message}

/-- The tick of a part that is taken becomes the current one, everything added is older. -/
theorem Receives.startTick (h : Receives C content history added c)
    (hge : e.m_Tick ≥ c.m_aCurrentRecvTick) (hgt : e.m_Tick > c.m_aAckGameTick) :
    Receives C content history added (c.startTick e.m_Tick) ∧
      (c.startTick e.m_Tick).m_aCurrentRecvTick = e.m_Tick ∧ ∀ x ∈ added, x.m_Tick < e.m_Tick := by
  have holder : ∀ x ∈ added, x.m_Tick < e.m_Tick := by
    intro x hx
    obtain ⟨hle, hack⟩ := h.acks.recent x hx
    by_contra hnot
    have heq : x.m_Tick = c.m_aCurrentRecvTick := by omega
    have hcurrent := hack heq
    omega
  unfold Client.startTick
  split
  · refine
      ⟨⟨h.keeps, ⟨fun x hx => ?_, h.acks.ack⟩, h.count, fun e' _ _ => ?_, .inr rfl⟩, rfl, holder⟩
    · have hlt := holder x hx
      exact ⟨Int.le_of_lt hlt, fun heq => absurd heq (Int.ne_of_lt hlt)⟩
    · refine ⟨filled_zero _ _ _, fun hbit => ?_⟩
      rw [Nat.zero_testBit] at hbit
      cases hbit
  next heq => exact ⟨h, (not_not.mp heq).symm, holder⟩

/-- The bytes end with the last part. -/
theorem length_payload (C : Codec σ δ) (e : Encoded σ) :
    (e.numParts C - 1) * MAX_SNAPSHOT_PACKSIZE +
        (fragment MAX_SNAPSHOT_PACKSIZE (e.payload C) (e.numParts C - 1)).length =
      (e.payload C).length := by
  by_cases hnil : e.payload C = []
  · have hnum : numFragments MAX_SNAPSHOT_PACKSIZE [] = 0 := Nat.div_eq_of_lt (by decide)
    rw [Encoded.numParts, hnil, hnum, fragment, List.drop_nil, List.take_nil]
    rfl
  · rw [Encoded.numParts, Nat.max_eq_right (numFragments_pos hnil)]
    exact last_fragment (by decide) hnil

theorem Assembling.storePart (h : Assembling C c e) (hm : PartOf C m e)
    (hmax : m.NumParts ≤ MAX_PARTS) : Assembling C (c.storePart m) e := by
  have hpart := hm.Part
  rw [← hm.NumParts] at hpart
  have hle : m.pData.length ≤ MAX_SIZE - m.Part * MAX_SNAPSHOT_PACKSIZE := by
    have hlength := length_fragment_le MAX_SNAPSHOT_PACKSIZE (e.payload C) m.Part
    rw [← hm.pData] at hlength
    have hsize : MAX_SIZE = 65536 := rfl
    have hpack : MAX_SNAPSHOT_PACKSIZE = 900 := rfl
    have hparts : MAX_PARTS = 64 := rfl
    rw [hpack] at hlength ⊢
    omega
  constructor
  · have hcopy := h.filled.copy m.Part
    rw [← hm.pData] at hcopy
    rwa [Client.storePart, List.take_of_length_le hle]
  · intro hbit
    change (if m.Part = m.NumParts - 1 then
      (m.NumParts - 1) * MAX_SNAPSHOT_PACKSIZE + m.pData.length
      else c.m_aSnapshotIncomingDataSize) = _
    split
    next hlast =>
      rw [hm.pData, hlast, hm.NumParts]
      exact length_payload C e
    next hlast =>
      refine h.size (((testBit_or_shift _ _ _).mp hbit).resolve_right ?_)
      rw [← hm.NumParts]
      exact fun heq => hlast heq.symm

theorem Receives.storePart (h : Receives C content history added c) (hticks : history.Pairwise
    fun x y => x.m_Tick < y.m_Tick) (he : e ∈ history) (hm : PartOf C m e)
    (hmax : m.NumParts ≤ MAX_PARTS) (hcurrent : c.m_aCurrentRecvTick = e.m_Tick) :
    Receives C content history added (c.storePart m) := by
  refine ⟨h.keeps, h.acks, h.count, fun e' he' htick => ?_, .inl ⟨e, he, hcurrent.symm⟩⟩
  have heq : e' = e := eq_of_tick hticks he' he (htick.trans hcurrent)
  rw [heq]
  exact (h.parts e he hcurrent.symm).storePart hm hmax

/-- All parts are the bytes of the snapshot. -/
theorem Assembling.slice (h : Assembling C c e) (hcomplete : c.complete (e.numParts C) = true) :
    c.m_aaSnapshotIncomingData.slice 0 c.m_aSnapshotIncomingDataSize = e.payload C := by
  have hparts : c.m_aSnapshotParts = 2 ^ e.numParts C - 1 := by
    rcases of_decide_eq_true hcomplete with ⟨-, hparts⟩ | ⟨hnum, hparts⟩
    · exact hparts
    · rw [hparts, hnum]
      rfl
  have hbits : ∀ n < e.numParts C, c.m_aSnapshotParts.testBit n = true := by
    intro n hn
    rw [hparts, Nat.testBit_two_pow_sub_one]
    exact decide_eq_true hn
  have hone : 1 ≤ e.numParts C := Nat.le_max_left _ _
  rw [h.size (hbits _ (by omega))]
  exact h.filled.all (by decide) fun n hn => hbits n (Nat.lt_of_lt_of_le hn (Nat.le_max_right _ _))

/-- The snapshot that the client uses has the content of the one that the server used. -/
theorem Receives.deltaShot (h : Receives C content history added c) (hticks : history.Pairwise
    fun x y => x.m_Tick < y.m_Tick) (hbased : Based C history e) {base : σ}
    (hbase : c.deltaShot C e.DeltaTick = some base) :
    content base = content e.pDeltashot ∧
      (0 ≤ e.DeltaTick → Stored c.m_aSnapshotStorage e.DeltaTick) := by
  unfold Client.deltaShot at hbase
  rcases hbased with ⟨hnone, hempty⟩ | ⟨hpos, b, hb, htick, hdata⟩
  · rw [if_neg (by omega)] at hbase
    rw [hempty, Option.some.inj hbase]
    exact ⟨rfl, fun hpos => by omega⟩
  · rw [if_pos hpos] at hbase
    obtain ⟨x, hget, rfl⟩ := Option.map_eq_some_iff.mp hbase
    obtain ⟨hx, hxtick⟩ := mem_of_get hget
    obtain ⟨e', he', htick', hcontent⟩ := h.keeps.agrees x (h.keeps.sublist.subset hx)
    have heq : e' = b := eq_of_tick hticks he' hb (by rw [htick', hxtick, htick])
    rw [hcontent, heq, hdata]
    exact ⟨rfl, fun _ => ⟨x, hx, hxtick⟩⟩

theorem eq_of_length_le_one {α : Type} {l : List α} (h : l.length ≤ 1) {x y : α} (hx : x ∈ l)
    (hy : y ∈ l) : x = y := by
  cases l with
  | nil => cases hx
  | cons z rest =>
      cases rest with
      | nil => rw [List.mem_singleton.mp hx, List.mem_singleton.mp hy]
      | cons w rest =>
          rw [List.length_cons, List.length_cons] at h
          omega

/-- The snapshots in use are not purged. -/
theorem Keeps.purge {storage : List (CHolder σ)} {m_aapSnapshots : Option (Int × Int)}
    (h : Keeps content history added storage m_aapSnapshots) (hnonneg : ∀ e ∈ history, 0 ≤ e.m_Tick)
    {DeltaTick PurgeTick : Int} (hdelta : DeltaTick = -1 ∨ Stored storage DeltaTick)
    (hle : PurgeTick ≤ DeltaTick)
    (hheld : ∀ prev current, m_aapSnapshots = some (prev, current) →
      PurgeTick ≤ prev ∧ PurgeTick ≤ current) :
    Keeps content history added (PurgeUntil storage PurgeTick) m_aapSnapshots := by
  have hsorted : Sorted storage := h.sorted.sublist h.sublist
  refine ⟨h.agrees, h.sorted, (purgeUntil_sublist _ _).trans h.sublist, fun hlen => ?_,
    fun hlen => ?_⟩
  · obtain ⟨hall, hnone⟩ := h.early hlen
    refine ⟨?_, hnone⟩
    rw [purgeUntil_eq_self, hall]
    -- there is at most one snapshot, and it is the one that the delta is to
    intro x hx
    rcases hdelta with hdelta | ⟨y, hy, htick⟩
    · obtain ⟨e, he, htick, -⟩ := h.agrees x (h.sublist.subset hx)
      have hpos := hnonneg e he
      omega
    · have hxy : x = y := by
        rw [hall] at hx hy
        exact eq_of_length_le_one hlen hx hy
      rw [hxy]
      omega
  · obtain ⟨prev, current, hpointers, hlt, hprev, hcurrent⟩ := h.held hlen
    obtain ⟨hleprev, hlecurrent⟩ := hheld prev current hpointers
    exact ⟨prev, current, hpointers, hlt, hprev.purgeUntil hsorted hleprev,
      hcurrent.purgeUntil hsorted hlecurrent⟩

theorem Stored.append {storage : List (CHolder σ)} {t : Int} (h : Stored storage t)
    (l : List (CHolder σ)) : Stored (storage ++ l) t := by
  obtain ⟨x, hx, htick⟩ := h
  exact ⟨x, List.mem_append_left l hx, htick⟩

theorem Receives.accept (h : Receives C content history added c) (he : e ∈ history)
    (hcurrent : c.m_aCurrentRecvTick = e.m_Tick) (holder : ∀ x ∈ added, x.m_Tick < e.m_Tick)
    {pSnap : σ} (hcontent : content pSnap = content e.pData) (Now : Int) (pAltSnap : σ) :
    Receives C content history (added ++ [⟨e.m_Tick, Now, pSnap, some pAltSnap⟩])
      (c.accept e.m_Tick Now pSnap pAltSnap) := by
  have hstored : ∀ l : List (CHolder σ),
      Stored (l ++ [⟨e.m_Tick, Now, pSnap, some pAltSnap⟩]) e.m_Tick := fun l =>
    ⟨⟨e.m_Tick, Now, pSnap, some pAltSnap⟩, List.mem_append_right l List.mem_cons_self, rfl⟩
  refine ⟨⟨?_, ?_, ?_, fun hlen => ?_, fun hlen => ?_⟩, ⟨?_, .inr (hstored added)⟩, ?_,
    fun e' he' htick => ?_, .inl ⟨e, he, hcurrent.symm⟩⟩
  · intro x hx
    rcases List.mem_append.mp hx with hx | hx
    · exact h.keeps.agrees x hx
    · rw [List.mem_singleton.mp hx]
      exact ⟨e, he, rfl, hcontent⟩
  · refine List.pairwise_append.mpr
      ⟨h.keeps.sorted, List.pairwise_singleton _ _, fun x hx y hy => ?_⟩
    rw [List.mem_singleton.mp hy]
    exact holder x hx
  · exact h.keeps.sublist.append (List.Sublist.refl _)
  · rw [List.length_append, List.length_singleton] at hlen
    obtain ⟨hall, hnone⟩ := h.keeps.early (by omega)
    refine ⟨congrArg (· ++ _) hall, ?_⟩
    change (if c.m_aReceivedSnapshots + 1 = 2 then _ else c.m_aapSnapshots) = none
    rw [if_neg (by rw [h.count]; omega), hnone]
  · change ∃ prev current, (if c.m_aReceivedSnapshots + 1 = 2 then _ else c.m_aapSnapshots) = _ ∧ _
    rw [List.length_append, List.length_singleton] at hlen
    rw [h.count]
    by_cases htwo : added.length + 1 = 2
    · -- the pointers are set to the two snapshots that there are
      obtain ⟨hall, -⟩ := h.keeps.early (by omega)
      obtain ⟨y, hy⟩ := List.length_eq_one_iff.mp (show added.length = 1 by omega)
      rw [if_pos htwo]
      refine
        ⟨y.m_Tick, e.m_Tick, ?_, holder y (by rw [hy]; exact List.mem_cons_self), ?_, hstored _⟩
      · rw [Add, hall, hy]
        rfl
      · refine Stored.append ⟨y, ?_, rfl⟩ _
        rw [hall, hy]
        exact List.mem_cons_self
    · obtain ⟨prev, current, hpointers, hlt, hprev, hcur⟩ := h.keeps.held (by omega)
      rw [if_neg htwo]
      exact ⟨prev, current, hpointers, hlt, hprev.append _, hcur.append _⟩
  · intro x hx
    change x.m_Tick ≤ c.m_aCurrentRecvTick ∧ (x.m_Tick = c.m_aCurrentRecvTick →
      e.m_Tick = c.m_aCurrentRecvTick)
    rw [hcurrent]
    rcases List.mem_append.mp hx with hx | hx
    · exact ⟨Int.le_of_lt (holder x hx), fun _ => rfl⟩
    · rw [List.mem_singleton.mp hx]
      exact ⟨Int.le_refl _, fun _ => rfl⟩
  · change c.m_aReceivedSnapshots + 1 = _
    rw [h.count, List.length_append, List.length_singleton]
  · have hparts := h.parts e' he' htick
    exact ⟨hparts.filled, hparts.size⟩

/-- Asking for a resync forgets the last tick, which was not added. -/
theorem Receives.resync (h : Receives C content history added c)
    (holder : ∀ x ∈ added, x.m_Tick < c.m_aCurrentRecvTick) :
    Receives C content history added c.resync := by
  refine ⟨h.keeps, ⟨fun x hx => ?_, .inl rfl⟩, h.count, fun e' he' htick => ?_, h.current⟩
  · have hlt := holder x hx
    exact ⟨Int.le_of_lt hlt, fun heq => absurd heq (Int.ne_of_lt hlt)⟩
  · have hparts := h.parts e' he' htick
    exact ⟨hparts.filled, hparts.size⟩

theorem Receives.crcError (h : Receives C content history added c)
    (holder : ∀ x ∈ added, x.m_Tick < c.m_aCurrentRecvTick) :
    Receives C content history added c.crcError := by
  unfold Client.crcError
  split
  · have hresync := h.resync holder
    refine ⟨hresync.keeps, hresync.acks, hresync.count, fun e' he' htick => ?_, hresync.current⟩
    have hparts := hresync.parts e' he' htick
    exact ⟨hparts.filled, hparts.size⟩
  · refine ⟨h.keeps, h.acks, h.count, fun e' he' htick => ?_, h.current⟩
    have hparts := h.parts e' he' htick
    exact ⟨hparts.filled, hparts.size⟩

theorem purgeTick_le (c : Client σ) (DeltaTick : Int) : c.PurgeTick DeltaTick ≤ DeltaTick ∧
    ∀ prev current, c.m_aapSnapshots = some (prev, current) →
      c.PurgeTick DeltaTick ≤ prev ∧ c.PurgeTick DeltaTick ≤ current := by
  unfold Client.PurgeTick
  cases c.m_aapSnapshots with
  | none => exact ⟨Int.le_refl _, fun _ _ h => by cases h⟩
  | some pointers =>
      obtain ⟨p, q⟩ := pointers
      dsimp only
      refine ⟨by omega, fun prev current h => ?_⟩
      obtain ⟨rfl, rfl⟩ := Prod.mk.inj (Option.some.inj h)
      omega

/-- What is unpacked is added if it has the content that the server stored. -/
theorem Receives.verify (h : Receives C content history added c)
    (hnonneg : ∀ e ∈ history, 0 ≤ e.m_Tick) (he : e ∈ history)
    (hcurrent : c.m_aCurrentRecvTick = e.m_Tick) (holder : ∀ x ∈ added, x.m_Tick < e.m_Tick)
    (htick : m.GameTick = e.m_Tick)
    (hdelta : m.DeltaTick = -1 ∨ Stored c.m_aSnapshotStorage m.DeltaTick) {pSnap : σ}
    (hcontent : content pSnap = content e.pData) (Now : Int) :
    Receives C content history (added ++ (c.verify C m Now pSnap).2.toList)
      (c.verify C m Now pSnap).1 := by
  unfold Client.verify
  split
  · rwa [Option.toList_none, List.append_nil]
  · split
    · rw [Option.toList_none, List.append_nil]
      exact h.crcError (by rwa [hcurrent])
    · obtain ⟨hle, hheld⟩ := purgeTick_le c m.DeltaTick
      have hpurged : Receives C content history added { c with
          m_SnapCrcErrors := c.m_SnapCrcErrors - 1
          m_aSnapshotStorage := PurgeUntil c.m_aSnapshotStorage (c.PurgeTick m.DeltaTick) } := by
        refine ⟨h.keeps.purge hnonneg hdelta hle hheld, h.acks, h.count, fun e' he' htick' => ?_,
          h.current⟩
        have hparts := h.parts e' he' htick'
        exact ⟨hparts.filled, hparts.size⟩
      split
      · rwa [Option.toList_none, List.append_nil]
      next pAltSnap _ =>
        rw [htick]
        exact hpurged.accept he hcurrent holder hcontent Now pAltSnap

theorem Receives.assemble (h : Receives C content history added c)
    (hticks : history.Pairwise fun x y => x.m_Tick < y.m_Tick)
    (hnonneg : ∀ e ∈ history, 0 ≤ e.m_Tick) (he : e ∈ history) (hlawful : Lawful C content e)
    (hbased : Based C history e) (hm : m ∈ e.messages C)
    (hcurrent : c.m_aCurrentRecvTick = e.m_Tick) (holder : ∀ x ∈ added, x.m_Tick < e.m_Tick)
    (hcomplete : c.complete m.NumParts = true) (Now : Int) :
    Receives C content history (added ++ (c.assemble C m Now).2.toList) (c.assemble C m Now).1 := by
  have hpart := partOf_of_mem hm
  rw [hpart.NumParts] at hcomplete
  have hslice := (h.parts e he hcurrent.symm).slice hcomplete
  have hreset : Receives C content history added { c with m_aSnapshotParts := 0 } := by
    refine ⟨h.keeps, h.acks, h.count, fun e' _ _ => ⟨filled_zero _ _ _, fun hbit => ?_⟩, .inr rfl⟩
    rw [Nat.zero_testBit] at hbit
    cases hbit
  unfold Client.assemble
  simp only [hpart.DeltaTick, hslice]
  split
  · rw [Option.toList_none, List.append_nil]
    exact hreset.resync (by rwa [hcurrent])
  next base hbase =>
    obtain ⟨hcontent, hstored⟩ := hreset.deltaShot hticks hbased hbase
    split
    · rwa [Option.toList_none, List.append_nil]
    next pDeltaData hdecode =>
    split
    · rwa [Option.toList_none, List.append_nil]
    next pSnap hunpack =>
      rw [hlawful.decode hm hdecode] at hunpack
      have hdelta : m.DeltaTick = -1 ∨ Stored c.m_aSnapshotStorage m.DeltaTick := by
        rw [hpart.DeltaTick]
        rcases hbased with ⟨hnone, -⟩ | ⟨hpos, -⟩
        · exact .inl hnone
        · exact .inr (hstored hpos)
      exact hreset.verify hnonneg he hcurrent holder hpart.GameTick hdelta
        (hlawful.unpack base pSnap hcontent hunpack) Now

/-- A message that was sent keeps what the client promises. -/
theorem Receives.recv (h : Receives C content history added c)
    (hticks : history.Pairwise fun x y => x.m_Tick < y.m_Tick)
    (hnonneg : ∀ e ∈ history, 0 ≤ e.m_Tick) (he : e ∈ history) (hlawful : Lawful C content e)
    (hbased : Based C history e) (hm : m ∈ e.messages C) (Now : Int) :
    Receives C content history (added ++ (c.recv C m Now).2.toList) (c.recv C m Now).1 := by
  have hpart := partOf_of_mem hm
  unfold Client.recv
  split
  · rwa [Option.toList_none, List.append_nil]
  next hvalid =>
    have hmax : m.NumParts ≤ MAX_PARTS := by
      by_contra hlarge
      exact hvalid (.inr (.inl (Nat.not_le.mp hlarge)))
    split
    next htick =>
      rw [hpart.GameTick] at htick ⊢
      obtain ⟨hstart, hcurrent, holder⟩ := h.startTick htick.1 htick.2
      have hstore := hstart.storePart hticks he hpart hmax hcurrent
      dsimp only
      split
      next hcomplete =>
        exact hstore.assemble hticks hnonneg he hlawful hbased hm hcurrent holder hcomplete Now
      next => rwa [Option.toList_none, List.append_nil]
    next => rwa [Option.toList_none, List.append_nil]

/-- The next snapshot is newer and in the storage. -/
theorem Receives.switch (h : Receives C content history added c) :
    Receives C content history added c.switch := by
  unfold Client.switch
  split
  · exact h
  next prev current hpointers =>
    split
    · exact h
    next pNext rest htail =>
      have hlen : 2 ≤ added.length := by
        by_contra hlen
        have hnone := (h.keeps.early (by omega)).2
        rw [hnone] at hpointers
        cases hpointers
      obtain ⟨prev', current', hpointers', -, -, hcurrent⟩ := h.keeps.held hlen
      obtain ⟨-, rfl⟩ := Prod.mk.inj (Option.some.inj (hpointers'.symm.trans hpointers))
      have hsorted : Sorted c.m_aSnapshotStorage := h.keeps.sorted.sublist h.keeps.sublist
      -- what is dropped leaves the holder of the current tick in front
      obtain ⟨x, hx⟩ : ∃ x, c.m_aSnapshotStorage.dropWhile
          (fun pHolder => decide (pHolder.m_Tick ≠ current')) = x :: pNext :: rest := by
        cases hdrop : c.m_aSnapshotStorage.dropWhile
            fun pHolder => decide (pHolder.m_Tick ≠ current') with
        | nil =>
            rw [hdrop] at htail
            cases htail
        | cons x tail =>
            rw [hdrop] at htail
            exact ⟨x, congrArg (x :: ·) htail⟩
      have hxtick : x.m_Tick = current' := by
        have hhead := List.head?_dropWhile_not (fun pHolder => decide (pHolder.m_Tick ≠ current'))
          c.m_aSnapshotStorage
        rw [hx] at hhead
        simpa using hhead
      have hsub : (x :: pNext :: rest).Sublist c.m_aSnapshotStorage := by
        rw [← hx]
        exact List.dropWhile_sublist _
      have hlt : x.m_Tick < pNext.m_Tick :=
        (List.pairwise_cons.mp (hsorted.sublist hsub)).1 pNext List.mem_cons_self
      have hnext : pNext ∈ c.m_aSnapshotStorage :=
        hsub.subset (List.mem_cons_of_mem x List.mem_cons_self)
      refine
        ⟨⟨h.keeps.agrees, h.keeps.sorted, h.keeps.sublist, fun hsmall => by omega, fun _ => ?_⟩,
        h.acks, h.count, fun e' he' htick => ?_, h.current⟩
      · exact ⟨current', pNext.m_Tick, rfl, hxtick ▸ hlt, hcurrent, pNext, hnext, rfl⟩
      · have hparts := h.parts e' he' htick
        exact ⟨hparts.filled, hparts.size⟩

/-- A new snapshot of the server changes nothing for the client. -/
theorem Receives.snoc (h : Receives C content history added c)
    (hnew : ∀ e' ∈ history, e'.m_Tick < e.m_Tick) :
    Receives C content (history ++ [e]) added c := by
  refine ⟨⟨fun x hx => ?_, h.keeps.sorted, h.keeps.sublist, h.keeps.early, h.keeps.held⟩, h.acks,
    h.count, fun e' he' htick => ?_, ?_⟩
  · obtain ⟨e', he', hagrees⟩ := h.keeps.agrees x hx
    exact ⟨e', List.mem_append_left _ he', hagrees⟩
  · rcases List.mem_append.mp he' with he' | he'
    · exact h.parts e' he' htick
    · rw [List.mem_singleton.mp he'] at htick ⊢
      rcases h.current with ⟨e'', he'', hcurrent⟩ | hzero
      · have hlt := hnew e'' he''
        omega
      · refine ⟨?_, fun hbit => ?_⟩
        · rw [hzero]
          exact filled_zero _ _ _
        · rw [hzero, Nat.zero_testBit] at hbit
          cases hbit
  · exact h.current.imp_left fun ⟨e', he', htick⟩ => ⟨e', List.mem_append_left _ he', htick⟩

end

/-! ## The server -/

section

variable {slot : Slot σ} {sent : List Message} {history : List (Encoded σ)}
  {m_CurrentGameTick Now : Int} {pData : σ}

/-- Nothing is sent, or the new snapshot, compared with none or with one of the storage. -/
theorem Slot.doSnapshot_cases (C : Codec σ δ) (s : Slot σ) (m_CurrentGameTick Now : Int)
    (pData : σ) : s.DoSnapshot C m_CurrentGameTick Now pData = (s, none) ∨
      ∃ s' e, s.DoSnapshot C m_CurrentGameTick Now pData = (s', some e) ∧
        e.m_Tick = m_CurrentGameTick ∧ e.pData = pData ∧
        s'.m_Snapshots = Add (PurgeUntil s.m_Snapshots (m_CurrentGameTick - SERVER_TICK_SPEED * 3))
          m_CurrentGameTick Now pData none ∧
        (e.DeltaTick = -1 ∧ e.pDeltashot = C.EmptySnapshot ∨
          ∃ h ∈ s'.m_Snapshots, h.m_Tick = e.DeltaTick ∧ h.m_pSnap = e.pDeltashot) := by
  unfold Slot.DoSnapshot
  split
  · exact .inl rfl
  · refine .inr ⟨_, _, rfl, ?_⟩
    split
    next pHolder hget =>
      obtain ⟨hmem, htick⟩ := mem_of_get hget
      exact ⟨rfl, rfl, rfl, .inr ⟨pHolder, hmem, htick, rfl⟩⟩
    next => exact ⟨rfl, rfl, rfl, .inl ⟨rfl, rfl⟩⟩

theorem Sends.snapshot (h : Sends C content slot sent history) (hpos : 0 ≤ m_CurrentGameTick)
    (hnew : ∀ e ∈ history, e.m_Tick < m_CurrentGameTick) {slot' : Slot σ} {e : Encoded σ}
    (hrun : slot.DoSnapshot C m_CurrentGameTick Now pData = (slot', some e))
    (hlawful : Lawful C content e) :
    Sends C content slot' (sent ++ e.messages C) (history ++ [e]) := by
  obtain hnone | ⟨s', e', hrun', htick, hdata, hsnapshots, hbase⟩ :=
    slot.doSnapshot_cases C m_CurrentGameTick Now pData
  · rw [hnone] at hrun
    cases hrun
  · obtain ⟨rfl, rfl⟩ : s' = slot' ∧ e' = e := by
      have heq := hrun'.symm.trans hrun
      exact ⟨congrArg Prod.fst heq, Option.some.inj (congrArg Prod.snd heq)⟩
    have hlast : e' ∈ history ++ [e'] := List.mem_append_right _ List.mem_cons_self
    have hmem : ∀ x ∈ history ++ [e'], x ∈ history ∨ x = e' := fun x hx =>
      (List.mem_append.mp hx).imp_right List.mem_singleton.mp
    have hnonneg : ∀ x ∈ history ++ [e'], 0 ≤ x.m_Tick := by
      intro x hx
      rcases hmem x hx with hx | rfl
      · exact h.nonneg x hx
      · rwa [htick]
    have hstored : ∀ x ∈ s'.m_Snapshots,
        ∃ y ∈ history ++ [e'], y.m_Tick = x.m_Tick ∧ y.pData = x.m_pSnap := by
      intro x hx
      rw [hsnapshots] at hx
      rcases List.mem_append.mp hx with hx | hx
      · obtain ⟨y, hy, hagrees⟩ := h.stored x ((purgeUntil_sublist _ _).subset hx)
        exact ⟨y, List.mem_append_left _ hy, hagrees⟩
      · rw [List.mem_singleton.mp hx]
        exact ⟨e', hlast, htick, hdata⟩
    refine ⟨?_, hnonneg, ?_, ?_, hstored, ?_⟩
    · refine List.pairwise_append.mpr ⟨h.ticks, List.pairwise_singleton _ _, fun x hx y hy => ?_⟩
      rw [List.mem_singleton.mp hy, htick]
      exact hnew x hx
    · intro x hx
      rcases hmem x hx with hx | rfl
      · exact h.lawful x hx
      · exact hlawful
    · intro x hx
      rcases hmem x hx with hx | rfl
      · refine (h.based x hx).imp_right fun ⟨hle, b, hb, hagrees⟩ => ?_
        exact ⟨hle, b, List.mem_append_left _ hb, hagrees⟩
      · refine hbase.imp_right fun ⟨y, hy, hytick, hysnap⟩ => ?_
        obtain ⟨b, hb, hbtick, hbdata⟩ := hstored y hy
        refine ⟨?_, b, hb, hbtick.trans hytick, hbdata.trans hysnap⟩
        rw [← hytick, ← hbtick]
        exact hnonneg b hb
    · intro m hm
      rcases List.mem_append.mp hm with hm | hm
      · obtain ⟨y, hy, hmessage⟩ := h.sent m hm
        exact ⟨y, List.mem_append_left _ hy, hmessage⟩
      · exact ⟨e', hlast, hm⟩

end

/-! ## Runs -/

theorem Inv.step {s t : System σ} {event : Event σ} (h : Inv C content s)
    (hallowed : Allowed C content s event) (hstep : step C s event = .ok t) : Inv C content t := by
  cases event with
  | snapshot m_CurrentGameTick Now pData =>
      obtain ⟨hpos, hnew, hlawful⟩ := hallowed
      obtain hnone | ⟨slot', e, hrun, htick, -⟩ :=
        s.slot.doSnapshot_cases C m_CurrentGameTick Now pData
      · simp only [SnapshotTransport.step, hnone] at hstep
        cases hstep
        simpa using h
      · simp only [SnapshotTransport.step, hrun] at hstep
        cases hstep
        refine ⟨h.sends.snapshot hpos hnew hrun (hlawful e (by rw [hrun])), h.receives.snoc ?_⟩
        rwa [htick]
  | input LastAckedSnapshot =>
      cases hstep
      exact ⟨⟨h.sends.ticks, h.sends.nonneg, h.sends.lawful, h.sends.based, h.sends.stored,
        h.sends.sent⟩, h.receives⟩
  | recv m Now =>
      cases hstep
      obtain ⟨e, he, hm⟩ := h.sends.sent m hallowed
      exact ⟨h.sends, h.receives.recv h.sends.ticks h.sends.nonneg he (h.sends.lawful e he)
        (h.sends.based e he) hm Now⟩
  | switch =>
      cases hstep
      exact ⟨h.sends, h.receives.switch⟩

/-- What the invariant promises. -/
theorem Inv.agrees {s : System σ} (h : Inv C content s) :
    (∀ x ∈ s.added, ∃ e ∈ s.history, e.m_Tick = x.m_Tick ∧ content x.m_pSnap = content e.pData) ∧
      s.client.m_aSnapshotStorage.Sublist s.added ∧ Sorted s.client.m_aSnapshotStorage ∧
      (s.client.m_aAckGameTick = -1 ∨ Stored s.added s.client.m_aAckGameTick) ∧
      ∀ prev current, s.client.m_aapSnapshots = some (prev, current) → prev < current ∧
        Stored s.client.m_aSnapshotStorage prev ∧ Stored s.client.m_aSnapshotStorage current := by
  have hkeeps := h.receives.keeps
  refine ⟨hkeeps.agrees, hkeeps.sublist, hkeeps.sorted.sublist hkeeps.sublist, h.receives.acks.ack,
    fun prev current hpointers => ?_⟩
  have hlen : 2 ≤ s.added.length := by
    by_contra hlen
    rw [(hkeeps.early (by omega)).2] at hpointers
    cases hpointers
  obtain ⟨prev', current', hpointers', hheld⟩ := hkeeps.held hlen
  obtain ⟨rfl, rfl⟩ := Prod.mk.inj (Option.some.inj (hpointers'.symm.trans hpointers))
  exact hheld

end Fex.Engine.SnapshotTransport
