import Fex.Engine.Packer
import Fex.Engine.Snapshot.Uuids
import Fex.Engine.Unpacker

/-!
# The table of UUIDs

Names are registered with increasing ids.  The table and the ids determine each other, and so do
an id and its UUID in a message.  `md5` is the hash of a byte string.
-/

namespace Fex.Engine.Snapshot

open Fex.Lib

/-! ## Registration and messages -/

def UUID_INVALID : Int := -2

def TEEWORLDS_NAMESPACE : List UInt8 :=
  [0xe0, 0x5d, 0xda, 0xaa, 0xc4, 0xe6, 0x4c, 0xfb,
    0xb6, 0x42, 0x5d, 0x48, 0xe8, 0x0c, 0x00, 0x29]

/-- The version and the variant are set in the digest. -/
def CalculateUuid (md5 : List UInt8 → Vector UInt8 16) (pName : List UInt8) : CUuid :=
  let digest := md5 (TEEWORLDS_NAMESPACE ++ pName)
  let Result := digest.set 6 (digest[6] &&& 0x0f ||| 0x30)
  Result.set 8 (Result[8] &&& 0x3f ||| 0x80)

namespace CUuidManager

def empty : CUuidManager := { m_vNames := [], m_vNamesSorted := [] }

/-- Names are registered with consecutive ids. -/
def RegisterNames (md5 : List UInt8 → Vector UInt8 16) (m : CUuidManager) (Id : Int) :
    List (List UInt8) → Exec CUuidManager
  | [] => .ok m
  | pName :: names => do
      let m ← m.RegisterName Id (CalculateUuid md5 pName)
      RegisterNames md5 m (Id + 1) names

open Packer in
def PackUuid (m : CUuidManager) (Id : Int) (pPacker : CAbstractPacker) : Exec CAbstractPacker := do
  let Uuid ← m.GetUuid Id
  return pPacker.AddRaw Uuid.toList

open Packer in
/-- The result, the UUID that is stored and the unpacker. -/
def UnpackUuid (m : CUuidManager) (pUnpacker : CUnpacker) : Int × Option CUuid × CUnpacker :=
  match pUnpacker.GetRaw 16 with
  | (none, pUnpacker) => (UUID_INVALID, none, pUnpacker)
  | (some pUuid, pUnpacker) =>
      let Uuid : CUuid := Vector.ofFn fun i => pUuid.getD i.val 0
      (m.LookupUuid Uuid, some Uuid, pUnpacker)

/-! ## The table -/

/-- The entries of UUIDs in the order of their ids. -/
def entries (uuids : List CUuid) : List CNameIndexed :=
  uuids.zipIdx.map fun u => { m_Uuid := u.1, m_Id := u.2 }

/-- The UUIDs are registered, the first one with the first id. -/
structure Table (m : CUuidManager) (uuids : List CUuid) : Prop where
  names : m.m_vNames = uuids
  indexed : Indexed m
  perm : m.m_vNamesSorted.Perm (entries uuids)

variable {m : CUuidManager}

theorem table_empty : Table empty [] where
  names := rfl
  indexed := ⟨List.Pairwise.nil, by simp [empty]⟩
  perm := List.Perm.nil

/-- A UUID that is not in the sorted list is not found. -/
theorem Indexed.lookupUuid_unknown (h : Indexed m) {Uuid : CUuid}
    (hnot : ∀ e ∈ m.m_vNamesSorted, e.m_Uuid ≠ Uuid) : m.LookupUuid Uuid = UUID_UNKNOWN := by
  have hrange : m.EqualRange Uuid = [] := by
    unfold EqualRange
    cases hdrop : m.m_vNamesSorted.dropWhile fun e => e.m_Uuid.less Uuid with
    | nil => rfl
    | cons e rest =>
        have hmem : e ∈ m.m_vNamesSorted := by
          apply List.dropWhile_subset (fun e : CNameIndexed => e.m_Uuid.less Uuid)
          rw [hdrop]
          exact List.mem_cons_self
        have hless : e.m_Uuid.less Uuid = false := by
          have hhead := List.head?_dropWhile_not (fun e : CNameIndexed => e.m_Uuid.less Uuid)
            m.m_vNamesSorted
          rw [hdrop] at hhead
          simpa using hhead
        have hgreater := (CUuid.less_or_eq_of_not hless).resolve_left (hnot e hmem)
        rw [List.takeWhile_cons_of_neg (by rw [hgreater]; decide)]
  unfold LookupUuid
  rw [hrange]

/-- A UUID that is not registered is unknown. -/
theorem Table.lookupUuid_unknown {uuids : List CUuid} (h : Table m uuids) {Uuid : CUuid}
    (hnot : Uuid ∉ uuids) : m.LookupUuid Uuid = UUID_UNKNOWN := by
  apply h.indexed.lookupUuid_unknown
  intro e he heq
  obtain ⟨i, -, hget⟩ := (h.indexed.names e).mp he
  rw [h.names, heq] at hget
  exact hnot (List.mem_of_getElem? hget)

/-- Another UUID is registered with the next id. -/
theorem Table.registerName {uuids : List CUuid} (h : Table m uuids) {Uuid : CUuid}
    (hnot : Uuid ∉ uuids) :
    ∃ m', m.RegisterName (OFFSET_UUID + uuids.length) Uuid = .ok m' ∧
      Table m' (uuids ++ [Uuid]) := by
  have hid : OFFSET_UUID + (uuids.length : Int) - OFFSET_UUID = m.m_vNames.length := by
    rw [h.names]
    omega
  have hrun : ∃ m', m.RegisterName (OFFSET_UUID + uuids.length) Uuid = .ok m' ∧
      m'.m_vNames = m.m_vNames ++ [Uuid] ∧
      m'.m_vNamesSorted = (m.m_vNamesSorted.takeWhile fun e => e.m_Uuid.less Uuid) ++
        { m_Uuid := Uuid, m_Id := OFFSET_UUID + uuids.length - OFFSET_UUID } ::
        m.m_vNamesSorted.dropWhile fun e => e.m_Uuid.less Uuid := by
    unfold RegisterName
    rw [if_neg (not_not.mpr hid), if_neg (not_not.mpr (h.lookupUuid_unknown hnot))]
    exact ⟨_, rfl, rfl, rfl⟩
  obtain ⟨m', hrun, hnames, hsorted⟩ := hrun
  refine ⟨m', hrun, ?_, h.indexed.registerName hrun, ?_⟩
  · rw [hnames, h.names]
  · have hentries : entries (uuids ++ [Uuid]) = entries uuids ++
        [{ m_Uuid := Uuid, m_Id := OFFSET_UUID + uuids.length - OFFSET_UUID }] := by
      unfold entries
      rw [List.zipIdx_append, List.map_append, List.zipIdx_singleton, List.map_singleton]
      congr
      omega
    rw [hsorted, hentries]
    apply List.perm_middle.trans
    rw [List.takeWhile_append_dropWhile]
    exact (List.Perm.cons _ h.perm).trans (List.perm_append_singleton _ _).symm

theorem Table.registerNames {md5 : List UInt8 → Vector UInt8 16} {uuids : List CUuid}
    (h : Table m uuids) {names : List (List UInt8)}
    (hdistinct : (uuids ++ names.map (CalculateUuid md5)).Nodup) :
    ∃ m', m.RegisterNames md5 (OFFSET_UUID + uuids.length) names = .ok m' ∧
      Table m' (uuids ++ names.map (CalculateUuid md5)) := by
  induction names generalizing m uuids with
  | nil =>
      rw [List.map_nil, List.append_nil]
      exact ⟨m, rfl, h⟩
  | cons pName names ih =>
      rw [List.map_cons] at hdistinct
      have hnot : CalculateUuid md5 pName ∉ uuids := fun hmem =>
        (List.nodup_append.mp hdistinct).2.2 _ hmem _ List.mem_cons_self rfl
      obtain ⟨m₁, hrun, htable⟩ := h.registerName hnot
      rw [List.append_cons] at hdistinct
      obtain ⟨m', hrest, htable'⟩ := ih htable hdistinct
      refine ⟨m', ?_, ?_⟩
      · have hid : OFFSET_UUID + ((uuids ++ [CalculateUuid md5 pName]).length : Int) =
            OFFSET_UUID + uuids.length + 1 := by
          rw [List.length_append, List.length_singleton]
          omega
        rw [hid] at hrest
        rw [RegisterNames, hrun]
        exact hrest
      · rw [List.map_cons, List.append_cons]
        exact htable'

/-! ## Ids and UUIDs -/

theorem Table.getUuid {uuids : List CUuid} (h : Table m uuids) {i : Nat} {Uuid : CUuid}
    (hget : uuids[i]? = some Uuid) : m.GetUuid (OFFSET_UUID + i) = .ok Uuid := by
  unfold GetUuid
  rw [if_neg (by omega), h.names, show (OFFSET_UUID + (i : Int) - OFFSET_UUID).toNat = i by omega,
    hget]

open Packer in
/-- The bytes of a UUID are read as it. -/
theorem unpackUuid_append (m : CUuidManager) (Uuid : CUuid) (rest : List UInt8) :
    m.UnpackUuid { m_pCurrent := Uuid.toList ++ rest, m_Error := false } =
      (m.LookupUuid Uuid, some Uuid, { m_pCurrent := rest, m_Error := false }) := by
  have hlength : Uuid.toList.length = 16 := Vector.length_toList
  have hraw : CUnpacker.GetRaw { m_pCurrent := Uuid.toList ++ rest, m_Error := false } 16 =
      (some Uuid.toList, { m_pCurrent := rest, m_Error := false }) := by
    have htake := @List.take_left _ Uuid.toList rest
    have hdrop := @List.drop_left _ Uuid.toList rest
    rw [hlength] at htake hdrop
    unfold CUnpacker.GetRaw
    rw [if_neg Bool.false_ne_true, if_neg (by rw [List.length_append]; omega)]
    exact Prod.ext (congrArg some htake)
      (congrArg (fun l => ({ m_pCurrent := l, m_Error := false } : CUnpacker)) hdrop)
  have huuid : (Vector.ofFn fun i => Uuid.toList.getD i.val 0 : CUuid) = Uuid := by
    apply Vector.ext
    intro i hi
    have hget := List.getElem?_eq_getElem (show i < Uuid.toList.length by rw [hlength]; exact hi)
    rw [Vector.getElem_ofFn, List.getD_eq_getElem?_getD, hget]
    exact Vector.getElem_toList _
  unfold UnpackUuid
  rw [hraw]
  simp only [huuid]

open Packer in
/-- A UUID that is packed without an error is unpacked as its id. -/
theorem Table.unpackUuid {uuids : List CUuid} (h : Table m uuids) {i : Nat} (hi : i < uuids.length)
    (p : CAbstractPacker) (hp : p.m_Error = false) (hroom : p.Size + 16 ≤ p.m_BufferSize) :
    ∃ w p', m.PackUuid (OFFSET_UUID + i) p = .ok p' ∧ p'.m_Error = false ∧
      p'.m_pBuffer = p.m_pBuffer ++ w ∧ ∀ rest,
        m.UnpackUuid { m_pCurrent := w ++ rest, m_Error := false } =
          (OFFSET_UUID + i, some uuids[i], { m_pCurrent := rest, m_Error := false }) := by
  have hget := h.getUuid (List.getElem?_eq_getElem hi)
  have hraw := p.addRaw_eq hp uuids[i].toList (by rw [Vector.length_toList]; exact hroom)
  refine ⟨uuids[i].toList, { p with m_pBuffer := p.m_pBuffer ++ uuids[i].toList }, ?_, hp, rfl,
    fun rest => ?_⟩
  · unfold PackUuid
    rw [hget, ← hraw]
    rfl
  · rw [unpackUuid_append, h.indexed.lookupUuid hget]

open Packer in
/-- The table of names with distinct UUIDs is sorted and has every name once, ids and UUIDs
determine each other, also in messages, and every other UUID is unknown. -/
theorem registerNames_spec (md5 : List UInt8 → Vector UInt8 16) {names : List (List UInt8)}
    (hdistinct : (names.map (CalculateUuid md5)).Nodup) :
    ∃ m, empty.RegisterNames md5 OFFSET_UUID names = .ok m ∧
      (m.m_vNamesSorted.Pairwise fun a b => a.m_Uuid.less b.m_Uuid = true) ∧
      m.m_vNamesSorted.Perm (entries (names.map (CalculateUuid md5))) ∧
      (∀ i (hi : i < names.length), m.GetUuid (OFFSET_UUID + i) = .ok (CalculateUuid md5 names[i]) ∧
        m.LookupUuid (CalculateUuid md5 names[i]) = OFFSET_UUID + i) ∧
      (∀ Uuid, Uuid ∉ names.map (CalculateUuid md5) → m.LookupUuid Uuid = UUID_UNKNOWN) ∧
      ∀ i < names.length, ∀ p : CAbstractPacker, p.m_Error = false → p.Size + 16 ≤ p.m_BufferSize →
        ∃ w p', m.PackUuid (OFFSET_UUID + i) p = .ok p' ∧ p'.m_Error = false ∧
          p'.m_pBuffer = p.m_pBuffer ++ w ∧ ∀ rest,
            (m.UnpackUuid { m_pCurrent := w ++ rest, m_Error := false }).1 = OFFSET_UUID + i := by
  obtain ⟨m, hrun, htable⟩ := @Table.registerNames _ md5 _ table_empty names hdistinct
  refine ⟨m, hrun, htable.indexed.sorted, htable.perm, fun i hi => ?_,
    fun Uuid => htable.lookupUuid_unknown, fun i hi p hp hroom => ?_⟩
  · have hget : ([] ++ names.map (CalculateUuid md5))[i]? = some (CalculateUuid md5 names[i]) := by
      rw [List.nil_append, List.getElem?_map, List.getElem?_eq_getElem hi]
      rfl
    have huuid := htable.getUuid hget
    exact ⟨huuid, htable.indexed.lookupUuid huuid⟩
  · have hi' : i < ([] ++ names.map (CalculateUuid md5)).length := by
      rw [List.nil_append, List.length_map]
      exact hi
    obtain ⟨w, p', hpack, herror, hbuffer, hunpack⟩ := htable.unpackUuid hi' p hp hroom
    exact ⟨w, p', hpack, herror, hbuffer, fun rest => by rw [hunpack]⟩

/-- The MD5 digests for two names. -/
def digests (s : List UInt8) : Vector UInt8 16 :=
  if s = TEEWORLDS_NAMESPACE ++ [97] then
    #v[0xd5, 0xaf, 0x04, 0x10, 0x9b, 0x5d, 0x07, 0xdd,
      0x60, 0x20, 0xb1, 0x0d, 0xd1, 0xdb, 0xf1, 0x03]
  else
    #v[0xd5, 0x65, 0xc1, 0x52, 0xf3, 0x6c, 0x6c, 0xdb,
      0x62, 0x65, 0x44, 0xb4, 0xd3, 0xe6, 0x6e, 0x6a]

theorem registerNames_spec_two :
    ∃ m, empty.RegisterNames digests OFFSET_UUID [[97], [98]] = .ok m ∧
      m.LookupUuid (CalculateUuid digests [98]) = OFFSET_UUID + 1 := by
  obtain ⟨m, hrun, -, -, hids, -⟩ := @registerNames_spec digests [[97], [98]] (by decide)
  exact ⟨m, hrun, (hids 1 (by decide)).2⟩

end CUuidManager

end Fex.Engine.Snapshot
