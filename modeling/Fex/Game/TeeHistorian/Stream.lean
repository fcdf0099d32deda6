import Fex.Engine.Packer
import Fex.Game.TeeHistorian.Decoder
import Mathlib.Data.Nat.Digits.Lemmas

/-!
# What a call writes

A call writes packets, each of which is read back as one record.
-/

namespace Fex.Game.TeeHistorian

open Fex.Lib Fex.Engine.Packer
open Fex.Engine.Snapshot (CUuid DiffItem)

/-! ## Buffers -/

/-- The buffer is packed without an error. -/
structure Fits (Buffer : List Field) : Prop where
  valid : ∀ f ∈ Buffer, f.Valid
  room : FieldsFit (emptyPacker bufferSize) Buffer
  noError : ∀ q, addFields (emptyPacker bufferSize) Buffer = .ok q → q.m_Error = false

def valuesOf (Buffer : List Field) : List Value := Buffer.map (Field.value bufferSize)

theorem Fits.packed {Buffer : List Field} (h : Fits Buffer) :
    ∃ bytes, packed Buffer = .ok bytes ∧
      ∀ rest, getFields { m_pCurrent := bytes ++ rest, m_Error := false } Buffer =
        (valuesOf Buffer, { m_pCurrent := rest, m_Error := false }) := by
  obtain ⟨q, hrun, hq⟩ := addFields_spec (p := emptyPacker bufferSize) rfl h.valid h.room
  obtain ⟨bytes, hbytes, hread⟩ := hq (h.noError q hrun)
  refine ⟨bytes, ?_, hread⟩
  rw [TeeHistorian.packed, hrun]
  exact congrArg Except.ok hbytes

/-- The bytes a field without strings takes. -/
def fieldSize : Field → Nat
  | .int i => packedLength i
  | .string _ _ _ => 0
  | .raw pData => pData.length

/-- The field is no string. -/
def Plain : Field → Prop
  | .int i => IsInt32 i
  | .string _ _ _ => False
  | .raw _ => True

theorem Plain.valid {f : Field} (h : Plain f) : f.Valid := by
  cases f with
  | int i => exact h
  | string pStr n b => exact h.elim
  | raw pData => trivial

theorem add_plain {p : CAbstractPacker} (hp : p.m_Error = false) {f : Field} (hplain : Plain f)
    (hroom : p.Size + fieldSize f ≤ p.m_BufferSize) :
    ∃ q, f.add p = .ok q ∧ q.m_Error = false ∧ q.m_BufferSize = p.m_BufferSize ∧
      q.Size = p.Size + fieldSize f := by
  cases f with
  | int i =>
      have hroom : p.Size + packedLength i ≤ p.m_BufferSize := hroom
      rcases pack_spec i (p.m_BufferSize - p.Size) with ⟨-, pDst, hrun, hlength⟩ | ⟨hlt, -⟩
      · refine ⟨{ p with m_pBuffer := p.m_pBuffer ++ pDst }, ?_, hp, rfl, ?_⟩
        · show Except.ok (p.AddInt i) = _
          rw [CAbstractPacker.AddInt, hp, if_neg (by decide), hrun]
        · show (p.m_pBuffer ++ pDst).length = _
          rw [List.length_append, hlength]
          rfl
      · omega
  | string pStr n b => exact hplain.elim
  | raw pData =>
      have hroom : p.Size + pData.length ≤ p.m_BufferSize := hroom
      refine ⟨{ p with m_pBuffer := p.m_pBuffer ++ pData }, ?_, hp, rfl, List.length_append⟩
      show Except.ok (p.AddRaw pData) = _
      rw [CAbstractPacker.AddRaw, hp, if_neg (by decide), if_neg (Nat.not_lt.mpr hroom)]

/-- Numbers and blocks fit if there is room for all their bytes. -/
theorem addFields_plain {p : CAbstractPacker} (hp : p.m_Error = false) {Buffer : List Field}
    (hplain : ∀ f ∈ Buffer, Plain f)
    (hroom : p.Size + (Buffer.map fieldSize).sum ≤ p.m_BufferSize) :
    FieldsFit p Buffer ∧ ∀ q, addFields p Buffer = .ok q → q.m_Error = false := by
  induction Buffer generalizing p with
  | nil =>
      refine ⟨trivial, fun q hq => ?_⟩
      cases hq
      exact hp
  | cons f Buffer ih =>
      have hf := hplain f List.mem_cons_self
      rw [List.map_cons, List.sum_cons] at hroom
      obtain ⟨q, hadd, hq, hsize, hlength⟩ := add_plain hp hf (by omega)
      obtain ⟨hfits, hnoError⟩ :=
        ih (p := q) hq (fun g hg => hplain g (List.mem_cons_of_mem f hg)) (by omega)
      refine ⟨⟨?_, fun q' hq' => ?_⟩, fun q' hq' => ?_⟩
      · intro _ hnothing
        cases f with
        | int i => exact absurd hnothing id
        | string pStr n b => exact hf.elim
        | raw pData => exact absurd hnothing id
      · rw [hadd] at hq'
        exact Except.ok.inj hq' ▸ hfits
      · rw [addFields, hadd] at hq'
        exact hnoError q' hq'

theorem fits_plain {Buffer : List Field} (hplain : ∀ f ∈ Buffer, Plain f)
    (hroom : (Buffer.map fieldSize).sum ≤ bufferSize) : Fits Buffer := by
  obtain ⟨hfits, hnoError⟩ := addFields_plain (p := emptyPacker bufferSize) rfl hplain
    (by rw [show (emptyPacker bufferSize).Size = 0 from rfl, Nat.zero_add]; exact hroom)
  exact ⟨fun f hf => (hplain f hf).valid, hfits, hnoError⟩

theorem packedLength_le {i : Int} (h : IsInt32 i) : packedLength i ≤ 5 := by
  unfold IsInt32 at h
  have hdigits :
      (Nat.digits 128 ((if i < 0 then (-i - 1).toNat else i.toNat) / 64)).length ≤ 4 := by
    apply (Nat.digits_length_le_iff (by decide) _).mpr
    split
    · omega
    · omega
  unfold packedLength
  omega

/-! ## Records -/

/-- The bytes are read as the record, whatever is behind them. -/
def Encodes (bytes : List UInt8) (r : Record) : Prop :=
  bytes ≠ [] ∧ ∀ rest, readRecord (bytes ++ rest) = some (r, rest)

/-- The fields of a record of this type are read one after the other. -/
def Shaped (type : Int) (Buffer : List Field) : Prop :=
  ∀ u v, getFields u Buffer = (valuesOf Buffer, v) → readValues type u = (valuesOf Buffer, v)

theorem encodes_of_read {bytes : List UInt8} {type : Int} {Buffer : List Field}
    (hread : ∀ rest, getFields { m_pCurrent := bytes ++ rest, m_Error := false }
      (.int type :: Buffer) =
        (valuesOf (.int type :: Buffer), { m_pCurrent := rest, m_Error := false }))
    (hshaped : Shaped type Buffer) : Encodes bytes { type := type, values := valuesOf Buffer } := by
  have hfirst : ∀ rest, (CUnpacker.Reset (bytes ++ rest)).GetInt.1 = type ∧
      getFields (CUnpacker.Reset (bytes ++ rest)).GetInt.2 Buffer =
        (valuesOf Buffer, { m_pCurrent := rest, m_Error := false }) := by
    intro rest
    obtain ⟨hvalues, hrest⟩ := Prod.mk.inj (hread rest)
    obtain ⟨htype, hvalues⟩ := List.cons.inj hvalues
    exact ⟨Value.int.inj htype, Prod.ext hvalues hrest⟩
  constructor
  · rintro rfl
    -- the first integer would be the one behind
    have hzero : (0 : Int) = type := (hfirst [0]).1
    have hone : (1 : Int) = type := (hfirst [1]).1
    omega
  · intro rest
    obtain ⟨htype, hvalues⟩ := hfirst rest
    unfold readRecord
    simp only [htype]
    rw [hshaped _ _ hvalues]
    rfl

theorem encodes_packed {type : Int} {Buffer : List Field} (h : Fits (.int type :: Buffer))
    (hshaped : Shaped type Buffer) :
    ∃ bytes, packed (.int type :: Buffer) = .ok bytes ∧
      Encodes bytes { type := type, values := valuesOf Buffer } := by
  obtain ⟨bytes, hrun, hread⟩ := h.packed
  exact ⟨bytes, hrun, encodes_of_read hread hshaped⟩

theorem getFields_append (fs gs : List Field) (u : CUnpacker) :
    getFields u (fs ++ gs) = readThen (getFields u fs) (getFields · gs) := by
  induction fs generalizing u with
  | nil => rfl
  | cons f fs ih => rw [List.cons_append, getFields, ih, getFields]; rfl

theorem getFields_ints (is : List Int) (u : CUnpacker) :
    getFields u (is.map .int) = readInts is.length u := by
  induction is generalizing u with
  | nil => rfl
  | cons i is ih => rw [List.map_cons, getFields, ih, List.length_cons, readInts]; rfl

theorem getFields_strings (strings : List (List UInt8)) (u : CUnpacker) :
    getFields u (strings.map str) = readStrings strings.length u := by
  induction strings generalizing u with
  | nil => rfl
  | cons s strings ih => rw [List.map_cons, getFields, ih, List.length_cons, readStrings]; rfl

theorem shaped_player {ClientId : Int} (h : 0 ≤ ClientId) (dx dy : Int) :
    Shaped ClientId [.int dx, .int dy] := by
  intro u v hread
  rw [readValues, if_pos h]
  exact hread

theorem shaped_new (ClientId x y : Int) :
    Shaped (-TEEHISTORIAN_PLAYER_NEW) [.int ClientId, .int x, .int y] := fun _ _ hread => hread

theorem shaped_old (ClientId : Int) : Shaped (-TEEHISTORIAN_PLAYER_OLD) [.int ClientId] :=
  fun _ _ hread => hread

theorem shaped_skip (dt : Int) : Shaped (-TEEHISTORIAN_TICK_SKIP) [.int dt] :=
  fun _ _ hread => hread

theorem shaped_finish : Shaped (-TEEHISTORIAN_FINISH) [] := fun _ _ hread => hread

theorem shaped_join (ClientId : Int) : Shaped (-TEEHISTORIAN_JOIN) [.int ClientId] :=
  fun _ _ hread => hread

theorem shaped_drop (ClientId : Int) (pReason : List UInt8) :
    Shaped (-TEEHISTORIAN_DROP) [.int ClientId, str pReason] := fun _ _ hread => hread

theorem shaped_input {type ClientId : Int} {is : List Int} (hlength : is.length = 10)
    (htype : type = -TEEHISTORIAN_INPUT_DIFF ∨ type = -TEEHISTORIAN_INPUT_NEW) :
    Shaped type (.int ClientId :: is.map .int) := by
  intro u v hread
  have hints : getFields u ((ClientId :: is).map .int) = readInts 11 u := by
    rw [getFields_ints, List.length_cons, hlength]
  rw [← hread]
  rcases htype with rfl | rfl
  · exact hints.symm
  · exact hints.symm

theorem shaped_message (ClientId : Int) (pMsg : List UInt8) :
    Shaped (-TEEHISTORIAN_MESSAGE) [.int ClientId, .int pMsg.length, .raw pMsg] := by
  intro u v hread
  have hsize : u.GetInt.2.GetInt.1 = pMsg.length := by
    have hvalues := congrArg Prod.fst hread
    exact Value.int.inj (List.cons.inj (List.cons.inj hvalues).2).1
  rw [← hread]
  show readThen (readInts 1 u) readBlock = _
  unfold readThen readBlock readInts readInts
  simp only [getFields, Field.get, hsize]
  rfl

theorem shaped_extra (Uuid : CUuid) (pData : List UInt8) :
    Shaped (-TEEHISTORIAN_EX) [.raw Uuid.toList, .int pData.length, .raw pData] := by
  intro u v hread
  have hlength : (Uuid.toList.length : Int) = 16 := by rw [Vector.length_toList]; rfl
  have hsize : (u.GetRaw Uuid.toList.length).2.GetInt.1 = pData.length := by
    have hvalues := congrArg Prod.fst hread
    exact Value.int.inj (List.cons.inj (List.cons.inj hvalues).2).1
  rw [← hread]
  show readThen ([.raw (u.GetRaw 16).1], (u.GetRaw 16).2) readBlock = _
  rw [← hlength]
  unfold readThen readBlock
  simp only [getFields, Field.get, hsize]
  rfl

theorem shaped_command (ClientId FlagMask : Int) (pCmd : List UInt8) (pResult : List (List UInt8)) :
    Shaped (-TEEHISTORIAN_CONSOLE_COMMAND)
      (.int ClientId :: .int FlagMask :: str pCmd :: .int pResult.length :: pResult.map str) := by
  intro u v hread
  have hnum : u.GetInt.2.GetInt.2.GetString.2.GetInt.1 = pResult.length := by
    have hvalues := congrArg Prod.fst hread
    have hbehind := (List.cons.inj (List.cons.inj (List.cons.inj hvalues).2).2).2
    exact Value.int.inj (List.cons.inj hbehind).1
  rw [← hread]
  show readThen (readThen (readInts 2 u) (readStrings 1)) readArguments = _
  unfold readThen readArguments readInts readInts readInts readStrings readStrings readThen
  simp only [getFields, getFields_strings, Field.get, str, hnum, Int.toNat_natCast]
  rfl

/-! ## Packets -/

/-- What is written for one record: a buffer behind its type, or an extra record. -/
inductive Packet
  | plain (type : Int) (Buffer : List Field)
  | extra (Uuid : CUuid) (Buffer : List Field)
  | raw (Uuid : CUuid) (pData : List UInt8)

/-- The bytes of a buffer that fits. -/
def payload (Buffer : List Field) : List UInt8 := (packed Buffer).toOption.getD []

def extraFields (Uuid : CUuid) (pData : List UInt8) : List Field :=
  [.raw Uuid.toList, .int pData.length, .raw pData]

namespace Packet

def record : Packet → Record
  | plain type Buffer => { type := type, values := valuesOf Buffer }
  | extra Uuid Buffer =>
      { type := -TEEHISTORIAN_EX, values := valuesOf (extraFields Uuid (payload Buffer)) }
  | raw Uuid pData => { type := -TEEHISTORIAN_EX, values := valuesOf (extraFields Uuid pData) }

/-- The packet fits the packer. -/
def Fits : Packet → Prop
  | plain type Buffer => TeeHistorian.Fits (.int type :: Buffer)
  | extra _ Buffer => TeeHistorian.Fits Buffer
  | raw _ pData => pData.length ≤ intMax

end Packet

/-- A few numbers fit. -/
theorem fits_ints (is : List Int) (his : ∀ i ∈ is, IsInt32 i) (hlength : is.length ≤ 12) :
    Fits (is.map .int) := by
  apply fits_plain
  · exact List.forall_mem_map.mpr his
  · have hsum : ((is.map Field.int).map fieldSize).sum ≤ 5 * is.length := by
      clear hlength
      induction is with
      | nil => exact Nat.le_refl 0
      | cons i is ih =>
          obtain ⟨hi, his⟩ := List.forall_mem_cons.mp his
          have hsize : fieldSize (.int i) ≤ 5 := packedLength_le hi
          have hrest := ih his
          rw [List.map_cons, List.map_cons, List.sum_cons, List.length_cons]
          omega
    unfold bufferSize
    omega

theorem fits_skip {dt : Int} (h : IsInt32 dt) : Fits [.int (-TEEHISTORIAN_TICK_SKIP), .int dt] := by
  refine fits_ints [-TEEHISTORIAN_TICK_SKIP, dt] ?_ (Nat.le_of_ble_eq_true rfl)
  exact List.forall_mem_cons.mpr ⟨by decide, List.forall_mem_singleton.mpr h⟩

theorem fits_finish : Fits [.int (-TEEHISTORIAN_FINISH)] :=
  fits_ints [-TEEHISTORIAN_FINISH] (List.forall_mem_singleton.mpr (by decide))
    (Nat.le_of_ble_eq_true rfl)

/-- The header of an extra record fits. -/
theorem fits_extra (Uuid : CUuid) {n : Nat} (h : n ≤ intMax) :
    Fits [.int (-TEEHISTORIAN_EX), .raw Uuid.toList, .int n] := by
  have hn : IsInt32 n := ⟨by omega, h⟩
  apply fits_plain
  · simp only [List.forall_mem_cons, List.not_mem_nil, false_imp_iff, implies_true, and_true]
    exact ⟨show IsInt32 (-11) by decide, trivial, hn⟩
  · have hsize := packedLength_le hn
    have hlength : Uuid.toList.length = 16 := Vector.length_toList
    have htype : packedLength (-TEEHISTORIAN_EX) = 1 := rfl
    simp only [List.map_cons, List.map_nil, List.sum_cons, List.sum_nil, fieldSize]
    unfold bufferSize
    omega

/-- An extra record is its header with the data behind it. -/
theorem encodes_extra (Uuid : CUuid) {pData : List UInt8} (h : pData.length ≤ intMax) :
    ∃ Ex, packed [.int (-TEEHISTORIAN_EX), .raw Uuid.toList, .int pData.length] = .ok Ex ∧
      Encodes (Ex ++ pData)
        { type := -TEEHISTORIAN_EX, values := valuesOf (extraFields Uuid pData) } := by
  obtain ⟨Ex, hrun, hread⟩ := (fits_extra Uuid h).packed
  refine ⟨Ex, hrun, encodes_of_read (fun rest => ?_) (shaped_extra Uuid pData)⟩
  have hdata : getFields { m_pCurrent := pData ++ rest, m_Error := false } [.raw pData] =
      (valuesOf [.raw pData], { m_pCurrent := rest, m_Error := false }) := by
    have hsize : ¬ ((pData.length : Int) < 0 ∨ ((pData ++ rest).length : Int) < pData.length) := by
      rw [List.length_append]
      omega
    unfold getFields getFields Field.get CUnpacker.GetRaw
    simp only [Bool.false_eq_true, if_false, if_neg hsize, Int.toNat_natCast, List.take_left,
      List.drop_left]
    rfl
  have hfields : Field.int (-TEEHISTORIAN_EX) :: extraFields Uuid pData =
      [.int (-TEEHISTORIAN_EX), .raw Uuid.toList, .int pData.length] ++ [.raw pData] := rfl
  rw [List.append_assoc]
  show getFields _ (Field.int (-TEEHISTORIAN_EX) :: extraFields Uuid pData) = _
  rw [hfields, getFields_append, hread, readThen, hdata]
  rfl

theorem add_size {p q : CAbstractPacker} {f : Field} (h : f.add p = .ok q)
    (hsize : p.Size ≤ p.m_BufferSize) :
    q.Size ≤ q.m_BufferSize ∧ q.m_BufferSize = p.m_BufferSize := by
  by_cases hp : p.m_Error = true
  · rw [add_error hp] at h
    cases h
    exact ⟨hsize, rfl⟩
  · rw [Bool.not_eq_true] at hp
    cases f with
    | int i =>
        have h : Except.ok (p.AddInt i) = .ok q := h
        rw [CAbstractPacker.AddInt, hp, if_neg (by decide)] at h
        rcases pack_spec i (p.m_BufferSize - p.Size) with ⟨hle, pDst, hrun, hlength⟩ | ⟨hlt, hrun⟩
        · rw [hrun] at h
          cases h
          refine ⟨?_, rfl⟩
          show (p.m_pBuffer ++ pDst).length ≤ _
          rw [List.length_append, hlength]
          exact Nat.add_le_of_le_sub' hsize hle
        · rw [hrun] at h
          cases h
          exact ⟨hsize, rfl⟩
    | string pStr n b =>
        have h : p.AddString pStr n b = .ok q := h
        rw [CAbstractPacker.AddString, hp, if_neg (by decide)] at h
        simp only at h
        split at h
        · cases h
          exact ⟨hsize, rfl⟩
        · split at h
          next hroom =>
            cases h
            refine ⟨?_, rfl⟩
            show (_ ++ [0]).length ≤ _
            rw [List.length_append]
            exact hroom
          next => cases h
    | raw pData =>
        have h : Except.ok (p.AddRaw pData) = .ok q := h
        rw [CAbstractPacker.AddRaw, hp, if_neg (by decide)] at h
        split at h
        · cases h
          exact ⟨hsize, rfl⟩
        next hroom =>
          cases h
          refine ⟨?_, rfl⟩
          show (p.m_pBuffer ++ pData).length ≤ _
          rw [List.length_append]
          exact Nat.not_lt.mp hroom

theorem addFields_size {p q : CAbstractPacker} {fs : List Field} (h : addFields p fs = .ok q)
    (hsize : p.Size ≤ p.m_BufferSize) : q.Size ≤ p.m_BufferSize := by
  induction fs generalizing p with
  | nil =>
      cases h
      exact hsize
  | cons f fs ih =>
      unfold addFields at h
      cases hadd : f.add p with
      | error e =>
          rw [hadd] at h
          cases h
      | ok r =>
          obtain ⟨hr, hbuffer⟩ := add_size hadd hsize
          rw [hadd] at h
          exact hbuffer ▸ ih h hr

theorem Fits.payload {Buffer : List Field} (h : Fits Buffer) :
    TeeHistorian.packed Buffer = .ok (TeeHistorian.payload Buffer) ∧
      (TeeHistorian.payload Buffer).length ≤ intMax := by
  obtain ⟨bytes, hrun, -⟩ := h.packed
  have hpayload : TeeHistorian.payload Buffer = bytes := by
    unfold TeeHistorian.payload
    rw [hrun]
    rfl
  rw [hpayload]
  refine ⟨hrun, ?_⟩
  unfold TeeHistorian.packed at hrun
  cases hadd : addFields (emptyPacker bufferSize) Buffer with
  | error e =>
      rw [hadd] at hrun
      cases hrun
  | ok q =>
      rw [hadd] at hrun
      cases hrun
      have hsize := addFields_size hadd (Nat.zero_le _)
      have hbuffer : (emptyPacker bufferSize).m_BufferSize = 65536 := rfl
      unfold CAbstractPacker.Size at hsize
      unfold intMax
      omega

/-! ## Streams -/

/-- The bytes are read as these records, whatever is behind them. -/
def Stream (bytes : List UInt8) (rs : List Record) : Prop :=
  ∀ rest, readRecords (bytes ++ rest) = (readRecords rest).map (rs ++ ·)

theorem Stream.nil : Stream [] [] := by
  intro rest
  rw [List.nil_append]
  exact Option.map_id'.symm

theorem Stream.append {bytes bytes' : List UInt8} {rs rs' : List Record} (h : Stream bytes rs)
    (h' : Stream bytes' rs') : Stream (bytes ++ bytes') (rs ++ rs') := by
  intro rest
  rw [List.append_assoc, h, h', Option.map_map]
  congr 1
  funext l
  exact (List.append_assoc ..).symm

theorem Encodes.stream {bytes : List UInt8} {r : Record} (h : Encodes bytes r)
    (htype : r.type ≠ -TEEHISTORIAN_FINISH) : Stream bytes [r] := by
  intro rest
  have hne : bytes ++ rest ≠ [] := fun heq => h.1 (List.append_eq_nil_iff.mp heq).1
  have hlt : rest.length < (bytes ++ rest).length := by
    rw [List.length_append]
    have hpos := List.length_pos_iff.mpr h.1
    omega
  rw [readRecords, if_neg hne, h.2]
  simp only
  rw [if_neg htype, if_pos hlt]
  rfl

/-- The last record is the one of the end. -/
theorem Stream.finish {bytes : List UInt8} {rs : List Record} (h : Stream bytes rs)
    {last : List UInt8} {r : Record} (hlast : Encodes last r)
    (htype : r.type = -TEEHISTORIAN_FINISH) :
    readRecords (bytes ++ last) = some (rs ++ [r]) := by
  have hread := hlast.2 []
  rw [List.append_nil] at hread
  rw [h, readRecords, if_neg hlast.1, hread]
  simp only
  rw [if_pos htype]
  rfl

theorem Stream.read {bytes : List UInt8} {rs : List Record} (h : Stream bytes rs) :
    readRecords bytes = some rs := by
  have hread := h []
  have hend : readRecords [] = some [] := by rw [readRecords, if_pos rfl]
  rw [List.append_nil, hend] at hread
  rw [hread]
  exact congrArg some (List.append_nil rs)

end Fex.Game.TeeHistorian
