import Fex.Engine.Connection.Delivery
import Fex.Engine.Packer.RoundTrip
import Fex.Engine.UuidManager

/-!
# Messages over a connection

A message is packed with its id in front and sent as a chunk.  `UnpackMessageId` reads the id of
what arrives, its handler reads the fields.
-/

namespace Fex.Engine.Messages

open Fex.Lib Snapshot Packer Network Connection

def NETMSG_WHATIS : Int := OFFSET_NETMSG_UUID
def NETMSG_ITIS : Int := OFFSET_NETMSG_UUID + 1
def NETMSG_IDONTKNOW : Int := OFFSET_NETMSG_UUID + 2

inductive EUnpackMessage
  | UNPACKMESSAGE_ERROR
  | UNPACKMESSAGE_OK
  | UNPACKMESSAGE_ANSWER
  deriving DecidableEq

open EUnpackMessage

/-- What `UnpackMessageId` returns and stores, with the answer that it packs. -/
structure MessageId where
  result : EUnpackMessage
  pId : Int
  pSys : Bool
  pUuid : Option CUuid
  pPacker : Option (Exec CMsgPacker)

/-- The answer to a question about a UUID. -/
def answer (GetName : Int → List UInt8) (Id2 : Int) (Uuid2 : CUuid) : Exec CMsgPacker :=
  if Id2 = UUID_UNKNOWN then
    let m := CMsgPacker.new NETMSG_IDONTKNOW true
    .ok { m with packer := m.packer.AddRaw Uuid2.toList }
  else
    let m := CMsgPacker.new NETMSG_ITIS true
    { m with packer := m.packer.AddRaw Uuid2.toList }.AddString (GetName Id2) 0 true

/-- The debug output reads on. -/
def UnpackMessageId (g_UuidManager : CUuidManager) (GetName : Int → List UInt8) (m_Debug : Bool)
    (pUnpacker : CUnpacker) : MessageId × CUnpacker :=
  let (MsgId, pUnpacker) := pUnpacker.GetInt
  if pUnpacker.m_Error then (⟨UNPACKMESSAGE_ERROR, 0, false, none, none⟩, pUnpacker)
  else
    let Id := MsgId / 2
    let Sys : Bool := MsgId % 2 ≠ 0
    if Id < 0 ∨ Id ≥ OFFSET_UUID then (⟨UNPACKMESSAGE_ERROR, Id, Sys, none, none⟩, pUnpacker)
    else if Id ≠ 0 then (⟨UNPACKMESSAGE_OK, Id, Sys, none, none⟩, pUnpacker)
    else
      let (Id, Uuid, pUnpacker) := g_UuidManager.UnpackUuid pUnpacker
      if Id = UUID_INVALID ∨ Id = UUID_UNKNOWN then
        (⟨UNPACKMESSAGE_ERROR, Id, Sys, Uuid, none⟩, pUnpacker)
      else if Sys ∧ Id = NETMSG_WHATIS then
        let (Id2, Uuid2, pUnpacker) := g_UuidManager.UnpackUuid pUnpacker
        match Uuid2 with
        | none => (⟨UNPACKMESSAGE_OK, Id, Sys, Uuid, none⟩, pUnpacker)
        | some Uuid2 =>
            (⟨UNPACKMESSAGE_ANSWER, Id, Sys, Uuid, some (answer GetName Id2 Uuid2)⟩, pUnpacker)
      else if Sys ∧ m_Debug ∧ Id = NETMSG_IDONTKNOW then
        (⟨UNPACKMESSAGE_OK, Id, Sys, Uuid, none⟩, (g_UuidManager.UnpackUuid pUnpacker).2.2)
      else if Sys ∧ m_Debug ∧ Id = NETMSG_ITIS then
        (⟨UNPACKMESSAGE_OK, Id, Sys, Uuid, none⟩,
          (g_UuidManager.UnpackUuid pUnpacker).2.2.GetString.2)
      else (⟨UNPACKMESSAGE_OK, Id, Sys, Uuid, none⟩, pUnpacker)

/-! ## What is sent and read -/

/-- A message with its fields. -/
structure Msg where
  m_MsgId : Int
  m_System : Bool
  fields : List Field

/-- The message is not one that `UnpackMessageId` reads itself. -/
def Msg.Handled (m_Debug : Bool) (m : Msg) : Prop :=
  m.m_System = true → m.m_MsgId ≠ NETMSG_WHATIS ∧
    (m_Debug = true → m.m_MsgId ≠ NETMSG_IDONTKNOW ∧ m.m_MsgId ≠ NETMSG_ITIS)

/-- The id is a number of the protocol or a registered one, and the fields fit. -/
structure Msg.Sendable (uuids : List CUuid) (m_Debug : Bool) (m : Msg) : Prop where
  id : 0 < m.m_MsgId ∧ m.m_MsgId < OFFSET_UUID ∨
    ∃ i, i < uuids.length ∧ m.m_MsgId = OFFSET_UUID + i
  handled : m.Handled m_Debug
  valid : ∀ f ∈ m.fields, f.Valid
  fit : FieldsFit CPacker m.fields

/-- The bytes that `SendMsg` queues, both packers are without error. -/
def Msg.Packed (g_UuidManager : CUuidManager) (m : Msg) (pData : List UInt8) : Prop :=
  ∃ packer Pack, addFields CPacker m.fields = .ok packer ∧ packer.m_Error = false ∧
    RepackMsg g_UuidManager ⟨m.m_MsgId, m.m_System, packer⟩ = .ok Pack ∧ Pack.m_Error = false ∧
    Pack.m_pBuffer = pData

/-- The id, the kind and the fields are read, and nothing is left. -/
def Msg.Received (g_UuidManager : CUuidManager) (GetName : Int → List UInt8) (m_Debug : Bool)
    (m : Msg) (pData : List UInt8) : Prop :=
  let (r, u) := UnpackMessageId g_UuidManager GetName m_Debug (.Reset pData)
  r.result = UNPACKMESSAGE_OK ∧ r.pId = m.m_MsgId ∧ r.pSys = m.m_System ∧
    getFields u m.fields =
      (m.fields.map (Field.value PACKER_BUFFER_SIZE), { m_pCurrent := [], m_Error := false })

/-! ## One message -/

variable {g_UuidManager : CUuidManager} {uuids : List CUuid} {GetName : Int → List UInt8}
  {m_Debug : Bool} {m : Msg}

theorem addRaw_buffer {p : CAbstractPacker} {pData : List UInt8}
    (h : (p.AddRaw pData).m_Error = false) :
    p.m_Error = false ∧ (p.AddRaw pData).m_pBuffer = p.m_pBuffer ++ pData := by
  unfold CAbstractPacker.AddRaw at h ⊢
  split at h
  next herror => exact absurd h (by simp [herror])
  next herror =>
    rw [if_neg herror]
    split at h
    · cases h
    next hroom =>
      rw [if_neg hroom]
      exact ⟨h, rfl⟩

/-- The first integer is read. -/
theorem getInt_addInt {i : Int} (hi : IsInt32 i) (herror : (CPacker.AddInt i).m_Error = false)
    (rest : List UInt8) :
    CUnpacker.GetInt { m_pCurrent := (CPacker.AddInt i).m_pBuffer ++ rest, m_Error := false } =
      (i, { m_pCurrent := rest, m_Error := false }) := by
  obtain ⟨-, h | ⟨-, bytes, hbuffer, hget⟩⟩ := add_int (p := CPacker) rfl hi
  · rw [herror] at h
    cases h
  · rw [hbuffer]
    obtain ⟨hvalue, hunpacker⟩ := Prod.mk.inj (hget rest)
    exact Prod.ext (Value.int.inj hvalue) hunpacker

/-- The id in front of the bytes of a message. -/
theorem unpackMessageId_repacked (htable : CUuidManager.Table g_UuidManager uuids)
    (h : m.Sendable uuids m_Debug) {packer Pack : CAbstractPacker}
    (hrun : RepackMsg g_UuidManager ⟨m.m_MsgId, m.m_System, packer⟩ = .ok Pack)
    (herror : Pack.m_Error = false) :
    ∃ r, UnpackMessageId g_UuidManager GetName m_Debug (.Reset Pack.m_pBuffer) =
        (r, { m_pCurrent := packer.m_pBuffer, m_Error := false }) ∧
      r.result = UNPACKMESSAGE_OK ∧ r.pId = m.m_MsgId ∧ r.pSys = m.m_System := by
  have hoffset : OFFSET_UUID = 65536 := rfl
  have hsys : ∀ n : Int, (n * 2 + if m.m_System then 1 else 0) / 2 = n ∧
      decide ((n * 2 + if m.m_System then 1 else 0) % 2 ≠ 0) = m.m_System := by
    intro n
    cases m.m_System
    · simp
    · constructor
      · simp only [if_true]
        omega
      · simp only [if_true, decide_eq_true_eq]
        omega
  unfold RepackMsg at hrun
  simp only at hrun
  rcases h.id with ⟨hpos, hlt⟩ | ⟨i, hi, hid⟩
  · -- the id is in the integer
    rw [if_pos hlt] at hrun
    obtain rfl := Except.ok.inj hrun
    obtain ⟨hint, hbuffer⟩ := addRaw_buffer herror
    rw [hbuffer]
    have hget := getInt_addInt (by
      unfold IsInt32
      split <;> omega) hint packer.m_pBuffer
    obtain ⟨hhalf, hodd⟩ := hsys m.m_MsgId
    refine ⟨⟨UNPACKMESSAGE_OK, m.m_MsgId, m.m_System, none, none⟩, ?_, rfl, rfl, rfl⟩
    unfold UnpackMessageId CUnpacker.Reset
    simp only [hget, hhalf, hodd, Bool.false_eq_true, if_false]
    rw [if_neg (by omega), if_pos (by omega)]
  · -- the integer is 0 or 1 and a UUID follows
    have huuid := htable.getUuid (List.getElem?_eq_getElem hi)
    rw [if_neg (show ¬m.m_MsgId < OFFSET_UUID by omega), hid, huuid] at hrun
    obtain rfl := Except.ok.inj hrun
    obtain ⟨hraw, hbuffer⟩ := addRaw_buffer herror
    obtain ⟨hint, hhead⟩ := addRaw_buffer hraw
    rw [hbuffer, hhead, List.append_assoc]
    obtain ⟨hhalf, hodd⟩ := hsys 0
    rw [Int.zero_mul, Int.zero_add] at hhalf hodd
    have hget := getInt_addInt (by
      unfold IsInt32
      split <;> omega) hint (uuids[i].toList ++ packer.m_pBuffer)
    have hunpack := CUuidManager.unpackUuid_append g_UuidManager uuids[i] packer.m_pBuffer
    rw [htable.indexed.lookupUuid huuid] at hunpack
    have hhandled := h.handled
    unfold Msg.Handled at hhandled
    rw [hid] at hhandled
    refine ⟨⟨UNPACKMESSAGE_OK, OFFSET_UUID + i, m.m_System, some uuids[i], none⟩, ?_, rfl, hid.symm,
      rfl⟩
    unfold UnpackMessageId CUnpacker.Reset
    simp only [hget, hhalf, hodd, hunpack, Bool.false_eq_true, if_false]
    rw [if_neg (by omega), if_neg fun hne => hne rfl, if_neg (by
      have hinvalid : UUID_INVALID = -2 := rfl
      have hunknown : UUID_UNKNOWN = -1 := rfl
      omega), if_neg fun hwhat => (hhandled hwhat.1).1 hwhat.2,
      if_neg fun hdont => ((hhandled hdont.1).2 hdont.2.1).1 hdont.2.2,
      if_neg fun his => ((hhandled his.1).2 his.2.1).2 his.2.2]

/-- What is packed is received. -/
theorem Msg.Packed.received (htable : CUuidManager.Table g_UuidManager uuids)
    (h : m.Sendable uuids m_Debug) {pData : List UInt8} (hpacked : m.Packed g_UuidManager pData) :
    m.Received g_UuidManager GetName m_Debug pData := by
  obtain ⟨packer, Pack, hadd, hpacker, hrun, herror, rfl⟩ := hpacked
  obtain ⟨r, hunpack, hresult, hid, hsys⟩ := @unpackMessageId_repacked g_UuidManager uuids GetName
    m_Debug m htable h packer Pack hrun herror
  obtain ⟨q, hq, hread⟩ := addFields_spec (p := CPacker) rfl h.valid h.fit
  obtain rfl : packer = q := Except.ok.inj (hadd.symm.trans hq)
  obtain ⟨bytes, hbuffer, hget⟩ := hread hpacker
  have hfields := hget []
  rw [List.append_nil] at hfields
  unfold Msg.Received
  rw [hunpack, hbuffer]
  exact ⟨hresult, hid, hsys, hfields⟩

/-! ## Runs -/

end Fex.Engine.Messages
