import Fex.Engine.NetBan
import Fex.Lib.Cells
import Mathlib.Algebra.Order.BigOperators.Group.List
import Mathlib.Algebra.Order.Group.Nat

/-!
# STUN responses

Model of `stun.cpp`.  The message is the list of its `MessageSize` bytes and an
access outside of it is a fault.  The loop over the attributes is a recursion on
`Offset`.
-/

namespace Fex.Engine.Stun

open Fex.Lib
open Fex.Engine.NetBan (NETADDR NETTYPE_IPV4 NETTYPE_IPV6 ipLength)

structure CStunData where
  m_aSecret : Vector UInt8 12

/-- `(hi << 8) | lo` in a `uint16_t` -/
def word (hi lo : UInt8) : UInt16 := hi.toUInt16 <<< 8 ||| lo.toUInt16

/-- The bytes of a `uint16_t` in network order. -/
def bytes16 (w : UInt16) : List UInt8 := [(w >>> 8).toUInt8, w.toUInt8]

/-- 0x2112A442 -/
def MagicCookie : List UInt8 := [0x21, 0x12, 0xA4, 0x42]

/-- `(pMessage[Offset] << 8) | pMessage[Offset + 1]` -/
def load16 (pMessage : List UInt8) (Offset : Nat) : Exec UInt16 := do
  let hi ← load pMessage Offset
  let lo ← load pMessage (Offset + 1)
  return word hi lo

/-- The bytes of a request and the data that is kept for its response. -/
def StunMessagePrepare (BufferSize : Nat) (random : Vector UInt8 12) :
    Exec (List UInt8 × CStunData) :=
  if BufferSize < 20 then .error .assertion
  else .ok ([0x00, 0x01, 0x00, 0x00] ++ MagicCookie ++ random.toList, ⟨random⟩)

/-- A block is copied to the front of `ip` and its bytes are xored with those of `key`. -/
def copyXor (ip : Vector UInt8 16) (block key : List UInt8) : Vector UInt8 16 :=
  Vector.ofFn fun i => match block[i.val]? with
    | some b => b ^^^ key.getD i 0
    | none => ip.get i

/-- An XOR-MAPPED-ADDRESS attribute; `none` stands for an error. -/
def readMappedAddress (pMessage : List UInt8) (pData : CStunData) (Offset : Nat) (Length : UInt16)
    (pAddr : NETADDR) (FoundAddr : Bool) : Exec (Option (NETADDR × Bool)) :=
  if Length < 4 then .ok none
  else do
    let Family ← load pMessage (Offset + 4 + 1)
    let Port ← load16 pMessage (Offset + 4 + 2)
    if Family = 0x01 then
      if Length ≠ 8 then return none
      -- only the first address is used
      else if FoundAddr then return some (pAddr, true)
      else do
        let ip ← loadBlock pMessage (Offset + 4 + 4) 4
        return some (⟨NETTYPE_IPV4, copyXor pAddr.ip ip MagicCookie, Port ^^^ 0x2112⟩, true)
    else if Family = 0x02 then
      if Length ≠ 20 then return none
      else if FoundAddr then return some (pAddr, true)
      else do
        let ip ← loadBlock pMessage (Offset + 4 + 4) 16
        return some (⟨NETTYPE_IPV6, copyXor pAddr.ip ip (MagicCookie ++ pData.m_aSecret.toList),
          Port ^^^ 0x2112⟩, true)
    else return some (pAddr, FoundAddr)

/-- The attribute at `Offset`; `none` stands for an error. -/
def readAttribute (pMessage : List UInt8) (pData : CStunData) (pSuccess : Bool) (Offset : Nat)
    (type Length : UInt16) (pAddr : NETADDR) (FoundAddr : Bool) :
    Exec (Option (NETADDR × Bool)) :=
  if pSuccess ∧ type = 0x0020 then readMappedAddress pMessage pData Offset Length pAddr FoundAddr
  -- comprehension-required
  else if type ≤ 0x7fff then .ok none
  else .ok (some (pAddr, FoundAddr))

/-- The returned error and the address. -/
def attributeLoop (pMessage : List UInt8) (pData : CStunData) (MessageSize : Nat) (pSuccess : Bool)
    (Offset : Nat) (pAddr : NETADDR) (FoundAddr : Bool) : Exec (Bool × NETADDR) :=
  if MessageSize = Offset then .ok (pSuccess && !FoundAddr, pAddr)
  else if MessageSize < Offset + 4 then .ok (true, pAddr)
  else do
    let type ← load16 pMessage Offset
    let Length ← load16 pMessage (Offset + 2)
    if MessageSize < Offset + 4 + Length.toNat then return (true, pAddr)
    else
      let found ← readAttribute pMessage pData pSuccess Offset type Length pAddr FoundAddr
      match found with
      | none => return (true, pAddr)
      | some (pAddr, FoundAddr) =>
          attributeLoop pMessage pData MessageSize pSuccess (Offset + 4 + Length.toNat) pAddr
            FoundAddr
  termination_by MessageSize - Offset

/-- What `StunMessageParse` returns and writes. -/
structure Parsed where
  Error : Bool
  pSuccess : Bool
  pAddr : NETADDR
  deriving DecidableEq

def StunMessageParse (pMessage : List UInt8) (pData : CStunData) : Exec Parsed :=
  if pMessage.length < 20 then .ok ⟨true, false, .zero⟩
  else do
    let Class ← load pMessage 0
    let Method ← load pMessage 1
    let MessageLength ← load16 pMessage 2
    let Cookie ← loadBlock pMessage 4 4
    let TransactionId ← loadBlock pMessage 8 12
    if Class = 0x01 ∧ (Method = 0x01 ∨ Method = 0x11) ∧
        20 + MessageLength.toNat ≤ pMessage.length ∧ MessageLength.toNat % 4 = 0 ∧
        Cookie = MagicCookie ∧ mem_comp TransactionId pData.m_aSecret.toList = 0 then do
      let pSuccess := Method == 0x01
      let (Error, pAddr) ←
        attributeLoop pMessage pData (20 + MessageLength.toNat) pSuccess 20 .zero false
      return ⟨Error, pSuccess, pAddr⟩
    else return ⟨true, false, .zero⟩

/-! ## Responses -/

/-- An address that an XOR-MAPPED-ADDRESS attribute holds, with the byte that is ignored. -/
structure MappedAddress where
  reserved : UInt8
  addr : NETADDR
  family : addr.type = NETTYPE_IPV6 ∨
    addr.type = NETTYPE_IPV4 ∧ ∀ i (hi : i < 16), 4 ≤ i → addr.ip[i] = 0

/-- The bytes of the address behind the family and the port. -/
def MappedAddress.masked (pData : CStunData) (a : MappedAddress) : List UInt8 :=
  List.zipWith (· ^^^ ·) (a.addr.bytes 0 (ipLength a.addr.type))
    (MagicCookie ++ pData.m_aSecret.toList)

def MappedAddress.Value (pData : CStunData) (a : MappedAddress) : List UInt8 :=
  [a.reserved, if a.addr.type = NETTYPE_IPV4 then 0x01 else 0x02] ++
    bytes16 (a.addr.port ^^^ 0x2112) ++ a.masked pData

inductive Attribute
  /-- A comprehension-optional attribute. -/
  | optional (type : UInt16) (htype : 0x8000 ≤ type) (Value : List UInt8)
  | mapped (a : MappedAddress)

namespace Attribute

def type : Attribute → UInt16
  | optional type _ _ => type
  | mapped _ => 0x0020

def Value (pData : CStunData) : Attribute → List UInt8
  | optional _ _ Value => Value
  | mapped a => a.Value pData

def address? : Attribute → Option NETADDR
  | optional .. => none
  | mapped a => some a.addr

/-- The attribute without padding. -/
def bytes (pData : CStunData) (a : Attribute) : List UInt8 :=
  bytes16 a.type ++ bytes16 (.ofNat (a.Value pData).length) ++ a.Value pData

end Attribute

/-- Bytes up to the next multiple of four. -/
def padLength (n : Nat) : Nat := (4 - n % 4) % 4

/-- Attributes and their paddings, one behind the other. -/
def layout (pData : CStunData) (parts : List (Attribute × List UInt8)) : List UInt8 :=
  parts.flatMap fun part => part.1.bytes pData ++ part.2

/-- The values are padded to multiples of four bytes. -/
def Padded (pData : CStunData) (parts : List (Attribute × List UInt8)) : Prop :=
  ∀ part ∈ parts, part.2.length = padLength (part.1.Value pData).length

/-- The attributes of a binding success response with the first address among them. -/
structure Response (pData : CStunData) where
  attributes : List Attribute
  addr : NETADDR
  first : attributes.findSome? Attribute.address? = some addr
  fits : (attributes.map fun a =>
    4 + (a.Value pData).length + padLength (a.Value pData).length).sum < 65536

/-- A binding success response whose declared length is that of `body`. -/
def message (pData : CStunData) (body extra : List UInt8) : List UInt8 :=
  [0x01, 0x01] ++ bytes16 (.ofNat body.length) ++ MagicCookie ++ pData.m_aSecret.toList ++
    (body ++ extra)

/-- Attributes fill the bytes. -/
inductive Tiles : List UInt8 → Prop
  | nil : Tiles []
  | cons (t₀ t₁ l₀ l₁ : UInt8) {Value rest : List UInt8} :
      Value.length = (word l₀ l₁).toNat → Tiles rest →
        Tiles (t₀ :: t₁ :: l₀ :: l₁ :: (Value ++ rest))

/-- A binding success response with the transaction id of the request. -/
def IsSuccessResponse (pMessage : List UInt8) (pData : CStunData) : Prop :=
  ∃ body extra, pMessage = message pData body extra ∧ body.length < 65536 ∧
    body.length % 4 = 0 ∧ Tiles body

/-- A message is parsed without a fault, and as a success only if it is a response. -/
def Sound (pMessage : List UInt8) (pData : CStunData) : Prop :=
  ∃ parsed, StunMessageParse pMessage pData = .ok parsed ∧
    (parsed.Error = false ∧ parsed.pSuccess = true → IsSuccessResponse pMessage pData)

/-- The response is reported as a success with its first address. -/
def Response.Parses {pData : CStunData} (r : Response pData) (parts : List (Attribute × List UInt8))
    (extra : List UInt8) : Prop :=
  StunMessageParse (message pData (layout pData parts) extra) pData = .ok ⟨false, true, r.addr⟩

/-- The attributes padded with zeros. -/
def zeroPadded (pData : CStunData) (attributes : List Attribute) : List (Attribute × List UInt8) :=
  attributes.map fun a => (a, List.replicate (padLength (a.Value pData).length) 0)

/-- No value needs a padding. -/
def Aligned (pData : CStunData) (attributes : List Attribute) : Prop :=
  ∀ a ∈ attributes, 4 ∣ (a.Value pData).length

/-! ## Words -/

theorem toNat_word (hi lo : UInt8) : (word hi lo).toNat = hi.toNat * 256 + lo.toNat := by
  have hhi := hi.toNat_lt
  have hlo := lo.toNat_lt
  have hor := Nat.shiftLeft_add_eq_or_of_lt hlo hi.toNat
  rw [Nat.shiftLeft_eq] at hor
  simp only [word, UInt16.toNat_or, UInt16.toNat_shiftLeft, UInt8.toNat_toUInt16]
  rw [show (8 : UInt16).toNat % 16 = 8 from rfl, Nat.shiftLeft_eq, Nat.mod_eq_of_lt (by omega),
    ← hor]

theorem word_bytes16 (w : UInt16) : word (w >>> 8).toUInt8 w.toUInt8 = w := by
  apply UInt16.toNat_inj.mp
  rw [toNat_word]
  have hw := w.toNat_lt
  simp [Nat.shiftRight_eq_div_pow]
  omega

theorem bytes16_word (hi lo : UInt8) : bytes16 (word hi lo) = [hi, lo] := by
  have hhi := hi.toNat_lt
  have hlo := lo.toNat_lt
  have hword := toNat_word hi lo
  have hfirst : (word hi lo >>> 8).toUInt8 = hi := by
    apply UInt8.toNat_inj.mp
    simp [hword, Nat.shiftRight_eq_div_pow]
    omega
  have hsecond : (word hi lo).toUInt8 = lo := by
    apply UInt8.toNat_inj.mp
    simp [hword]
  rw [bytes16, hfirst, hsecond]

theorem toNat_ofNat {n : Nat} (h : n < 65536) : (UInt16.ofNat n).toNat = n :=
  UInt16.toNat_ofNat_of_lt' h

@[simp] theorem load16_append_add (pre mem : List UInt8) (k : Nat) :
    load16 (pre ++ mem) (pre.length + k) = load16 mem k := by
  unfold load16
  rw [load_append_add, Nat.add_assoc, load_append_add]

theorem load16_total {mem : List UInt8} {p : Nat} (h : p + 1 < mem.length) :
    ∃ w, load16 mem p = .ok w := by
  unfold load16
  rw [load_eq (List.getElem?_eq_getElem (Nat.lt_of_succ_lt h)),
    load_eq (List.getElem?_eq_getElem h)]
  exact ⟨_, rfl⟩

/-! ## Reading an attribute -/

section
variable (pData : CStunData) (pSuccess : Bool) (type Length : UInt16) (pAddr : NETADDR)
  (FoundAddr : Bool)

theorem readMappedAddress_append (pre mem : List UInt8) :
    readMappedAddress (pre ++ mem) pData pre.length Length pAddr FoundAddr =
      readMappedAddress mem pData 0 Length pAddr FoundAddr := by
  simp only [readMappedAddress, Nat.add_assoc, load_append_add, load16_append_add,
    loadBlock_append_add, Nat.zero_add]

theorem readAttribute_append (pre mem : List UInt8) :
    readAttribute (pre ++ mem) pData pSuccess pre.length type Length pAddr FoundAddr =
      readAttribute mem pData pSuccess 0 type Length pAddr FoundAddr := by
  unfold readAttribute
  rw [readMappedAddress_append]

/-- Only the value is read. -/
theorem readMappedAddress_total {pMessage : List UInt8} {Offset : Nat}
    (h : Offset + 4 + Length.toNat ≤ pMessage.length) : ∃ found,
      readMappedAddress pMessage pData Offset Length pAddr FoundAddr = .ok found := by
  unfold readMappedAddress
  split
  · exact ⟨none, rfl⟩
  next hlong =>
    rw [UInt16.not_lt, UInt16.le_iff_toNat_le] at hlong
    have hfour : 4 ≤ Length.toNat := hlong
    obtain ⟨Port, hport⟩ : ∃ w, load16 pMessage (Offset + 4 + 2) = .ok w :=
      load16_total (by omega)
    rw [load_eq (List.getElem?_eq_getElem (by omega)), hport]
    simp only [bind, Except.bind]
    split
    · split
      · exact ⟨none, rfl⟩
      next height =>
        have hlength : Length.toNat = 8 := congrArg UInt16.toNat (not_not.mp height)
        split
        · exact ⟨some (pAddr, true), rfl⟩
        · rw [loadBlock, if_pos (by omega)]
          exact ⟨_, rfl⟩
    · split
      · split
        · exact ⟨none, rfl⟩
        next htwenty =>
          have hlength : Length.toNat = 20 := congrArg UInt16.toNat (not_not.mp htwenty)
          split
          · exact ⟨some (pAddr, true), rfl⟩
          · rw [loadBlock, if_pos (by omega)]
            exact ⟨_, rfl⟩
      · exact ⟨some (pAddr, FoundAddr), rfl⟩

theorem readAttribute_total {pMessage : List UInt8} {Offset : Nat}
    (h : Offset + 4 + Length.toNat ≤ pMessage.length) : ∃ found,
      readAttribute pMessage pData pSuccess Offset type Length pAddr FoundAddr = .ok found := by
  unfold readAttribute
  split
  · exact readMappedAddress_total pData Length pAddr FoundAddr h
  · split
    · exact ⟨none, rfl⟩
    · exact ⟨some (pAddr, FoundAddr), rfl⟩

/-! ## One turn of the loop -/

theorem attributeLoop_end (pMessage : List UInt8) (Offset : Nat) :
    attributeLoop pMessage pData Offset pSuccess Offset pAddr FoundAddr =
      .ok (pSuccess && !FoundAddr, pAddr) := by
  rw [attributeLoop, if_pos rfl]

theorem attributeLoop_short {MessageSize Offset : Nat} (pMessage : List UInt8)
    (hbegin : Offset < MessageSize) (hshort : MessageSize < Offset + 4) :
    attributeLoop pMessage pData MessageSize pSuccess Offset pAddr FoundAddr = .ok (true, pAddr) := by
  rw [attributeLoop, if_neg (by omega), if_pos hshort]

/-- The turn of an attribute that begins behind `pre`. -/
theorem attributeLoop_turn {pre rest : List UInt8} {t₀ t₁ l₀ l₁ : UInt8} {MessageSize : Nat}
    (hsize : pre.length + 4 ≤ MessageSize) :
    attributeLoop (pre ++ t₀ :: t₁ :: l₀ :: l₁ :: rest) pData MessageSize pSuccess pre.length
        pAddr FoundAddr =
      if MessageSize < pre.length + 4 + (word l₀ l₁).toNat then .ok (true, pAddr)
      else (do
        let found ← readAttribute (t₀ :: t₁ :: l₀ :: l₁ :: rest) pData pSuccess 0 (word t₀ t₁)
          (word l₀ l₁) pAddr FoundAddr
        match found with
        | none => return (true, pAddr)
        | some (pAddr, FoundAddr) =>
            attributeLoop (pre ++ t₀ :: t₁ :: l₀ :: l₁ :: rest) pData MessageSize pSuccess
              (pre.length + 4 + (word l₀ l₁).toNat) pAddr FoundAddr) := by
  have htype := load16_append_add pre (t₀ :: t₁ :: l₀ :: l₁ :: rest) 0
  rw [Nat.add_zero] at htype
  rw [attributeLoop, if_neg (by omega), if_neg (by omega), htype, load16_append_add]
  simp only [readAttribute_append]
  rfl

end

/-! ## Messages that are accepted -/

theorem cons_four {α : Type} {l : List α} (h : 4 ≤ l.length) :
    ∃ a b c d tail, l = a :: b :: c :: d :: tail := by
  match l, h with
  | a :: b :: c :: d :: tail, _ => exact ⟨a, b, c, d, tail, rfl⟩

theorem split_at {α : Type} {l : List α} {n : Nat} (h : n ≤ l.length) :
    ∃ front back, l = front ++ back ∧ front.length = n :=
  ⟨l.take n, l.drop n, (List.take_append_drop ..).symm, List.length_take_of_le h⟩

section
variable (pData : CStunData) (pSuccess : Bool)

/-- The loop reads nothing behind the declared length and accepts only bytes that attributes
fill. -/
theorem attributeLoop_sound (extra : List UInt8) (n : Nat) : ∀ (pre : List UInt8)
    {rest : List UInt8} (pAddr : NETADDR) (FoundAddr : Bool), rest.length ≤ n → ∃ Error addr,
      attributeLoop (pre ++ (rest ++ extra)) pData (pre.length + rest.length) pSuccess pre.length
        pAddr FoundAddr = .ok (Error, addr) ∧ (Error = false → Tiles rest) := by
  induction n with
  | zero =>
      intro pre rest pAddr FoundAddr hn
      obtain rfl := List.length_eq_zero_iff.mp (Nat.le_zero.mp hn)
      exact ⟨_, _, attributeLoop_end pData pSuccess pAddr FoundAddr _ _, fun _ => Tiles.nil⟩
  | succ n ih =>
      intro pre rest pAddr FoundAddr hn
      by_cases hempty : rest.length = 0
      · obtain rfl := List.length_eq_zero_iff.mp hempty
        exact ⟨_, _, attributeLoop_end pData pSuccess pAddr FoundAddr _ _, fun _ => Tiles.nil⟩
      by_cases hshort : rest.length < 4
      · exact ⟨true, pAddr, attributeLoop_short pData pSuccess pAddr FoundAddr _ (by omega)
          (by omega), nofun⟩
      obtain ⟨t₀, t₁, l₀, l₁, tail, rfl⟩ := cons_four (l := rest) (by omega)
      simp only [List.length_cons] at hn
      simp only [List.cons_append, List.length_cons]
      rw [attributeLoop_turn pData pSuccess pAddr FoundAddr (by omega)]
      by_cases hlong : tail.length < (word l₀ l₁).toNat
      · rw [if_pos (by omega)]
        exact ⟨true, pAddr, rfl, nofun⟩
      rw [if_neg (by omega)]
      have hinside : 0 + 4 + (word l₀ l₁).toNat ≤
          (t₀ :: t₁ :: l₀ :: l₁ :: (tail ++ extra)).length := by
        simp only [List.length_cons, List.length_append]
        omega
      obtain ⟨found, hfound⟩ :=
        readAttribute_total pData pSuccess (word t₀ t₁) (word l₀ l₁) pAddr FoundAddr hinside
      rw [hfound]
      match found with
      | none => exact ⟨true, pAddr, rfl, nofun⟩
      | some (addr, FoundAddr) =>
          -- the rest behind the value
          obtain ⟨Value, rest, rfl, hvalue⟩ := split_at (Nat.le_of_not_lt hlong)
          rw [List.length_append] at hn
          obtain ⟨Error, addr', hloop, htiles⟩ := ih (pre ++ t₀ :: t₁ :: l₀ :: l₁ :: Value) addr
            FoundAddr (show rest.length ≤ n by omega)
          refine ⟨Error, addr', ?_, fun h => Tiles.cons t₀ t₁ l₀ l₁ hvalue (htiles h)⟩
          rw [← hloop]
          simp only [List.append_assoc, List.cons_append, List.length_append, List.length_cons,
            ← hvalue, bind, Except.bind]
          congr 1 <;> omega

end

/-- The parse of a message that is long enough for a header. -/
theorem parse_header {pData : CStunData} {b₀ b₁ l₀ l₁ : UInt8} {Cookie Id rest : List UInt8}
    (hcookie : Cookie.length = 4) (hid : Id.length = 12) :
    StunMessageParse (b₀ :: b₁ :: l₀ :: l₁ :: (Cookie ++ (Id ++ rest))) pData =
      if b₀ = 0x01 ∧ (b₁ = 0x01 ∨ b₁ = 0x11) ∧ (word l₀ l₁).toNat ≤ rest.length ∧
          (word l₀ l₁).toNat % 4 = 0 ∧ Cookie = MagicCookie ∧ Id = pData.m_aSecret.toList then do
        let (Error, pAddr) ← attributeLoop (b₀ :: b₁ :: l₀ :: l₁ :: (Cookie ++ (Id ++ rest))) pData
          (20 + (word l₀ l₁).toNat) (b₁ == 0x01) 20 .zero false
        return ⟨Error, b₁ == 0x01, pAddr⟩
      else .ok ⟨true, false, .zero⟩ := by
  have hC : loadBlock (b₀ :: b₁ :: l₀ :: l₁ :: (Cookie ++ (Id ++ rest))) 4 4 = .ok Cookie := by
    calc
      _ = loadBlock (Cookie ++ (Id ++ rest)) 0 4 := loadBlock_append_add [b₀, b₁, l₀, l₁] _ 0 4
      _ = .ok Cookie := by
        rw [← hcookie]
        exact loadBlock_append ..
  have hI : loadBlock (b₀ :: b₁ :: l₀ :: l₁ :: (Cookie ++ (Id ++ rest))) 8 12 = .ok Id := by
    have hlength : (b₀ :: b₁ :: l₀ :: l₁ :: Cookie).length = 8 := by simp [hcookie]
    have h := loadBlock_append_add (b₀ :: b₁ :: l₀ :: l₁ :: Cookie) (Id ++ rest) 0 12
    rw [hlength] at h
    calc
      _ = loadBlock (Id ++ rest) 0 12 := h
      _ = .ok Id := by
        rw [← hid]
        exact loadBlock_append ..
  have hL : load16 (b₀ :: b₁ :: l₀ :: l₁ :: (Cookie ++ (Id ++ rest))) 2 = .ok (word l₀ l₁) := rfl
  have hsecret : mem_comp Id pData.m_aSecret.toList = 0 ↔ Id = pData.m_aSecret.toList :=
    mem_comp_eq_zero (by rw [hid, Vector.length_toList])
  have hsize : (b₀ :: b₁ :: l₀ :: l₁ :: (Cookie ++ (Id ++ rest))).length = 20 + rest.length := by
    simp only [List.length_cons, List.length_append, hcookie, hid]
    omega
  unfold StunMessageParse
  rw [if_neg (by omega), hC, hI, hL]
  simp only [load, List.getElem?_cons_zero, List.getElem?_cons_succ, bind, Except.bind, hsize,
    Nat.add_le_add_iff_left, hsecret]
  rfl

theorem sound (pMessage : List UInt8) (pData : CStunData) : Sound pMessage pData := by
  by_cases hshort : pMessage.length < 20
  · refine ⟨⟨true, false, .zero⟩, ?_, nofun⟩
    rw [StunMessageParse, if_pos hshort]
  obtain ⟨b₀, b₁, l₀, l₁, tail, rfl⟩ := cons_four (l := pMessage) (by omega)
  simp only [List.length_cons] at hshort
  obtain ⟨Cookie, tail, rfl, hcookie⟩ := split_at (l := tail) (n := 4) (by omega)
  rw [List.length_append] at hshort
  obtain ⟨Id, rest, rfl, hid⟩ := split_at (l := tail) (n := 12) (by omega)
  unfold Sound
  rw [parse_header hcookie hid]
  split
  next hheader =>
    obtain ⟨rfl, hmethod, hlong, haligned, rfl, rfl⟩ := hheader
    obtain ⟨body, extra, rfl, hbody⟩ := split_at hlong
    have hpre : (0x01 :: b₁ :: l₀ :: l₁ :: (MagicCookie ++ pData.m_aSecret.toList)).length = 20 := by
      simp [MagicCookie]
    obtain ⟨Error, addr, hloop, htiles⟩ := attributeLoop_sound pData (b₁ == 0x01) extra body.length
      (0x01 :: b₁ :: l₀ :: l₁ :: (MagicCookie ++ pData.m_aSecret.toList)) .zero false
      (Nat.le_refl _)
    rw [hpre, hbody] at hloop
    simp only [List.cons_append, List.append_assoc] at hloop
    refine ⟨⟨Error, b₁ == 0x01, addr⟩, by rw [hloop]; rfl, ?_⟩
    rintro ⟨herror, hsuccess⟩
    obtain rfl := beq_iff_eq.mp hsuccess
    refine ⟨body, extra, ?_, hbody ▸ UInt16.toNat_lt _, hbody ▸ haligned, htiles herror⟩
    rw [message, hbody, UInt16.ofNat_toNat, bytes16_word]
    simp
  · exact ⟨⟨true, false, .zero⟩, rfl, nofun⟩

/-! ## Attributes of a response -/

theorem length_bytes (pData : CStunData) (a : Attribute) :
    (a.bytes pData).length = 4 + (a.Value pData).length := by
  simp [Attribute.bytes, bytes16]
  omega

theorem length_padded (n : Nat) : (n + padLength n) % 4 = 0 := by
  unfold padLength
  omega

theorem padLength_eq_zero {n : Nat} : padLength n = 0 ↔ 4 ∣ n := by
  unfold padLength
  omega

/-- The masked bytes are unmasked. -/
theorem copyXor_masked {ip : Vector UInt8 16} {n : Nat} {key key' : List UInt8}
    (hn : n ≤ key.length) (hkey : ∀ i < n, key'.getD i 0 = key.getD i 0)
    (hzero : ∀ i (hi : i < 16), n ≤ i → ip[i] = 0) :
    copyXor (.replicate 16 0) (List.zipWith (· ^^^ ·) ((ip.toList.drop 0).take n) key) key' = ip := by
  apply Vector.ext
  intro i hi
  rw [copyXor, Vector.getElem_ofFn]
  simp only [List.drop_zero, List.getElem?_zipWith]
  by_cases hin : i < n
  · have hbyte : (ip.toList.take n)[i]? = some ip[i] := by
      rw [List.getElem?_take_of_lt hin]
      simp [hi]
    have hmask : key[i]? = some (key.getD i 0) := by
      rw [List.getD_eq_getElem?_getD, List.getElem?_eq_getElem (by omega), Option.getD_some]
    rw [hbyte, hmask, hkey i hin]
    simp [UInt8.xor_assoc]
  · rw [List.getElem?_eq_none (by rw [List.length_take]; omega), hzero i hi (by omega)]
    exact Vector.getElem_replicate hi

theorem MappedAddress.length_Value (pData : CStunData) (a : MappedAddress) :
    (a.Value pData).length = if a.addr.type = NETTYPE_IPV4 then 8 else 20 := by
  unfold MappedAddress.Value MappedAddress.masked NETADDR.bytes ipLength
  split <;> simp [bytes16, MagicCookie]

/-- What an attribute of a response changes. -/
def Attribute.use (a : Attribute) (pAddr : NETADDR) (FoundAddr : Bool) : NETADDR × Bool :=
  match a with
  | optional .. => (pAddr, FoundAddr)
  | mapped a => if FoundAddr then (pAddr, true) else (a.addr, true)

theorem MappedAddress.length_masked (pData : CStunData) (a : MappedAddress) :
    (a.masked pData).length = ipLength a.addr.type := by
  unfold MappedAddress.masked NETADDR.bytes ipLength
  split <;> simp [MagicCookie]

theorem readMappedAddress_eq (pData : CStunData) (a : MappedAddress) {pAddr : NETADDR}
    {FoundAddr : Bool} (h : FoundAddr = false → pAddr = .zero) (t₀ t₁ l₀ l₁ : UInt8)
    (post : List UInt8) :
    readMappedAddress (t₀ :: t₁ :: l₀ :: l₁ :: (a.Value pData ++ post)) pData 0
        (.ofNat (a.Value pData).length) pAddr FoundAddr =
      .ok (some (Attribute.use (.mapped a) pAddr FoundAddr)) := by
  have hmasked := a.length_masked pData
  have hblock : ∀ r f hi lo, loadBlock
      (t₀ :: t₁ :: l₀ :: l₁ :: r :: f :: hi :: lo :: (a.masked pData ++ post)) (0 + 4 + 4)
        (ipLength a.addr.type) = .ok (a.masked pData) := by
    intro r f hi lo
    calc
      _ = loadBlock (a.masked pData ++ post) 0 (ipLength a.addr.type) :=
        loadBlock_append_add [t₀, t₁, l₀, l₁, r, f, hi, lo] _ 0 _
      _ = .ok (a.masked pData) := by
        rw [← hmasked]
        exact loadBlock_append ..
  have hport : (a.addr.port ^^^ 0x2112) ^^^ 0x2112 = a.addr.port := by
    rw [UInt16.xor_assoc, UInt16.xor_self, UInt16.xor_zero]
  have hload16 : ∀ r f hi lo rest,
      load16 (t₀ :: t₁ :: l₀ :: l₁ :: r :: f :: hi :: lo :: rest) (0 + 4 + 2) = .ok (word hi lo) :=
    fun _ _ _ _ _ => rfl
  rw [MappedAddress.length_Value]
  rcases a.family with hv6 | ⟨hv4, hzero⟩
  · have hne : a.addr.type ≠ NETTYPE_IPV4 := by
      rw [hv6]
      decide
    rw [ipLength, if_neg hne] at hblock
    rw [if_neg hne, MappedAddress.Value, if_neg hne, readMappedAddress, if_neg (by decide)]
    simp only [bytes16, List.cons_append, List.nil_append, hload16, hblock, word_bytes16]
    cases FoundAddr with
    | true => rfl
    | false =>
        have hip : copyXor (.replicate 16 0) (a.masked pData)
            (MagicCookie ++ pData.m_aSecret.toList) = a.addr.ip := by
          rw [MappedAddress.masked, NETADDR.bytes, ipLength, if_neg hne]
          exact copyXor_masked (by simp [MagicCookie]) (fun _ _ => rfl) fun i hi hle => by omega
        obtain rfl := h rfl
        simp only [NETADDR.zero, bind, Except.bind, Bool.false_eq_true, if_false]
        rw [hip, hport, ← hv6]
        rfl
  · rw [ipLength, if_pos hv4] at hblock
    rw [if_pos hv4, MappedAddress.Value, if_pos hv4, readMappedAddress, if_neg (by decide)]
    simp only [bytes16, List.cons_append, List.nil_append, hload16, hblock, word_bytes16]
    cases FoundAddr with
    | true => rfl
    | false =>
        have hip : copyXor (.replicate 16 0) (a.masked pData) MagicCookie = a.addr.ip := by
          rw [MappedAddress.masked, NETADDR.bytes, ipLength, if_pos hv4]
          refine copyXor_masked (by simp [MagicCookie]) (fun i hi => ?_) hzero
          rw [List.getD_eq_getElem?_getD, List.getD_eq_getElem?_getD, List.getElem?_append_left hi]
        obtain rfl := h rfl
        simp only [NETADDR.zero, bind, Except.bind, Bool.false_eq_true, if_false]
        rw [hip, hport, ← hv4]
        rfl

/-! ## The loop over a response -/

section
variable (pData : CStunData)

theorem Attribute.bytes_eq (a : Attribute) (post : List UInt8) :
    a.bytes pData ++ post = (a.type >>> 8).toUInt8 :: a.type.toUInt8 ::
      (UInt16.ofNat (a.Value pData).length >>> 8).toUInt8 ::
        (UInt16.ofNat (a.Value pData).length).toUInt8 :: (a.Value pData ++ post) := by
  simp [Attribute.bytes, bytes16]

theorem use_found (a : Attribute) {pAddr : NETADDR} {FoundAddr : Bool}
    (h : FoundAddr = false → pAddr = .zero) :
    (a.use pAddr FoundAddr).2 = false → (a.use pAddr FoundAddr).1 = .zero := by
  cases a with
  | optional => exact h
  | mapped a =>
      unfold Attribute.use
      cases FoundAddr <;> exact nofun

/-- An attribute of a response is read in one turn. -/
theorem attributeLoop_attribute (a : Attribute) {pre post : List UInt8} {MessageSize : Nat}
    {pAddr : NETADDR} {FoundAddr : Bool} (h : FoundAddr = false → pAddr = .zero)
    (hlength : (a.Value pData).length < 65536)
    (hsize : (pre ++ a.bytes pData).length ≤ MessageSize) :
    attributeLoop (pre ++ (a.bytes pData ++ post)) pData MessageSize true pre.length pAddr
        FoundAddr =
      attributeLoop (pre ++ a.bytes pData ++ post) pData MessageSize true
        (pre ++ a.bytes pData).length (a.use pAddr FoundAddr).1 (a.use pAddr FoundAddr).2 := by
  rw [List.length_append, length_bytes] at hsize ⊢
  have hread : ∀ t₀ t₁ l₀ l₁, readAttribute (t₀ :: t₁ :: l₀ :: l₁ :: (a.Value pData ++ post)) pData
      true 0 a.type (.ofNat (a.Value pData).length) pAddr FoundAddr =
        .ok (some (a.use pAddr FoundAddr)) := by
    intro t₀ t₁ l₀ l₁
    unfold readAttribute
    cases a with
    | optional type htype Value =>
        have hne : (Attribute.optional type htype Value).type ≠ 0x0020 := by
          rintro rfl
          exact absurd htype (by decide)
        have hoptional : ¬ (Attribute.optional type htype Value).type ≤ 0x7fff := by
          intro hle
          exact absurd (UInt16.le_trans htype hle) (by decide)
        rw [if_neg fun h => hne h.2, if_neg hoptional]
        rfl
    | mapped a =>
        rw [if_pos ⟨rfl, rfl⟩]
        exact readMappedAddress_eq pData a h t₀ t₁ l₀ l₁ post
  rw [List.append_assoc, Attribute.bytes_eq, attributeLoop_turn _ _ _ _ (by omega), word_bytes16,
    word_bytes16, toNat_ofNat hlength, if_neg (by omega), hread, Nat.add_assoc]
  rfl

/-- The loop over attributes that need no padding. -/
theorem attributeLoop_aligned (attributes : List Attribute) (extra : List UInt8) :
    ∀ (pre : List UInt8) {pAddr : NETADDR} {FoundAddr : Bool},
      (FoundAddr = false → pAddr = .zero) → (∀ a ∈ attributes, (a.Value pData).length < 65536) →
      attributeLoop (pre ++ (attributes.flatMap (Attribute.bytes pData) ++ extra)) pData
          (pre ++ attributes.flatMap (Attribute.bytes pData)).length true pre.length pAddr
          FoundAddr =
        let found := attributes.foldl (fun found a => a.use found.1 found.2) (pAddr, FoundAddr)
        .ok (!found.2, found.1) := by
  induction attributes with
  | nil =>
      intro pre pAddr FoundAddr _ _
      simp [attributeLoop_end]
  | cons a attributes ih =>
      intro pre pAddr FoundAddr h hlength
      obtain ⟨ha, hlength⟩ := List.forall_mem_cons.mp hlength
      rw [List.flatMap_cons, List.append_assoc (a.bytes pData),
        attributeLoop_attribute pData a h ha (by simp only [List.length_append]; omega),
        ← List.append_assoc pre, ih _ (use_found a h) hlength]
      rfl

/-! ## Padding that is read as an attribute -/

theorem attributeLoop_required {pre rest extra : List UInt8} {b : UInt8} (pAddr : NETADDR)
    (FoundAddr : Bool) (hb : b = 0 ∨ 0x80 ≤ b) :
    attributeLoop (pre ++ (0 :: b :: rest ++ extra)) pData (pre ++ 0 :: b :: rest).length true
      pre.length pAddr FoundAddr = .ok (true, pAddr) := by
  simp only [List.length_append, List.length_cons]
  by_cases hshort : rest.length < 2
  · exact attributeLoop_short pData true pAddr FoundAddr _ (by omega) (by omega)
  obtain ⟨l₀, l₁, tail, rfl⟩ : ∃ l₀ l₁ tail, rest = l₀ :: l₁ :: tail := by
    match rest, hshort with
    | l₀ :: l₁ :: tail, _ => exact ⟨l₀, l₁, tail, rfl⟩
    | [], h | [_], h => simp at h
  simp only [List.length_cons] at hshort ⊢
  simp only [List.cons_append]
  rw [attributeLoop_turn _ _ _ _ (by omega)]
  split
  · rfl
  · have htype := toNat_word 0 b
    have hblt := b.toNat_lt
    have hzero : (0 : UInt8).toNat = 0 := rfl
    have hle : word 0 b ≤ 0x7fff := by
      rw [UInt16.le_iff_toNat_le, htype]
      show _ ≤ 32767
      omega
    have hne : word 0 b ≠ 0x0020 := by
      intro heq
      rw [heq] at htype
      have hbyte : b.toNat = 32 := by
        have h32 : (0x0020 : UInt16).toNat = 32 := rfl
        omega
      rcases hb with rfl | hb
      · cases hbyte
      · rw [UInt8.le_iff_toNat_le, hbyte] at hb
        exact absurd hb (by decide)
    rw [readAttribute, if_neg fun h => hne h.2, if_pos hle]
    rfl

/-- Behind one to three zeros stands nothing, or a byte that a type begins with. -/
theorem attributeLoop_padding {pre tail extra : List UInt8} {n : Nat} (pAddr : NETADDR)
    (FoundAddr : Bool) (hn : 0 < n) (hshort : n < 4)
    (htail : ∀ b ∈ tail.head?, b = 0 ∨ 0x80 ≤ b) :
    attributeLoop (pre ++ (List.replicate n 0 ++ tail ++ extra)) pData
      (pre ++ (List.replicate n 0 ++ tail)).length true pre.length pAddr FoundAddr =
        .ok (true, pAddr) := by
  match n, hn with
  | 1, _ =>
      cases tail with
      | nil =>
          exact attributeLoop_short pData true pAddr FoundAddr _ (by simp) (by simp)
      | cons b tail => exact attributeLoop_required pData pAddr FoundAddr (htail b rfl)
  | n + 2, _ =>
      rw [List.replicate_succ, List.replicate_succ]
      exact attributeLoop_required pData pAddr FoundAddr (.inl rfl)

theorem head_type (a : Attribute) :
    (a.type >>> 8).toUInt8 = 0 ∨ (0x80 : UInt8) ≤ (a.type >>> 8).toUInt8 := by
  cases a with
  | optional type htype Value =>
      right
      rw [UInt16.le_iff_toNat_le] at htype
      have hlt := type.toNat_lt
      have h8000 : (0x8000 : UInt16).toNat = 32768 := rfl
      have h80 : (0x80 : UInt8).toNat = 128 := rfl
      rw [UInt8.le_iff_toNat_le, h80]
      simp [Attribute.type, Nat.shiftRight_eq_div_pow]
      omega
  | mapped a => exact .inl (show ((0x0020 : UInt16) >>> 8).toUInt8 = 0 by decide)

theorem head_zeroPadded (attributes : List Attribute) :
    ∀ b ∈ (layout pData (zeroPadded pData attributes)).head?, b = 0 ∨ 0x80 ≤ b := by
  cases attributes with
  | nil => exact nofun
  | cons a attributes =>
      intro b hb
      rw [zeroPadded, layout, List.map_cons, List.flatMap_cons, List.append_assoc,
        Attribute.bytes_eq, List.head?_cons, Option.mem_some_iff] at hb
      exact hb ▸ head_type a

/-- The first padding ends the loop with an error. -/
theorem attributeLoop_misaligned (attributes : List Attribute) (extra : List UInt8) :
    ∀ (pre : List UInt8) {pAddr : NETADDR} {FoundAddr : Bool},
      (FoundAddr = false → pAddr = .zero) → (∀ a ∈ attributes, (a.Value pData).length < 65536) →
      ¬ Aligned pData attributes → ∃ addr,
        attributeLoop (pre ++ (layout pData (zeroPadded pData attributes) ++ extra)) pData
          (pre ++ layout pData (zeroPadded pData attributes)).length true pre.length pAddr
          FoundAddr = .ok (true, addr) := by
  induction attributes with
  | nil => exact fun _ _ _ _ _ h => absurd (List.forall_mem_nil _) h
  | cons a attributes ih =>
      intro pre pAddr FoundAddr h hlength hmisaligned
      obtain ⟨ha, hlength⟩ := List.forall_mem_cons.mp hlength
      have hcons : layout pData (zeroPadded pData (a :: attributes)) =
          a.bytes pData ++ (List.replicate (padLength (a.Value pData).length) 0 ++
            layout pData (zeroPadded pData attributes)) := List.append_assoc ..
      rw [hcons, List.append_assoc (a.bytes pData),
        attributeLoop_attribute pData a h ha (by simp only [List.length_append]; omega),
        ← List.append_assoc pre]
      by_cases haligned : 4 ∣ (a.Value pData).length
      · rw [padLength_eq_zero.mpr haligned, List.replicate_zero, List.nil_append]
        refine ih _ (use_found a h) hlength fun hrest => hmisaligned ?_
        exact List.forall_mem_cons.mpr ⟨haligned, hrest⟩
      · refine ⟨_, attributeLoop_padding pData _ _ ?_ ?_ (head_zeroPadded pData attributes)⟩
        · exact Nat.pos_of_ne_zero (mt padLength_eq_zero.mp haligned)
        · exact Nat.mod_lt _ (by omega)

/-! ## Responses -/

/-- What stands in front of the attributes. -/
def header (body : List UInt8) : List UInt8 :=
  [0x01, 0x01] ++ bytes16 (.ofNat body.length) ++ MagicCookie ++ pData.m_aSecret.toList

theorem length_header (body : List UInt8) : (header pData body).length = 20 := by
  simp [header, bytes16, MagicCookie]

theorem parse_message {body extra : List UInt8} (hsize : body.length < 65536)
    (haligned : body.length % 4 = 0) :
    StunMessageParse (message pData body extra) pData = do
      let (Error, pAddr) ← attributeLoop (header pData body ++ (body ++ extra)) pData
        (header pData body ++ body).length true (header pData body).length .zero false
      return ⟨Error, true, pAddr⟩ := by
  have hmessage : message pData body extra = (0x01 : UInt8) :: 0x01 ::
      (UInt16.ofNat body.length >>> 8).toUInt8 :: (UInt16.ofNat body.length).toUInt8 ::
        (MagicCookie ++ (pData.m_aSecret.toList ++ (body ++ extra))) := by
    simp [message, bytes16]
  have hword := word_bytes16 (UInt16.ofNat body.length)
  have hheader : header pData body ++ (body ++ extra) = message pData body extra := rfl
  rw [hheader, List.length_append, length_header, hmessage,
    parse_header rfl (by rw [Vector.length_toList]), hword, toNat_ofNat hsize, if_pos]
  · rfl
  · exact ⟨rfl, .inl rfl, by rw [List.length_append]; omega, haligned, rfl, rfl⟩

theorem length_layout {parts : List (Attribute × List UInt8)} (h : Padded pData parts) :
    (layout pData parts).length = ((parts.map Prod.fst).map fun a =>
      4 + (a.Value pData).length + padLength (a.Value pData).length).sum ∧
    (layout pData parts).length % 4 = 0 := by
  induction parts with
  | nil => exact ⟨rfl, rfl⟩
  | cons part parts ih =>
      obtain ⟨hpart, hparts⟩ := List.forall_mem_cons.mp h
      obtain ⟨hlength, hfour⟩ := ih hparts
      have hcons : (layout pData (part :: parts)).length = 4 + (part.1.Value pData).length +
          padLength (part.1.Value pData).length + (layout pData parts).length := by
        rw [layout, List.flatMap_cons, List.length_append, List.length_append, length_bytes, hpart]
        rfl
      have hpadded := length_padded (part.1.Value pData).length
      exact ⟨by rw [hcons, hlength]; rfl, by omega⟩

theorem padded_zeroPadded (attributes : List Attribute) :
    Padded pData (zeroPadded pData attributes) := by
  intro part hpart
  obtain ⟨a, -, rfl⟩ := List.mem_map.mp hpart
  exact List.length_replicate

theorem fst_zeroPadded (attributes : List Attribute) :
    (zeroPadded pData attributes).map Prod.fst = attributes := by
  rw [zeroPadded, List.map_map]
  exact List.map_id' attributes

/-- Attributes that need no padding have none. -/
theorem layout_aligned {parts : List (Attribute × List UInt8)} (h : Padded pData parts)
    (haligned : Aligned pData (parts.map Prod.fst)) :
    layout pData parts = (parts.map Prod.fst).flatMap (Attribute.bytes pData) := by
  rw [layout, List.flatMap_map]
  refine List.flatMap_congr fun part hpart => ?_
  have hpad := h part hpart
  rw [padLength_eq_zero.mpr (haligned part.1 (List.mem_map_of_mem hpart))] at hpad
  rw [List.length_eq_zero_iff.mp hpad, List.append_nil]

theorem foldl_use_true (attributes : List Attribute) (pAddr : NETADDR) :
    attributes.foldl (fun found a => a.use found.1 found.2) (pAddr, true) = (pAddr, true) := by
  induction attributes with
  | nil => rfl
  | cons a attributes ih => cases a <;> exact ih

/-- The first address is the one that is used. -/
theorem foldl_use {attributes : List Attribute} {addr : NETADDR}
    (h : attributes.findSome? Attribute.address? = some addr) :
    attributes.foldl (fun found a => a.use found.1 found.2) (.zero, false) = (addr, true) := by
  induction attributes with
  | nil => cases h
  | cons a attributes ih =>
      cases a with
      | optional => exact ih h
      | mapped a =>
          obtain rfl : a.addr = addr := Option.some.inj h
          exact foldl_use_true attributes a.addr

variable {pData} (r : Response pData)

theorem Response.length_value : ∀ a ∈ r.attributes, (a.Value pData).length < 65536 := by
  intro a ha
  have hle := List.single_le_sum (fun _ _ => Nat.zero_le _) _
    (List.mem_map_of_mem (f := fun a : Attribute =>
      4 + (a.Value pData).length + padLength (a.Value pData).length) ha)
  have hfits := r.fits
  omega

theorem Response.size_layout {parts : List (Attribute × List UInt8)}
    (hparts : parts.map Prod.fst = r.attributes) (hpadded : Padded pData parts) :
    (layout pData parts).length < 65536 ∧ (layout pData parts).length % 4 = 0 := by
  obtain ⟨hlength, hfour⟩ := length_layout pData hpadded
  rw [hlength, hparts] at *
  exact ⟨r.fits, hfour⟩

theorem Response.parses_of_aligned (haligned : Aligned pData r.attributes)
    {parts : List (Attribute × List UInt8)} (hparts : parts.map Prod.fst = r.attributes)
    (hpadded : Padded pData parts) (extra : List UInt8) : r.Parses parts extra := by
  obtain ⟨hsize, hfour⟩ := r.size_layout hparts hpadded
  unfold Response.Parses
  rw [parse_message pData hsize hfour,
    layout_aligned pData hpadded (hparts ▸ haligned), hparts,
    attributeLoop_aligned pData r.attributes extra _ (fun _ => rfl) r.length_value,
    foldl_use r.first]
  rfl

theorem Response.aligned_of_parses {extra : List UInt8}
    (h : r.Parses (zeroPadded pData r.attributes) extra) : Aligned pData r.attributes := by
  by_contra hmisaligned
  obtain ⟨hsize, hfour⟩ := r.size_layout (fst_zeroPadded pData r.attributes)
    (padded_zeroPadded pData r.attributes)
  obtain ⟨addr, hloop⟩ := attributeLoop_misaligned pData r.attributes extra
    (header pData (layout pData (zeroPadded pData r.attributes))) (fun _ => rfl) r.length_value
    hmisaligned
  unfold Response.Parses at h
  rw [parse_message pData hsize hfour, hloop] at h
  cases h

/-- Every message is parsed soundly.  A response is parsed, whatever its padding, if and only if
no value needs a padding, and the same holds for the padding with zeros alone. -/
theorem parses_iff_aligned (pData : CStunData) (r : Response pData) :
    (∀ pMessage, Sound pMessage pData) ∧
    ((∀ parts extra, parts.map Prod.fst = r.attributes → Padded pData parts →
      r.Parses parts extra) ↔ Aligned pData r.attributes) ∧
    ∀ extra, r.Parses (zeroPadded pData r.attributes) extra ↔ Aligned pData r.attributes := by
  have hfst := fst_zeroPadded pData r.attributes
  have hzero := padded_zeroPadded pData r.attributes
  refine ⟨fun pMessage => sound pMessage pData, ⟨fun h => ?_, fun h parts extra hparts hpadded => ?_⟩,
    fun extra => ⟨r.aligned_of_parses, fun h => ?_⟩⟩
  · exact r.aligned_of_parses (h _ [] hfst hzero)
  · exact r.parses_of_aligned h hparts hpadded extra
  · exact r.parses_of_aligned h hfst hzero extra

end

def zeroSecret : CStunData := ⟨.replicate 12 0⟩

/-- A name of one byte in front of the address 1.2.3.4:8303. -/
def named : Response zeroSecret where
  attributes :=
    [.optional 0x8022 (by decide) [0x61],
     .mapped ⟨0, { NETADDR.zero with
        type := NETTYPE_IPV4
        ip := #v[1, 2, 3, 4, 0, 0, 0, 0, 0, 0, 0, 0, 0, 0, 0, 0]
        port := 8303 }, by decide⟩]
  addr := _
  first := rfl
  fits := by decide

/-- The three zeros behind the name are read as the type of the next attribute. -/
theorem named_fails :
    StunMessageParse
        (message zeroSecret (layout zeroSecret (zeroPadded zeroSecret named.attributes)) [])
        zeroSecret = .ok ⟨true, true, .zero⟩ ∧
      ¬ named.Parses (zeroPadded zeroSecret named.attributes) [] := by
  have hparse : StunMessageParse
      (message zeroSecret (layout zeroSecret (zeroPadded zeroSecret named.attributes)) [])
        zeroSecret = .ok ⟨true, true, .zero⟩ := by decide +kernel
  refine ⟨hparse, fun h => ?_⟩
  unfold Response.Parses at h
  rw [hparse] at h
  cases h

end Fex.Engine.Stun
