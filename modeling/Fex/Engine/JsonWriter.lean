import Fex.Base.Strings
import Fex.Lib.Json

/-!
# The JSON writer

Model of `CJsonStringWriter`: a stack of states says what may be written and where commas, line
breaks and tabs stand.  `write` makes the calls for a tree.
-/

namespace Fex.Engine.JsonWriter

open Fex.Lib Fex.Base

inductive EJsonStateKind
  | STATE_OBJECT
  | STATE_ARRAY
  | STATE_ATTRIBUTE
  deriving DecidableEq

structure SState where
  m_Kind : EJsonStateKind
  m_Empty : Bool

/-- The top of the stack is the first of `m_States`. -/
structure CJsonStringWriter where
  m_States : List SState
  m_Indentation : Int
  m_OutputString : List UInt8
  m_RetrievedOutput : Bool

/-- The letter behind a backslash, 0 where there is none. -/
def EscapeJsonChar (c : UInt8) : UInt8 :=
  if c = 34 then 34
  else if c = 92 then 92
  else if c = 8 then 98
  else if c = 10 then 110
  else if c = 13 then 114
  else if c = 9 then 116
  else 0

/-- `%04x` -/
def formatHex (n : Nat) : List UInt8 :=
  let digits := (Nat.toDigits 16 n).map fun c => UInt8.ofNat c.toNat
  List.replicate (4 - digits.length) 48 ++ digits

namespace CJsonStringWriter

def new : CJsonStringWriter :=
  { m_States := [], m_Indentation := 0, m_OutputString := [], m_RetrievedOutput := false }

/-! ## Output -/

def WriteInternal (w : CJsonStringWriter) (pStr : List UInt8) : Exec CJsonStringWriter :=
  if w.m_RetrievedOutput then .error .assertion
  else .ok { w with m_OutputString := w.m_OutputString ++ pStr }

/-- The bytes from `UnwrittenFrom` to `i`, if there are any. -/
def writeUnwritten (w : CJsonStringWriter) (pStr : List UInt8) (UnwrittenFrom i : Nat) :
    Exec CJsonStringWriter :=
  if i - UnwrittenFrom > 0 then w.WriteInternal ((pStr.drop UnwrittenFrom).take (i - UnwrittenFrom))
  else .ok w

/-- The loop of `WriteInternalEscaped` and what follows it; the last argument is the part of the
string from `i` on. -/
def writeEscaped (w : CJsonStringWriter) (pStr : List UInt8) :
    (UnwrittenFrom i : Nat) → List UInt8 → Exec CJsonStringWriter
  | UnwrittenFrom, i, [] => w.writeUnwritten pStr UnwrittenFrom i
  | UnwrittenFrom, i, c :: rest =>
      if EscapeJsonChar c ≠ 0 ∨ c < 0x20 then do
        let w ← w.writeUnwritten pStr UnwrittenFrom i
        let w ← w.WriteInternal
          (if EscapeJsonChar c ≠ 0 then [92, EscapeJsonChar c] else [92, 117] ++ formatHex c.toNat)
        writeEscaped w pStr (i + 1) (i + 1) rest
      else writeEscaped w pStr UnwrittenFrom (i + 1) rest

def WriteInternalEscaped (w : CJsonStringWriter) (pStr : List UInt8) : Exec CJsonStringWriter := do
  let w ← w.WriteInternal [34]
  let w ← w.writeEscaped pStr 0 0 pStr
  w.WriteInternal [34]

/-! ## States -/

def TopState (w : CJsonStringWriter) : Exec SState :=
  match w.m_States with
  | [] => .error .assertion
  | s :: _ => .ok s

def CanWriteDatatype (w : CJsonStringWriter) : Bool :=
  match w.m_States with
  | [] => true
  | s :: _ => s.m_Kind = .STATE_ARRAY ∨ s.m_Kind = .STATE_ATTRIBUTE

/-- `TopState()->m_Empty = false`, if there is a state. -/
def fillTop : List SState → List SState
  | [] => []
  | s :: states => { s with m_Empty := false } :: states

def notRootOrAttribute (w : CJsonStringWriter) : Bool :=
  match w.m_States with
  | [] => false
  | s :: _ => s.m_Kind ≠ .STATE_ATTRIBUTE

def topEmpty (w : CJsonStringWriter) : Bool :=
  match w.m_States with
  | [] => true
  | s :: _ => s.m_Empty

def WriteIndent (w : CJsonStringWriter) (EndElement : Bool) : Exec CJsonStringWriter := do
  let w ←
    if w.notRootOrAttribute ∧ ¬ w.topEmpty ∧ ¬ EndElement then w.WriteInternal [44] else .ok w
  let w ← if w.notRootOrAttribute ∨ EndElement then w.WriteInternal [10] else .ok w
  if w.notRootOrAttribute then w.WriteInternal (List.replicate w.m_Indentation.toNat 9) else .ok w

def PushState (w : CJsonStringWriter) (NewState : EJsonStateKind) : CJsonStringWriter :=
  { w with
    m_States := { m_Kind := NewState, m_Empty := true } :: fillTop w.m_States
    m_Indentation :=
      if NewState ≠ .STATE_ATTRIBUTE then w.m_Indentation + 1 else w.m_Indentation }

def PopState (w : CJsonStringWriter) : Exec CJsonStringWriter :=
  match w.m_States with
  | [] => .error .assertion
  | s :: states =>
      .ok { w with
        m_States := states
        m_Indentation :=
          if s.m_Kind ≠ .STATE_ATTRIBUTE then w.m_Indentation - 1 else w.m_Indentation }

def CompleteDataType (w : CJsonStringWriter) : Exec CJsonStringWriter := do
  let w ←
    match w.m_States with
    | [] => .ok w
    | s :: _ => if s.m_Kind = .STATE_ATTRIBUTE then w.PopState else .ok w
  return { w with m_States := fillTop w.m_States }

/-! ## Calls -/

/-- `dbg_assert` -/
def dbg_assert (test : Bool) : Exec Unit := if test then .ok () else .error .assertion

/-- `BeginObject` and `BeginArray`. -/
def beginContainer (w : CJsonStringWriter) (bracket : UInt8) (NewState : EJsonStateKind) :
    Exec CJsonStringWriter := do
  dbg_assert w.CanWriteDatatype
  let w ← w.WriteIndent false
  let w ← w.WriteInternal [bracket]
  return w.PushState NewState

/-- `EndObject` and `EndArray`. -/
def endContainer (w : CJsonStringWriter) (bracket : UInt8) (State : EJsonStateKind) :
    Exec CJsonStringWriter := do
  dbg_assert ((← w.TopState).m_Kind = State)
  let w ← w.PopState
  let w ← w.CompleteDataType
  let w ← w.WriteIndent true
  w.WriteInternal [bracket]

def BeginObject (w : CJsonStringWriter) : Exec CJsonStringWriter :=
  w.beginContainer 123 .STATE_OBJECT

def EndObject (w : CJsonStringWriter) : Exec CJsonStringWriter := w.endContainer 125 .STATE_OBJECT

def BeginArray (w : CJsonStringWriter) : Exec CJsonStringWriter := w.beginContainer 91 .STATE_ARRAY

def EndArray (w : CJsonStringWriter) : Exec CJsonStringWriter := w.endContainer 93 .STATE_ARRAY

def WriteAttribute (w : CJsonStringWriter) (pName : List UInt8) : Exec CJsonStringWriter := do
  dbg_assert ((← w.TopState).m_Kind = .STATE_OBJECT)
  let w ← w.WriteIndent false
  let w ← w.WriteInternalEscaped pName
  let w ← w.WriteInternal [58, 32]
  return w.PushState .STATE_ATTRIBUTE

/-- The functions for values that are not strings. -/
def writeLiteral (w : CJsonStringWriter) (pStr : List UInt8) : Exec CJsonStringWriter := do
  dbg_assert w.CanWriteDatatype
  let w ← w.WriteIndent false
  let w ← w.WriteInternal pStr
  w.CompleteDataType

def WriteStrValue (w : CJsonStringWriter) (pValue : List UInt8) : Exec CJsonStringWriter := do
  dbg_assert w.CanWriteDatatype
  let w ← w.WriteIndent false
  let w ← w.WriteInternalEscaped pValue
  w.CompleteDataType

def WriteIntValue (w : CJsonStringWriter) (Value : Int) : Exec CJsonStringWriter :=
  w.writeLiteral (formatInt Value)

/-- `true` or `false` -/
def WriteBoolValue (w : CJsonStringWriter) (Value : Bool) : Exec CJsonStringWriter :=
  w.writeLiteral (if Value then [116, 114, 117, 101] else [102, 97, 108, 115, 101])

/-- `null` -/
def WriteNullValue (w : CJsonStringWriter) : Exec CJsonStringWriter :=
  w.writeLiteral [110, 117, 108, 108]

def GetOutputString (w : CJsonStringWriter) : Exec (List UInt8 × CJsonStringWriter) := do
  let w ← w.WriteInternal [10]
  return (w.m_OutputString, { w with m_RetrievedOutput := true })

/-! ## Trees -/

mutual

/-- The calls for a tree. -/
def write (w : CJsonStringWriter) : Json → Exec CJsonStringWriter
  | .null => w.WriteNullValue
  | .bool b => w.WriteBoolValue b
  | .int n => w.WriteIntValue n
  | .str s => w.WriteStrValue s
  | .arr xs => do (← (← w.BeginArray).writeElements xs).EndArray
  | .obj fields => do (← (← w.BeginObject).writeMembers fields).EndObject

def writeElements (w : CJsonStringWriter) : List Json → Exec CJsonStringWriter
  | [] => .ok w
  | x :: xs => do (← w.write x).writeElements xs

def writeMembers (w : CJsonStringWriter) : List (List UInt8 × Json) → Exec CJsonStringWriter
  | [] => .ok w
  | (name, x) :: fields => do (← (← w.WriteAttribute name).write x).writeMembers fields

end

/-- The text of a tree. -/
def output (x : Json) : Exec (List UInt8) := do
  return (← (← new.write x).GetOutputString).1

/-! ## The written text -/

def tabs (d : Nat) : List UInt8 := List.replicate d 9

def escapeByte (c : UInt8) : List UInt8 :=
  if EscapeJsonChar c ≠ 0 then [92, EscapeJsonChar c]
  else if c < 0x20 then [92, 117] ++ formatHex c.toNat
  else [c]

def quoted (s : List UInt8) : List UInt8 := 34 :: (s.flatMap escapeByte ++ [34])

mutual

/-- The text of a tree inside `d` containers. -/
def text (d : Nat) : Json → List UInt8
  | .null => [110, 117, 108, 108]
  | .bool b => if b then [116, 114, 117, 101] else [102, 97, 108, 115, 101]
  | .int n => formatInt n
  | .str s => quoted s
  | .arr xs => 91 :: (textElements (d + 1) true xs ++ 10 :: tabs d ++ [93])
  | .obj fields => 123 :: (textMembers (d + 1) true fields ++ 10 :: tabs d ++ [125])

def textElements (d : Nat) (first : Bool) : List Json → List UInt8
  | [] => []
  | x :: xs =>
      (if first then [] else [44]) ++ 10 :: tabs d ++ text d x ++ textElements d false xs

def textMembers (d : Nat) (first : Bool) : List (List UInt8 × Json) → List UInt8
  | [] => []
  | (name, x) :: fields =>
      (if first then [] else [44]) ++ 10 :: tabs d ++ quoted name ++ [58, 32] ++ text d x ++
        textMembers d false fields

end

/-- A writer that is in use. -/
def state (S : List SState) (d : Nat) (o : List UInt8) : CJsonStringWriter :=
  { m_States := S, m_Indentation := d, m_OutputString := o, m_RetrievedOutput := false }

/-- What `WriteIndent` puts before a value. -/
def lead (d : Nat) : List SState → List UInt8
  | [] => []
  | s :: _ =>
      if s.m_Kind = .STATE_ATTRIBUTE then []
      else (if s.m_Empty then [] else [44]) ++ 10 :: tabs d

/-- The states behind a value. -/
def complete : List SState → List SState
  | [] => []
  | s :: S => if s.m_Kind = .STATE_ATTRIBUTE then fillTop S else fillTop (s :: S)

/-- A value can be written here: at the root, in an array or behind the name of an attribute. -/
def Slot : List SState → Nat → Prop
  | [], d => d = 0
  | ⟨.STATE_ARRAY, _⟩ :: _, _ => True
  | ⟨.STATE_ATTRIBUTE, _⟩ :: ⟨.STATE_OBJECT, _⟩ :: _, _ => True
  | _, _ => False

variable {S : List SState} {d : Nat} {o : List UInt8}

theorem writeUnwritten_eq (pre mid rest : List UInt8) :
    (state S d o).writeUnwritten (pre ++ mid ++ rest) pre.length (pre ++ mid).length =
      .ok (state S d (o ++ mid)) := by
  unfold writeUnwritten
  rw [List.length_append, Nat.add_sub_cancel_left]
  by_cases hmid : mid.length > 0
  · rw [if_pos hmid, List.append_assoc, List.drop_left, List.take_left]
    rfl
  · have hnil : mid = [] := List.eq_nil_of_length_eq_zero (by omega)
    rw [if_neg hmid, hnil, List.append_nil]

/-- The bytes from `UnwrittenFrom` to `i` need no escape. -/
theorem writeEscaped_eq (pre mid rest : List UInt8) :
    (state S d o).writeEscaped (pre ++ mid ++ rest) pre.length (pre ++ mid).length rest =
      .ok (state S d (o ++ mid ++ rest.flatMap escapeByte)) := by
  induction rest generalizing pre mid o with
  | nil =>
      rw [writeEscaped, writeUnwritten_eq]
      exact congrArg (fun o => Except.ok (state S d o)) (List.append_nil _).symm
  | cons c rest ih =>
      rw [writeEscaped, writeUnwritten_eq, List.flatMap_cons]
      by_cases hc : EscapeJsonChar c ≠ 0 ∨ c < 0x20
      · have hescape : (if EscapeJsonChar c ≠ 0 then [92, EscapeJsonChar c]
            else [92, 117] ++ formatHex c.toNat) = escapeByte c := by
          unfold escapeByte
          by_cases hsimple : EscapeJsonChar c ≠ 0
          · rw [if_pos hsimple, if_pos hsimple]
          · rw [if_neg hsimple, if_neg hsimple, if_pos (hc.resolve_left hsimple)]
        have hnext := @ih (o ++ mid ++ escapeByte c) (pre ++ mid ++ [c]) []
        have hlength : (pre ++ mid ++ [c]).length = (pre ++ mid).length + 1 := List.length_append
        have happend : pre ++ mid ++ [c] ++ [] ++ rest = pre ++ mid ++ c :: rest := by simp
        rw [happend, List.append_nil, hlength, List.append_nil] at hnext
        rw [if_pos hc, hescape, ← List.append_assoc]
        exact hnext
      · have hplain : escapeByte c = [c] := by
          unfold escapeByte
          rw [if_neg fun h => hc (.inl h), if_neg fun h => hc (.inr h)]
        have hnext := @ih o pre (mid ++ [c])
        have happend : pre ++ (mid ++ [c]) ++ rest = pre ++ mid ++ c :: rest := by simp
        have hlength : (pre ++ (mid ++ [c])).length = (pre ++ mid).length + 1 := by
          rw [← List.append_assoc]
          exact List.length_append
        rw [happend, hlength] at hnext
        rw [if_neg hc, hplain, hnext]
        simp

theorem WriteInternalEscaped_eq (s : List UInt8) :
    (state S d o).WriteInternalEscaped s = .ok (state S d (o ++ quoted s)) := by
  have hloop := @writeEscaped_eq S d (o ++ [34]) [] [] s
  rw [List.append_nil] at hloop
  unfold WriteInternalEscaped
  show ((state S d (o ++ [34])).writeEscaped s 0 0 s).bind _ = _
  rw [show (state S d (o ++ [34])).writeEscaped s 0 0 s = _ from hloop]
  show Except.ok (state S d (o ++ [34] ++ [] ++ s.flatMap escapeByte ++ [34])) = _
  unfold quoted
  simp

theorem WriteIndent_false : (state S d o).WriteIndent false = .ok (state S d (o ++ lead d S)) := by
  cases S with
  | nil =>
      rw [lead, List.append_nil]
      rfl
  | cons s S =>
      obtain ⟨k, e⟩ := s
      cases k <;> cases e <;>
        simp [WriteIndent, notRootOrAttribute, topEmpty, WriteInternal, state, lead, tabs, bind,
          Except.bind]

theorem WriteIndent_true (h : ∀ s ∈ S.head?, s.m_Kind ≠ .STATE_ATTRIBUTE) (hroot : S = [] → d = 0) :
    (state S d o).WriteIndent true = .ok (state S d (o ++ 10 :: tabs d)) := by
  cases S with
  | nil =>
      rw [hroot rfl]
      rfl
  | cons s S =>
      have hs := h s rfl
      simp [WriteIndent, notRootOrAttribute, topEmpty, WriteInternal, state, tabs, bind,
        Except.bind, hs]

theorem CompleteDataType_eq :
    (state S d o).CompleteDataType = .ok (state (complete S) d o) := by
  cases S with
  | nil => rfl
  | cons s S =>
      obtain ⟨k, e⟩ := s
      cases k <;> rfl

theorem Slot.canWrite (h : Slot S d) : (state S d o).CanWriteDatatype = true := by
  match S, h with
  | [], _ => rfl
  | ⟨.STATE_ARRAY, _⟩ :: _, _ => rfl
  | ⟨.STATE_ATTRIBUTE, _⟩ :: ⟨.STATE_OBJECT, _⟩ :: _, _ => rfl

theorem Slot.fillTop (h : Slot S d) :
    Slot (fillTop S) d ∧ complete (CJsonStringWriter.fillTop S) = complete S := by
  match S, h with
  | [], h => exact ⟨h, rfl⟩
  | ⟨.STATE_ARRAY, _⟩ :: _, _ => exact ⟨trivial, rfl⟩
  | ⟨.STATE_ATTRIBUTE, _⟩ :: ⟨.STATE_OBJECT, _⟩ :: _, _ => exact ⟨trivial, rfl⟩

/-- Behind a value the top is a container, or the tree is complete. -/
theorem Slot.complete (h : Slot S d) :
    (∀ s ∈ (complete S).head?, s.m_Kind ≠ .STATE_ATTRIBUTE) ∧ (complete S = [] → d = 0) := by
  match S, h with
  | [], h => exact ⟨fun s hs => (by cases hs), fun _ => h⟩
  | ⟨.STATE_ARRAY, _⟩ :: _, _ =>
      refine ⟨fun s hs => ?_, fun h => (by cases h)⟩
      rw [← Option.some.inj hs]
      exact EJsonStateKind.noConfusion
  | ⟨.STATE_ATTRIBUTE, _⟩ :: ⟨.STATE_OBJECT, _⟩ :: _, _ =>
      refine ⟨fun s hs => ?_, fun h => (by cases h)⟩
      rw [← Option.some.inj hs]
      exact EJsonStateKind.noConfusion

/-! ## Calls -/

theorem writeLiteral_eq (h : Slot S d) (p : List UInt8) :
    (state S d o).writeLiteral p = .ok (state (complete S) d (o ++ lead d S ++ p)) := by
  unfold writeLiteral
  rw [h.canWrite, WriteIndent_false]
  exact CompleteDataType_eq

theorem WriteStrValue_eq (h : Slot S d) (v : List UInt8) :
    (state S d o).WriteStrValue v = .ok (state (complete S) d (o ++ lead d S ++ quoted v)) := by
  unfold WriteStrValue
  rw [h.canWrite, WriteIndent_false]
  show ((state S d (o ++ lead d S)).WriteInternalEscaped v).bind _ = _
  rw [WriteInternalEscaped_eq]
  exact CompleteDataType_eq

theorem beginContainer_eq (h : Slot S d) (bracket : UInt8) {k : EJsonStateKind}
    (hk : k ≠ .STATE_ATTRIBUTE) :
    (state S d o).beginContainer bracket k =
      .ok (state ({ m_Kind := k, m_Empty := true } :: fillTop S) (d + 1)
        (o ++ lead d S ++ [bracket])) := by
  unfold beginContainer
  rw [h.canWrite, WriteIndent_false]
  show Except.ok (PushState (state S d (o ++ lead d S ++ [bracket])) k) = _
  unfold PushState
  rw [if_pos hk]
  rfl

theorem endContainer_eq (h : Slot S d) (bracket : UInt8) {k : EJsonStateKind} (e : Bool)
    (hk : k ≠ .STATE_ATTRIBUTE) :
    (state ({ m_Kind := k, m_Empty := e } :: fillTop S) (d + 1) o).endContainer bracket k =
      .ok (state (complete S) d (o ++ 10 :: tabs d ++ [bracket])) := by
  have hpop : (state ({ m_Kind := k, m_Empty := e } :: fillTop S) (d + 1) o).PopState =
      .ok (state (fillTop S) d o) := by
    unfold PopState state
    simp [hk]
  have hassert : ∀ f : Unit → Exec CJsonStringWriter,
      (dbg_assert (decide (k = k))).bind f = f () := by
    intro f
    rw [decide_eq_true rfl]
    rfl
  unfold endContainer
  refine (hassert _).trans ?_
  show ((state ({ m_Kind := k, m_Empty := e } :: fillTop S) (d + 1) o).PopState).bind _ = _
  rw [hpop]
  show ((state (fillTop S) d o).CompleteDataType).bind _ = _
  rw [CompleteDataType_eq, h.fillTop.2]
  show ((state (complete S) d o).WriteIndent true).bind _ = _
  rw [WriteIndent_true h.complete.1 h.complete.2]
  rfl

theorem WriteAttribute_eq (e : Bool) (name : List UInt8) :
    (state ({ m_Kind := .STATE_OBJECT, m_Empty := e } :: S) d o).WriteAttribute name =
      .ok (state ({ m_Kind := .STATE_ATTRIBUTE, m_Empty := true } ::
        { m_Kind := .STATE_OBJECT, m_Empty := false } :: S) d
        (o ++ ((if e then [] else [44]) ++ 10 :: tabs d) ++ quoted name ++ [58, 32])) := by
  unfold WriteAttribute
  show ((state ({ m_Kind := .STATE_OBJECT, m_Empty := e } :: S) d o).WriteIndent false).bind _ = _
  rw [WriteIndent_false]
  show ((state _ d _).WriteInternalEscaped name).bind _ = _
  rw [WriteInternalEscaped_eq]
  rfl

/-! ## Trees -/

mutual

/-- No call of a tree fails, and its text is appended. -/
theorem write_eq (x : Json) {S : List SState} {d : Nat} {o : List UInt8} (h : Slot S d) :
    (state S d o).write x = .ok (state (complete S) d (o ++ lead d S ++ text d x)) := by
  match x with
  | .null => exact writeLiteral_eq h _
  | .bool b => exact writeLiteral_eq h _
  | .int n => exact writeLiteral_eq h _
  | .str s => exact WriteStrValue_eq h s
  | .arr xs =>
      obtain ⟨e, hxs⟩ := @writeElements_eq xs (fillTop S) (d + 1) (o ++ lead d S ++ [91]) true
      unfold write BeginArray
      rw [beginContainer_eq h 91 (by decide)]
      show ((state _ (d + 1) _).writeElements xs).bind _ = _
      rw [hxs]
      show EndArray _ = _
      unfold EndArray
      rw [endContainer_eq h 93 e (by decide)]
      simp [text]
  | .obj fields =>
      obtain ⟨e, hfields⟩ := @writeMembers_eq fields (fillTop S) (d + 1) (o ++ lead d S ++ [123]) true
      unfold write BeginObject
      rw [beginContainer_eq h 123 (by decide)]
      show ((state _ (d + 1) _).writeMembers fields).bind _ = _
      rw [hfields]
      show EndObject _ = _
      unfold EndObject
      rw [endContainer_eq h 125 e (by decide)]
      simp [text]

theorem writeElements_eq (xs : List Json) {S : List SState} {d : Nat} {o : List UInt8}
    {first : Bool} :
    ∃ e, (state ({ m_Kind := .STATE_ARRAY, m_Empty := first } :: S) d o).writeElements xs =
      .ok (state ({ m_Kind := .STATE_ARRAY, m_Empty := e } :: S) d
        (o ++ textElements d first xs)) := by
  match xs with
  | [] =>
      refine ⟨first, ?_⟩
      unfold writeElements textElements
      rw [List.append_nil]
  | x :: xs =>
      have hslot : Slot ({ m_Kind := .STATE_ARRAY, m_Empty := first } :: S) d := trivial
      obtain ⟨e, hxs⟩ := @writeElements_eq xs S d
        (o ++ ((if first then [] else [44]) ++ 10 :: tabs d) ++ text d x) false
      refine ⟨e, ?_⟩
      unfold writeElements
      rw [write_eq x hslot]
      show ((state _ d _).writeElements xs) = _
      refine hxs.trans ?_
      simp [textElements]

theorem writeMembers_eq (fields : List (List UInt8 × Json)) {S : List SState} {d : Nat}
    {o : List UInt8} {first : Bool} :
    ∃ e, (state ({ m_Kind := .STATE_OBJECT, m_Empty := first } :: S) d o).writeMembers fields =
      .ok (state ({ m_Kind := .STATE_OBJECT, m_Empty := e } :: S) d
        (o ++ textMembers d first fields)) := by
  match fields with
  | [] =>
      refine ⟨first, ?_⟩
      unfold writeMembers textMembers
      rw [List.append_nil]
  | (name, x) :: fields =>
      have hslot : Slot ({ m_Kind := .STATE_ATTRIBUTE, m_Empty := true } ::
        { m_Kind := .STATE_OBJECT, m_Empty := false } :: S) d := trivial
      obtain ⟨e, hfields⟩ := @writeMembers_eq fields S d
        (o ++ ((if first then [] else [44]) ++ 10 :: tabs d) ++ quoted name ++ [58, 32] ++ [] ++
          text d x) false
      refine ⟨e, ?_⟩
      unfold writeMembers
      rw [WriteAttribute_eq]
      show ((state _ d _).write x).bind _ = _
      rw [write_eq x hslot]
      show ((state _ d _).writeMembers fields) = _
      refine hfields.trans ?_
      simp [textMembers]

end

theorem output_eq (x : Json) : output x = .ok (text 0 x ++ [10]) := by
  have hwrite := @write_eq x [] 0 [] rfl
  unfold output
  show ((state [] 0 []).write x).bind _ = _
  rw [hwrite]
  rfl

/-! ## The text is read back -/

theorem hexValue_formatHex {n : Nat} (hn : n < 32) :
    ∃ a b, formatHex n = [48, 48, a, b] ∧ Json.hexValue a = some (n / 16) ∧
      Json.hexValue b = some (n % 16) := by
  have h : ∀ k : Fin 32, formatHex k.val =
      [48, 48, (formatHex k.val).getD 2 0, (formatHex k.val).getD 3 0] ∧
      Json.hexValue ((formatHex k.val).getD 2 0) = some (k.val / 16) ∧
      Json.hexValue ((formatHex k.val).getD 3 0) = some (k.val % 16) := by decide
  exact ⟨_, _, h ⟨n, hn⟩⟩

theorem mem_of_escapeJsonChar {c : UInt8} (h : EscapeJsonChar c ≠ 0) :
    c = 34 ∨ c = 92 ∨ c = 8 ∨ c = 10 ∨ c = 13 ∨ c = 9 := by
  by_contra hnone
  simp only [not_or] at hnone
  apply h
  simp [EscapeJsonChar, hnone]

theorem standsFor_escapeByte (c : UInt8) : Json.StandsFor (escapeByte c) c := by
  unfold escapeByte
  by_cases hsimple : EscapeJsonChar c ≠ 0
  · rw [if_pos hsimple]
    right
    refine ⟨[EscapeJsonChar c], rfl, fun rest => ?_⟩
    rcases mem_of_escapeJsonChar hsimple with rfl | rfl | rfl | rfl | rfl | rfl <;> rfl
  · rw [if_neg hsimple]
    by_cases hcontrol : c < 0x20
    · have hlt : c.toNat < 32 := hcontrol
      obtain ⟨a, b, hformat, ha, hb⟩ := hexValue_formatHex hlt
      rw [if_pos hcontrol, hformat]
      right
      refine ⟨117 :: [48, 48, a, b], rfl, fun rest => ?_⟩
      have hhex : Json.readHex (48 :: 48 :: a :: b :: rest) = some (c.toNat, rest) := by
        have hzero : Json.hexValue 48 = some 0 := rfl
        simp only [Json.readHex, hzero, ha, hb]
        show some (16 * (16 * (16 * 0 + 0) + c.toNat / 16) + c.toNat % 16, rest) = _
        rw [show 16 * (16 * (16 * 0 + 0) + c.toNat / 16) + c.toNat % 16 = c.toNat by omega]
      show Json.readUnicode (48 :: 48 :: a :: b :: rest) = _
      unfold Json.readUnicode
      rw [hhex]
      show (if c.toNat < 0xD800 ∨ _ then some (Json.utf8 c.toNat, rest) else _) = _
      have hutf8 : Json.utf8 c.toNat = [c] := by
        unfold Json.utf8
        rw [if_pos (by omega), UInt8.ofNat_toNat]
      rw [if_pos (.inl (by omega)), hutf8]
    · rw [if_neg hcontrol]
      left
      refine ⟨rfl, fun h => hsimple ?_, fun h => hsimple ?_, hcontrol⟩
      · rw [h]
        decide
      · rw [h]
        decide

/-- What follows a value in a text. -/
def Follows (rest : List UInt8) : Prop := ∃ c s, rest = c :: s ∧ (c = 44 ∨ c = 10)

theorem Follows.delimited {rest : List UInt8} (h : Follows rest) : Json.Delimited rest := by
  obtain ⟨c, s, rfl, hc⟩ := h
  intro b hb
  rw [← Option.some.inj hb]
  rcases hc with rfl | rfl <;> decide

/-- The digits of a number. -/
abbrev decimal (n : Nat) : List UInt8 := (Nat.toDigits 10 n).map fun c => UInt8.ofNat c.toNat

theorem decimal_ne_nil (n : Nat) : decimal n ≠ [] := by
  intro hnil
  rw [List.map_eq_nil_iff] at hnil
  exact absurd hnil (List.length_pos_iff.mp Nat.length_toDigits_pos)

/-- No leading zero. -/
theorem decimal_head (n : Nat) (h : (decimal n).head? = some 48) : decimal n = [48] := by
  induction n using Nat.strongRecOn with
  | ind n ih =>
      by_cases hn : n < 10
      · unfold decimal at h ⊢
        rw [Nat.toDigits_of_lt_base hn] at h ⊢
        exact congrArg (fun c => [c]) (Option.some.inj h)
      · have hsplit : decimal n = decimal (n / 10) ++ decimal (n % 10) := by
          unfold decimal
          rw [Nat.toDigits_of_base_le (by decide) (by omega), List.map_append,
            Nat.toDigits_of_lt_base (Nat.mod_lt n (by decide))]
        obtain ⟨c, s, hcons⟩ := List.exists_cons_of_ne_nil (decimal_ne_nil (n / 10))
        rw [hsplit, hcons] at h
        have hzero := ih (n / 10) (by omega) (by rw [hcons]; exact h)
        have hvalue : digitsValue (decimal (n / 10)) = n / 10 := (digitsValue_toDigits (n / 10)).1
        rw [hzero] at hvalue
        have hval : digitsValue [48] = 0 := rfl
        omega

theorem readInt_formatInt (n : Int) {rest : List UInt8} (h : Json.Delimited rest) :
    Json.readInt (formatInt n ++ rest) = some (n, rest) := by
  obtain ⟨hvalue, hdigits⟩ := digitsValue_toDigits n.natAbs
  have hnat : Json.readNat (decimal n.natAbs ++ rest) = some (n.natAbs, rest) := by
    rw [Json.readNat_append hdigits (decimal_ne_nil _) (decimal_head _) h]
    exact congrArg (fun k => some (k, rest)) hvalue
  unfold formatInt
  by_cases hneg : n < 0
  · rw [if_pos hneg]
    show (Json.readNat (decimal n.natAbs ++ rest)).map _ = _
    rw [hnat]
    show some (-(n.natAbs : Int), rest) = _
    rw [show -(n.natAbs : Int) = n by omega]
  · rw [if_neg hneg]
    obtain ⟨c, s, hcons⟩ := List.exists_cons_of_ne_nil (decimal_ne_nil n.natAbs)
    have hc : c ≠ 45 := by
      rintro rfl
      exact absurd (hdigits 45 (by rw [show List.map _ _ = _ from hcons]; exact List.mem_cons_self))
        (by decide)
    show Json.readInt (decimal n.natAbs ++ rest) = _
    rw [hcons] at hnat ⊢
    show (if c = 45 then _ else (Json.readNat (c :: s ++ rest)).map _) = _
    rw [if_neg hc, hnat]
    show some ((n.natAbs : Int), rest) = _
    rw [show (n.natAbs : Int) = n by omega]

/-- A number starts with a sign or a digit. -/
theorem formatInt_cons (n : Int) :
    ∃ c s, formatInt n = c :: s ∧ (c = 45 ∨ 48 ≤ c.toNat ∧ c.toNat ≤ 57) := by
  unfold formatInt
  by_cases hneg : n < 0
  · rw [if_pos hneg]
    exact ⟨45, _, rfl, .inl rfl⟩
  · obtain ⟨c, s, hcons⟩ := List.exists_cons_of_ne_nil (decimal_ne_nil n.natAbs)
    have hc := (digitsValue_toDigits n.natAbs).2 c (by
      rw [show List.map _ _ = _ from hcons]
      exact List.mem_cons_self)
    have hrange : 48 ≤ c ∧ c ≤ 57 := of_decide_eq_true hc
    rw [if_neg hneg]
    exact ⟨c, s, hcons, .inr hrange⟩

theorem ne_of_toNat_ne {b c : UInt8} (h : b.toNat ≠ c.toNat) : b ≠ c := fun heq =>
  h (congrArg UInt8.toNat heq)

theorem isSpace_eq_false {c : UInt8} (h : 32 < c.toNat) : Json.isSpace c = false := by
  apply decide_eq_false
  rintro (rfl | rfl | rfl | rfl) <;> exact absurd h (by decide)

/-- A text starts with a byte that is neither space nor a closing bracket. -/
theorem text_cons (d : Nat) (x : Json) :
    ∃ c s, text d x = c :: s ∧ Json.isSpace c = false ∧ c ≠ 93 := by
  cases x with
  | null => exact ⟨_, _, rfl, by decide, by decide⟩
  | bool b => cases b <;> exact ⟨_, _, rfl, by decide, by decide⟩
  | int n =>
      obtain ⟨c, s, hcons, hc⟩ := formatInt_cons n
      refine ⟨c, s, hcons, ?_⟩
      rcases hc with rfl | ⟨hge, hle⟩
      · exact ⟨by decide, by decide⟩
      · refine ⟨isSpace_eq_false (by omega), ne_of_toNat_ne ?_⟩
        show c.toNat ≠ 93
        omega
  | str s => exact ⟨_, _, rfl, by decide, by decide⟩
  | arr xs => exact ⟨_, _, rfl, by decide, by decide⟩
  | obj fields => exact ⟨_, _, rfl, by decide, by decide⟩

theorem isSpace_indent (d : Nat) : ∀ c ∈ 10 :: tabs d, Json.isSpace c = true := by
  intro c hc
  rcases List.mem_cons.mp hc with rfl | hc
  · decide
  · rw [List.eq_of_mem_replicate hc]
    decide

theorem isSpace_blank : ∀ c ∈ [32], Json.isSpace c = true := by
  intro c hc
  rw [List.mem_singleton.mp hc]
  decide

theorem follows_elements (d e : Nat) (xs : List Json) (c : UInt8) (rest : List UInt8) :
    Follows (textElements d false xs ++ (10 :: tabs e ++ c :: rest)) := by
  cases xs with
  | nil => exact ⟨10, _, rfl, .inr rfl⟩
  | cons x xs => exact ⟨44, _, rfl, .inl rfl⟩

theorem follows_members (d e : Nat) (fields : List (List UInt8 × Json)) (c : UInt8)
    (rest : List UInt8) : Follows (textMembers d false fields ++ (10 :: tabs e ++ c :: rest)) := by
  cases fields with
  | nil => exact ⟨10, _, rfl, .inr rfl⟩
  | cons x fields => exact ⟨44, _, rfl, .inl rfl⟩

theorem skipSpace_indent (d : Nat) (s : List UInt8) :
    Json.skipSpace (10 :: tabs d ++ s) = Json.skipSpace s :=
  Json.skipSpace_append (isSpace_indent d) s

theorem skipSpace_text (d : Nat) (x : Json) (s : List UInt8) :
    Json.skipSpace (text d x ++ s) = text d x ++ s := by
  obtain ⟨c, l, hcons, hc, -⟩ := text_cons d x
  rw [hcons]
  exact Json.skipSpace_cons hc _

/-- A quoted string behind its quote. -/
theorem readString_quoted (v rest : List UInt8) :
    Json.readString (v.flatMap escapeByte ++ 34 :: rest) = some (v, rest) :=
  Json.readString_flatMap standsFor_escapeByte v rest

theorem readName_quoted {ws : List UInt8} (hws : ∀ c ∈ ws, Json.isSpace c = true)
    (name rest : List UInt8) :
    Json.readName (ws ++ (quoted name ++ [58, 32] ++ rest)) = some (name, 32 :: rest) := by
  have hquoted : quoted name ++ [58, 32] ++ rest =
      34 :: (name.flatMap escapeByte ++ 34 :: 58 :: 32 :: rest) := by
    unfold quoted
    simp
  rw [hquoted]
  exact Json.readName_quoted ((Json.skipSpace_append hws _).trans (Json.skipSpace_cons (by decide) _))
    (readString_quoted name _) (Json.skipSpace_cons (by decide) _)

theorem skipSpace_spaced {ws : List UInt8} (hws : ∀ c ∈ ws, Json.isSpace c = true) (d : Nat)
    (x : Json) (s : List UInt8) : Json.skipSpace (ws ++ (text d x ++ s)) = text d x ++ s :=
  (Json.skipSpace_append hws _).trans (skipSpace_text d x s)

theorem reads_int (n : Int) {s rest : List UInt8} (hs : Json.skipSpace s = formatInt n ++ rest)
    (hrest : Json.Delimited rest) : Json.Reads 1 s (.int n) rest := by
  have hint := readInt_formatInt n hrest
  obtain ⟨c, l, hcons, hc⟩ := formatInt_cons n
  rw [hcons] at hs hint
  have hne : ∀ b : UInt8, 57 < b.toNat → c ≠ b := by
    rintro b hb rfl
    rcases hc with rfl | ⟨-, hle⟩
    · exact absurd hb (by decide)
    · omega
  have hquote : c ≠ 34 := by
    rintro rfl
    rcases hc with h | ⟨h, -⟩
    · exact absurd h (by decide)
    · exact absurd h (by decide)
  refine Json.reads_scalar hs hquote (hne 91 (by decide)) (hne 123 (by decide)) ?_
  have hword : ∀ b (w v : List UInt8), 57 < b.toNat → (b :: w).isPrefixOf (c :: v) = false := by
    intro b w v hb
    simp [List.isPrefixOf, (hne b hb).symm]
  unfold Json.readScalar
  rw [hword 110 _ _ (by decide), hword 116 _ _ (by decide), hword 102 _ _ (by decide)]
  show (Json.readInt (c :: l ++ rest)).map _ = _
  rw [hint]
  rfl

mutual

/-- A text is read as its tree. -/
theorem reads_text (x : Json) {d : Nat} {ws rest : List UInt8}
    (hws : ∀ c ∈ ws, Json.isSpace c = true) (hrest : Follows rest) :
    Json.Reads (text d x).length (ws ++ (text d x ++ rest)) x rest := by
  match x with
  | .null =>
      exact (Json.reads_scalar (skipSpace_spaced hws d .null rest) (by decide) (by decide)
        (by decide) rfl).mono (Nat.succ_pos _)
  | .bool true =>
      exact (Json.reads_scalar (skipSpace_spaced hws d (.bool true) rest) (by decide) (by decide)
        (by decide) rfl).mono (Nat.succ_pos _)
  | .bool false =>
      exact (Json.reads_scalar (skipSpace_spaced hws d (.bool false) rest) (by decide) (by decide)
        (by decide) rfl).mono (Nat.succ_pos _)
  | .int n =>
      obtain ⟨c, l, hcons, -⟩ := formatInt_cons n
      apply (reads_int n (skipSpace_spaced hws d (.int n) rest) hrest.delimited).mono
      rw [text, hcons]
      exact Nat.succ_pos _
  | .str v =>
      have hquoted : text d (.str v) ++ rest = 34 :: (v.flatMap escapeByte ++ 34 :: rest) := by
        simp [text, quoted]
      apply (Json.reads_str ((skipSpace_spaced hws d (.str v) rest).trans hquoted)
        (readString_quoted v rest)).mono
      exact Nat.succ_pos _
  | .arr [] =>
      have htext : text d (.arr []) ++ rest = 91 :: (10 :: tabs d ++ 93 :: rest) := by
        simp [text, textElements]
      apply (Json.reads_arr_nil ((skipSpace_spaced hws d (.arr []) rest).trans htext)
        ((skipSpace_indent d _).trans (Json.skipSpace_cons (by decide) rest))).mono
      exact Nat.succ_pos _
  | .arr (x :: xs) =>
      have htext : text d (.arr (x :: xs)) ++ rest = 91 :: (10 :: tabs (d + 1) ++
          (text (d + 1) x ++ (textElements (d + 1) false xs ++ (10 :: tabs d ++ 93 :: rest)))) := by
        simp [text, textElements]
      have hhead : (Json.skipSpace (10 :: tabs (d + 1) ++ (text (d + 1) x ++
          (textElements (d + 1) false xs ++ (10 :: tabs d ++ 93 :: rest))))).head? ≠ some 93 := by
        obtain ⟨c, l, hcons, -, hne⟩ := text_cons (d + 1) x
        rw [skipSpace_spaced (isSpace_indent _), hcons]
        exact fun h => hne (Option.some.inj h)
      have hx := @reads_text x (d + 1) (10 :: tabs (d + 1)) _ (isSpace_indent _)
        (follows_elements (d + 1) d xs 93 rest)
      apply (Json.reads_arr ((skipSpace_spaced hws d (.arr (x :: xs)) rest).trans htext) hhead
        (readsElements_text xs hx)).mono
      simp [text, textElements]
      omega
  | .obj [] =>
      have htext : text d (.obj []) ++ rest = 123 :: (10 :: tabs d ++ 125 :: rest) := by
        simp [text, textMembers]
      apply (Json.reads_obj_nil ((skipSpace_spaced hws d (.obj []) rest).trans htext)
        ((skipSpace_indent d _).trans (Json.skipSpace_cons (by decide) rest))).mono
      exact Nat.succ_pos _
  | .obj ((name, x) :: fields) =>
      have htext : text d (.obj ((name, x) :: fields)) ++ rest = 123 :: (10 :: tabs (d + 1) ++
          (quoted name ++ [58, 32] ++ (text (d + 1) x ++
            (textMembers (d + 1) false fields ++ (10 :: tabs d ++ 125 :: rest))))) := by
        simp [text, textMembers]
      have hhead : (Json.skipSpace (10 :: tabs (d + 1) ++ (quoted name ++ [58, 32] ++
          (text (d + 1) x ++ (textMembers (d + 1) false fields ++
            (10 :: tabs d ++ 125 :: rest)))))).head? ≠ some 125 := by
        rw [skipSpace_indent]
        exact fun h => absurd (Option.some.inj h) (by decide)
      have hx := @reads_text x (d + 1) [32] _ isSpace_blank
        (follows_members (d + 1) d fields 125 rest)
      apply (Json.reads_obj ((skipSpace_spaced hws d (.obj ((name, x) :: fields)) rest).trans htext)
        hhead (readsMembers_text fields (readName_quoted (isSpace_indent _) name _) hx)).mono
      simp [text, textMembers]
      omega

/-- A value and those behind it in an array. -/
theorem readsElements_text (xs : List Json) {d e n : Nat} {s rest : List UInt8} {x : Json}
    (hx : Json.Reads n s x (textElements d false xs ++ (10 :: tabs e ++ 93 :: rest))) :
    Json.ReadsElements (n + 1 + (textElements d false xs).length) s (x :: xs) rest := by
  match xs with
  | [] =>
      exact Json.readsElements_last hx
        ((skipSpace_indent e _).trans (Json.skipSpace_cons (by decide) rest))
  | y :: ys =>
      have htext : textElements d false (y :: ys) ++ (10 :: tabs e ++ 93 :: rest) =
          44 :: (10 :: tabs d ++ (text d y ++ (textElements d false ys ++
            (10 :: tabs e ++ 93 :: rest)))) := by
        simp [textElements]
      have hy := @reads_text y d (10 :: tabs d) _ (isSpace_indent _) (follows_elements d e ys 93 rest)
      rw [htext] at hx
      apply (Json.readsElements_cons hx (Json.skipSpace_cons (by decide) _)
        (readsElements_text ys hy)).mono
      simp [textElements]
      omega

/-- An attribute and those behind it in an object. -/
theorem readsMembers_text (fields : List (List UInt8 × Json)) {d e n : Nat}
    {s s' name rest : List UInt8} {x : Json} (hname : Json.readName s = some (name, s'))
    (hx : Json.Reads n s' x (textMembers d false fields ++ (10 :: tabs e ++ 125 :: rest))) :
    Json.ReadsMembers (n + 1 + (textMembers d false fields).length) s ((name, x) :: fields) rest := by
  match fields with
  | [] =>
      exact Json.readsMembers_last hname hx
        ((skipSpace_indent e _).trans (Json.skipSpace_cons (by decide) rest))
  | (next, y) :: fields =>
      have htext : textMembers d false ((next, y) :: fields) ++ (10 :: tabs e ++ 125 :: rest) =
          44 :: (10 :: tabs d ++ (quoted next ++ [58, 32] ++ (text d y ++
            (textMembers d false fields ++ (10 :: tabs e ++ 125 :: rest))))) := by
        simp [textMembers]
      have hy := @reads_text y d [32] _ isSpace_blank (follows_members d e fields 125 rest)
      rw [htext] at hx
      apply (Json.readsMembers_cons hname hx (Json.skipSpace_cons (by decide) _)
        (readsMembers_text fields (readName_quoted (isSpace_indent _) next _) hy)).mono
      simp [textMembers]
      omega

end

/-- A tree is written without a failed assertion, and its text is read as the tree. -/
theorem parse_output (x : Json) : ∃ s, output x = .ok s ∧ Json.parse s = some x := by
  refine ⟨_, output_eq x, ?_⟩
  have hx := @reads_text x 0 [] [10] (fun _ h => absurd h List.not_mem_nil)
    ⟨10, [], rfl, .inr rfl⟩
  apply Json.parse_eq hx
  · rw [List.nil_append, List.length_append]
    exact Nat.le_add_right _ _
  · rfl

example : output (.arr [.int (-3), .null]) =
    .ok [91, 10, 9, 45, 51, 44, 10, 9, 110, 117, 108, 108, 10, 93, 10] := by rfl

end CJsonStringWriter

end Fex.Engine.JsonWriter
