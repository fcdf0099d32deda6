import Fex.Engine.Packer.Fields

/-!
# Packed messages

A list of fields that was packed without an error is read back by the matching
calls of `CUnpacker`.
-/

namespace Fex.Engine.Packer

open Fex.Lib Fex.Base

/-- A field that is added to a packer. -/
inductive Field
  | int (i : Int)
  | string (pStr : List UInt8) (Limit : Int) (AllowTruncation : Bool)
  | raw (pData : List UInt8)

/-- What a call of the unpacker returns. -/
inductive Value
  | int (i : Int)
  | string (pStr : List UInt8)
  | raw (pData : Option (List UInt8))
  deriving DecidableEq

namespace Field

/-- Integers are int32, strings end at their NUL. -/
def Valid : Field → Prop
  | int i => IsInt32 i
  | string pStr _ _ => 0 ∉ pStr
  | raw _ => True

def add (p : CAbstractPacker) : Field → Exec CAbstractPacker
  | int i => .ok (p.AddInt i)
  | string pStr Limit AllowTruncation => p.AddString pStr Limit AllowTruncation
  | raw pData => .ok (p.AddRaw pData)

/-- The call that matches the field. -/
def get (u : CUnpacker) : Field → Value × CUnpacker
  | int _ => (.int u.GetInt.1, u.GetInt.2)
  | string _ _ _ => (.string u.GetString.1, u.GetString.2)
  | raw pData => (.raw (u.GetRaw pData.length).1, (u.GetRaw pData.length).2)

/-- A limit that is not positive is the size of the buffer. -/
def limit (BufferSize : Nat) (Limit : Int) : Int := if Limit ≤ 0 then BufferSize else Limit

/-- What is expected of a buffer of this size. -/
def value (BufferSize : Nat) : Field → Value
  | int i => .int i
  | string pStr Limit _ => .string (cut (limit BufferSize Limit) (codepoints pStr))
  | raw pData => .raw (some pData)

/-- Nothing of the string is packed but its NUL. -/
def PacksNothing (BufferSize : Nat) : Field → Prop
  | string pStr Limit AllowTruncation =>
      cut (limit BufferSize Limit) (codepoints pStr) = [] ∧ (pStr = [] ∨ AllowTruncation = true)
  | _ => False

/-- The NUL of a string of which nothing is packed has a byte left. -/
def Fits (f : Field) (p : CAbstractPacker) : Prop :=
  p.m_Error = false → f.PacksNothing p.m_BufferSize → p.Size < p.m_BufferSize

end Field

def emptyPacker (BufferSize : Nat) : CAbstractPacker :=
  { m_BufferSize := BufferSize, m_pBuffer := [], m_Error := false }

def addFields (p : CAbstractPacker) : List Field → Exec CAbstractPacker
  | [] => .ok p
  | f :: fs => do
      let p ← f.add p
      addFields p fs

def getFields (u : CUnpacker) : List Field → List Value × CUnpacker
  | [] => ([], u)
  | f :: fs => ((f.get u).1 :: (getFields (f.get u).2 fs).1, (getFields (f.get u).2 fs).2)

/-- Every field fits where it is added. -/
def FieldsFit (p : CAbstractPacker) : List Field → Prop
  | [] => True
  | f :: fs => f.Fits p ∧ ∀ q, f.add p = .ok q → FieldsFit q fs

/-! ## One field -/

theorem add_error {p : CAbstractPacker} (h : p.m_Error = true) (f : Field) : f.add p = .ok p := by
  cases f with
  | int i => simp [Field.add, CAbstractPacker.AddInt, h]
  | string pStr Limit AllowTruncation => simp [Field.add, CAbstractPacker.AddString, h]
  | raw pData => simp [Field.add, CAbstractPacker.AddRaw, h]

/-- A packer behind a field: in error, or with the bytes the field is read from. -/
def Added (p q : CAbstractPacker) (f : Field) : Prop :=
  q.m_BufferSize = p.m_BufferSize ∧
    (q.m_Error = true ∨ q.m_Error = false ∧ ∃ bytes, q.m_pBuffer = p.m_pBuffer ++ bytes ∧
      ∀ rest, f.get { m_pCurrent := bytes ++ rest, m_Error := false } =
        (f.value p.m_BufferSize, { m_pCurrent := rest, m_Error := false }))

theorem add_int {p : CAbstractPacker} (hp : p.m_Error = false) {i : Int} (hi : IsInt32 i) :
    Added p (p.AddInt i) (.int i) := by
  unfold CAbstractPacker.AddInt
  rw [hp, if_neg (by decide)]
  cases hrun : CVariableInt.Pack i (p.m_BufferSize - p.Size) with
  | none => exact ⟨rfl, .inl rfl⟩
  | some bytes =>
      refine ⟨rfl, .inr ⟨rfl, bytes, rfl, fun rest => ?_⟩⟩
      have hread := unpack_pack hi hrun rest
      simp [Field.get, Field.value, CUnpacker.GetInt, hread]

theorem add_raw {p : CAbstractPacker} (hp : p.m_Error = false) (pData : List UInt8) :
    Added p (p.AddRaw pData) (.raw pData) := by
  unfold CAbstractPacker.AddRaw
  rw [hp, if_neg (by decide)]
  split
  · exact ⟨rfl, .inl rfl⟩
  · refine ⟨rfl, .inr ⟨rfl, pData, rfl, fun rest => ?_⟩⟩
    have hsize : ¬ ((pData.length : Int) < 0 ∨
        ((pData ++ rest).length : Int) < pData.length) := by
      rw [List.length_append]
      omega
    unfold Field.get Field.value CUnpacker.GetRaw
    simp only [Bool.false_eq_true, if_false, if_neg hsize, Int.toNat_natCast, List.take_left,
      List.drop_left]

theorem add_string {p : CAbstractPacker} (hp : p.m_Error = false) {pStr : List UInt8}
    (hs : 0 ∉ pStr) {Limit : Int} {AllowTruncation : Bool}
    (hfits : (Field.string pStr Limit AllowTruncation).Fits p) :
    ∃ q, p.AddString pStr Limit AllowTruncation = .ok q ∧
      Added p q (.string pStr Limit AllowTruncation) := by
  unfold CAbstractPacker.AddString
  rw [hp, if_neg (by decide)]
  simp only
  cases hrun : CAbstractPacker.addCodepoints p.m_BufferSize AllowTruncation pStr
      (if Limit ≤ 0 then (p.m_BufferSize : Int) else Limit) p.m_pBuffer with
  | none => exact ⟨_, rfl, rfl, .inl rfl⟩
  | some out =>
      obtain ⟨hout, hspace⟩ := addCodepoints_cut hrun
      have hroom : out.length < p.m_BufferSize := by
        rcases hspace with h | h
        · exact h
        · rw [hout, h.1, List.append_nil]
          exact hfits hp h
      simp only [if_pos hroom]
      refine ⟨_, rfl, rfl, .inr ⟨rfl,
        cut (Field.limit p.m_BufferSize Limit) (codepoints pStr) ++ [0], ?_, fun rest => ?_⟩⟩
      · rw [← List.append_assoc]
        exact congrArg (· ++ [0]) hout
      · have htext := text_cut (text_codepoints hs) (Field.limit p.m_BufferSize Limit)
        unfold Field.get Field.value
        rw [List.append_assoc, List.singleton_append, getString_text htext]

/-- Adding a field that fits. -/
theorem add_spec {p : CAbstractPacker} (hp : p.m_Error = false) {f : Field} (hf : f.Valid)
    (hfits : f.Fits p) : ∃ q, f.add p = .ok q ∧ Added p q f := by
  cases f with
  | int i => exact ⟨_, rfl, add_int hp hf⟩
  | string pStr Limit AllowTruncation => exact add_string hp hf hfits
  | raw pData => exact ⟨_, rfl, add_raw hp pData⟩

/-! ## Lists of fields -/

theorem addFields_error {p : CAbstractPacker} (h : p.m_Error = true) (fs : List Field) :
    addFields p fs = .ok p := by
  induction fs with
  | nil => rfl
  | cons f fs ih =>
      rw [addFields, add_error h]
      exact ih

/-- Fields are read from what they added to the buffer. -/
theorem addFields_spec {p : CAbstractPacker} (hp : p.m_Error = false) {fs : List Field}
    (hvalid : ∀ f ∈ fs, f.Valid) (hfit : FieldsFit p fs) :
    ∃ q, addFields p fs = .ok q ∧
      (q.m_Error = false → ∃ bytes, q.m_pBuffer = p.m_pBuffer ++ bytes ∧
        ∀ rest, getFields { m_pCurrent := bytes ++ rest, m_Error := false } fs =
          (fs.map (Field.value p.m_BufferSize), { m_pCurrent := rest, m_Error := false })) := by
  induction fs generalizing p with
  | nil => exact ⟨p, rfl, fun _ => ⟨[], (List.append_nil _).symm, fun _ => rfl⟩⟩
  | cons f fs ih =>
      obtain ⟨q, hadd, hsize, hq⟩ := add_spec hp (hvalid f List.mem_cons_self) hfit.1
      have hnext : addFields p (f :: fs) = addFields q fs := by
        rw [addFields, hadd]
        rfl
      rw [hnext]
      rcases hq with herr | ⟨hq, bytes, hbuffer, hget⟩
      · refine ⟨q, addFields_error herr fs, fun h => ?_⟩
        rw [herr] at h
        cases h
      · obtain ⟨r, hrun, hr⟩ := ih hq (fun g hg => hvalid g (List.mem_cons_of_mem f hg))
          (hfit.2 q hadd)
        refine ⟨r, hrun, fun h => ?_⟩
        obtain ⟨more, hmore, hread⟩ := hr h
        refine ⟨bytes ++ more, by rw [hmore, hbuffer, List.append_assoc], fun rest => ?_⟩
        rw [List.append_assoc, getFields, hget (more ++ rest), hread, hsize]
        rfl

/-- Fields that were added without an error are read back: the integers and blocks as they
were, of each string the code points within its limit.  Nothing is left to read. -/
theorem fields_read_back (BufferSize : Nat) (fields : List Field)
    (hvalid : ∀ f ∈ fields, f.Valid) (hfit : FieldsFit (emptyPacker BufferSize) fields) :
    ∃ p, addFields (emptyPacker BufferSize) fields = .ok p ∧
      (p.m_Error = false →
        getFields (CUnpacker.Reset p.m_pBuffer) fields =
          (fields.map (Field.value BufferSize), { m_pCurrent := [], m_Error := false })) := by
  obtain ⟨p, hrun, hp⟩ := addFields_spec (p := emptyPacker BufferSize) rfl hvalid hfit
  refine ⟨p, hrun, fun h => ?_⟩
  obtain ⟨bytes, hbuffer, hread⟩ := hp h
  have hwhole := hread []
  rw [List.append_nil] at hwhole
  rw [hbuffer]
  exact hwhole

/-- An integer, a cut string and a block in a buffer of sixteen bytes. -/
theorem fields_read_back_mixed :
    ∃ p, addFields (emptyPacker 16)
        [.int (-2147483648), .string [0x61, 0xff, 0x62, 0x63] 5 true, .raw [0, 1]] = .ok p ∧
      p.m_Error = false ∧
      getFields (CUnpacker.Reset p.m_pBuffer)
          [.int (-2147483648), .string [0x61, 0xff, 0x62, 0x63] 5 true, .raw [0, 1]] =
        ([.int (-2147483648), .string [0x61, 0xef, 0xbf, 0xbd, 0x62], .raw (some [0, 1])],
          { m_pCurrent := [], m_Error := false }) := by
  have hvalid : ∀ f ∈ ([.int (-2147483648), .string [0x61, 0xff, 0x62, 0x63] 5 true,
      .raw [0, 1]] : List Field), f.Valid := by
    simp [Field.Valid, IsInt32]
  have hcut : cut (Field.limit 16 5) (codepoints [0x61, 0xff, 0x62, 0x63]) =
      [0x61, 0xef, 0xbf, 0xbd, 0x62] := by decide +kernel
  have hfit : FieldsFit (emptyPacker 16)
      [.int (-2147483648), .string [0x61, 0xff, 0x62, 0x63] 5 true, .raw [0, 1]] := by
    refine ⟨fun _ h => absurd h id, fun q hq => ⟨fun _ h => ?_, fun r _ =>
      ⟨fun _ h => absurd h id, fun _ _ => trivial⟩⟩⟩
    injection hq with hq
    have hsize : q.m_BufferSize = 16 := by
      rw [← hq]
      rfl
    have hnothing := h.1
    rw [hsize, hcut] at hnothing
    cases hnothing
  obtain ⟨p, hrun, hread⟩ := fields_read_back 16 _ hvalid hfit
  have hp : p.m_Error = false := by
    have hresult : (addFields (emptyPacker 16) [.int (-2147483648),
        .string [0x61, 0xff, 0x62, 0x63] 5 true, .raw [0, 1]]).toOption.map (·.m_Error) =
          some false := by decide +kernel
    rw [hrun] at hresult
    exact Option.some.inj hresult
  refine ⟨p, hrun, hp, ?_⟩
  rw [hread hp]
  simp only [List.map_cons, List.map_nil, Field.value, hcut]

/-- A limit of zero keeps a string whole, and the NUL of an empty string is written past the
end of a full buffer. -/
theorem limit_zero_and_full_buffer :
    (∃ p, CPacker.AddString [0x61] 0 true = .ok p ∧ p.m_Error = false ∧
      (CUnpacker.Reset p.m_pBuffer).GetString.1 = [0x61] ∧
      ¬ (([0x61] : List UInt8).length : Int) ≤ 0) ∧
    ((CPacker.AddRaw (List.replicate 2048 0)).m_Error = false ∧
      (CPacker.AddRaw (List.replicate 2048 0)).AddString [] 0 true = .error .outOfBounds) := by
  refine ⟨⟨{ m_BufferSize := PACKER_BUFFER_SIZE, m_pBuffer := [0x61, 0], m_Error := false },
    ?_, rfl, ?_, by decide⟩, ?_⟩
  · have hcopy : CAbstractPacker.addCodepoints PACKER_BUFFER_SIZE true [0x61] PACKER_BUFFER_SIZE [] =
        some [0x61] := by decide +kernel
    unfold CAbstractPacker.AddString CPacker
    simp [hcopy]
    decide
  · decide +kernel
  · have hfull := CPacker.addRaw_eq rfl (List.replicate 2048 0) (by
      rw [List.length_replicate]
      decide)
    obtain ⟨full, hlength⟩ : ∃ full : List UInt8, full = List.replicate 2048 0 := ⟨_, rfl⟩
    have hsize : ¬ (CPacker.m_pBuffer ++ full).length < CPacker.m_BufferSize := by
      rw [hlength, List.length_append, List.length_replicate]
      decide
    rw [hfull, ← hlength]
    refine ⟨rfl, ?_⟩
    unfold CAbstractPacker.AddString
    rw [if_neg (by simp [CPacker])]
    simp only [CAbstractPacker.addCodepoints, if_neg hsize]

end Fex.Engine.Packer
