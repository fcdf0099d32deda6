import Fex.Engine.Compression
import Fex.Lib.Run

/-!
# The buffer of a packer

Model of `CAbstractPacker` on the memory of its buffer, where a write outside is a
fault.  No operation leaves the buffer but one: a string of which nothing is packed
gets its NUL even where the buffer is full.
-/

namespace Fex.Engine.Packer.Bounds

open Fex.Lib Fex.Base Fex.Engine.Packer

/-! ## Functions -/

/-- The buffer and the position of `m_pCurrent` in it. -/
structure CAbstractPacker where
  m_pBuffer : List UInt8
  m_pCurrent : Nat
  m_Error : Bool
  deriving DecidableEq

/-- The loop of `AddString`: the buffer and `m_pCurrent`, `none` is an error. -/
def addCodepoints (buffer : List UInt8) (AllowTruncation : Bool) (pStr : List UInt8) (Limit : Int)
    (m_pCurrent : Nat) : Exec (List UInt8 × Option Nat) :=
  match pStr with
  | [] => .ok (buffer, some m_pCurrent)
  | byte :: ptr =>
      let r := str_utf8_decode (byte :: ptr)
      let Codepoint := if r.1 = -1 then 0xfffd else r.1
      let aEncoded := str_utf8_encode Codepoint.toNat
      if Limit < aEncoded.length then
        if AllowTruncation then .ok (buffer, some m_pCurrent) else .ok (buffer, none)
      else if m_pCurrent + aEncoded.length + 1 > buffer.length then .ok (buffer, none)
      else do
        let buffer ← mem_copy buffer m_pCurrent aEncoded
        addCodepoints buffer AllowTruncation r.2 (Limit - aEncoded.length)
          (m_pCurrent + aEncoded.length)
termination_by pStr.length
decreasing_by exact Nat.lt_succ_of_le (length_str_utf8_decode byte ptr)

/-- The limit that `AddString` works with. -/
def usedLimit (BufferSize : Nat) (Limit : Int) : Int :=
  if Limit ≤ 0 then wrap32 BufferSize else Limit

namespace CAbstractPacker

def Reset (m_pBuffer : List UInt8) : CAbstractPacker :=
  { m_pBuffer, m_pCurrent := 0, m_Error := false }

def Size (p : CAbstractPacker) : Int := wrap32 p.m_pCurrent

def AddInt (p : CAbstractPacker) (i : Int) : Exec CAbstractPacker :=
  if p.m_Error then .ok p
  else do
    let DstSize := wrap32 ((p.m_pBuffer.length : Int) - p.m_pCurrent)
    match ← Compression.Pack p.m_pBuffer p.m_pCurrent i DstSize.toNat with
    | (m_pBuffer, none) => return { p with m_pBuffer, m_Error := true }
    | (m_pBuffer, some pNext) => return { p with m_pBuffer, m_pCurrent := pNext }

def AddString (p : CAbstractPacker) (pStr : List UInt8) (Limit : Int) (AllowTruncation : Bool) :
    Exec CAbstractPacker :=
  if p.m_Error then .ok p
  else do
    match ← addCodepoints p.m_pBuffer AllowTruncation pStr (usedLimit p.m_pBuffer.length Limit)
      p.m_pCurrent with
    | (m_pBuffer, none) => return { p with m_pBuffer, m_Error := true }
    | (m_pBuffer, some m_pCurrent) =>
        let m_pBuffer ← store m_pBuffer m_pCurrent 0
        return { p with m_pBuffer, m_pCurrent := m_pCurrent + 1 }

def AddRaw (p : CAbstractPacker) (pData : List UInt8) : Exec CAbstractPacker :=
  if p.m_Error then .ok p
  else if p.m_pCurrent + pData.length > p.m_pBuffer.length then .ok { p with m_Error := true }
  else do
    let m_pBuffer ← mem_copy p.m_pBuffer p.m_pCurrent pData
    return { p with m_pBuffer, m_pCurrent := p.m_pCurrent + pData.length }

end CAbstractPacker

/-- The operations after `Reset`. -/
inductive Op
  | AddInt (i : Int)
  | AddString (pStr : List UInt8) (Limit : Int) (AllowTruncation : Bool)
  | AddRaw (pData : List UInt8)

namespace CAbstractPacker

def step (p : CAbstractPacker) : Op → Exec CAbstractPacker
  | .AddInt i => p.AddInt i
  | .AddString pStr Limit AllowTruncation => p.AddString pStr Limit AllowTruncation
  | .AddRaw pData => p.AddRaw pData

/-! ## What an operation packs -/

/-- The bytes that are packed so far. -/
def Data (p : CAbstractPacker) : List UInt8 := p.m_pBuffer.take p.m_pCurrent

/-- The bytes of an operation, of a string with its NUL. -/
def bytes (p : CAbstractPacker) : Op → List UInt8
  | .AddInt i => Compression.packed i
  | .AddString pStr Limit _ => cut (usedLimit p.m_pBuffer.length Limit) (codepoints pStr) ++ [0]
  | .AddRaw pData => pData

/-- There is room for the bytes, and a string that must not be truncated is within its limit. -/
def Fits (p : CAbstractPacker) (o : Op) : Prop :=
  p.m_pCurrent + (p.bytes o).length ≤ p.m_pBuffer.length ∧
    match o with
    | .AddString pStr _ false => p.bytes o = packedText pStr ++ [0]
    | _ => True

/-- A string of which nothing is packed needs room for its NUL: the buffer is not full, or
there is a first code point that is within the limit or must not be left out. -/
def Meets (p : CAbstractPacker) : Op → Prop
  | .AddString pStr Limit AllowTruncation =>
      p.m_Error = true ∨ p.m_pCurrent < p.m_pBuffer.length ∨
        ∃ c cs, codepoints pStr = c :: cs ∧
          (AllowTruncation = false ∨ (c.length : Int) ≤ usedLimit p.m_pBuffer.length Limit)
  | _ => True

/-- `m_pCurrent` is in the buffer or at its end. -/
def InBuffer (p : CAbstractPacker) : Prop := p.m_pCurrent ≤ p.m_pBuffer.length

/-- What an operation leads to: its bytes are appended, or the error flag is set. -/
inductive Outcome (p : CAbstractPacker) (o : Op) : CAbstractPacker → Prop
  | packed {p' : CAbstractPacker} :
      p'.m_Error = false → p.Fits o → p'.m_pCurrent = p.m_pCurrent + (p.bytes o).length →
      p'.m_pBuffer.length = p.m_pBuffer.length → p'.Data = p.Data ++ p.bytes o → Outcome p o p'
  | failed {p' : CAbstractPacker} :
      p'.m_Error = true → p'.m_pCurrent = p.m_pCurrent →
      p'.m_pBuffer.length = p.m_pBuffer.length → p'.Data = p.Data → Outcome p o p'

end CAbstractPacker

/-! ## One operation -/

theorem InBuffer_split {p : CAbstractPacker} (h : p.InBuffer) :
    ∃ pre post, p.m_pBuffer = pre ++ post ∧ p.m_pCurrent = pre.length ∧ p.Data = pre :=
  ⟨p.m_pBuffer.take p.m_pCurrent, p.m_pBuffer.drop p.m_pCurrent,
    (List.take_append_drop _ _).symm, (List.length_take_of_le h).symm, rfl⟩

open CAbstractPacker

section

variable {p : CAbstractPacker} (h : p.InBuffer) (herror : p.m_Error = false)
include h herror

theorem AddInt_outcome {i : Int} (hi : IsInt32 i) :
    ∃ p', p.AddInt i = .ok p' ∧ Outcome p (.AddInt i) p' := by
  obtain ⟨pre, post, hbuffer, hcurrent, hdata⟩ := InBuffer_split h
  have hsize : p.m_pBuffer.length = pre.length + post.length := by
    rw [hbuffer, List.length_append]
  obtain ⟨D, hD⟩ : ∃ D, D = (wrap32 ((p.m_pBuffer.length : Int) - p.m_pCurrent)).toNat := ⟨_, rfl⟩
  have hle : D ≤ post.length := by
    rw [hD, hsize, hcurrent]
    unfold wrap32
    omega
  obtain ⟨rest, hrun, hlength, hprefix⟩ := @Compression.Pack_spec pre post D i hle
  rw [Compression.Pack_eq hi] at hrun hprefix
  unfold Bounds.CAbstractPacker.AddInt
  simp only
  rw [herror, ← hD, hbuffer, hcurrent, hrun]
  by_cases hfits : (Compression.packed i).length ≤ D
  · rw [if_pos hfits] at hprefix ⊢
    obtain ⟨tail, rfl⟩ := hprefix _ rfl
    refine ⟨_, rfl, .packed rfl ⟨?_, trivial⟩ ?_ ?_ ?_⟩
    · show p.m_pCurrent + (Compression.packed i).length ≤ _
      omega
    · show pre.length + (Compression.packed i).length = _
      rw [hcurrent]
      rfl
    · show (pre ++ (Compression.packed i ++ tail)).length = _
      rw [List.length_append, hlength, hsize]
    · show (pre ++ (Compression.packed i ++ tail)).take (pre.length + _) = p.Data ++ Compression.packed i
      rw [hdata, ← List.append_assoc, ← List.length_append, List.take_left]
  · rw [if_neg hfits]
    refine ⟨_, rfl, .failed rfl hcurrent.symm ?_ ?_⟩
    · show (pre ++ rest).length = _
      rw [List.length_append, hlength, hsize]
    · show (pre ++ rest).take pre.length = p.Data
      rw [hdata, List.take_left]

theorem AddRaw_outcome (pData : List UInt8) :
    ∃ p', p.AddRaw pData = .ok p' ∧ Outcome p (.AddRaw pData) p' := by
  obtain ⟨pre, post, hbuffer, hcurrent, hdata⟩ := InBuffer_split h
  have hsize : p.m_pBuffer.length = pre.length + post.length := by
    rw [hbuffer, List.length_append]
  unfold Bounds.CAbstractPacker.AddRaw
  rw [herror]
  by_cases hfits : p.m_pCurrent + pData.length ≤ p.m_pBuffer.length
  · have hcopy := @mem_copy_append _ pre post pData (by omega)
    rw [if_neg Bool.false_ne_true, if_neg (by omega), hbuffer, hcurrent, hcopy]
    refine ⟨_, rfl, .packed rfl ⟨hfits, trivial⟩ ?_ ?_ ?_⟩
    · show pre.length + pData.length = _
      rw [hcurrent]
      rfl
    · show (pre ++ (pData ++ post.drop pData.length)).length = _
      simp only [List.length_append, List.length_drop]
      omega
    · show (pre ++ (pData ++ post.drop pData.length)).take (pre.length + pData.length) =
        p.Data ++ pData
      rw [hdata, ← List.append_assoc, ← List.length_append, List.take_left]
  · rw [if_neg Bool.false_ne_true, if_pos (by omega)]
    exact ⟨_, rfl, .failed rfl rfl rfl rfl⟩

end

/-- The loop packs the cut text or fails; it stops early only where nothing is packed. -/
theorem addCodepoints_spec (s : List UInt8) {AllowTruncation : Bool} {Limit : Int}
    {pre post : List UInt8} :
    ∃ rest r, addCodepoints (pre ++ post) AllowTruncation s Limit pre.length =
        .ok (pre ++ rest, r) ∧ rest.length = post.length ∧
      ∀ cur, r = some cur →
        cur = pre.length + (cut Limit (codepoints s)).length ∧
        cut Limit (codepoints s) <+: rest ∧
        (AllowTruncation = true ∨ cut Limit (codepoints s) = packedText s) ∧
        ((cut Limit (codepoints s)).length < post.length ∨
          cut Limit (codepoints s) = [] ∧ ∀ c cs, codepoints s = c :: cs →
            AllowTruncation = true ∧ Limit < c.length) := by
  induction hn : s.length using Nat.strongRecOn generalizing s Limit pre post with
  | ind n ih =>
      cases s with
      | nil =>
          rw [addCodepoints, codepoints, cut]
          refine ⟨post, some pre.length, rfl, rfl, fun cur hcur => ?_⟩
          cases hcur
          refine ⟨rfl, List.nil_prefix, .inr ?_, .inr ⟨rfl, fun c cs hc => by cases hc⟩⟩
          rw [packedText]
      | cons b s =>
          have hlength := length_str_utf8_decode b s
          rw [List.length_cons] at hn
          rw [addCodepoints, codepoints, packedText_cons]
          simp only [cut]
          obtain ⟨encoded, hencoded⟩ : ∃ encoded, encoded =
              str_utf8_encode (if (str_utf8_decode (b :: s)).1 = -1 then 0xfffd
                else (str_utf8_decode (b :: s)).1).toNat := ⟨_, rfl⟩
          rw [← hencoded]
          by_cases hlimit : Limit < encoded.length
          · rw [if_pos hlimit, if_pos hlimit]
            cases AllowTruncation with
            | true =>
                refine ⟨post, some pre.length, rfl, rfl, fun cur hcur => ?_⟩
                cases hcur
                refine ⟨rfl, List.nil_prefix, .inl rfl, .inr ⟨rfl, fun c cs hc => ?_⟩⟩
                cases hc
                exact ⟨rfl, hlimit⟩
            | false => exact ⟨post, none, rfl, rfl, fun cur hcur => by cases hcur⟩
          · rw [if_neg hlimit, if_neg hlimit]
            by_cases hroom : pre.length + encoded.length + 1 > (pre ++ post).length
            · rw [if_pos hroom]
              exact ⟨post, none, rfl, rfl, fun cur hcur => by cases hcur⟩
            · rw [if_neg hroom]
              rw [List.length_append] at hroom
              obtain ⟨rest, r, hrun, hrest, hr⟩ := @ih (str_utf8_decode (b :: s)).2.length
                (by omega) (str_utf8_decode (b :: s)).2 (Limit - encoded.length) (pre ++ encoded)
                (post.drop encoded.length) rfl
              refine ⟨encoded ++ rest, r, ?_, ?_, ?_⟩
              · rw [mem_copy_append pre (by omega)]
                rw [List.append_assoc, List.append_assoc, List.length_append] at hrun
                exact hrun
              · rw [List.length_append, hrest, List.length_drop]
                omega
              · intro cur hcur
                obtain ⟨hcur, hprefix, htext, hspace⟩ := hr cur hcur
                rw [List.length_drop] at hspace
                refine ⟨?_, List.prefix_append_right_inj encoded |>.mpr hprefix, ?_, .inl ?_⟩
                · rw [hcur, List.length_append, List.length_append, Nat.add_assoc]
                · exact htext.imp_right fun heq => by rw [heq]
                · rw [List.length_append]
                  rcases hspace with hspace | ⟨hnone, -⟩
                  · omega
                  · rw [hnone, List.length_nil]
                    omega

section

variable {p : CAbstractPacker} (h : p.InBuffer) (herror : p.m_Error = false)
include h herror

theorem AddString_outcome {pStr : List UInt8} {Limit : Int} {AllowTruncation : Bool}
    (hmeets : p.Meets (.AddString pStr Limit AllowTruncation)) :
    ∃ p', p.AddString pStr Limit AllowTruncation = .ok p' ∧
      Outcome p (.AddString pStr Limit AllowTruncation) p' := by
  obtain ⟨pre, post, hbuffer, hcurrent, hdata⟩ := InBuffer_split h
  have hsize : p.m_pBuffer.length = pre.length + post.length := by
    rw [hbuffer, List.length_append]
  obtain ⟨L, hL⟩ : ∃ L, L = usedLimit p.m_pBuffer.length Limit := ⟨_, rfl⟩
  obtain ⟨text, htext⟩ : ∃ text, text = cut L (codepoints pStr) := ⟨_, rfl⟩
  have hbytes : p.bytes (.AddString pStr Limit AllowTruncation) = text ++ [0] := by
    rw [htext, hL]
    rfl
  obtain ⟨rest, r, hrun, hlength, hr⟩ := @addCodepoints_spec pStr AllowTruncation L pre post
  rw [← htext] at hr
  unfold Bounds.CAbstractPacker.AddString
  rw [herror, ← hL]
  show ∃ p', (addCodepoints p.m_pBuffer AllowTruncation pStr L p.m_pCurrent >>= _) = .ok p' ∧ _
  rw [hbuffer, hcurrent, hrun]
  cases r with
  | none =>
      refine ⟨_, rfl, .failed rfl hcurrent.symm ?_ ?_⟩
      · show (pre ++ rest).length = _
        rw [List.length_append, hlength, hsize]
      · show (pre ++ rest).take pre.length = p.Data
        rw [hdata, List.take_left]
  | some cur =>
      obtain ⟨hcur, ⟨tail, htail⟩, hwhole, hspace⟩ := hr cur rfl
      have hroom : text.length < post.length := by
        rcases hspace with hroom | ⟨hnone, hstop⟩
        · exact hroom
        · rw [hnone, List.length_nil]
          rcases hmeets with herror' | hfull | ⟨c, cs, hc, hlimit⟩
          · rw [herror] at herror'
            cases herror'
          · omega
          · obtain ⟨htrunc, hlong⟩ := hstop c cs hc
            rcases hlimit with hfalse | hshort
            · rw [htrunc] at hfalse
              cases hfalse
            · rw [← hL] at hshort
              omega
      have hsplit := congrArg List.length htail
      rw [List.length_append] at hsplit
      cases tail with
      | nil =>
          rw [List.length_nil] at hsplit
          omega
      | cons b tail =>
          rw [List.length_cons] at hsplit
          have hstore : store (pre ++ rest) cur 0 = .ok (pre ++ text ++ 0 :: tail) := by
            rw [← htail, ← List.append_assoc, hcur, ← List.length_append]
            exact store_append _ _ _ _
          refine ⟨{ m_pBuffer := pre ++ text ++ 0 :: tail, m_pCurrent := cur + 1, m_Error := false },
            ?_, .packed rfl ⟨?_, ?_⟩ ?_ ?_ ?_⟩
          · show (store (pre ++ rest) cur 0 >>= _) = _
            rw [hstore]
            rfl
          · rw [hbytes, List.length_append, List.length_singleton]
            omega
          · cases AllowTruncation with
            | true => trivial
            | false =>
                show p.bytes _ = _
                rw [hbytes]
                rcases hwhole with hfalse | heq
                · cases hfalse
                · rw [heq]
          · show cur + 1 = _
            rw [hbytes, List.length_append, List.length_singleton]
            omega
          · show (pre ++ text ++ 0 :: tail).length = _
            simp only [List.length_append, List.length_cons]
            omega
          · show (pre ++ text ++ 0 :: tail).take (cur + 1) = _
            have hshape : pre ++ text ++ 0 :: tail = (pre ++ (text ++ [0])) ++ tail := by
              simp only [List.append_assoc, List.singleton_append]
            have hlen : cur + 1 = (pre ++ (text ++ [0])).length := by
              simp only [List.length_append, List.length_singleton]
              omega
            rw [hbytes, hdata, hshape, hlen, List.take_left]

end

/-- The NUL of a string of which nothing is packed is written past a full buffer. -/
theorem AddString_faults {p : CAbstractPacker} (h : p.InBuffer) {pStr : List UInt8} {Limit : Int}
    {AllowTruncation : Bool} (hmeets : ¬ p.Meets (.AddString pStr Limit AllowTruncation)) :
    p.AddString pStr Limit AllowTruncation = .error .outOfBounds := by
  have herror : p.m_Error = false := by
    cases hp : p.m_Error with
    | false => rfl
    | true => exact absurd (.inl hp) hmeets
  have hfull : p.m_pBuffer.length ≤ p.m_pCurrent :=
    Nat.le_of_not_lt fun hlt => hmeets (.inr (.inl hlt))
  have hstop : addCodepoints p.m_pBuffer AllowTruncation pStr (usedLimit p.m_pBuffer.length Limit)
      p.m_pCurrent = .ok (p.m_pBuffer, some p.m_pCurrent) := by
    cases pStr with
    | nil => rw [addCodepoints]
    | cons b s =>
        rw [addCodepoints]
        have hfirst : AllowTruncation = true ∧ usedLimit p.m_pBuffer.length Limit <
            (str_utf8_encode (if (str_utf8_decode (b :: s)).1 = -1 then 0xfffd
              else (str_utf8_decode (b :: s)).1).toNat).length := by
          by_contra hnot
          apply hmeets
          refine .inr (.inr ⟨_, _, by rw [codepoints], ?_⟩)
          cases AllowTruncation with
          | false => exact .inl rfl
          | true => exact .inr (Int.not_lt.mp fun hlt => hnot ⟨rfl, hlt⟩)
        rw [if_pos hfirst.2, hfirst.1]
        rfl
  unfold Bounds.CAbstractPacker.AddString
  rw [herror, if_neg Bool.false_ne_true, hstop]
  show (store p.m_pBuffer p.m_pCurrent 0 >>= _) = _
  unfold store
  rw [if_neg (by omega)]
  rfl

/-- The integers of an operation are 32-bit. -/
def Op.Typed : Op → Prop
  | .AddInt i => IsInt32 i
  | _ => True

/-- After an error nothing changes. -/
theorem step_error {p : CAbstractPacker} (herror : p.m_Error = true) (o : Op) :
    p.step o = .ok p := by
  cases o <;> exact if_pos herror

theorem step_outcome {p : CAbstractPacker} {o : Op} (h : p.InBuffer) (herror : p.m_Error = false)
    (htyped : o.Typed) (hmeets : p.Meets o) : ∃ p', p.step o = .ok p' ∧ Outcome p o p' := by
  cases o with
  | AddInt i => exact AddInt_outcome h herror htyped
  | AddString pStr Limit AllowTruncation => exact AddString_outcome h herror hmeets
  | AddRaw pData => exact AddRaw_outcome h herror pData

theorem step_faults {p : CAbstractPacker} {o : Op} (h : p.InBuffer) (hmeets : ¬ p.Meets o) :
    p.step o = .error .outOfBounds := by
  cases o with
  | AddInt i => exact absurd trivial hmeets
  | AddString pStr Limit AllowTruncation => exact AddString_faults h hmeets
  | AddRaw pData => exact absurd trivial hmeets

theorem CAbstractPacker.Outcome.inBuffer {p p' : CAbstractPacker} {o : Op} (h : Outcome p o p')
    (hp : p.InBuffer) : p'.InBuffer := by
  unfold InBuffer at hp ⊢
  cases h with
  | packed _ hfits hcurrent hlength _ =>
      rw [hcurrent, hlength]
      exact hfits.1
  | failed _ hcurrent hlength _ =>
      rw [hcurrent, hlength]
      exact hp

theorem step_inBuffer {p p' : CAbstractPacker} {o : Op} (h : p.InBuffer) (htyped : o.Typed)
    (hmeets : p.Meets o) (hstep : p.step o = .ok p') : p'.InBuffer := by
  cases herror : p.m_Error with
  | true =>
      rw [step_error herror] at hstep
      cases hstep
      exact h
  | false =>
      obtain ⟨p'', hp'', houtcome⟩ := step_outcome h herror htyped hmeets
      rw [hstep] at hp''
      cases hp''
      exact houtcome.inBuffer h

/-- In runs without a string of which nothing is packed at the end of a full buffer the packer
stays in its buffer and writes nothing outside, what does not fit sets the error flag, and then
nothing changes.  Such a string is written outside. -/
theorem packer_runs {buffer : List UInt8} {p : CAbstractPacker}
    (h : Reachable step (fun p o => o.Typed ∧ p.Meets o) (Reset buffer) p) :
    p.m_pCurrent ≤ p.m_pBuffer.length ∧
      ∀ o : Op, o.Typed →
        (p.Meets o → ∃ p', p.step o = .ok p' ∧ p'.m_pCurrent ≤ p'.m_pBuffer.length ∧
          (¬ p.Fits o → p'.m_Error = true ∧ p'.Size = p.Size) ∧
          (p.m_Error = true → p'.Size = p.Size ∧ p'.m_pBuffer = p.m_pBuffer)) ∧
        (¬ p.Meets o → p.step o = .error .outOfBounds) := by
  have hin : p.InBuffer := h.invariant (Nat.zero_le _)
    fun s t e hs hguard hstep => step_inBuffer hs hguard.1 hguard.2 hstep
  refine ⟨hin, fun o htyped => ⟨fun hmeets => ?_, step_faults hin⟩⟩
  cases herror : p.m_Error with
  | true => exact ⟨p, step_error herror o, hin, fun _ => ⟨herror, rfl⟩, fun _ => ⟨rfl, rfl⟩⟩
  | false =>
      obtain ⟨p', hstep, houtcome⟩ := step_outcome hin herror htyped hmeets
      refine ⟨p', hstep, houtcome.inBuffer hin, fun hfits => ?_, fun hfalse => by cases hfalse⟩
      cases houtcome with
      | packed _ hfits' _ _ _ => exact absurd hfits' hfits
      | failed herror' hcurrent _ _ => exact ⟨herror', congrArg (fun n : Nat => wrap32 n) hcurrent⟩

/-- A string that fills its buffer, and one more. -/
theorem packer_runs_full :
    ∃ p, (Reset [7, 7]).step (.AddString [97] 0 true) = .ok p ∧ p.m_pBuffer = [97, 0] ∧
      ∃ p', p.step (.AddString [98] 0 true) = .ok p' ∧ p'.m_Error = true ∧ p'.Size = p.Size := by
  obtain ⟨p, hp⟩ : ∃ p, p = (⟨[97, 0], 2, false⟩ : CAbstractPacker) := ⟨_, rfl⟩
  have hstep : (Reset [7, 7]).step (.AddString [97] 0 true) = .ok p := by
    rw [hp]
    decide +kernel
  have hreach : Reachable step (fun p o => o.Typed ∧ p.Meets o) (Reset [7, 7]) p :=
    .next (.AddString [97] 0 true) .init ⟨trivial, .inr (.inl (by decide))⟩ hstep
  have hmeets : p.Meets (.AddString [98] 0 true) :=
    .inr (.inr ⟨[98], [], by decide +kernel, .inr (by rw [hp]; decide)⟩)
  obtain ⟨p', hstep', -, hfits, -⟩ := ((packer_runs hreach).2 (.AddString [98] 0 true) trivial).1 hmeets
  refine ⟨p, hstep, by rw [hp], p', hstep', hfits fun hroom => ?_⟩
  have hle := hroom.1
  rw [hp] at hle
  exact absurd hle (by decide +kernel)

/-- An empty string behind a full buffer. -/
theorem packer_breaks :
    ∃ p, (Reset [7]).step (.AddRaw [1]) = .ok p ∧ p.m_pCurrent = 1 ∧
      p.step (.AddString [] 0 true) = .error .outOfBounds :=
  ⟨⟨[1], 1, false⟩, by decide, rfl, by decide +kernel⟩

end Fex.Engine.Packer.Bounds
