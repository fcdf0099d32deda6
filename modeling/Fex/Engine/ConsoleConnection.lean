import Fex.Base.Utf8
import Fex.Engine.Network
import Fex.Lib.Cells
import Fex.Lib.Run
import Mathlib.Data.List.TakeWhile

/-!
# Lines of an external console

Model of `network_console_conn.cpp`.  The buffer is the list of its bytes.  The
line ending that is detected is only used by `Send` and is left out, and so is
the socket: what `net_tcp_recv` returns is an argument.
-/

namespace Fex.Engine.ConsoleConnection

open Fex.Lib
open Fex.Base (str_utf8_check)
open Fex.Engine.Network (NET_MAX_PACKETSIZE)

/-- Control characters are replaced in a C string. -/
def str_sanitize_cc (str : List UInt8) : List UInt8 := str.map fun c => if c < 32 then 32 else c

inductive State
  | OFFLINE
  | ONLINE
  | ERROR
  deriving DecidableEq

structure CConsoleNetConnection where
  m_State : State
  m_aBuffer : List UInt8
  m_BufferOffset : Nat
  m_aErrorString : String

/-- What `net_tcp_recv` returns. -/
inductive Received
  | bytes (chunk : List UInt8)
  | wouldBlock
  | failure
  | closed

/-- `\r` or `\n` -/
def IsLineEnd (c : UInt8) : Bool := c == 13 || c == 10

/-- Goes on while the bytes meet `p`; `none` if the end of the data is reached. -/
def scan (p : UInt8 → Bool) (m_aBuffer : List UInt8) (m_BufferOffset Offset : Nat) :
    Exec (Option Nat) := do
  let c ← load m_aBuffer Offset
  if p c then
    if m_BufferOffset ≤ Offset + 1 then return none
    else scan p m_aBuffer m_BufferOffset (Offset + 1)
  else return some Offset
  termination_by m_BufferOffset - Offset

namespace CConsoleNetConnection

/-- An online connection without data, whatever its buffer holds. -/
def Init (m_aBuffer : List UInt8) : CConsoleNetConnection := ⟨.ONLINE, m_aBuffer, 0, ""⟩

def fail (c : CConsoleNetConnection) (m_aErrorString : String) : CConsoleNetConnection :=
  { c with m_State := .ERROR, m_aErrorString := m_aErrorString }

def Update (c : CConsoleNetConnection) (Bytes : Received) : Exec CConsoleNetConnection :=
  if c.m_State ≠ .ONLINE then .ok c
  else if NET_MAX_PACKETSIZE ≤ c.m_BufferOffset then
    .ok (c.fail "too weak connection (out of buffer)")
  else
    match Bytes with
    | .bytes chunk => do
        let m_aBuffer ← mem_copy c.m_aBuffer c.m_BufferOffset chunk
        return { c with m_aBuffer, m_BufferOffset := c.m_BufferOffset + chunk.length }
    | .wouldBlock => .ok c
    | .failure => .ok (c.fail "connection failure")
    | .closed => .ok (c.fail "remote end closed the connection")

/-- The data from `Offset` on is moved to the front. -/
def consume (c : CConsoleNetConnection) (Offset : Nat) : Exec CConsoleNetConnection := do
  let data ← loadBlock c.m_aBuffer Offset (c.m_BufferOffset - Offset)
  let m_aBuffer ← mem_copy c.m_aBuffer 0 data
  return { c with m_aBuffer, m_BufferOffset := c.m_BufferOffset - Offset }

/-- The data from the start of a line on is kept. -/
def keepFrom (c : CConsoleNetConnection) (StartOffset : Nat) : Exec CConsoleNetConnection :=
  if 0 < StartOffset then c.consume StartOffset else .ok c

/-- The line if 1 is returned. -/
def Recv (c : CConsoleNetConnection) (MaxLength : Int) :
    Exec (CConsoleNetConnection × Option (List UInt8)) :=
  if c.m_State ≠ .ONLINE ∨ c.m_BufferOffset = 0 then .ok (c, none)
  else do
    -- find message start
    match ← scan IsLineEnd c.m_aBuffer c.m_BufferOffset 0 with
    | none => return ({ c with m_BufferOffset := 0 }, none)
    | some StartOffset =>
        -- find message end
        match ← scan (!IsLineEnd ·) c.m_aBuffer c.m_BufferOffset StartOffset with
        | none => return (← c.keepFrom StartOffset, none)
        | some EndOffset =>
            if MaxLength - 1 < EndOffset - StartOffset then
              return (← c.keepFrom StartOffset, none)
            else do
              let message ← loadBlock c.m_aBuffer StartOffset (EndOffset - StartOffset)
              let pLine := str_sanitize_cc (message.takeWhile (· ≠ 0))
              return (← c.consume EndOffset, if str_utf8_check pLine then some pLine else none)

end CConsoleNetConnection

/-! ## Lines of a stream -/

/-- The maximal runs of bytes in front of a line end. -/
def terminated (stream : List UInt8) : List (List UInt8) :=
  (stream.splitOnP IsLineEnd).dropLast.filter (· ≠ [])

/-- What is returned for lines. -/
def results (lines : List (List UInt8)) : List (List UInt8) :=
  (lines.map str_sanitize_cc).filter str_utf8_check

/-! ## Sessions -/

/-- A connection, the bytes received and the lines returned. -/
structure Session where
  connection : CConsoleNetConnection
  received : List UInt8
  lines : List (List UInt8)

inductive Call
  | Update (Bytes : Received)
  | Recv

/-- One call. -/
def Session.step (MaxLength : Int) (s : Session) : Call → Exec Session
  | .Update Bytes => do
      let connection ← s.connection.Update Bytes
      return { s with
        connection
        received := match Bytes with
          | .bytes chunk => s.received ++ chunk
          | _ => s.received }
  | .Recv => do
      let (connection, line) ← s.connection.Recv MaxLength
      return { s with connection, lines := s.lines ++ line.toList }

/-- `net_tcp_recv` returns data that fits, without zeros, or none. -/
def Session.Allowed (s : Session) : Call → Prop
  | .Update (.bytes chunk) => chunk ≠ [] ∧ 0 ∉ chunk ∧
      chunk.length + s.connection.m_BufferOffset ≤ NET_MAX_PACKETSIZE
  | .Update .wouldBlock => s.connection.m_BufferOffset < NET_MAX_PACKETSIZE
  | .Update _ => False
  | .Recv => True

/-- A session before the first call. -/
def Session.start (m_aBuffer : Vector UInt8 NET_MAX_PACKETSIZE) : Session :=
  ⟨.Init m_aBuffer.toList, [], []⟩

/-- `Recv` is called `n` times. -/
def Session.recvs (MaxLength : Int) : Nat → Session → Exec Session
  | 0, s => .ok s
  | n + 1, s => do recvs MaxLength n (← s.step MaxLength .Recv)

/-! ## Lines one after the other -/

theorem terminated_lineEnd {b : UInt8} (hb : IsLineEnd b = true) (stream : List UInt8) :
    terminated (b :: stream) = terminated stream := by
  unfold terminated
  rw [List.splitOnP_cons_eq_if_modifyHead, if_pos hb,
    List.dropLast_cons_of_ne_nil (List.splitOnP_ne_nil IsLineEnd stream)]
  rfl

theorem terminated_lineEnds {ends : List UInt8} (hends : ∀ b ∈ ends, IsLineEnd b = true)
    (stream : List UInt8) : terminated (ends ++ stream) = terminated stream := by
  induction ends with
  | nil => rfl
  | cons b ends ih =>
      obtain ⟨hb, hends⟩ := List.forall_mem_cons.mp hends
      rw [List.cons_append, terminated_lineEnd hb, ih hends]

theorem terminated_line {line : List UInt8} {b : UInt8} (hline : ∀ c ∈ line, IsLineEnd c = false)
    (hne : line ≠ []) (hb : IsLineEnd b = true) (stream : List UInt8) :
    terminated (line ++ b :: stream) = line :: terminated (b :: stream) := by
  have hsplit : (line ++ b :: stream).splitOnP IsLineEnd =
      line :: stream.splitOnP IsLineEnd :=
    List.splitOnP_append_cons_of_forall_mem hline b hb stream
  rw [terminated_lineEnd hb, terminated, terminated, hsplit,
    List.dropLast_cons_of_ne_nil (List.splitOnP_ne_nil IsLineEnd stream), List.filter_cons_of_pos]
  exact decide_eq_true hne

theorem terminated_open {line : List UInt8} (hline : ∀ c ∈ line, IsLineEnd c = false) :
    terminated line = [] := by
  rw [terminated, List.splitOnP_eq_singleton hline]
  rfl

/-! ## Scanning -/

/-- The scan stops behind the bytes that meet the predicate. -/
theorem scan_stop {p : UInt8 → Bool} (bytes : List UInt8) {b : UInt8} {tail : List UInt8}
    {m_BufferOffset : Nat} : ∀ {pre : List UInt8}, (∀ c ∈ bytes, p c = true) → p b = false →
      pre.length + bytes.length < m_BufferOffset →
      scan p (pre ++ (bytes ++ b :: tail)) m_BufferOffset pre.length =
        .ok (some (pre.length + bytes.length)) := by
  induction bytes with
  | nil =>
      intro pre _ hb _
      rw [scan, List.nil_append, load_append]
      simp only [bind, Except.bind, hb]
      rfl
  | cons c bytes ih =>
      intro pre hbytes hb hsize
      obtain ⟨hc, hbytes⟩ := List.forall_mem_cons.mp hbytes
      rw [List.length_cons] at hsize
      have hnext := @ih (pre ++ [c]) hbytes hb
        (by rw [List.length_append, List.length_singleton]; omega)
      rw [List.length_append, List.length_singleton, List.append_assoc] at hnext
      rw [scan, List.cons_append, load_append]
      simp only [bind, Except.bind, hc, if_true]
      rw [if_neg (by omega), List.length_cons, Nat.add_comm bytes.length, ← Nat.add_assoc]
      exact hnext

/-- The scan reaches the end of the data. -/
theorem scan_end {p : UInt8 → Bool} (bytes : List UInt8) {tail : List UInt8} :
    ∀ {pre : List UInt8}, (∀ c ∈ bytes, p c = true) → bytes ≠ [] →
      scan p (pre ++ (bytes ++ tail)) (pre.length + bytes.length) pre.length = .ok none := by
  induction bytes with
  | nil => exact fun _ hne => absurd rfl hne
  | cons c bytes ih =>
      intro pre hbytes _
      obtain ⟨hc, hbytes⟩ := List.forall_mem_cons.mp hbytes
      rw [scan, List.cons_append, load_append]
      simp only [bind, Except.bind, hc, if_true, List.length_cons]
      by_cases hlast : bytes = []
      · rw [hlast, if_pos (by simp)]
        rfl
      · have hlength := List.length_pos_iff.mpr hlast
        have hnext := @ih (pre ++ [c]) hbytes hlast
        rw [List.length_append, List.length_singleton, List.append_assoc] at hnext
        rw [if_neg (by omega), Nat.add_comm bytes.length, ← Nat.add_assoc]
        exact hnext

/-- The bytes that meet a predicate at the front, and what follows. -/
theorem span_cases (p : UInt8 → Bool) (l : List UInt8) :
    ∃ front back, l = front ++ back ∧ (∀ c ∈ front, p c = true) ∧
      ∀ b ∈ back.head?, p b = false := by
  refine ⟨l.takeWhile p, l.dropWhile p, List.takeWhile_append_dropWhile.symm,
    fun c hc => List.all_eq_true.mp List.all_takeWhile c hc, fun b hb => ?_⟩
  have hhead := List.head?_dropWhile_not p l
  rw [Option.mem_def.mp hb] at hhead
  exact hhead

/-! ## Data in the buffer -/

/-- The data that has not been read is `pending`. -/
structure Holds (c : CConsoleNetConnection) (pending : List UInt8) : Prop where
  online : c.m_State = .ONLINE
  offset : c.m_BufferOffset = pending.length
  size : c.m_aBuffer.length = NET_MAX_PACKETSIZE
  front : pending <+: c.m_aBuffer

theorem Holds.length_le {c : CConsoleNetConnection} {pending : List UInt8} (h : Holds c pending) :
    pending.length ≤ NET_MAX_PACKETSIZE := h.size ▸ h.front.length_le

theorem mem_copy_front {mem bytes : List UInt8} (h : bytes.length ≤ mem.length) :
    ∃ mem', mem_copy mem 0 bytes = .ok mem' ∧ mem'.length = mem.length ∧ bytes <+: mem' := by
  have hcopy := mem_copy_append [] h
  refine ⟨_, hcopy, ?_, List.prefix_append ..⟩
  simp only [List.nil_append, List.length_append, List.length_drop]
  omega

/-- The bytes behind a front are read back. -/
theorem Holds.loadBlock_eq {c : CConsoleNetConnection} {front line tail : List UInt8}
    (h : Holds c (front ++ (line ++ tail))) :
    loadBlock c.m_aBuffer front.length line.length = .ok line := by
  obtain ⟨junk, hbuffer⟩ := h.front
  calc
    _ = loadBlock (line ++ (tail ++ junk)) 0 line.length := by
      rw [← hbuffer, List.append_assoc, List.append_assoc]
      exact loadBlock_append_add front _ 0 line.length
    _ = .ok line := loadBlock_append line _

/-- The scan finds the first byte that is not passed. -/
theorem Holds.scan_some {c : CConsoleNetConnection} {p : UInt8 → Bool} {b : UInt8}
    {front bytes tail : List UInt8} (h : Holds c (front ++ (bytes ++ b :: tail)))
    (hbytes : ∀ c ∈ bytes, p c = true) (hb : p b = false) :
    scan p c.m_aBuffer c.m_BufferOffset front.length =
      .ok (some (front.length + bytes.length)) := by
  obtain ⟨junk, hbuffer⟩ := h.front
  have hsize : front.length + bytes.length < c.m_BufferOffset := by
    simp only [h.offset, List.length_append, List.length_cons]
    omega
  rw [← hbuffer, List.append_assoc, List.append_assoc, List.cons_append]
  exact scan_stop bytes hbytes hb hsize

/-- The scan finds nothing if all bytes are passed. -/
theorem Holds.scan_none {c : CConsoleNetConnection} {p : UInt8 → Bool} {front bytes : List UInt8}
    (h : Holds c (front ++ bytes)) (hbytes : ∀ c ∈ bytes, p c = true) (hne : bytes ≠ []) :
    scan p c.m_aBuffer c.m_BufferOffset front.length = .ok none := by
  obtain ⟨junk, hbuffer⟩ := h.front
  rw [h.offset, ← hbuffer, List.append_assoc, List.length_append]
  exact scan_end bytes hbytes hne

theorem Holds.consume {c : CConsoleNetConnection} {front back : List UInt8}
    (h : Holds c (front ++ back)) : ∃ c', c.consume front.length = .ok c' ∧ Holds c' back := by
  obtain ⟨junk, hbuffer⟩ := h.front
  have hle := h.length_le
  rw [List.length_append] at hle
  have hoffset : c.m_BufferOffset - front.length = back.length := by
    rw [h.offset, List.length_append, Nat.add_sub_cancel_left]
  have hload : loadBlock c.m_aBuffer front.length back.length = .ok back :=
    @loadBlock_eq c front back [] (by rwa [List.append_nil])
  obtain ⟨m_aBuffer, hcopy, hsize, hfront⟩ : ∃ mem, mem_copy c.m_aBuffer 0 back = .ok mem ∧
      mem.length = c.m_aBuffer.length ∧ back <+: mem :=
    mem_copy_front (by rw [h.size]; omega)
  refine ⟨{ c with m_aBuffer, m_BufferOffset := back.length }, ?_,
    ⟨h.online, rfl, hsize.trans h.size, hfront⟩⟩
  unfold CConsoleNetConnection.consume
  rw [hoffset, hload]
  simp only [bind, Except.bind, hcopy]
  rfl

/-- Data that is received is appended. -/
theorem Holds.update {c : CConsoleNetConnection} {pending chunk : List UInt8} (h : Holds c pending)
    (hne : chunk ≠ []) (hfits : chunk.length + c.m_BufferOffset ≤ NET_MAX_PACKETSIZE) :
    ∃ c', c.Update (.bytes chunk) = .ok c' ∧ Holds c' (pending ++ chunk) := by
  obtain ⟨junk, hbuffer⟩ := h.front
  have hchunk := List.length_pos_iff.mpr hne
  have hsize := h.size
  rw [← hbuffer, List.length_append] at hsize
  rw [h.offset] at hfits
  have hcopy : mem_copy c.m_aBuffer c.m_BufferOffset chunk =
      .ok (pending ++ (chunk ++ junk.drop chunk.length)) := by
    rw [← hbuffer, h.offset]
    exact mem_copy_append pending (by omega)
  refine ⟨{ c with
      m_aBuffer := pending ++ (chunk ++ junk.drop chunk.length)
      m_BufferOffset := c.m_BufferOffset + chunk.length }, ?_, ⟨h.online, ?_, ?_, ?_⟩⟩
  · unfold CConsoleNetConnection.Update
    rw [if_neg (by simp [h.online]), if_neg (by rw [h.offset]; omega)]
    simp only [hcopy]
    rfl
  · rw [h.offset, List.length_append]
  · simp only [List.length_append, List.length_drop]
    omega
  · rw [← List.append_assoc]
    exact List.prefix_append ..

/-! ## One call of `Recv` -/

/-- What follows the data makes the same lines with either of two fronts. -/
def SameLines (pending pending' : List UInt8) : Prop :=
  ∀ more, terminated (pending ++ more) = terminated (pending' ++ more)

/-- The line that is returned for a message. -/
def result (line : List UInt8) : Option (List UInt8) :=
  if str_utf8_check (str_sanitize_cc line) then some (str_sanitize_cc line) else none

theorem Holds.keepFrom {c : CConsoleNetConnection} {ends rest : List UInt8} (h : Holds c (ends ++ rest)) :
    ∃ c', c.keepFrom ends.length = .ok c' ∧ Holds c' rest := by
  unfold CConsoleNetConnection.keepFrom
  split
  · exact h.consume
  next hnone =>
    obtain rfl := List.length_eq_zero_iff.mp (Nat.eq_zero_of_not_pos hnone)
    exact ⟨c, rfl, h⟩

/-- A call either finds no line, or one that is too long, and keeps the lines that are left, or it
takes the first one. -/
theorem Recv_cases {c : CConsoleNetConnection} {pending : List UInt8} (h : Holds c pending)
    (hzero : 0 ∉ pending) (MaxLength : Int) : ∃ c' pending', Holds c' pending' ∧
      pending' <:+ pending ∧
      (c.Recv MaxLength = .ok (c', none) ∧ SameLines pending pending' ∧
          (∀ line ∈ (terminated pending).head?, MaxLength ≤ line.length) ∨
        ∃ line, (line.length : Int) < MaxLength ∧ c.Recv MaxLength = .ok (c', result line) ∧
          ∀ more, terminated (pending ++ more) = line :: terminated (pending' ++ more)) := by
  by_cases hempty : pending = []
  · subst hempty
    refine ⟨c, [], h, List.suffix_refl _, .inl ⟨if_pos (.inr h.offset), fun _ => rfl, ?_⟩⟩
    intro line hline
    cases hline
  have hpos : c.m_BufferOffset ≠ 0 := by
    rw [h.offset]
    exact mt List.length_eq_zero_iff.mp hempty
  obtain ⟨ends, rest, rfl, hends, hrest⟩ := span_cases IsLineEnd pending
  have honline : ¬ (c.m_State ≠ .ONLINE ∨ c.m_BufferOffset = 0) := by
    rw [not_or, not_not]
    exact ⟨h.online, hpos⟩
  cases rest with
  | nil =>
      rw [List.append_nil] at hempty h ⊢
      have hstart : scan IsLineEnd c.m_aBuffer c.m_BufferOffset 0 = .ok none :=
        @Holds.scan_none c IsLineEnd [] ends h hends hempty
      refine ⟨{ c with m_BufferOffset := 0 }, [], ⟨h.online, rfl, h.size, List.nil_prefix⟩,
        List.nil_suffix, .inl ⟨?_, ?_, ?_⟩⟩
      · unfold CConsoleNetConnection.Recv
        rw [if_neg honline]
        simp only [hstart]
        rfl
      · intro more
        rw [terminated_lineEnds hends, List.nil_append]
      · have hnone := terminated_lineEnds hends []
        rw [List.append_nil] at hnone
        rw [hnone]
        intro line hline
        cases hline
  | cons b rest =>
      have hb := hrest b rfl
      have hstart : scan IsLineEnd c.m_aBuffer c.m_BufferOffset 0 = .ok (some ends.length) := by
        have hscan := @Holds.scan_some c IsLineEnd b [] ends rest h hends hb
        rwa [List.length_nil, Nat.zero_add] at hscan
      obtain ⟨line, tail, hline, hopen, htail⟩ := span_cases (!IsLineEnd ·) (b :: rest)
      have hne : line ≠ [] := by
        rintro rfl
        have hclosed := htail b (by rw [← List.nil_append tail, ← hline]; rfl)
        rw [hb] at hclosed
        cases hclosed
      have hopen' : ∀ c ∈ line, IsLineEnd c = false := by
        intro c hc
        simpa using hopen c hc
      rw [hline] at h hzero ⊢
      obtain ⟨c', hkeep, hc'⟩ := h.keepFrom
      -- the line ends in front are dropped
      have hsame : SameLines (ends ++ (line ++ tail)) (line ++ tail) := by
        intro more
        rw [List.append_assoc, terminated_lineEnds hends]
      have hlines := hsame []
      rw [List.append_nil, List.append_nil] at hlines
      cases tail with
      | nil =>
          have hend : scan (!IsLineEnd ·) c.m_aBuffer c.m_BufferOffset ends.length = .ok none := by
            rw [List.append_nil] at h
            exact h.scan_none hopen hne
          refine ⟨c', _, hc', List.suffix_append .., .inl ⟨?_, hsame, ?_⟩⟩
          · unfold CConsoleNetConnection.Recv
            rw [if_neg honline]
            simp only [hstart, hend, bind, Except.bind, hkeep]
            rfl
          · rw [hlines, List.append_nil, terminated_open hopen']
            intro first hfirst
            cases hfirst
      | cons e tail =>
          have he : IsLineEnd e = true := by
            have hclosed := htail e rfl
            simpa using hclosed
          have hend : scan (!IsLineEnd ·) c.m_aBuffer c.m_BufferOffset ends.length =
              .ok (some (ends.length + line.length)) :=
            h.scan_some hopen (by rw [he]; rfl)
          have hlength : ((ends.length + line.length : Nat) : Int) - ends.length = line.length := by
            omega
          by_cases hlong : MaxLength - 1 < line.length
          · refine ⟨c', _, hc', List.suffix_append .., .inl ⟨?_, hsame, ?_⟩⟩
            · unfold CConsoleNetConnection.Recv
              rw [if_neg honline]
              simp only [hstart, hend, bind, Except.bind, hlength, if_pos hlong, hkeep]
              rfl
            · intro first hfirst
              rw [hlines, terminated_line hopen' hne he, List.head?_cons] at hfirst
              obtain rfl := Option.some.inj hfirst
              omega
          · have hmessage := h.loadBlock_eq
            have hcontent : line.takeWhile (· ≠ 0) = line := by
              rw [List.takeWhile_eq_self_iff]
              intro c hc
              have hmem : c ∈ ends ++ (line ++ e :: tail) := by simp [hc]
              exact decide_eq_true fun heq => hzero (heq ▸ hmem)
            rw [← List.append_assoc] at h
            obtain ⟨c'', hconsume, hc''⟩ := h.consume
            rw [List.length_append] at hconsume
            refine ⟨c'', e :: tail, hc'', ?_, .inr ⟨line, by omega, ?_, ?_⟩⟩
            · rw [← List.append_assoc]
              exact List.suffix_append ..
            · unfold CConsoleNetConnection.Recv
              rw [if_neg honline]
              simp only [hstart, hend, bind, Except.bind, hlength, if_neg hlong,
                Nat.add_sub_cancel_left, hmessage, hcontent, hconsume]
              rfl
            · intro more
              rw [hsame more, List.append_assoc, List.cons_append, terminated_line hopen' hne he]

/-! ## Sessions and their lines -/

/-- The lines in front of the first one that does not fit. -/
def fitting (MaxLength : Int) (received : List UInt8) : List (List UInt8) :=
  (terminated received).takeWhile fun line => (line.length : Int) < MaxLength

theorem results_append (done : List (List UInt8)) (line : List UInt8) :
    results (done ++ [line]) = results done ++ (result line).toList := by
  simp only [results, List.map_append, List.filter_append, List.map_singleton, result]
  cases hcheck : str_utf8_check (str_sanitize_cc line) <;> simp [hcheck]

/-- The lines `done` have been taken out of the bytes received and `pending` is left. -/
structure Session.Inv (MaxLength : Int) (s : Session) (done : List (List UInt8))
    (pending : List UInt8) : Prop where
  holds : Holds s.connection pending
  zero : 0 ∉ pending
  lines_eq : s.lines = results done
  split : ∀ more, terminated (s.received ++ more) = done ++ terminated (pending ++ more)
  short : ∀ line ∈ done, (line.length : Int) < MaxLength

namespace Session

variable {MaxLength : Int} {s : Session} {done : List (List UInt8)} {pending : List UInt8}

theorem Inv.start (MaxLength : Int) (m_aBuffer : Vector UInt8 NET_MAX_PACKETSIZE) :
    Inv MaxLength (start m_aBuffer) [] [] where
  holds := ⟨rfl, rfl, Vector.length_toList, List.nil_prefix⟩
  zero := List.not_mem_nil
  lines_eq := rfl
  split := fun _ => rfl
  short := nofun

theorem Inv.terminated_eq (h : s.Inv MaxLength done pending) :
    terminated s.received = done ++ terminated pending := by
  have hsplit := h.split []
  rw [List.append_nil, List.append_nil] at hsplit
  exact hsplit

theorem Inv.fitting_eq (h : s.Inv MaxLength done pending) :
    fitting MaxLength s.received = done ++ fitting MaxLength pending := by
  rw [fitting, h.terminated_eq, List.takeWhile_append_of_pos fun line hline =>
    decide_eq_true (h.short line hline)]
  rfl

theorem Inv.update (h : s.Inv MaxLength done pending) {Bytes : Received}
    (hallowed : s.Allowed (.Update Bytes)) :
    ∃ t pending', s.step MaxLength (.Update Bytes) = .ok t ∧ t.Inv MaxLength done pending' := by
  cases Bytes with
  | bytes chunk =>
      obtain ⟨hne, hzero, hfits⟩ := hallowed
      obtain ⟨c', hupdate, hc'⟩ := h.holds.update hne hfits
      refine ⟨{ s with connection := c', received := s.received ++ chunk }, pending ++ chunk, ?_,
        ⟨hc', ?_, h.lines_eq, fun more => ?_, h.short⟩⟩
      · unfold step
        simp only [hupdate]
        rfl
      · rw [List.mem_append, not_or]
        exact ⟨h.zero, hzero⟩
      · rw [List.append_assoc, h.split, List.append_assoc]
  | wouldBlock =>
      have hspace : s.connection.m_BufferOffset < NET_MAX_PACKETSIZE := hallowed
      have hupdate : s.connection.Update .wouldBlock = .ok s.connection := by
        unfold CConsoleNetConnection.Update
        rw [if_neg (by simp [h.holds.online]), if_neg (by omega)]
      refine ⟨s, pending, ?_, h⟩
      unfold step
      simp only [hupdate]
      rfl
  | failure => exact hallowed.elim
  | closed => exact hallowed.elim

/-- A call of `Recv` takes the first line that is left, if there is one that fits. -/
theorem Inv.recv (h : s.Inv MaxLength done pending) :
    ∃ t done' pending', s.step MaxLength .Recv = .ok t ∧ t.received = s.received ∧
      t.Inv MaxLength done' pending' ∧
      (fitting MaxLength pending).length - 1 = (fitting MaxLength pending').length := by
  obtain ⟨c', pending', hc', hsuffix, hcases⟩ := Recv_cases h.holds h.zero MaxLength
  have hzero : 0 ∉ pending' := fun hmem => h.zero (hsuffix.subset hmem)
  rcases hcases with ⟨hrecv, hsame, hfirst⟩ | ⟨line, hshort, hrecv, hline⟩
  · have hlines := hsame []
    rw [List.append_nil, List.append_nil] at hlines
    have hnone : fitting MaxLength pending = [] := by
      unfold fitting
      cases hterminated : terminated pending with
      | nil => rfl
      | cons line lines =>
          have hlong := hfirst line (by rw [hterminated]; rfl)
          rw [List.takeWhile_cons, if_neg (by rw [decide_eq_true_iff]; omega)]
    refine ⟨{ s with connection := c' }, done, pending', ?_, rfl,
      ⟨hc', hzero, h.lines_eq, fun more => ?_, h.short⟩, ?_⟩
    · unfold step
      simp only [hrecv]
      simp [bind, Except.bind, pure, Except.pure]
    · rw [h.split, hsame]
    · have hsamefit : fitting MaxLength pending' = fitting MaxLength pending := by
        rw [fitting, fitting, hlines]
      rw [hsamefit, hnone]
      rfl
  · have hlines := hline []
    rw [List.append_nil, List.append_nil] at hlines
    refine ⟨⟨c', s.received, s.lines ++ (result line).toList⟩, done ++ [line], pending', ?_, rfl,
      ⟨hc', hzero, ?_, fun more => ?_, ?_⟩, ?_⟩
    · unfold step
      simp only [hrecv]
      rfl
    · rw [results_append, h.lines_eq]
    · rw [h.split, hline, List.append_assoc, List.singleton_append]
    · intro l hl
      rcases List.mem_append.mp hl with hl | hl
      · exact h.short l hl
      · rw [List.mem_singleton.mp hl]
        exact hshort
    · have hfits : decide ((line.length : Int) < MaxLength) = true := decide_eq_true hshort
      rw [fitting, hlines, List.takeWhile_cons, if_pos hfits, List.length_cons]
      rfl

/-- Enough calls of `Recv` take every line that fits. -/
theorem Inv.recvs (n : Nat) : ∀ {s : Session} {done : List (List UInt8)} {pending : List UInt8},
    s.Inv MaxLength done pending → (fitting MaxLength pending).length ≤ n →
      ∃ t, recvs MaxLength n s = .ok t ∧ t.lines = results (fitting MaxLength s.received) := by
  induction n with
  | zero =>
      intro s done pending h hn
      refine ⟨s, rfl, ?_⟩
      rw [h.fitting_eq, List.length_eq_zero_iff.mp (Nat.le_zero.mp hn), List.append_nil]
      exact h.lines_eq
  | succ n ih =>
      intro s done pending h hn
      obtain ⟨t, done', pending', hstep, hreceived, ht, hlength⟩ := h.recv
      obtain ⟨u, hrecvs, hlines⟩ := ih ht (by omega)
      refine ⟨u, ?_, hreceived ▸ hlines⟩
      rw [Session.recvs, hstep]
      exact hrecvs

/-- Calls of `Recv` alone receive nothing. -/
theorem Inv.of_recvs (n : Nat) : ∀ {s t : Session} {done : List (List UInt8)}
    {pending : List UInt8}, s.Inv MaxLength done pending → Session.recvs MaxLength n s = .ok t →
      t.received = s.received ∧ ∃ done' pending', t.Inv MaxLength done' pending' := by
  induction n with
  | zero =>
      intro s t done pending h hrecvs
      obtain rfl := Except.ok.inj hrecvs
      exact ⟨rfl, done, pending, h⟩
  | succ n ih =>
      intro s t done pending h hrecvs
      obtain ⟨u, done', pending', hstep, hreceived, hu, -⟩ := h.recv
      rw [Session.recvs, hstep] at hrecvs
      obtain ⟨ht, hinv⟩ := ih hu hrecvs
      exact ⟨ht.trans hreceived, hinv⟩

theorem received_of_update {t : Session} {chunk : List UInt8}
    (h : s.step MaxLength (.Update (.bytes chunk)) = .ok t) :
    t.received = s.received ++ chunk := by
  unfold step at h
  cases hupdate : s.connection.Update (.bytes chunk) with
  | error e =>
      simp only [hupdate, bind, Except.bind] at h
      cases h
  | ok c =>
      simp only [hupdate, bind, Except.bind] at h
      obtain rfl := Except.ok.inj h
      rfl

theorem inv_of_reachable {m_aBuffer : Vector UInt8 NET_MAX_PACKETSIZE}
    (h : Reachable (step MaxLength) Allowed (start m_aBuffer) s) :
    ∃ done pending, s.Inv MaxLength done pending := by
  induction h with
  | init => exact ⟨[], [], Inv.start MaxLength m_aBuffer⟩
  | next e _ hallowed hstep ih =>
      obtain ⟨done, pending, hinv⟩ := ih
      cases e with
      | Update Bytes =>
          obtain ⟨t, pending', ht, hinv'⟩ := hinv.update hallowed
          rw [hstep] at ht
          obtain rfl := Except.ok.inj ht
          exact ⟨done, pending', hinv'⟩
      | Recv =>
          obtain ⟨t, done', pending', ht, -, hinv', -⟩ := hinv.recv
          rw [hstep] at ht
          obtain rfl := Except.ok.inj ht
          exact ⟨done', pending', hinv'⟩

/-- The lines returned are those of the bytes received, in order, up to the first line that does not
fit, and enough calls of `Recv` return them all. -/
theorem lines_of_reachable {m_aBuffer : Vector UInt8 NET_MAX_PACKETSIZE}
    (h : Reachable (step MaxLength) Allowed (start m_aBuffer) s) :
    (∃ done, done <+: fitting MaxLength s.received ∧ s.lines = results done) ∧
    (∀ e, s.Allowed e → ∃ t, s.step MaxLength e = .ok t) ∧
    ∀ n, (terminated s.received).length ≤ n → ∃ t, recvs MaxLength n s = .ok t ∧
      t.lines = results (fitting MaxLength s.received) := by
  obtain ⟨done, pending, hinv⟩ := inv_of_reachable h
  refine ⟨⟨done, hinv.fitting_eq ▸ List.prefix_append .., hinv.lines_eq⟩, fun e hallowed => ?_,
    fun n hn => hinv.recvs n ?_⟩
  · cases e with
    | Update Bytes =>
        obtain ⟨t, -, ht, -⟩ := hinv.update hallowed
        exact ⟨t, ht⟩
    | Recv =>
        obtain ⟨t, -, -, ht, -, -, -⟩ := hinv.recv
        exact ⟨t, ht⟩
  · have hle := (List.takeWhile_prefix (l := terminated pending)
      fun line => decide ((line.length : Int) < MaxLength)).length_le
    rw [hinv.terminated_eq, List.length_append] at hn
    exact hle.trans (by omega)

theorem lines_of_reachable_two : ∃ s, Reachable (step 3) Allowed (start (.replicate _ 0)) s ∧
    ∃ t, recvs 3 2 s = .ok t ∧ t.lines = [[97, 98], [99]] := by
  have hallowed : (start (.replicate _ 0)).Allowed (.Update (.bytes [97, 98, 13, 10, 99, 10])) :=
    ⟨by decide, by decide, by decide⟩
  obtain ⟨s, -, hstep, -⟩ := (Inv.start 3 (.replicate _ 0)).update hallowed
  have hreach := Reachable.next _ .init hallowed hstep
  have hreceived := received_of_update hstep
  obtain ⟨-, -, hrecvs⟩ := lines_of_reachable hreach
  obtain ⟨t, ht, hlines⟩ := hrecvs 2 (by rw [hreceived]; decide +kernel)
  exact ⟨s, hreach, t, ht, by rw [hlines, hreceived]; decide +kernel⟩

/-- A line of three bytes where three bytes have room for two and the zero. -/
theorem long_line_blocks : ∃ s, Reachable (step 3) Allowed (start (.replicate _ 0)) s ∧
    terminated s.received = [[97, 98, 99], [100]] ∧
    ∀ n t, recvs 3 n s = .ok t → t.lines = [] := by
  have hallowed : (start (.replicate _ 0)).Allowed (.Update (.bytes [97, 98, 99, 10, 100, 10])) :=
    ⟨by decide, by decide, by decide⟩
  obtain ⟨s, pending, hstep, hinv⟩ := (Inv.start 3 (.replicate _ 0)).update hallowed
  have hreceived := received_of_update hstep
  refine ⟨s, Reachable.next _ .init hallowed hstep, by rw [hreceived]; decide +kernel,
    fun n t hrecvs => ?_⟩
  obtain ⟨ht, done', pending', hinv'⟩ := hinv.of_recvs n hrecvs
  have hfitting : fitting 3 t.received = [] := by
    rw [ht, hreceived]
    decide +kernel
  have hdone := hinv'.fitting_eq
  rw [hfitting] at hdone
  rw [hinv'.lines_eq, (List.append_eq_nil_iff.mp hdone.symm).1]
  rfl

end Session

end Fex.Engine.ConsoleConnection
