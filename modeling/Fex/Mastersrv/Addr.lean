import Fex.Lib.Text
import Mathlib.Algebra.GroupWithZero.Nat
import Mathlib.Data.Prod.Lex
import Mathlib.Order.Basic

/-!
# Addresses of servers

Model of `addr.rs` with the text of an address, which determines the address.
IP addresses are their bits; their text follows the standard library.
-/

namespace Fex.Mastersrv

open Fex.Lib

inductive Protocol
  | V5
  | V6
  | V7
  | Ddper6
  deriving DecidableEq

inductive IpAddr
  | V4 (bits : BitVec 32)
  | V6 (bits : BitVec 128)
  deriving DecidableEq

structure Addr where
  ip : IpAddr
  port : UInt16
  protocol : Protocol
  deriving DecidableEq

/-- The derived order compares the fields in turn. -/
def Protocol.index : Protocol → Nat
  | .V5 => 0
  | .V6 => 1
  | .V7 => 2
  | .Ddper6 => 3

def IpAddr.key : IpAddr → Nat ×ₗ Nat
  | .V4 bits => toLex (0, bits.toNat)
  | .V6 bits => toLex (1, bits.toNat)

def Addr.key (a : Addr) : (Nat ×ₗ Nat) ×ₗ Nat ×ₗ Nat :=
  toLex (a.ip.key, toLex (a.port.toNat, a.protocol.index))

theorem Protocol.index_injective : Function.Injective Protocol.index := by
  intro a b h
  cases a <;> cases b <;> first | rfl | cases h

theorem IpAddr.key_injective : Function.Injective IpAddr.key := by
  intro a b h
  cases a with
  | V4 x =>
      cases b with
      | V4 y => rw [BitVec.eq_of_toNat_eq (congrArg (fun p => (ofLex p).2) h)]
      | V6 y => exact absurd (congrArg (fun p => (ofLex p).1) h) (by decide : ¬ (0 : Nat) = 1)
  | V6 x =>
      cases b with
      | V4 y => exact absurd (congrArg (fun p => (ofLex p).1) h) (by decide : ¬ (1 : Nat) = 0)
      | V6 y => rw [BitVec.eq_of_toNat_eq (congrArg (fun p => (ofLex p).2) h)]

theorem Addr.key_injective : Function.Injective Addr.key := by
  rintro ⟨ip, port, protocol⟩ ⟨ip', port', protocol'⟩ h
  have hip : ip = ip' := IpAddr.key_injective (congrArg (fun p => (ofLex p).1) h)
  have hport : port = port' := UInt16.toNat_inj.mp (congrArg (fun p => (ofLex (ofLex p).2).1) h)
  have hprotocol : protocol = protocol' :=
    Protocol.index_injective (congrArg (fun p => (ofLex (ofLex p).2).2) h)
  rw [hip, hport, hprotocol]

instance : LinearOrder Addr := LinearOrder.lift' Addr.key Addr.key_injective

/-! ## Text -/

def Protocol.as_str : Protocol → String
  | .V5 => "tw-0.5+udp"
  | .V6 => "tw-0.6+udp"
  | .V7 => "tw-0.7+udp"
  | .Ddper6 => "ddper-0.6+udp"

def Ipv4Addr.octets (bits : Nat) : List Nat :=
  [bits / 16777216 % 256, bits / 65536 % 256, bits / 256 % 256, bits % 256]

/-- `Display` of an IPv4 address. -/
def Ipv4Addr.fmt (bits : Nat) : List Char := join '.' ((octets bits).map (Nat.toDigits 10))

def Ipv6Addr.segments (bits : Nat) : List Nat :=
  [bits / 2 ^ 112 % 65536, bits / 2 ^ 96 % 65536, bits / 2 ^ 80 % 65536, bits / 2 ^ 64 % 65536,
    bits / 2 ^ 48 % 65536, bits / 2 ^ 32 % 65536, bits / 2 ^ 16 % 65536, bits % 65536]

structure Span where
  start : Nat
  len : Nat

/-- The loop that finds the longest run of zeros, from segment `i` on. -/
def Ipv6Addr.longest : List Nat → Nat → Span → Span → Span
  | [], _, longest, _ => longest
  | segment :: segments, i, longest, current =>
      if segment = 0 then
        let current : Span :=
          { start := if current.len = 0 then i else current.start, len := current.len + 1 }
        Ipv6Addr.longest segments (i + 1) (if current.len > longest.len then current else longest)
          current
      else Ipv6Addr.longest segments (i + 1) longest { start := 0, len := 0 }

/-- The segments with colons between them. -/
def Ipv6Addr.fmt_subslice (segments : List Nat) : List Char :=
  join ':' (segments.map (Nat.toDigits 16))

/-- `Display` of an IPv6 address; an IPv4-mapped one ends in dotted notation. -/
def Ipv6Addr.fmt (bits : Nat) : List Char :=
  if bits / 2 ^ 32 = 65535 then "::ffff:".toList ++ Ipv4Addr.fmt (bits % 2 ^ 32)
  else
    let segments := segments bits
    let zeroes := longest segments 0 { start := 0, len := 0 } { start := 0, len := 0 }
    if zeroes.len > 1 then
      fmt_subslice (segments.take zeroes.start) ++ ':' :: ':' ::
        fmt_subslice (segments.drop (zeroes.start + zeroes.len))
    else fmt_subslice segments

/-- `Display` of the socket address. -/
def Addr.fmt_socket_addr (a : Addr) : List Char :=
  match a.ip with
  | .V4 bits => Ipv4Addr.fmt bits.toNat ++ ':' :: Nat.toDigits 10 a.port.toNat
  | .V6 bits => '[' :: (Ipv6Addr.fmt bits.toNat ++ ']' :: ':' :: Nat.toDigits 10 a.port.toNat)

def Addr.fmt (a : Addr) : List Char :=
  a.protocol.as_str.toList ++ "://".toList ++ a.fmt_socket_addr

example : String.ofList (Addr.fmt { ip := .V6 1, port := 8303, protocol := .V6 }) =
    "tw-0.6+udp://[::1]:8303" := by decide

/-! ## The text determines the address -/

theorem notMem_toDigits {b n : Nat} (hb : 1 < b) (hb' : b ≤ 16) {c : Char}
    (hc : ∀ k : Fin 16, k.val.digitChar ≠ c) : c ∉ Nat.toDigits b n := by
  intro hmem
  obtain ⟨k, hk, rfl⟩ := mem_toDigits hb hmem
  exact hc ⟨k, by omega⟩ rfl

theorem Ipv4Addr.notMem_fmt {c : Char} (hdot : c ≠ '.') (hc : ∀ k : Fin 16, k.val.digitChar ≠ c)
    (bits : Nat) : c ∉ Ipv4Addr.fmt bits := by
  intro hmem
  rcases mem_join hmem with hsep | ⟨l, hl, hcl⟩
  · exact hdot hsep
  · obtain ⟨n, -, rfl⟩ := List.mem_map.mp hl
    exact notMem_toDigits (by decide) (by decide) hc hcl

theorem pieces_join_toDigits {b : Nat} (hb : 1 < b) (hb' : b ≤ 16) {sep : Char}
    (hsep : ∀ k : Fin 16, k.val.digitChar ≠ sep) {ns : List Nat} (hns : ns ≠ []) :
    pieces sep (join sep (ns.map (Nat.toDigits b))) = ns.map (Nat.toDigits b) := by
  apply pieces_join (by simpa using hns)
  intro l hl
  obtain ⟨d, -, rfl⟩ := List.mem_map.mp hl
  exact notMem_toDigits hb hb' hsep

theorem map_toDigits_inj {b : Nat} (hb : 1 < b) (hb' : b ≤ 16) {ms ns : List Nat}
    (h : ms.map (Nat.toDigits b) = ns.map (Nat.toDigits b)) : ms = ns :=
  List.map_injective_iff.mpr (fun _ _ hab => toDigits_inj hb hb' hab) h

theorem Ipv4Addr.fmt_inj {m n : Nat} (hm : m < 2 ^ 32) (hn : n < 2 ^ 32)
    (h : Ipv4Addr.fmt m = Ipv4Addr.fmt n) : m = n := by
  have hmap := congrArg (pieces '.') h
  unfold Ipv4Addr.fmt at hmap
  have hne : ∀ k, octets k ≠ [] := fun k => List.cons_ne_nil _ _
  rw [pieces_join_toDigits (by decide) (by decide) (by decide) (hne m),
    pieces_join_toDigits (by decide) (by decide) (by decide) (hne n)] at hmap
  have hlist := map_toDigits_inj (by decide) (by decide) hmap
  unfold Ipv4Addr.octets at hlist
  simp only [List.cons.injEq, and_true] at hlist
  omega

theorem Ipv6Addr.segments_inj {m n : Nat} (hm : m < 2 ^ 128) (hn : n < 2 ^ 128)
    (h : segments m = segments n) : m = n := by
  unfold segments at h
  simp only [List.cons.injEq, and_true] at h
  omega

/-- The span lies before index `i` and has zeros only. -/
structure Span.Zeros (s : Span) (segments : List Nat) (i : Nat) : Prop where
  le : s.start + s.len ≤ i
  zero : ∀ k, s.start ≤ k → k < s.start + s.len → segments[k]? = some 0

theorem Ipv6Addr.longest_zeros {segments rest : List Nat} {i : Nat} {best current : Span}
    (hrest : segments.drop i = rest) (hi : i ≤ segments.length) (hbest : best.Zeros segments i)
    (hcurrent : current.Zeros segments i) (hend : 0 < current.len → current.start + current.len = i) :
    (longest rest i best current).Zeros segments segments.length := by
  induction rest generalizing i best current with
  | nil =>
      have hlen := congrArg List.length hrest
      rw [List.length_drop, List.length_nil] at hlen
      exact ⟨Nat.le_trans hbest.le hi, hbest.zero⟩
  | cons segment rest ih =>
      have hlen := congrArg List.length hrest
      rw [List.length_drop, List.length_cons] at hlen
      have hget : segments[i]? = some segment := by
        rw [← Nat.add_zero i, ← List.getElem?_drop, hrest]
        rfl
      have hnext : segments.drop (i + 1) = rest := by
        rw [← List.drop_drop, hrest]
        rfl
      have hbest' : best.Zeros segments (i + 1) := ⟨Nat.le_succ_of_le hbest.le, hbest.zero⟩
      unfold longest
      by_cases hzero : segment = 0
      · rw [if_pos hzero]
        simp only
        set next : Span := { start := if current.len = 0 then i else current.start,
                             len := current.len + 1 } with hnextdef
        have hstart : next.start + next.len = i + 1 := by
          rw [hnextdef]
          by_cases hpos : current.len = 0
          · simp only [if_pos hpos]
            omega
          · simp only [if_neg hpos]
            have heq := hend (by omega)
            omega
        have hzeros : next.Zeros segments (i + 1) := by
          refine ⟨Nat.le_of_eq hstart, fun k hk hk' => ?_⟩
          by_cases hki : k = i
          · rw [hki, hget, hzero]
          · have hlt : k < i := by omega
            by_cases hpos : current.len = 0
            · rw [hnextdef] at hk
              simp only [if_pos hpos] at hk
              omega
            · rw [hnextdef] at hk
              simp only [if_neg hpos] at hk
              have heq := hend (by omega)
              exact hcurrent.zero k hk (by omega)
        apply ih hnext (by omega) _ hzeros (fun _ => hstart)
        split
        · exact hzeros
        · exact hbest'
      · rw [if_neg hzero]
        exact ih hnext (by omega) hbest' ⟨Nat.zero_le _, fun k _ hk => absurd hk (by simp)⟩
          fun hpos => absurd hpos (Nat.lt_irrefl 0)

/-- A run of zeros between the other segments. -/
theorem Span.Zeros.split {s : Span} {segments : List Nat} (h : s.Zeros segments segments.length) :
    segments = segments.take s.start ++ List.replicate s.len 0 ++ segments.drop (s.start + s.len) := by
  have hmiddle : (segments.drop s.start).take s.len = List.replicate s.len 0 := by
    have hle := h.le
    apply List.ext_getElem?
    intro k
    rw [List.getElem?_take, List.getElem?_drop, List.getElem?_replicate]
    by_cases hk : k < s.len
    · rw [if_pos hk, if_pos hk]
      exact h.zero _ (Nat.le_add_right _ _) (by omega)
    · rw [if_neg hk, if_neg hk]
  rw [← hmiddle, ← List.drop_drop, List.append_assoc, List.take_append_drop, List.take_append_drop]

/-- The segments written before or after the colons; none leave an empty piece. -/
def blank (segments : List Nat) : List (List Char) :=
  if segments = [] then [[]] else segments.map (Nat.toDigits 16)

theorem pieces_fmt_subslice (segments : List Nat) :
    pieces ':' (Ipv6Addr.fmt_subslice segments) = blank segments := by
  unfold blank Ipv6Addr.fmt_subslice
  by_cases hnil : segments = []
  · rw [if_pos hnil, hnil]
    rfl
  · rw [if_neg hnil]
    exact pieces_join_toDigits (by decide) (by decide) (by decide) hnil

/-- The pieces before the first empty one. -/
def front (ps : List (List Char)) : List (List Char) := ps.takeWhile (· ≠ [])

theorem front_map_append (segments : List Nat) (ps : List (List Char)) :
    front (segments.map (Nat.toDigits 16) ++ [] :: ps) = segments.map (Nat.toDigits 16) := by
  unfold front
  rw [List.takeWhile_append_of_pos]
  · simp
  · intro l hl
    obtain ⟨n, -, rfl⟩ := List.mem_map.mp hl
    exact decide_eq_true (toDigits_ne_nil 16 n)

theorem front_blank (segments : List Nat) (ps : List (List Char)) :
    front (blank segments ++ [] :: ps) = segments.map (Nat.toDigits 16) := by
  unfold blank
  by_cases hnil : segments = []
  · rw [if_pos hnil, hnil]
    rfl
  · rw [if_neg hnil]
    exact front_map_append segments ps

theorem reverse_blank (segments : List Nat) : (blank segments).reverse = blank segments.reverse := by
  unfold blank
  by_cases hnil : segments = []
  · rw [if_pos hnil, if_pos (by rw [hnil]; rfl)]
    rfl
  · rw [if_neg hnil, if_neg (by simpa using hnil), List.map_reverse]

/-- The segments in the text of an address that is not mapped. -/
def expand (ps : List (List Char)) : List (List Char) :=
  if [] ∈ ps then
    front ps ++ List.replicate (8 - (front ps).length - (front ps.reverse).length) (Nat.toDigits 16 0) ++
      (front ps.reverse).reverse
  else ps

theorem expand_pieces {bits : Nat} (hbits : bits / 2 ^ 32 ≠ 65535) :
    expand (pieces ':' (Ipv6Addr.fmt bits)) = (Ipv6Addr.segments bits).map (Nat.toDigits 16) := by
  set segments := Ipv6Addr.segments bits with hsegments
  have hlen : segments.length = 8 := rfl
  unfold Ipv6Addr.fmt
  rw [if_neg hbits, ← hsegments]
  simp only
  set zeroes := Ipv6Addr.longest segments 0 { start := 0, len := 0 } { start := 0, len := 0 }
    with hzeroes
  have hempty : Span.Zeros { start := 0, len := 0 } segments 0 :=
    ⟨Nat.le_refl _, fun k _ hk => absurd hk (by simp)⟩
  have hzeros : zeroes.Zeros segments segments.length :=
    Ipv6Addr.longest_zeros rfl (Nat.zero_le _) hempty hempty fun hpos => absurd hpos (Nat.lt_irrefl 0)
  by_cases hcompress : zeroes.len > 1
  · rw [if_pos hcompress]
    set before := segments.take zeroes.start with hbefore
    set after := segments.drop (zeroes.start + zeroes.len) with hafter
    have hsplit : segments = before ++ List.replicate zeroes.len 0 ++ after := hzeros.split
    have hlens := congrArg List.length hsplit
    rw [hlen, List.length_append, List.length_append, List.length_replicate] at hlens
    have hpieces : pieces ':' (Ipv6Addr.fmt_subslice before ++ ':' :: ':' ::
        Ipv6Addr.fmt_subslice after) = blank before ++ [] :: blank after := by
      have hcolon : pieces ':' (':' :: Ipv6Addr.fmt_subslice after) =
          [] :: pieces ':' (Ipv6Addr.fmt_subslice after) := if_pos rfl
      rw [pieces_append_cons, hcolon, pieces_fmt_subslice, pieces_fmt_subslice]
    have hreverse : (blank before ++ [] :: blank after).reverse =
        blank after.reverse ++ [] :: blank before.reverse := by
      rw [List.reverse_append, List.reverse_cons, reverse_blank, reverse_blank, List.append_assoc]
      rfl
    rw [hpieces]
    unfold expand
    rw [if_pos (by simp), hreverse, front_blank, front_blank, List.length_map, List.length_map,
      List.length_reverse, ← List.map_reverse, List.reverse_reverse]
    have hcount : 8 - before.length - after.length = zeroes.len := by omega
    rw [hcount]
    conv_rhs => rw [hsplit]
    rw [List.map_append, List.map_append, List.map_replicate]
  · rw [if_neg hcompress, pieces_fmt_subslice]
    have hne : segments ≠ [] := List.cons_ne_nil _ _
    unfold blank expand
    rw [if_neg hne, if_neg]
    intro hmem
    obtain ⟨n, -, hn⟩ := List.mem_map.mp hmem
    exact toDigits_ne_nil 16 n hn

theorem Ipv6Addr.notMem_fmt_subslice {c : Char} (hcolon : c ≠ ':')
    (hc : ∀ k : Fin 16, k.val.digitChar ≠ c) (segments : List Nat) :
    c ∉ fmt_subslice segments := by
  intro hmem
  rcases mem_join hmem with hsep | ⟨l, hl, hcl⟩
  · exact hcolon hsep
  · obtain ⟨n, -, rfl⟩ := List.mem_map.mp hl
    exact notMem_toDigits (by decide) (by decide) hc hcl

theorem Ipv6Addr.notMem_fmt {c : Char} (hcolon : c ≠ ':') (hdot : c ≠ '.')
    (hc : ∀ k : Fin 16, k.val.digitChar ≠ c) (hf : c ∉ "::ffff:".toList) (bits : Nat) :
    c ∉ Ipv6Addr.fmt bits := by
  unfold Ipv6Addr.fmt
  split
  · rw [List.mem_append]
    exact not_or.mpr ⟨hf, Ipv4Addr.notMem_fmt hdot hc _⟩
  · simp only
    split
    · simp only [List.mem_append, List.mem_cons, not_or]
      exact ⟨notMem_fmt_subslice hcolon hc _, hcolon, hcolon, notMem_fmt_subslice hcolon hc _⟩
    · exact notMem_fmt_subslice hcolon hc _

theorem Ipv6Addr.dot_mem_fmt (bits : Nat) : '.' ∈ Ipv6Addr.fmt bits ↔ bits / 2 ^ 32 = 65535 := by
  unfold Ipv6Addr.fmt
  by_cases hmapped : bits / 2 ^ 32 = 65535
  · rw [if_pos hmapped, iff_true_right hmapped, List.mem_append]
    right
    unfold Ipv4Addr.fmt Ipv4Addr.octets
    simp [join]
  · rw [if_neg hmapped, iff_false_right hmapped]
    simp only
    split
    · simp only [List.mem_append, List.mem_cons, not_or]
      exact ⟨notMem_fmt_subslice (by decide) (by decide) _, by decide, by decide,
        notMem_fmt_subslice (by decide) (by decide) _⟩
    · exact notMem_fmt_subslice (by decide) (by decide) _

theorem Ipv6Addr.fmt_inj {m n : Nat} (hm : m < 2 ^ 128) (hn : n < 2 ^ 128)
    (h : Ipv6Addr.fmt m = Ipv6Addr.fmt n) : m = n := by
  by_cases hmapped : m / 2 ^ 32 = 65535
  · have hmapped' : n / 2 ^ 32 = 65535 := by
      rw [← dot_mem_fmt, ← h, dot_mem_fmt]
      exact hmapped
    unfold Ipv6Addr.fmt at h
    rw [if_pos hmapped, if_pos hmapped'] at h
    have hlow := Ipv4Addr.fmt_inj (by omega) (by omega) (List.append_cancel_left h)
    omega
  · have hmapped' : n / 2 ^ 32 ≠ 65535 := by
      intro heq
      rw [← dot_mem_fmt, ← h, dot_mem_fmt] at heq
      exact hmapped heq
    have hexpand : expand (pieces ':' (Ipv6Addr.fmt m)) = expand (pieces ':' (Ipv6Addr.fmt n)) := by
      rw [h]
    rw [expand_pieces hmapped, expand_pieces hmapped'] at hexpand
    exact segments_inj hm hn (map_toDigits_inj (by decide) (by decide) hexpand)

theorem Addr.fmt_socket_addr_inj {a b : Addr} (h : a.fmt_socket_addr = b.fmt_socket_addr) :
    a.ip = b.ip ∧ a.port = b.port := by
  have hport : ∀ {p q : UInt16}, Nat.toDigits 10 p.toNat = Nat.toDigits 10 q.toNat → p = q :=
    fun heq => UInt16.toNat_inj.mp (toDigits_inj (by decide) (by decide) heq)
  have hdigit : ∀ (bits : Nat) (l m : List Char), Ipv4Addr.fmt bits ++ l ≠ '[' :: m := by
    intro bits l m heq
    have hnot := Ipv4Addr.notMem_fmt (c := '[') (by decide) (by decide) bits
    cases hfmt : Ipv4Addr.fmt bits with
    | nil =>
        unfold Ipv4Addr.fmt Ipv4Addr.octets at hfmt
        simp [join] at hfmt
    | cons c cs =>
        rw [hfmt, List.cons_append] at heq
        rw [hfmt, (List.cons.inj heq).1] at hnot
        exact hnot (by simp)
  unfold fmt_socket_addr at h
  cases ha : a.ip with
  | V4 x =>
      cases hb : b.ip with
      | V4 y =>
          simp only [ha, hb] at h
          obtain ⟨hip, hp⟩ := append_cons_inj
            (Ipv4Addr.notMem_fmt (by decide) (by decide) _)
            (Ipv4Addr.notMem_fmt (by decide) (by decide) _) h
          rw [BitVec.eq_of_toNat_eq (Ipv4Addr.fmt_inj x.isLt y.isLt hip)]
          exact ⟨rfl, hport hp⟩
      | V6 y =>
          simp only [ha, hb] at h
          exact absurd h (hdigit _ _ _)
  | V6 x =>
      cases hb : b.ip with
      | V4 y =>
          simp only [ha, hb] at h
          exact absurd h.symm (hdigit _ _ _)
      | V6 y =>
          simp only [ha, hb] at h
          obtain ⟨hip, hp⟩ := append_cons_inj
            (Ipv6Addr.notMem_fmt (c := ']') (by decide) (by decide) (by decide) (by decide) _)
            (Ipv6Addr.notMem_fmt (c := ']') (by decide) (by decide) (by decide) (by decide) _)
            (List.cons.inj h).2
          rw [BitVec.eq_of_toNat_eq (Ipv6Addr.fmt_inj x.isLt y.isLt hip)]
          exact ⟨rfl, hport (List.cons.inj hp).2⟩

/-- Addresses with one text are equal. -/
theorem Addr.fmt_inj {a b : Addr} (h : a.fmt = b.fmt) : a = b := by
  unfold Addr.fmt at h
  rw [List.append_assoc, List.append_assoc] at h
  have hno : ∀ p : Protocol, ':' ∉ p.as_str.toList := by
    intro p
    cases p <;> decide
  have hslash : ∀ l : List Char, "://".toList ++ l = ':' :: '/' :: '/' :: l := fun _ => rfl
  rw [hslash, hslash] at h
  obtain ⟨hprotocol, hrest⟩ := append_cons_inj (hno _) (hno _) h
  obtain ⟨hip, hport⟩ := fmt_socket_addr_inj (List.cons.inj (List.cons.inj hrest).2).2
  have hp : a.protocol = b.protocol := by
    revert hprotocol
    cases a.protocol <;> cases b.protocol <;> decide
  obtain ⟨ip, port, protocol⟩ := a
  obtain ⟨ip', port', protocol'⟩ := b
  simp only at hip hport hp
  rw [hip, hport, hp]

end Fex.Mastersrv
