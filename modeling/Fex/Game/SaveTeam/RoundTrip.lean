import Fex.Game.SaveTeam.Numbers

/-!
# Saved teams are read back

`FromString` reads what `GetString` wrote exactly if no line of a tee is cut, and the switchers that
do not fit into the string are equal to the last one that does.
-/

namespace Fex.Game.SaveTeam

open Fex.Lib Fex.Base

/-! ## Switchers that are read -/

theorem store_line {s : SSimpleSwitchers} (h : s.Typed) (fresh : SSimpleSwitchers) :
    fresh.store (scanInts 3 s.line) = s := by
  obtain ⟨hstatus, hend, htype⟩ := h
  have hscan := @scanInts_formatInts [s.m_Status, s.m_EndTime, s.m_Type] (by
    intro x hx
    simp only [List.mem_cons, List.not_mem_nil, or_false] at hx
    rcases hx with rfl | rfl | rfl
    · exact hstatus
    · exact hend
    · exact htype)
  rw [show scanInts 3 s.line = _ from hscan]
  rfl

/-- A part of a line gives the switcher for every memory only if it is the line. -/
theorem line_of_store {s : SSimpleSwitchers} (h : s.Typed) {p : List UInt8} (hp : p <+: s.line)
    (hstore : ∀ fresh : SSimpleSwitchers, fresh.store (scanInts 3 p) = s) : p = s.line := by
  have hlength := length_scanInts 3 p
  have hother := hstore { s with m_Type := s.m_Type + 1 }
  have hne : s.m_Type + 1 ≠ s.m_Type := by omega
  obtain ⟨hstatus, hend, htype⟩ := h
  have hscan : scanInts 3 p = [s.m_Status, s.m_EndTime, s.m_Type] := by
    match hints : scanInts 3 p with
    | [] =>
        rw [hints] at hother
        exact absurd (congrArg SSimpleSwitchers.m_Type hother) hne
    | [a] =>
        rw [hints] at hother
        exact absurd (congrArg SSimpleSwitchers.m_Type hother) hne
    | [a, b] =>
        rw [hints] at hother
        exact absurd (congrArg SSimpleSwitchers.m_Type hother) hne
    | [a, b, d] =>
        rw [hints] at hother
        rw [← hother]
        rfl
    | a :: b :: d :: e :: ints =>
        rw [hints] at hlength
        simp only [List.length_cons] at hlength
        omega
  refine formatInts_of_part (List.cons_ne_nil _ _) (fun x hx => ?_) hp hscan
  simp only [List.mem_cons, List.not_mem_nil, or_false] at hx
  rcases hx with rfl | rfl | rfl
  · exact hstatus
  · exact hend
  · exact htype

variable {fresh : Nat → SSimpleSwitchers}

theorem storeLines_append (i : Nat) (ks ls : List (List UInt8)) :
    storeLines fresh i (ks ++ ls) = storeLines fresh i ks ++ storeLines fresh (i + ks.length) ls := by
  induction ks generalizing i with
  | nil => rfl
  | cons k ks ih =>
      rw [List.cons_append, storeLines, ih, List.length_cons, Nat.add_assoc, Nat.add_comm 1]
      rfl

theorem storeLines_map {switchers : List SSimpleSwitchers} (h : ∀ s ∈ switchers, s.Typed) (i : Nat) :
    storeLines fresh i (switchers.map SSimpleSwitchers.line) = switchers := by
  induction switchers generalizing i with
  | nil => rfl
  | cons s switchers ih =>
      rw [List.map_cons, storeLines, store_line (h s List.mem_cons_self),
        ih fun r hr => h r (List.mem_cons_of_mem _ hr)]

/-- The last line is read again for the switchers without one. -/
theorem readLines_eq (m : Nat) {ks : List (List UInt8)} {l p : List UInt8} {ls : List (List UInt8)}
    (h : l :: ls = ks ++ [p]) : readLines (ks.length + m) l ls = ks ++ List.replicate m p := by
  induction ks generalizing l ls with
  | nil =>
      obtain ⟨rfl, rfl⟩ := List.cons.inj h
      show readLines (0 + m) l [] = List.replicate m l
      rw [Nat.zero_add]
      induction m with
      | zero => rfl
      | succ m ih => exact congrArg (List.cons l) ih
  | cons k ks ih =>
      obtain ⟨rfl, hls⟩ := List.cons.inj h
      have hlength : (l :: ks).length + m = ks.length + m + 1 := by
        rw [List.length_cons]
        omega
      cases ls with
      | nil => exact absurd hls.symm (List.append_ne_nil_of_right_ne_nil _ (List.cons_ne_nil _ _))
      | cons l' ls =>
          rw [hlength, readLines, ih hls]
          rfl

/-! ## Teams -/

/-- A line that `CSaveTee::GetString` can return and that its parser accepts. -/
structure Opaque (readTee : List UInt8 → Int) (line : List UInt8) : Prop where
  newline : 10 ∉ line
  terminator : 0 ∉ line
  length : line.length < 2048
  whole : str_utf8_fix_truncation line = line
  accepted : readTee line = 0

structure Savable (readTee : List UInt8 → Int) (t : CSaveTeam) : Prop where
  members : 1 ≤ t.m_pSavedTees.length ∧ t.m_pSavedTees.length ≤ 64
  switchers : t.m_pSwitchers.length ≤ 255
  state : IsInt32 t.m_TeamState
  locked : IsInt32 t.m_TeamLocked
  practice : IsInt32 t.m_Practice
  tees : ∀ line ∈ t.m_pSavedTees, Opaque readTee line
  typed : ∀ s ∈ t.m_pSwitchers, s.Typed

/-- The string is read as the team, whatever the memory of the new switchers has. -/
def Restores (readTee : List UInt8 → Int) (t : CSaveTeam) : Prop :=
  ∀ fresh, FromString readTee fresh t.GetString = .team t

/-- The text of a team with some of the switchers. -/
def CSaveTeam.text (t : CSaveTeam) (switchers : List SSimpleSwitchers) : List UInt8 :=
  t.stats ++ behind 10 (t.m_pSavedTees ++ switchers.map SSimpleSwitchers.line)

/-- No line of a tee is cut, and the text fits into the string or is cut behind a switcher that
those behind it are equal to. -/
def CSaveTeam.Fits (t : CSaveTeam) : Prop :=
  (∀ line ∈ t.m_pSavedTees, line.length ≤ 1022) ∧
    ((t.text t.m_pSwitchers).length ≤ 65535 ∨
      ∃ ks s ms, t.m_pSwitchers = ks ++ s :: ms ∧ (t.text (ks ++ [s])).length = 65535 ∧
        ∀ r ∈ ms, r = s)

variable {readTee : List UInt8 → Int} {t : CSaveTeam}

theorem Savable.ints (h : Savable readTee t) : ∀ x ∈ [t.m_TeamState, t.m_MembersCount,
    t.m_HighestSwitchNumber, t.m_TeamLocked, t.m_Practice], IsInt32 x := by
  have hmembers := h.members
  have hswitchers := h.switchers
  intro x hx
  simp only [List.mem_cons, List.not_mem_nil, or_false] at hx
  rcases hx with rfl | rfl | rfl | rfl | rfl
  · exact h.state
  · unfold IsInt32 CSaveTeam.m_MembersCount
    omega
  · unfold IsInt32 CSaveTeam.m_HighestSwitchNumber
    omega
  · exact h.locked
  · exact h.practice

theorem Savable.length_stats (h : Savable readTee t) : t.stats.length ≤ 60 := length_formatInts h.ints

theorem plain_stats (t : CSaveTeam) : Plain t.stats := plain_formatInts _

/-- The last line can be cut when the string is copied. -/
theorem fix_written {tees ws : List (List UInt8)} (h : List.Forall₂ Written tees ws) (hne : ws ≠ [])
    (p : List UInt8) :
    ∃ ws', str_utf8_fix_truncation (p ++ behind 10 ws) = p ++ behind 10 ws' ∧
      List.Forall₂ Written tees ws' := by
  induction h generalizing p with
  | nil => exact absurd rfl hne
  | @cons tee w tees ws hw hws ih =>
      by_cases hnil : ws = []
      · rw [hnil] at hws ⊢
        obtain ⟨w', hfix⟩ := fix_truncation_keeps p (b := 10) (by decide) w
        have hprefix := prefix_fix_truncation (p ++ 10 :: w)
        rw [hfix, List.prefix_append_right_inj] at hprefix
        have hw' : Written tee w' := by
          refine ⟨(List.cons_prefix_cons.mp hprefix).2.trans hw.1, fun hlength hwhole => ?_⟩
          have heq := hw.2 hlength hwhole
          rw [heq, fix_newline hwhole] at hfix
          exact (List.cons.inj (List.append_cancel_left hfix)).2.symm
        refine ⟨[w'], ?_, .cons hw' hws⟩
        show str_utf8_fix_truncation (p ++ (10 :: w ++ [])) = p ++ (10 :: w' ++ [])
        rw [List.append_nil, List.append_nil]
        exact hfix
      · obtain ⟨ws', hfix, hall⟩ := ih hnil (p ++ 10 :: w)
        refine ⟨w :: ws', ?_, .cons hw hall⟩
        rw [behind_cons, behind_cons, ← List.append_assoc, ← List.append_assoc]
        exact hfix

theorem length_written {tees ws : List (List UInt8)} (h : List.Forall₂ Written tees ws) :
    (behind 10 ws).length ≤ 1023 * tees.length := by
  induction h with
  | nil => exact Nat.le_refl 0
  | @cons tee w tees ws hw hws ih =>
      have hle := Nat.le_trans hw.1.length_le (List.length_take_le _ _)
      rw [behind_cons, List.length_append, List.length_cons, List.length_cons]
      omega

/-- The string that is read. -/
theorem str_copy_GetString (h : Savable readTee t) :
    ∃ ws, List.Forall₂ Written t.m_pSavedTees ws ∧ (t.stats ++ behind 10 ws).length < 65535 ∧
      Base.str_copy t.GetString 65536 = (t.stats ++ behind 10 ws ++
        behind 10 (t.m_pSwitchers.map SSimpleSwitchers.line)).take 65535 := by
  have hstats := h.length_stats
  have hmembers := h.members
  have hformat : str_format t.stats 65536 = t.stats := by
    unfold str_format Base.str_copy
    rw [List.take_of_length_le (by omega)]
    exact (plain_stats t).fix
  obtain ⟨ws, hws, hall⟩ := @foldl_tees t.m_pSavedTees t.stats (by omega)
  have hshort : ∀ {vs}, List.Forall₂ Written t.m_pSavedTees vs →
      (t.stats ++ behind 10 vs).length < 65535 := by
    intro vs hvs
    have hle := length_written hvs
    rw [List.length_append]
    omega
  have hbase := hshort hall
  have hrun : t.GetString = (t.stats ++ behind 10 ws ++
      behind 10 (t.m_pSwitchers.map SSimpleSwitchers.line)).take 65535 := by
    have hfold := foldl_switchers hbase h.typed [] fun b hb => absurd hb List.not_mem_nil
    rw [List.append_nil, List.take_of_length_le (Nat.le_of_lt hbase), List.nil_append] at hfold
    unfold CSaveTeam.GetString
    simp only
    rw [hformat, hws]
    exact hfold
  have hcopy : Base.str_copy t.GetString 65536 = str_utf8_fix_truncation t.GetString := by
    unfold Base.str_copy
    rw [hrun, List.take_take]
    rfl
  by_cases hnil : t.m_pSwitchers = []
  · have hne : ws ≠ [] := by
      intro hws'
      have hlength := hall.length_eq
      rw [hws', List.length_nil] at hlength
      omega
    obtain ⟨ws', hfix, hall'⟩ := fix_written hall hne t.stats
    refine ⟨ws', hall', hshort hall', ?_⟩
    have hempty : ∀ vs, (t.stats ++ behind 10 vs ++
        behind 10 (t.m_pSwitchers.map SSimpleSwitchers.line)) = t.stats ++ behind 10 vs := by
      intro vs
      rw [hnil]
      exact List.append_nil _
    rw [hcopy, hrun, hempty, hempty, List.take_of_length_le (Nat.le_of_lt hbase),
      List.take_of_length_le (Nat.le_of_lt (hshort hall')), hfix]
  · refine ⟨ws, hall, hbase, ?_⟩
    rw [hcopy, hrun]
    apply fix_take _ _ hbase
    · intro b hb
      obtain ⟨l, hl, hb⟩ := List.mem_flatMap.mp hb
      obtain ⟨s, -, rfl⟩ := List.mem_map.mp hl
      rcases List.mem_cons.mp hb with rfl | hb
      · decide
      · exact (plain_line s b hb).2.2
    · obtain ⟨s, switchers, hcons⟩ := List.exists_cons_of_ne_nil hnil
      rw [hcons, List.map_cons, behind_cons]
      exact List.cons_ne_nil _ _

/-! ## The whole string -/

/-- The string has all lines of the tees, and those of the switchers up to a cut. -/
theorem cut_switchers {base : List UInt8} (hbase : base.length < 65535)
    (switchers : List SSimpleSwitchers) :
    (base ++ behind 10 (switchers.map SSimpleSwitchers.line)).length ≤ 65535 ∧
        (base ++ behind 10 (switchers.map SSimpleSwitchers.line)).take 65535 =
          base ++ behind 10 (switchers.map SSimpleSwitchers.line) ∨
      ∃ ks s ms p, switchers = ks ++ s :: ms ∧ p <+: s.line ∧
        (base ++ behind 10 (ks.map SSimpleSwitchers.line ++ [p])).length = 65535 ∧
        (base ++ behind 10 (switchers.map SSimpleSwitchers.line)).take 65535 =
          base ++ behind 10 (ks.map SSimpleSwitchers.line ++ [p]) := by
  by_cases hle : (base ++ behind 10 (switchers.map SSimpleSwitchers.line)).length ≤ 65535
  · exact .inl ⟨hle, List.take_of_length_le hle⟩
  · right
    have hlength := Nat.lt_of_not_le hle
    rw [List.length_append] at hlength
    obtain ⟨ks', l, ms', p, hlines, hp, htake⟩ := @take_behind _ 10
      (switchers.map SSimpleSwitchers.line) (65535 - base.length) (by omega) (by omega)
    obtain ⟨ks, rest, hswitchers, hks, hrest⟩ := List.map_eq_append_iff.mp hlines
    obtain ⟨s, ms, hrest', hs, -⟩ := List.map_eq_cons_iff.mp hrest
    have hcut : (base ++ behind 10 (switchers.map SSimpleSwitchers.line)).take 65535 =
        base ++ behind 10 (ks.map SSimpleSwitchers.line ++ [p]) := by
      rw [List.take_append, List.take_of_length_le (Nat.le_of_lt hbase), htake, hks]
    refine ⟨ks, s, ms, p, by rw [hswitchers, hrest'], hs ▸ hp, ?_, hcut⟩
    rw [← hcut, List.length_take, List.length_append]
    omega

theorem Written.notMem {line w : List UInt8} (h : Written line w) (hline : 10 ∉ line) : 10 ∉ w :=
  fun hmem => hline (List.mem_of_mem_take (h.1.subset hmem))

/-- The lines that are read behind the statistics. -/
theorem FromString_lines (h : Savable readTee t) {ws ls : List (List UInt8)}
    (hws : List.Forall₂ Written t.m_pSavedTees ws)
    (hstring : Base.str_copy t.GetString 65536 = t.stats ++ behind 10 (ws ++ ls))
    (hls : ∀ l ∈ ls, Plain l ∧ l.length ≤ 36) (hnil : ls = [] → t.m_pSwitchers = [])
    (fresh : Nat → SSimpleSwitchers) :
    (∃ code, FromString readTee fresh t.GetString = .failed code ∧
      ∃ w ∈ ws, 1022 < w.length ∨ readTee (str_utf8_fix_truncation w) ≠ 0) ∨
    ∃ switchers, FromString readTee fresh t.GetString =
        .team { t with
          m_pSavedTees := ws.map str_utf8_fix_truncation, m_pSwitchers := switchers } ∧
      (ls = [] → switchers = []) ∧
      ∀ l ms, ls = l :: ms → switchers = storeLines fresh 1 (readLines t.m_pSwitchers.length l ms) := by
  have hmembers := h.members
  have hlength := hws.length_eq
  have hstart : At (t.stats ++ behind 10 (ws ++ ls)) { LastPos := 0, Pos := 0 }
      (t.stats :: (ws ++ ls)) := ⟨rfl, Nat.le_refl _, Nat.zero_le _⟩
  obtain ⟨c, hline, hnext⟩ := nextLine_spec hstart fun hmem => (plain_stats t 10 hmem).2.1 rfl
  have hat := hnext.following
  have hcopy := str_copy_line t.stats (behind 10 (ws ++ ls))
  rw [(plain_stats t).fix] at hcopy
  have hscan : scanInts 5 t.stats = _ := scanInts_formatInts h.ints
  have hstats := h.length_stats
  have hnotMem : ∀ w ∈ ws, 10 ∉ w := by
    intro w hw
    obtain ⟨i, hi, rfl⟩ := List.getElem_of_mem hw
    have hwritten := hws.get (hlength ▸ hi) hi
    exact Written.notMem hwritten (h.tees _ (List.getElem_mem _)).newline
  have hrun : FromString readTee fresh t.GetString =
      readTeam readTee fresh (t.stats ++ behind 10 (ws ++ ls)) c t.m_TeamState t.m_MembersCount
        t.m_HighestSwitchNumber t.m_TeamLocked t.m_Practice := by
    unfold FromString
    simp only [hstring, hline]
    rw [if_pos (by omega), hcopy, hscan]
  have hcount : t.m_MembersCount.toNat = ws.length := by
    unfold CSaveTeam.m_MembersCount
    rw [Int.toNat_natCast, hlength]
  have hswitchers : t.m_HighestSwitchNumber.toNat = t.m_pSwitchers.length := Int.toNat_natCast _
  have hfew : ¬wrap32 (t.m_HighestSwitchNumber + 1) < 0 := by
    have hcount := h.switchers
    unfold CSaveTeam.m_HighestSwitchNumber wrap32
    omega
  rw [hrun, readTeam, if_neg (by unfold CSaveTeam.m_MembersCount; omega),
    if_neg (by unfold CSaveTeam.m_MembersCount; omega), hcount, hswitchers]
  rcases readTees_spec readTee hat hnotMem with ⟨code, herror, hbad⟩ | ⟨c', hok, hat'⟩
  · rw [herror]
    exact .inl ⟨code, rfl, hbad⟩
  · rw [hok]
    simp only
    rw [if_neg hfew]
    right
    cases ls with
    | nil =>
        rw [hnil rfl]
        exact ⟨[], rfl, fun _ => rfl, fun l ms hc => by cases hc⟩
    | cons l ms =>
        have hswitch := readSwitchers_spec fresh t.m_pSwitchers.length 1 hat' hls
        simp only [hswitch]
        refine ⟨_, rfl, fun hc => absurd hc (List.cons_ne_nil _ _), fun l' ms' hc => ?_⟩
        cases hc
        rfl


/-! ## The round trip -/

theorem store_typed {ks : List SSimpleSwitchers} (h : ∀ s ∈ ks, s.Typed) {s : SSimpleSwitchers}
    (hs : s.Typed) (m : Nat) {l : List UInt8} {ls : List (List UInt8)}
    (hls : l :: ls = ks.map SSimpleSwitchers.line ++ [s.line]) (i : Nat) :
    storeLines fresh i (readLines (ks.length + m) l ls) = ks ++ List.replicate m s := by
  have hread := readLines_eq m hls
  rw [List.length_map] at hread
  have hmap : List.replicate m s.line = (List.replicate m s).map SSimpleSwitchers.line :=
    List.map_replicate.symm
  rw [hread, hmap, ← List.map_append]
  apply storeLines_map
  intro r hr
  rcases List.mem_append.mp hr with hr | hr
  · exact h r hr
  · rw [List.eq_of_mem_replicate hr]
    exact hs

/-- A last line that is read for every memory is whole, and the switchers behind it are equal. -/
theorem store_cut {ks ms : List SSimpleSwitchers} (h : ∀ s ∈ ks, s.Typed) {s : SSimpleSwitchers}
    (hs : s.Typed) {p : List UInt8} (hp : p <+: s.line) {l : List UInt8} {ls : List (List UInt8)}
    (hls : l :: ls = ks.map SSimpleSwitchers.line ++ [p])
    (hstore : ∀ fresh, storeLines fresh 1 (readLines (ks ++ s :: ms).length l ls) = ks ++ s :: ms) :
    p = s.line ∧ ∀ r ∈ ms, r = s := by
  have hlength : (ks ++ s :: ms).length = (ks.map SSimpleSwitchers.line).length + (ms.length + 1) := by
    rw [List.length_append, List.length_map, List.length_cons]
  have hread := readLines_eq (ms.length + 1) hls
  rw [← hlength] at hread
  have hrest : ∀ fresh, storeLines fresh (1 + ks.length) (List.replicate (ms.length + 1) p) =
      s :: ms := by
    intro fresh
    have hfresh := hstore fresh
    rw [hread, storeLines_append, storeLines_map h, List.length_map] at hfresh
    exact List.append_cancel_left hfresh
  have hline : p = s.line := by
    apply line_of_store hs hp
    intro x
    have hx := hrest fun _ => x
    rw [List.replicate_succ, storeLines] at hx
    exact (List.cons.inj hx).1
  refine ⟨hline, ?_⟩
  have hsame := hrest fun _ => s
  have hmap : List.replicate (ms.length + 1) s.line =
      (List.replicate (ms.length + 1) s).map SSimpleSwitchers.line := List.map_replicate.symm
  rw [hline, hmap, storeLines_map fun r hr => by rw [List.eq_of_mem_replicate hr]; exact hs,
    List.replicate_succ] at hsame
  intro r hr
  rw [← (List.cons.inj hsame).2] at hr
  exact List.eq_of_mem_replicate hr

theorem written_self {tees ws : List (List UInt8)} (h : List.Forall₂ Written tees ws)
    (hshort : ∀ line ∈ tees, line.length ≤ 1022)
    (hwhole : ∀ line ∈ tees, str_utf8_fix_truncation line = line) : ws = tees := by
  induction h with
  | nil => rfl
  | @cons tee w tees ws hw hws ih =>
      rw [hw.2 (hshort tee List.mem_cons_self) (hwhole tee List.mem_cons_self),
        ih (fun l hl => hshort l (List.mem_cons_of_mem _ hl)) fun l hl =>
          hwhole l (List.mem_cons_of_mem _ hl)]

/-- Lines that come back were not cut. -/
theorem written_short {tees ws : List (List UInt8)} (h : List.Forall₂ Written tees ws)
    (hsame : ws.map str_utf8_fix_truncation = tees) : ∀ line ∈ tees, line.length ≤ 1022 := by
  induction h with
  | nil => exact fun line hl => absurd hl List.not_mem_nil
  | @cons tee w tees ws hw hws ih =>
      obtain ⟨htee, htees⟩ := List.cons.inj hsame
      intro line hl
      rcases List.mem_cons.mp hl with rfl | hl
      · have hle := Nat.le_trans (length_fix_truncation w)
          (Nat.le_trans hw.1.length_le (List.length_take_le _ _))
        rw [htee] at hle
        exact hle
      · exact ih htees line hl

theorem Savable.whole (h : Savable readTee t) :
    ∀ line ∈ t.m_pSavedTees, str_utf8_fix_truncation line = line := fun line hl =>
  (h.tees line hl).whole

theorem plain_lines {switchers : List SSimpleSwitchers} (h : ∀ s ∈ switchers, s.Typed) :
    ∀ l ∈ switchers.map SSimpleSwitchers.line, Plain l ∧ l.length ≤ 36 := by
  intro l hl
  obtain ⟨s, hs, rfl⟩ := List.mem_map.mp hl
  exact ⟨plain_line s, length_line (h s hs)⟩

/-- Whole lines of the tees are accepted, and the switchers are what their lines give. -/
theorem loaded_of_lines (h : Savable readTee t) (hshort : ∀ line ∈ t.m_pSavedTees, line.length ≤ 1022)
    {ws ls : List (List UInt8)} (hws : List.Forall₂ Written t.m_pSavedTees ws)
    (hstring : Base.str_copy t.GetString 65536 = t.stats ++ behind 10 (ws ++ ls))
    (hls : ∀ l ∈ ls, Plain l ∧ l.length ≤ 36) (hnil : ls = [] → t.m_pSwitchers = [])
    (fresh : Nat → SSimpleSwitchers) :
    ∃ switchers, FromString readTee fresh t.GetString = .team { t with m_pSwitchers := switchers } ∧
      (ls = [] → switchers = []) ∧
      ∀ l ms, ls = l :: ms → switchers = storeLines fresh 1 (readLines t.m_pSwitchers.length l ms) := by
  have hsame := written_self hws hshort h.whole
  have hmap : ws.map str_utf8_fix_truncation = t.m_pSavedTees := by
    rw [hsame]
    exact (List.map_congr_left h.whole).trans (List.map_id _)
  rcases FromString_lines h hws hstring hls hnil fresh with
    ⟨code, -, w, hw, hbad⟩ | ⟨switchers, hrun, hstore⟩
  · rw [hsame] at hw
    have htee := h.tees w hw
    rcases hbad with hlong | hread
    · have hle := hshort w hw
      omega
    · rw [htee.whole] at hread
      exact absurd htee.accepted hread
  · rw [hmap] at hrun
    exact ⟨switchers, hrun, hstore⟩

/-- A string with the lines of some switchers, the last of which is repeated. -/
theorem restores_repeated (h : Savable readTee t)
    (hshort : ∀ line ∈ t.m_pSavedTees, line.length ≤ 1022) {ks ms : List SSimpleSwitchers}
    {s : SSimpleSwitchers} (hsplit : t.m_pSwitchers = ks ++ s :: ms) (hms : ∀ r ∈ ms, r = s)
    {ws : List (List UInt8)} (hws : List.Forall₂ Written t.m_pSavedTees ws)
    (hstring : Base.str_copy t.GetString 65536 =
      t.stats ++ behind 10 (ws ++ (ks ++ [s]).map SSimpleSwitchers.line)) : Restores readTee t := by
  intro fresh
  have htyped := h.typed
  rw [hsplit] at htyped
  have hks : ∀ r ∈ ks, r.Typed := fun r hr => htyped r (List.mem_append_left _ hr)
  have hs : s.Typed := htyped s (List.mem_append_right _ List.mem_cons_self)
  have hkss : ∀ r ∈ ks ++ [s], r.Typed := by
    intro r hr
    rcases List.mem_append.mp hr with hr | hr
    · exact hks r hr
    · rw [List.mem_singleton.mp hr]
      exact hs
  have hmap : (ks ++ [s]).map SSimpleSwitchers.line = ks.map SSimpleSwitchers.line ++ [s.line] :=
    List.map_append
  have hne : (ks ++ [s]).map SSimpleSwitchers.line ≠ [] := by
    rw [hmap]
    exact List.append_ne_nil_of_right_ne_nil _ (List.cons_ne_nil _ _)
  obtain ⟨switchers, hrun, -, hstore⟩ := loaded_of_lines h hshort hws hstring (plain_lines hkss)
    (fun hnil => absurd hnil hne) fresh
  obtain ⟨l, ls, hcons⟩ := List.exists_cons_of_ne_nil hne
  have hlength : t.m_pSwitchers.length = ks.length + (ms.length + 1) := by
    rw [hsplit, List.length_append, List.length_cons]
  have hread := hstore l ls hcons
  rw [hmap] at hcons
  rw [hlength, store_typed hks hs (ms.length + 1) hcons.symm] at hread
  have hrepeat : List.replicate (ms.length + 1) s = s :: ms := by
    rw [List.replicate_succ]
    exact congrArg (List.cons s) (List.eq_replicate_of_mem hms).symm
  rw [hrun, hread, hrepeat, ← hsplit]

theorem fits_of_restores (h : Savable readTee t) (hrestores : Restores readTee t) : t.Fits := by
  obtain ⟨ws, hws, hbase, hstring⟩ := str_copy_GetString h
  rcases cut_switchers hbase t.m_pSwitchers with
    ⟨hle, htake⟩ | ⟨ks, s, ms, p, hsplit, hp, hlength, htake⟩
  · rw [htake, List.append_assoc, ← behind_append] at hstring
    rcases FromString_lines h hws hstring (plain_lines h.typed) List.map_eq_nil_iff.mp
        (fun _ => { m_Status := 0, m_EndTime := 0, m_Type := 0 }) with
      ⟨code, hrun, -⟩ | ⟨switchers, hrun, -⟩
    · rw [hrestores] at hrun
      cases hrun
    · rw [hrestores] at hrun
      have htees := congrArg CSaveTeam.m_pSavedTees (Loaded.team.inj hrun)
      have hshort := written_short hws htees.symm
      rw [written_self hws hshort h.whole, List.append_assoc, ← behind_append] at hle
      exact ⟨hshort, .inl hle⟩
  · have htyped := h.typed
    rw [hsplit] at htyped
    have hks : ∀ r ∈ ks, r.Typed := fun r hr => htyped r (List.mem_append_left _ hr)
    have hs : s.Typed := htyped s (List.mem_append_right _ List.mem_cons_self)
    have hplain : ∀ l ∈ ks.map SSimpleSwitchers.line ++ [p], Plain l ∧ l.length ≤ 36 := by
      intro l hl
      rcases List.mem_append.mp hl with hl | hl
      · exact plain_lines hks l hl
      · rw [List.mem_singleton.mp hl]
        exact ⟨(plain_line s).of_part hp, Nat.le_trans hp.length_le (length_line hs)⟩
    have hne : ks.map SSimpleSwitchers.line ++ [p] ≠ [] :=
      List.append_ne_nil_of_right_ne_nil _ (List.cons_ne_nil _ _)
    obtain ⟨l, ls, hcons⟩ := List.exists_cons_of_ne_nil hne
    rw [htake, List.append_assoc, ← behind_append] at hstring
    have hteam : ∀ fresh, ws.map str_utf8_fix_truncation = t.m_pSavedTees ∧
        storeLines fresh 1 (readLines t.m_pSwitchers.length l ls) = t.m_pSwitchers := by
      intro fresh
      rcases FromString_lines h hws hstring hplain (fun hnil => absurd hnil hne) fresh with
        ⟨code, hrun, -⟩ | ⟨switchers, hrun, -, hstore⟩
      · rw [hrestores] at hrun
        cases hrun
      · rw [hrestores] at hrun
        have hloaded := Loaded.team.inj hrun
        rw [← hstore l ls hcons]
        exact ⟨(congrArg CSaveTeam.m_pSavedTees hloaded).symm,
          (congrArg CSaveTeam.m_pSwitchers hloaded).symm⟩
    have hshort := written_short hws
      (hteam fun _ => { m_Status := 0, m_EndTime := 0, m_Type := 0 }).1
    have hcut := @store_cut ks ms hks s hs p hp l ls hcons.symm fun fresh => by
      rw [← hsplit]
      exact (hteam fresh).2
    rw [hcut.1, written_self hws hshort h.whole, List.append_assoc, ← behind_append] at hlength
    have hmap : (ks ++ [s]).map SSimpleSwitchers.line = ks.map SSimpleSwitchers.line ++ [s.line] :=
      List.map_append
    refine ⟨hshort, .inr ⟨ks, s, ms, hsplit, ?_, hcut.2⟩⟩
    unfold CSaveTeam.text
    rw [hmap]
    exact hlength

theorem restores_of_fits (h : Savable readTee t) (hfits : t.Fits) : Restores readTee t := by
  obtain ⟨ws, hws, hbase, hstring⟩ := str_copy_GetString h
  obtain ⟨hshort, hfit⟩ := hfits
  have hsame := written_self hws hshort h.whole
  rcases hfit with hle | ⟨ks, s, ms, hsplit, hlength, hms⟩
  · have htext : (t.stats ++ behind 10 ws ++
        behind 10 (t.m_pSwitchers.map SSimpleSwitchers.line)).take 65535 =
        t.stats ++ behind 10 (ws ++ t.m_pSwitchers.map SSimpleSwitchers.line) := by
      unfold CSaveTeam.text at hle
      rw [List.append_assoc, ← behind_append, hsame, List.take_of_length_le hle]
    rw [htext] at hstring
    rcases List.eq_nil_or_concat t.m_pSwitchers with hnil | ⟨ks, s, hsplit⟩
    · intro fresh
      obtain ⟨switchers, hrun, hstore, -⟩ := loaded_of_lines h hshort hws hstring
        (plain_lines h.typed) List.map_eq_nil_iff.mp fresh
      rw [hrun, hstore (by rw [hnil]; rfl), ← hnil]
    · rw [List.concat_eq_append] at hsplit
      rw [hsplit] at hstring
      exact restores_repeated h hshort hsplit (fun r hr => absurd hr List.not_mem_nil) hws hstring
  · have htext : (t.stats ++ behind 10 ws ++
        behind 10 (t.m_pSwitchers.map SSimpleSwitchers.line)).take 65535 =
        t.stats ++ behind 10 (ws ++ (ks ++ [s]).map SSimpleSwitchers.line) := by
      unfold CSaveTeam.text at hlength
      have hmap : t.m_pSwitchers.map SSimpleSwitchers.line =
          (ks ++ [s]).map SSimpleSwitchers.line ++ ms.map SSimpleSwitchers.line := by
        rw [hsplit, ← List.map_append]
        simp
      rw [← hsame] at hlength
      rw [hmap, List.append_assoc, ← behind_append, ← List.append_assoc, behind_append _ (ms.map _),
        ← List.append_assoc]
      exact List.take_left' hlength
    rw [htext] at hstring
    exact restores_repeated h hshort hsplit hms hws hstring

/-- The team is restored exactly if it fits. -/
theorem restores_iff (h : Savable readTee t) : Restores readTee t ↔ t.Fits :=
  ⟨fits_of_restores h, restores_of_fits h⟩

/-- A team with one tee and one switcher. -/
def single (line : List UInt8) : CSaveTeam :=
  { m_pSavedTees := [line]
    m_pSwitchers := [{ m_Status := 1, m_EndTime := -20, m_Type := 3 }]
    m_TeamState := 2
    m_TeamLocked := 0
    m_Practice := 1 }

theorem savable_single {n : Nat} (hn : n < 2048) :
    Savable (fun _ => 0) (single (List.replicate n 97)) where
  members := ⟨Nat.le_refl 1, show 1 ≤ 64 by decide⟩
  switchers := show 1 ≤ 255 by decide
  state := show IsInt32 2 by decide
  locked := show IsInt32 0 by decide
  practice := show IsInt32 1 by decide
  tees := by
    intro line hl
    rw [List.mem_singleton.mp hl]
    have hplain : Plain (List.replicate n 97) := by
      intro b hb
      rw [List.eq_of_mem_replicate hb]
      decide
    exact ⟨fun hmem => (hplain 10 hmem).2.1 rfl, fun hmem => (hplain 0 hmem).1 rfl,
      by rw [List.length_replicate]; exact hn, hplain.fix, rfl⟩
  typed := by
    intro s hs
    rw [List.mem_singleton.mp hs]
    exact ⟨by decide, by decide, by decide⟩

theorem restores_iff_single : Restores (fun _ => 0) (single (List.replicate 3 97)) :=
  (restores_iff (savable_single (by decide))).mpr ⟨by decide, .inl (by decide)⟩

/-- A line of 1023 characters is cut. -/
theorem not_restores_long : Savable (fun _ => 0) (single (List.replicate 1023 97)) ∧
    ¬ Restores (fun _ => 0) (single (List.replicate 1023 97)) := by
  have hsavable := @savable_single 1023 (by decide)
  refine ⟨hsavable, fun h => ?_⟩
  have hle := (fits_of_restores hsavable h).1 _ List.mem_cons_self
  rw [List.length_replicate] at hle
  exact absurd hle (by decide)

end Fex.Game.SaveTeam
