import Fex.Game.SaveTeam.Numbers

/-!
# What `FromString` accepts

The lines of the string are its parts between newlines, each as far as `str_copy` copies it.  The
loader takes a last line that is read again for one of the lines that are missing.
-/

namespace Fex.Game.SaveTeam

open Fex.Lib Fex.Base

/-! ## Complete saves -/

/-- The lines as they are copied. -/
def lines (m_aString : List UInt8) : List (List UInt8) :=
  (pieces 10 m_aString).map str_utf8_fix_truncation

/-- A team line with at least four numbers, and behind it one line for each member and then one for
each switcher. -/
def Complete (readTee : List UInt8 → Int) (m_aString : List UInt8) : Prop :=
  ∃ aTeamStats rest TeamState MembersCount HighestSwitchNumber more,
    lines m_aString = aTeamStats :: rest ∧
    scanInts 5 aTeamStats = TeamState :: MembersCount :: HighestSwitchNumber :: more ∧ more ≠ [] ∧
    1 ≤ MembersCount ∧ MembersCount ≤ 64 ∧ 0 ≤ HighestSwitchNumber ∧
    MembersCount.toNat + HighestSwitchNumber.toNat ≤ rest.length ∧
    (∀ line ∈ rest.take MembersCount.toNat, readTee line = 0) ∧
    ∀ line ∈ (rest.drop MembersCount.toNat).take HighestSwitchNumber.toNat,
      (scanInts 3 line).length = 3

/-- It returns 0. -/
def Loaded.Succeeds : Loaded → Prop
  | .failed code => code = 0
  | .badAlloc => False
  | .team _ => True

/-- No exception, and only a string whose copy in the field is complete is accepted. -/
def OnlyComplete (readTee : List UInt8 → Int) (fresh : Nat → SSimpleSwitchers)
    (pString : List UInt8) : Prop :=
  FromString readTee fresh pString ≠ .badAlloc ∧
    ((FromString readTee fresh pString).Succeeds → Complete readTee (Base.str_copy pString 65536))

/-! ## Lines that are read -/

/-- The line that stands for the line `i`: the last one stands for those that are missing. -/
def lineRead (ls : List (List UInt8)) (i : Nat) : List UInt8 := ls.getD i (ls.getLastD [])

theorem lineRead_zero (l : List UInt8) (ls : List (List UInt8)) : lineRead (l :: ls) 0 = l := rfl

theorem lineRead_following (l : List UInt8) (ls : List (List UInt8)) (i : Nat) :
    lineRead (following l ls) i = lineRead (l :: ls) (i + 1) := by
  unfold following lineRead
  cases ls with
  | nil => cases i <;> rfl
  | cons l' ls => rfl

theorem following_ne_nil (l : List UInt8) (ls : List (List UInt8)) : following l ls ≠ [] := by
  unfold following
  split
  · exact List.cons_ne_nil _ _
  next h => exact h

theorem mem_following {l k : List UInt8} {ls : List (List UInt8)} (h : k ∈ following l ls) :
    k ∈ l :: ls := by
  unfold following at h
  split at h
  · rw [List.mem_singleton.mp h]
    exact List.mem_cons_self
  · exact List.mem_cons_of_mem _ h

/-- A line that the loop over the tees takes. -/
def TeeLine (readTee : List UInt8 → Int) (line : List UInt8) : Prop :=
  line.length ≤ 1022 ∧ readTee (str_utf8_fix_truncation line) = 0

/-- The cursor is in the line `n` of the lines `ls`. -/
structure Behind (s : List UInt8) (c : Cursor) (ls : List (List UInt8)) (n : Nat) : Prop where
  at_lines : ∃ ls', ls' ≠ [] ∧ At s c ls' ∧ (∀ l ∈ ls', 10 ∉ l) ∧
    ∀ i, lineRead ls' i = lineRead ls (n + i)

theorem Behind.next {s : List UInt8} {c : Cursor} {ls : List (List UInt8)} {n : Nat}
    (h : Behind s c ls n) :
    ∃ rest c', nextLine s c =
        ({ pCopyPos := lineRead ls n ++ rest, StrSize := (lineRead ls n).length + 1 }, c') ∧
      Behind s c' ls (n + 1) := by
  obtain ⟨ls', hne, hat, hls', hline⟩ := h.at_lines
  obtain ⟨l, ls', rfl⟩ := List.exists_cons_of_ne_nil hne
  obtain ⟨c', hnext, hat'⟩ := nextLine_spec hat (hls' l List.mem_cons_self)
  have hl : lineRead ls n = l := (hline 0).symm
  refine ⟨behind 10 ls', c', by rw [hl]; exact hnext, ⟨following l ls', following_ne_nil l ls', hat',
    fun k hk => hls' k (mem_following hk), fun i => ?_⟩⟩
  rw [lineRead_following, hline]
  congr 1
  omega

/-- The loop over the tees, `n` lines behind the first. -/
theorem readTees_lines (readTee : List UInt8 → Int) {s : List UInt8} {ls : List (List UInt8)}
    (count : Nat) {n : Nat} {c : Cursor} (h : Behind s c ls n) :
    (readTees readTee s count c = .error 1 ∧ ∃ i < count, ¬TeeLine readTee (lineRead ls (n + i))) ∨
    ∃ tees c', readTees readTee s count c = .ok (tees, c') ∧ Behind s c' ls (n + count) ∧
      ∀ i < count, TeeLine readTee (lineRead ls (n + i)) := by
  induction count generalizing n c with
  | zero => exact .inr ⟨[], c, rfl, h, fun i hi => absurd hi (Nat.not_lt_zero i)⟩
  | succ count ih =>
      obtain ⟨rest, c₁, hnext, h₁⟩ := h.next
      have hcopy := str_copy_line (lineRead ls n) rest
      have hrun : readTees readTee s (count + 1) c =
          if (lineRead ls n).length + 1 < 1024 then
            if readTee (str_utf8_fix_truncation (lineRead ls n)) ≠ 0 then .error 1
            else (readTees readTee s count c₁).bind fun v =>
              .ok (str_utf8_fix_truncation (lineRead ls n) :: v.1, v.2)
          else .error 1 := by
        rw [readTees, hnext]
        simp only [hcopy]
        rfl
      rw [hrun]
      by_cases hline : TeeLine readTee (lineRead ls n)
      · obtain ⟨hlength, haccept⟩ := hline
        rw [if_pos (by omega), if_neg (not_not.mpr haccept)]
        rcases ih h₁ with ⟨herror, i, hi, hbad⟩ | ⟨tees, c', hok, h', hall⟩
        · rw [herror]
          refine .inl ⟨rfl, i + 1, Nat.succ_lt_succ hi, ?_⟩
          rwa [show n + (i + 1) = n + 1 + i by omega]
        · rw [hok]
          refine .inr ⟨_, c', rfl, by rwa [show n + (count + 1) = n + 1 + count by omega], ?_⟩
          intro i hi
          cases i with
          | zero => exact ⟨hlength, haccept⟩
          | succ i =>
              rw [show n + (i + 1) = n + 1 + i by omega]
              exact hall i (Nat.lt_of_succ_lt_succ hi)
      · refine .inl ⟨?_, 0, Nat.succ_pos count, hline⟩
        by_cases hlength : (lineRead ls n).length + 1 < 1024
        · rw [if_pos hlength, if_pos]
          exact fun haccept => hline ⟨by omega, haccept⟩
        · rw [if_neg hlength]

/-- The loop over the switchers looks at the lengths of the lines only. -/
theorem readSwitchers_lines (fresh : Nat → SSimpleSwitchers) {s : List UInt8}
    {ls : List (List UInt8)} (count : Nat) {n i : Nat} {c : Cursor} (h : Behind s c ls n) :
    (readSwitchers fresh s count i c = .error 1 ∧ ∃ j < count, 62 < (lineRead ls (n + j)).length) ∨
    ∃ switchers, readSwitchers fresh s count i c = .ok switchers ∧
      ∀ j < count, (lineRead ls (n + j)).length ≤ 62 := by
  induction count generalizing n i c with
  | zero => exact .inr ⟨[], rfl, fun j hj => absurd hj (Nat.not_lt_zero j)⟩
  | succ count ih =>
      obtain ⟨rest, c₁, hnext, h₁⟩ := h.next
      have hrun : ∃ x, readSwitchers fresh s (count + 1) i c =
          if (lineRead ls n).length + 1 < 64 then
            (readSwitchers fresh s count (i + 1) c₁).bind fun v => .ok (x :: v)
          else .error 1 := by
        rw [readSwitchers, hnext]
        exact ⟨_, rfl⟩
      obtain ⟨x, hrun⟩ := hrun
      rw [hrun]
      by_cases hlength : (lineRead ls n).length + 1 < 64
      · rw [if_pos hlength]
        rcases @ih (n + 1) (i + 1) c₁ h₁ with ⟨herror, j, hj, hbad⟩ | ⟨switchers, hok, hall⟩
        · rw [herror]
          refine .inl ⟨rfl, j + 1, Nat.succ_lt_succ hj, ?_⟩
          rwa [show n + (j + 1) = n + 1 + j by omega]
        · rw [hok]
          refine .inr ⟨_, rfl, fun j hj => ?_⟩
          cases j with
          | zero => exact Nat.le_of_lt_succ (Nat.lt_of_succ_lt_succ hlength)
          | succ j =>
              rw [show n + (j + 1) = n + 1 + j by omega]
              exact hall j (Nat.lt_of_succ_lt_succ hj)
      · rw [if_neg hlength]
        exact .inl ⟨rfl, 0, Nat.succ_pos count, by rw [Nat.add_zero]; omega⟩

/-! ## Counts -/

/-- The counts of a string whose first line has the members and the switchers can be relied on: if
the lines that stand for the tees are accepted and those that stand for the switchers fit, all of
them are there. -/
def CountsHold (readTee : List UInt8 → Int) (l : List UInt8) (ls : List (List UInt8))
    (MembersCount HighestSwitchNumber : Int) : Prop :=
  0 ≤ MembersCount ∧
  ((∀ i < MembersCount.toNat, TeeLine readTee (lineRead (l :: ls) (1 + i))) →
    0 ≤ wrap32 (HighestSwitchNumber + 1) ∧
    ((∀ j < HighestSwitchNumber.toNat,
        (lineRead (l :: ls) (1 + MembersCount.toNat + j)).length ≤ 62) →
      1 ≤ MembersCount ∧ 0 ≤ HighestSwitchNumber ∧
      MembersCount.toNat + HighestSwitchNumber.toNat ≤ ls.length ∧
      ∀ j < HighestSwitchNumber.toNat, (scanInts 3 (str_utf8_fix_truncation
        (lineRead (l :: ls) (1 + MembersCount.toNat + j)))).length = 3))

/-- The team line is not blank, and its counts can be relied on. -/
def Accountable (readTee : List UInt8 → Int) (m_aString : List UInt8) : Prop :=
  ∀ l ls, pieces 10 m_aString = l :: ls → l.length ≤ 126 →
    (str_utf8_fix_truncation l).dropWhile isspace ≠ [] ∧
    ∀ TeamState MembersCount HighestSwitchNumber more,
      scanInts 5 (str_utf8_fix_truncation l) =
        TeamState :: MembersCount :: HighestSwitchNumber :: more → more ≠ [] →
      MembersCount ≤ 64 → CountsHold readTee l ls MembersCount HighestSwitchNumber

theorem lineRead_behind {l : List UInt8} {ls : List (List UInt8)} {i : Nat} (hi : i < ls.length) :
    lineRead (l :: ls) (1 + i) = ls[i] := by
  unfold lineRead
  rw [Nat.add_comm 1 i, List.getD_cons_succ, List.getD_eq_getElem _ _ hi]

section Counts

variable {readTee : List UInt8 → Int} {s l : List UInt8} {ls : List (List UInt8)}
  {TeamState MembersCount HighestSwitchNumber : Int} {more : List Int}

/-- A string is complete, if the lines of its tees are accepted. -/
theorem complete_iff (hlines : pieces 10 s = l :: ls)
    (hscan : scanInts 5 (str_utf8_fix_truncation l) =
      TeamState :: MembersCount :: HighestSwitchNumber :: more) (hmore : more ≠ [])
    (hmax : MembersCount ≤ 64)
    (htees : ∀ i < MembersCount.toNat, TeeLine readTee (lineRead (l :: ls) (1 + i))) :
    Complete readTee s ↔ 1 ≤ MembersCount ∧ 0 ≤ HighestSwitchNumber ∧
      MembersCount.toNat + HighestSwitchNumber.toNat ≤ ls.length ∧
      ∀ j < HighestSwitchNumber.toNat, (scanInts 3 (str_utf8_fix_truncation
        (lineRead (l :: ls) (1 + MembersCount.toNat + j)))).length = 3 := by
  have hcopied : lines s = str_utf8_fix_truncation l :: ls.map str_utf8_fix_truncation := by
    rw [lines, hlines, List.map_cons]
  constructor
  · rintro ⟨aTeamStats, rest, T, M, H, more', hsplit, hscan', -, hpos, -, hnonneg, henough, -, hthree⟩
    rw [hcopied] at hsplit
    obtain ⟨rfl, rfl⟩ := List.cons.inj hsplit
    rw [hscan] at hscan'
    simp only [List.cons.injEq] at hscan'
    obtain ⟨rfl, rfl, rfl, rfl⟩ := hscan'
    rw [List.length_map] at henough
    refine ⟨hpos, hnonneg, henough, fun j hj => ?_⟩
    have hlt : MembersCount.toNat + j < ls.length := by omega
    rw [Nat.add_assoc, lineRead_behind hlt]
    apply hthree
    rw [List.mem_take_iff_getElem]
    refine ⟨j, by rw [List.length_drop, List.length_map]; omega, ?_⟩
    rw [List.getElem_drop, List.getElem_map]
  · rintro ⟨hpos, hnonneg, henough, hthree⟩
    refine ⟨_, _, TeamState, MembersCount, HighestSwitchNumber, more, hcopied, hscan, hmore, hpos,
      hmax, hnonneg, by rwa [List.length_map], ?_, ?_⟩
    · intro line hmem
      obtain ⟨i, hi, rfl⟩ := List.mem_take_iff_getElem.mp hmem
      rw [List.length_map] at hi
      have hread := (htees i (by omega)).2
      rw [lineRead_behind (by omega)] at hread
      rwa [List.getElem_map]
    · intro line hmem
      obtain ⟨j, hj, rfl⟩ := List.mem_take_iff_getElem.mp hmem
      rw [List.length_drop, List.length_map] at hj
      have hread := hthree j (by omega)
      rw [Nat.add_assoc, lineRead_behind (by omega)] at hread
      rwa [List.getElem_drop, List.getElem_map]

theorem readTeam_iff (hlines : pieces 10 s = l :: ls) {c : Cursor} (hc : Behind s c (l :: ls) 1)
    (hscan : scanInts 5 (str_utf8_fix_truncation l) =
      TeamState :: MembersCount :: HighestSwitchNumber :: more) (hmore : more ≠ [])
    (hmax : MembersCount ≤ 64) (fresh : Nat → SSimpleSwitchers) (TeamLocked Practice : Int) :
    (readTeam readTee fresh s c TeamState MembersCount HighestSwitchNumber TeamLocked Practice ≠
        .badAlloc ∧
      ((readTeam readTee fresh s c TeamState MembersCount HighestSwitchNumber TeamLocked
        Practice).Succeeds → Complete readTee s)) ↔
    CountsHold readTee l ls MembersCount HighestSwitchNumber := by
  unfold readTeam CountsHold
  rw [if_neg (by omega)]
  by_cases hneg : MembersCount < 0
  · rw [if_pos hneg]
    exact ⟨fun h => absurd rfl h.1, fun h => absurd h.1 (by omega)⟩
  rw [if_neg hneg]
  rcases readTees_lines readTee MembersCount.toNat hc with
    ⟨herror, i, hi, hbad⟩ | ⟨tees, c', hok, hc', htees⟩
  · rw [herror]
    exact ⟨fun _ => ⟨by omega, fun hall => absurd (hall i hi) hbad⟩,
      fun _ => ⟨nofun, fun h => absurd h (show (1 : Int) ≠ 0 by decide)⟩⟩
  rw [hok]
  simp only
  by_cases halloc : wrap32 (HighestSwitchNumber + 1) < 0
  · rw [if_pos halloc]
    exact ⟨fun h => absurd rfl h.1, fun h => absurd (h.2 htees).1 (by omega)⟩
  rw [if_neg halloc]
  rcases @readSwitchers_lines fresh s (l :: ls) HighestSwitchNumber.toNat _ 1 c' hc' with
    ⟨herror, j, hj, hlong⟩ | ⟨switchers, hok', hshort⟩
  · rw [herror]
    exact ⟨fun _ => ⟨by omega, fun _ => ⟨by omega, fun hall => absurd (hall j hj) (by omega)⟩⟩,
      fun _ => ⟨nofun, fun h => absurd h (show (1 : Int) ≠ 0 by decide)⟩⟩
  · rw [hok']
    have hcomplete := complete_iff hlines hscan hmore hmax htees
    constructor
    · rintro ⟨-, hmeets⟩
      exact ⟨by omega, fun _ => ⟨by omega, fun _ => hcomplete.mp (hmeets trivial)⟩⟩
    · intro hcounts
      exact ⟨nofun, fun _ => hcomplete.mpr ((hcounts.2 htees).2 hshort)⟩

end Counts

/-! ## Strings -/

theorem scanInts_blank {n : Nat} {s : List UInt8} (h : s.dropWhile isspace = []) :
    scanInts n s = [] := by
  cases n with
  | zero => rfl
  | succ n =>
      rw [scanInts, h]
      rfl

/-- What `FromString` does with the first line. -/
theorem FromString_eq (readTee : List UInt8 → Int) (fresh : Nat → SSimpleSwitchers)
    {pString l : List UInt8} {ls : List (List UInt8)}
    (hlines : pieces 10 (Base.str_copy pString 65536) = l :: ls) :
    ∃ c, Behind (Base.str_copy pString 65536) c (l :: ls) 1 ∧
      FromString readTee fresh pString =
        if l.length + 1 < 128 then
          match scanInts 5 (str_utf8_fix_truncation l) with
          | [TeamState, MembersCount, HighestSwitchNumber, TeamLocked] =>
              readTeam readTee fresh (Base.str_copy pString 65536) c TeamState MembersCount
                HighestSwitchNumber TeamLocked 0
          | [TeamState, MembersCount, HighestSwitchNumber, TeamLocked, Practice] =>
              readTeam readTee fresh (Base.str_copy pString 65536) c TeamState MembersCount
                HighestSwitchNumber TeamLocked Practice
          | ints => .failed (scanResult (str_utf8_fix_truncation l) ints + 1)
        else .failed 1 := by
  obtain ⟨hstring, hnot⟩ := pieces_spec hlines
  have hstart : Behind (Base.str_copy pString 65536) { LastPos := 0, Pos := 0 } (l :: ls) 0 :=
    ⟨l :: ls, List.cons_ne_nil _ _, ⟨hstring, Nat.le_refl _, Nat.zero_le _⟩, hnot,
      fun i => by rw [Nat.zero_add]⟩
  obtain ⟨rest, c, hnext, hc⟩ := hstart.next
  rw [lineRead_zero] at hnext
  refine ⟨c, hc, ?_⟩
  unfold FromString
  simp only [hnext, str_copy_line] <;> rfl

theorem not_complete {readTee : List UInt8 → Int} {s l : List UInt8} {ls : List (List UInt8)}
    (hlines : pieces 10 s = l :: ls)
    (hfew : (scanInts 5 (str_utf8_fix_truncation l)).length ≤ 3) : ¬Complete readTee s := by
  rintro ⟨aTeamStats, rest, T, M, H, more, hsplit, hscan, hmore, -⟩
  rw [lines, hlines, List.map_cons] at hsplit
  obtain ⟨rfl, -⟩ := List.cons.inj hsplit
  rw [hscan] at hfew
  have hpos := List.length_pos_iff.mpr hmore
  simp only [List.length_cons] at hfew
  omega

/-- With less than four numbers the result is 0 on a blank line only. -/
theorem few_iff {readTee : List UInt8 → Int} {s l : List UInt8} {ls : List (List UInt8)}
    (hlines : pieces 10 s = l :: ls)
    (hfew : (scanInts 5 (str_utf8_fix_truncation l)).length ≤ 3) :
    (Loaded.failed (scanResult (str_utf8_fix_truncation l)
        (scanInts 5 (str_utf8_fix_truncation l)) + 1) ≠ .badAlloc ∧
      ((Loaded.failed (scanResult (str_utf8_fix_truncation l)
        (scanInts 5 (str_utf8_fix_truncation l)) + 1)).Succeeds → Complete readTee s)) ↔
    ((str_utf8_fix_truncation l).dropWhile isspace ≠ [] ∧
      ∀ T M H more, scanInts 5 (str_utf8_fix_truncation l) = T :: M :: H :: more → more ≠ [] →
        M ≤ 64 → CountsHold readTee l ls M H) := by
  unfold scanResult
  constructor
  · rintro ⟨-, hmeets⟩
    refine ⟨fun hblank => not_complete hlines hfew (hmeets ?_), ?_⟩
    · rw [if_pos hblank]
      exact Int.neg_add_cancel_left 1 0
    · intro T M H more hscan hmore
      have hpos := List.length_pos_iff.mpr hmore
      rw [hscan] at hfew
      simp only [List.length_cons] at hfew
      omega
  · rintro ⟨hblank, -⟩
    rw [if_neg hblank]
    refine ⟨nofun, fun hzero => ?_⟩
    have hzero : ((scanInts 5 (str_utf8_fix_truncation l)).length : Int) + 1 = 0 := hzero
    omega

/-- Only complete saves are accepted, exactly if the string is accountable. -/
theorem onlyComplete_iff (readTee : List UInt8 → Int) (fresh : Nat → SSimpleSwitchers)
    (pString : List UInt8) :
    OnlyComplete readTee fresh pString ↔ Accountable readTee (Base.str_copy pString 65536) := by
  obtain ⟨l, ls, hlines⟩ := List.exists_cons_of_ne_nil
    (@pieces_ne_nil _ 10 _ (Base.str_copy pString 65536))
  obtain ⟨c, hc, hrun⟩ := FromString_eq readTee fresh hlines
  have haccount : Accountable readTee (Base.str_copy pString 65536) ↔ (l.length ≤ 126 →
      (str_utf8_fix_truncation l).dropWhile isspace ≠ [] ∧
      ∀ T M H more, scanInts 5 (str_utf8_fix_truncation l) = T :: M :: H :: more → more ≠ [] →
        M ≤ 64 → CountsHold readTee l ls M H) := by
    constructor
    · exact fun h => h l ls hlines
    · intro h l' ls' hlines'
      rw [hlines] at hlines'
      obtain ⟨rfl, rfl⟩ := List.cons.inj hlines'
      exact h
  rw [haccount]
  unfold OnlyComplete
  rw [hrun]
  by_cases hlength : l.length + 1 < 128
  swap
  · rw [if_neg hlength]
    exact ⟨fun _ h => absurd h (by omega),
      fun _ => ⟨nofun, fun h => absurd h (show (1 : Int) ≠ 0 by decide)⟩⟩
  rw [if_pos hlength]
  have hshort : l.length ≤ 126 := by omega
  have hmost := length_scanInts 5 (str_utf8_fix_truncation l)
  have hfew := @few_iff readTee _ l ls hlines
  have hnonblank : (scanInts 5 (str_utf8_fix_truncation l)) ≠ [] →
      (str_utf8_fix_truncation l).dropWhile isspace ≠ [] := fun h hblank => h (scanInts_blank hblank)
  have hteam := @readTeam_iff readTee (Base.str_copy pString 65536) l ls
  generalize scanInts 5 (str_utf8_fix_truncation l) = ints at hmost hfew hnonblank hteam ⊢
  have hcounts : ∀ T M H more, ints = T :: M :: H :: more → more ≠ [] → ∀ TeamLocked Practice : Int,
      ((readTeam readTee fresh (Base.str_copy pString 65536) c T M H TeamLocked Practice ≠ .badAlloc ∧
        ((readTeam readTee fresh (Base.str_copy pString 65536) c T M H TeamLocked Practice).Succeeds →
          Complete readTee (Base.str_copy pString 65536))) ↔
      (l.length ≤ 126 → (str_utf8_fix_truncation l).dropWhile isspace ≠ [] ∧
        ∀ T M H more, ints = T :: M :: H :: more → more ≠ [] → M ≤ 64 →
          CountsHold readTee l ls M H)) := by
    intro T M H more hints hmore TeamLocked Practice
    by_cases hmax : M ≤ 64
    · rw [hteam hlines hc hints hmore hmax fresh TeamLocked Practice]
      constructor
      · intro h _
        refine ⟨hnonblank (hints ▸ List.cons_ne_nil _ _), fun T' M' H' more' hints' _ _ => ?_⟩
        rw [hints] at hints'
        simp only [List.cons.injEq] at hints'
        obtain ⟨-, rfl, rfl, -⟩ := hints'
        exact h
      · exact fun h => (h hshort).2 T M H more hints hmore hmax
    · have hfailed : readTeam readTee fresh (Base.str_copy pString 65536) c T M H TeamLocked
          Practice = .failed 1 := if_pos (by omega)
      rw [hfailed]
      constructor
      · intro _ _
        refine ⟨hnonblank (hints ▸ List.cons_ne_nil _ _), fun T' M' H' more' hints' _ hmax' => ?_⟩
        rw [hints] at hints'
        simp only [List.cons.injEq] at hints'
        omega
      · exact fun _ => ⟨nofun, fun h => absurd h (show (1 : Int) ≠ 0 by decide)⟩
  rcases ints with _ | ⟨T, _ | ⟨M, _ | ⟨H, _ | ⟨a, _ | ⟨b, _ | ⟨x, xs⟩⟩⟩⟩⟩⟩
  · exact (hfew (by decide)).trans ⟨fun h _ => h, fun h => h hshort⟩
  · exact (hfew (by simp)).trans ⟨fun h _ => h, fun h => h hshort⟩
  · exact (hfew (by simp)).trans ⟨fun h _ => h, fun h => h hshort⟩
  · exact (hfew (by simp)).trans ⟨fun h _ => h, fun h => h hshort⟩
  · exact hcounts T M H [a] rfl (List.cons_ne_nil _ _) a 0
  · exact hcounts T M H [a, b] rfl (List.cons_ne_nil _ _) a b
  · simp only [List.length_cons] at hmost
    omega

/-- The empty string is loaded, and a negative count ends in an exception. -/
theorem not_onlyComplete :
    ¬OnlyComplete (fun _ => 0) (fun _ => ⟨0, 0, 0⟩) [] ∧
      ¬OnlyComplete (fun _ => 0) (fun _ => ⟨0, 0, 0⟩) (formatInts [0, -1, 0, 0]) := by
  constructor
  · rintro ⟨-, hmeets⟩
    exact @not_complete _ [] [] [] rfl (Nat.zero_le 3) (hmeets (show (0 : Int) = 0 from rfl))
  · rintro ⟨hthrows, -⟩
    exact hthrows rfl

end Fex.Game.SaveTeam
