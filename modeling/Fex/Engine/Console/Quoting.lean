import Fex.Engine.Console.Scanning

/-!
# Quoted arguments in a line

A line of parts `cmd "s"`, with `s` escaped, calls `cmd` once for every part,
unless an argument before the last one ends with a backslash.  Then the scanner
for the parts misses the closing quote, runs into the next argument, and leaves
a line that does not make the calls that are still due.
-/

namespace Fex.Engine.Console

open Fex.Lib Fex.Base Server

/-! ## The line -/

/-- What a command name is made of. -/
structure IsName (nm : CString) : Prop where
  nonempty : nm ≠ []
  plain : ∀ c ∈ nm, str_isspace c = false ∧ c ≠ 34 ∧ c ≠ 35 ∧ c ≠ 59 ∧ c ≠ 92

/-- `cmd "esc(s)"` -/
def quoted (nm s : CString) : CString := nm ++ [32, 34] ++ escape s ++ [34]

/-- The parts joined by `;`. -/
def quotedLine (nm : CString) (ss : List CString) : CString :=
  [59].intercalate (ss.map (quoted nm))

/-- What follows the closing quote of a part. -/
def behind (nm : CString) : List CString → CString
  | [] => []
  | s :: ss => 59 :: (nm ++ 32 :: 34 :: (escape s ++ 34 :: behind nm ss))

/-- What follows the opening quote of a part. -/
def opened (nm s : CString) (ss : List CString) : CString := escape s ++ 34 :: behind nm ss

theorem quotedLine_cons (nm s : CString) (ss : List CString) :
    quotedLine nm (s :: ss) = nm ++ 32 :: 34 :: opened nm s ss := by
  unfold quotedLine opened
  induction ss generalizing s with
  | nil => simp [quoted, behind]
  | cons s' ss ih =>
      rw [List.map_cons, List.map_cons, List.intercalate_cons_cons, ← List.map_cons, ih]
      simp [quoted, behind]

theorem behind_cons (nm s : CString) (ss : List CString) :
    behind nm (s :: ss) = 59 :: quotedLine nm (s :: ss) := by
  rw [quotedLine_cons]
  rfl

/-! ## Parts -/

theorem prefix_partEnd (InString : Bool) (l : CString) : (partEnd InString l).1 <+: l := by
  induction InString, l using partEnd.induct with
  | case1 => exact List.nil_prefix
  | case2 InString l ih => exact (List.prefix_cons_inj 34).mpr ih
  | case3 InString l ih =>
      have hrun := partEnd_escaped InString l
      rw [hrun]
      exact (List.prefix_append_right_inj [92, 34]).mpr ih
  | case4 InString c l h₁ h₂ hsep =>
      rw [partEnd, if_pos hsep]
      · exact List.nil_prefix
      · exact h₁
      · exact h₂
  | case5 InString c l h₁ h₂ hsep hcomment =>
      rw [partEnd, if_neg hsep, if_pos hcomment]
      · exact List.nil_prefix
      · exact h₁
      · exact h₂
  | case6 InString c l h₁ h₂ hsep hcomment ih =>
      rw [partEnd, if_neg hsep, if_neg hcomment]
      · exact (List.prefix_cons_inj c).mpr ih
      · exact h₁
      · exact h₂

/-- The command of a part and what follows the white space behind it. -/
def splitCommand (g : CString) : CString × CString :=
  ((str_skip_to_whitespace (str_skip_whitespaces g)).1,
    (str_skip_to_whitespace (str_skip_whitespaces g)).2.drop 1)

/-- `ParseStart` as it is called for the first part of a line. -/
def firstPart (l : CString) : CString × CString := ParseStart l ((partEnd false l).1.length + 1)

theorem prefix_firstPart (l : CString) :
    ∃ g, g <+: (partEnd false l).1 ∧ firstPart l = splitCommand g := by
  refine ⟨str_copy l (min (CONSOLE_MAX_STR_LENGTH + 1) ((partEnd false l).1.length + 1)), ?_, rfl⟩
  refine (prefix_fix_truncation _).trans ?_
  apply List.prefix_of_prefix_length_le (List.take_prefix _ l) (prefix_partEnd false l)
  rw [List.length_take]
  omega

/-- A part that is not too long is copied whole, up to a last character that was cut. -/
theorem firstPart_eq {l : CString} (hlen : l.length ≤ CONSOLE_MAX_STR_LENGTH) :
    firstPart l = splitCommand (str_utf8_fix_truncation (partEnd false l).1) := by
  have hprefix := prefix_partEnd false l
  have hle := hprefix.length_le
  have hmin : min (CONSOLE_MAX_STR_LENGTH + 1) ((partEnd false l).1.length + 1) =
      (partEnd false l).1.length + 1 := Nat.min_eq_right (by omega)
  unfold firstPart ParseStart str_copy
  rw [hmin, Nat.add_sub_cancel, ← List.prefix_iff_eq_take.mp hprefix]
  rfl

theorem splitCommand_name {nm : CString} (hnm : IsName nm) (r : CString) :
    splitCommand (nm ++ 32 :: r) = (nm, r) := by
  obtain ⟨c, nm', rfl⟩ := List.exists_cons_of_ne_nil hnm.nonempty
  have hskip : str_skip_whitespaces (c :: nm' ++ 32 :: r) = c :: nm' ++ 32 :: r := by
    unfold str_skip_whitespaces
    rw [List.cons_append, List.dropWhile_cons_of_neg]
    rw [(hnm.plain c List.mem_cons_self).1]
    exact Bool.false_ne_true
  have hall : ∀ x ∈ c :: nm', decide (¬ str_isspace x = true) = true := by
    intro x hx
    rw [(hnm.plain x hx).1]
    rfl
  unfold splitCommand
  rw [hskip]
  unfold str_skip_to_whitespace
  rw [List.takeWhile_append_of_pos hall, List.dropWhile_append_of_pos hall,
    List.takeWhile_cons_of_neg (by decide), List.dropWhile_cons_of_neg (by decide),
    List.append_nil]
  rfl

theorem partEnd_name {nm : CString} (hnm : ∀ c ∈ nm, c ≠ 34 ∧ c ≠ 35 ∧ c ≠ 59 ∧ c ≠ 92)
    (InString : Bool) (l : CString) :
    partEnd InString (nm ++ l) = prepend nm (partEnd InString l) := by
  induction nm with
  | nil => rfl
  | cons c nm ih =>
      obtain ⟨hq, hcomment, hsep, hb⟩ := hnm c List.mem_cons_self
      rw [List.cons_append, partEnd_other InString hq (fun h => absurd h hb),
        if_neg (fun h => hsep h.2), if_neg (fun h => hcomment h.2),
        ih fun x hx => hnm x (List.mem_cons_of_mem c hx), prepend_prepend]
      rfl

/-- The name and the opening quote. -/
theorem IsName.scan {nm : CString} (hnm : IsName nm) (InString : Bool) (l : CString) :
    partEnd InString (nm ++ 32 :: 34 :: l) = prepend (nm ++ [32, 34]) (partEnd (!InString) l) := by
  have hspace : partEnd InString (32 :: 34 :: l) = prepend [32] (partEnd InString (34 :: l)) := by
    rw [partEnd_other InString (by decide) (fun h => absurd h (by decide)),
      if_neg (fun h => absurd h.2 (by decide)), if_neg (fun h => absurd h.2 (by decide))]
  rw [partEnd_name (fun c hc => (hnm.plain c hc).2), hspace, partEnd_quote, prepend_prepend,
    prepend_prepend, List.append_assoc]
  rfl

/-- The first part of a line with a quoted argument. -/
theorem IsName.partEnd_opened {nm : CString} (hnm : IsName nm) (s l : CString) :
    partEnd false (nm ++ 32 :: 34 :: (escape s ++ 34 :: l)) =
      prepend (nm ++ 32 :: 34 :: (escape s ++ [34])) (partEnd (decide (EndsBackslash s)) l) := by
  rw [hnm.scan, Bool.not_false, partEnd_escape, prepend_prepend]
  simp

theorem IsName.firstPart_opened {nm : CString} (hnm : IsName nm) {s l : CString}
    (hlen : (nm ++ 32 :: 34 :: (escape s ++ 34 :: l)).length ≤ CONSOLE_MAX_STR_LENGTH) :
    ∃ w, firstPart (nm ++ 32 :: 34 :: (escape s ++ 34 :: l)) =
      (nm, 34 :: (escape s ++ 34 :: w)) := by
  rw [firstPart_eq hlen, hnm.partEnd_opened]
  obtain ⟨w, hw⟩ := fix_truncation_keeps (nm ++ 32 :: 34 :: escape s) (b := 34) (by decide)
    (partEnd (decide (EndsBackslash s)) l).1
  refine ⟨w, ?_⟩
  have hsplit : (prepend (nm ++ 32 :: 34 :: (escape s ++ [34]))
      (partEnd (decide (EndsBackslash s)) l)).1 =
        (nm ++ 32 :: 34 :: escape s) ++ 34 :: (partEnd (decide (EndsBackslash s)) l).1 := by
    simp [prepend]
  rw [hsplit, hw]
  have hname := splitCommand_name hnm (34 :: (escape s ++ 34 :: w))
  simpa using hname

/-! ## Arguments -/

/-- Formats with one string, which may be optional or take the rest of the line. -/
def OneString (pParams : CString) : Prop :=
  formatParams .parameter pParams ∈ ([[115], [114], [63, 115], [63, 114]] : List CString)

instance (pParams : CString) : Decidable (OneString pParams) :=
  inferInstanceAs (Decidable (_ ∈ _))

section Arguments

variable {validFloat : CString → Bool} {IsColor Optional : Bool} {Command : UInt8}
  {params args : CString}

theorem parseArgs_last (hc : Command = 115 ∨ Command = 114) {as : List CString}
    (hrun : ParseArgs validFloat IsColor [Command] Optional args = .ok as) :
    as = [] ∨
      (∃ l a r, str_skip_whitespaces args = 34 :: l ∧ unquote l = some (a, r) ∧ as = [a]) ∨
      ∃ c l a, str_skip_whitespaces args = c :: l ∧ c ≠ 34 ∧ as = [a] ∧ a <+: c :: l := by
  have hne : Command ≠ 63 := by rcases hc with rfl | rfl <;> decide
  have hnumber : Command ≠ 105 ∧ Command ≠ 102 := by rcases hc with rfl | rfl <;> decide
  rw [ParseArgs, if_neg hne] at hrun
  split at hrun
  next => split at hrun <;> cases hrun; exact .inl rfl
  next l hskip =>
    cases hunquote : unquote l with
    | none =>
        rw [hunquote] at hrun
        cases hrun
    | some r =>
        rw [hunquote] at hrun
        cases hrun
        exact .inr (.inl ⟨l, r.1, r.2, hskip, hunquote, rfl⟩)
  next hne hquote =>
    obtain ⟨c, l, hskip⟩ := List.exists_cons_of_ne_nil hne
    have hc' : c ≠ 34 := by
      rintro rfl
      exact hquote l hskip
    rw [hskip] at hrun
    split at hrun
    next =>
      cases hrun
      exact .inr (.inr ⟨c, l, _, hskip, hc', rfl, List.prefix_rfl⟩)
    next hrest =>
      rw [if_pos (by simp [hc.resolve_right hrest])] at hrun
      simp only [hnumber.1, hnumber.2, false_and, if_false] at hrun
      cases hrun
      exact .inr (.inr ⟨c, l, _, hskip, hc', rfl, List.takeWhile_prefix _⟩)

/-- The argument is a quoted one, or a part of the text that does not start with a quote. -/
theorem parseArgs_one (hparams : params ∈ ([[115], [114], [63, 115], [63, 114]] : List CString))
    {as : List CString} (hrun : ParseArgs validFloat IsColor params Optional args = .ok as) :
    as = [] ∨
      (∃ l a r, str_skip_whitespaces args = 34 :: l ∧ unquote l = some (a, r) ∧ as = [a]) ∨
      ∃ c l a, str_skip_whitespaces args = c :: l ∧ c ≠ 34 ∧ as = [a] ∧ a <+: c :: l := by
  simp only [List.mem_cons, List.not_mem_nil, or_false] at hparams
  rcases hparams with rfl | rfl | rfl | rfl
  · exact parseArgs_last (.inl rfl) hrun
  · exact parseArgs_last (.inr rfl) hrun
  · exact parseArgs_last (.inl rfl) hrun
  · exact parseArgs_last (.inr rfl) hrun

theorem parseArgs_quoted (hparams : params ∈ ([[115], [114], [63, 115], [63, 114]] : List CString))
    {l a r : CString} (h : unquote l = some (a, r)) :
    ParseArgs validFloat IsColor params Optional (34 :: l) = .ok [a] := by
  have hlast : ∀ {Command Optional}, Command ≠ 63 →
      ParseArgs validFloat IsColor [Command] Optional (34 :: l) = .ok [a] := by
    intro Command Optional hne
    have hskip : str_skip_whitespaces (34 :: l) = 34 :: l := rfl
    rw [ParseArgs, if_neg hne, hskip]
    simp only [h]
    rfl
  simp only [List.mem_cons, List.not_mem_nil, or_false] at hparams
  rcases hparams with rfl | rfl | rfl | rfl
  · exact @hlast 115 _ (by decide)
  · exact @hlast 114 _ (by decide)
  · exact @hlast 115 _ (by decide)
  · exact @hlast 114 _ (by decide)

end Arguments

/-! ## White space -/

/-- Number of bytes that separate arguments. -/
def spaces (s : CString) : Nat := s.countP str_isspace

theorem spaces_escape (s : CString) : spaces (escape s) = spaces s := by
  induction s with
  | nil => rfl
  | cons c s ih =>
      unfold spaces at ih ⊢
      by_cases hspecial : c = 34 ∨ c = 92
      · have hc : ¬ str_isspace c = true := by rcases hspecial with rfl | rfl <;> decide
        rw [escape_cons, if_pos hspecial, List.cons_append, List.cons_append, List.nil_append,
          List.countP_cons_of_neg (by decide), List.countP_cons_of_neg hc,
          List.countP_cons_of_neg hc, ih]
      · rw [escape_cons, if_neg hspecial, List.cons_append, List.nil_append, List.countP_cons,
          List.countP_cons, ih]

/-- What precedes the arguments ends with white space. -/
theorem splitCommand_split (g : CString) : (splitCommand g).2 = [] ∨
    ∃ p w, str_isspace w = true ∧ g = p ++ w :: (splitCommand g).2 := by
  cases hrest : (str_skip_to_whitespace (str_skip_whitespaces g)).2 with
  | nil =>
      left
      rw [splitCommand, hrest]
      rfl
  | cons w args =>
      right
      have hw : str_isspace w = true := by
        have hhead := List.head?_dropWhile_not (fun c => decide ¬str_isspace c = true)
          (str_skip_whitespaces g)
        have hdrop : (str_skip_whitespaces g).dropWhile (fun c => decide ¬str_isspace c = true) =
            w :: args := hrest
        rw [hdrop] at hhead
        simpa using hhead
      refine ⟨g.takeWhile str_isspace ++
        (str_skip_to_whitespace (str_skip_whitespaces g)).1, w, hw, ?_⟩
      have hg : g = g.takeWhile str_isspace ++ str_skip_whitespaces g :=
        List.takeWhile_append_dropWhile.symm
      have hrun : str_skip_whitespaces g = (str_skip_to_whitespace (str_skip_whitespaces g)).1 ++
          (str_skip_to_whitespace (str_skip_whitespaces g)).2 :=
        List.takeWhile_append_dropWhile.symm
      rw [splitCommand, hrest, List.drop_one, List.tail_cons, List.append_assoc, ← hrest, ← hrun,
        ← hg]

/-- A call from a part that ends before the closing quote does not have the argument that was
escaped there. -/
theorem parseArgs_bare {validFloat : CString → Bool} {IsColor Optional : Bool}
    {params s t g : CString} (hparams : params ∈ ([[115], [114], [63, 115], [63, 114]] : List CString))
    (ht : QuotesEscaped t) (hspaces : spaces t ≤ spaces s) (hg : g <+: t ++ [34]) :
    ParseArgs validFloat IsColor params Optional (splitCommand g).2 ≠ .ok [s] := by
  intro hrun
  obtain ⟨z, hz⟩ := hg
  have hskip : ∀ l : CString, l = l.takeWhile str_isspace ++ str_skip_whitespaces l :=
    fun l => List.takeWhile_append_dropWhile.symm
  rcases splitCommand_split g with hnil | ⟨p, w, hw, hsplit⟩
  · rcases parseArgs_one hparams hrun with has | ⟨l, a, r, hl, -, -⟩ | ⟨c, l, a, hl, -, -, -⟩
    · cases has
    · rw [hnil] at hl
      cases hl
    · rw [hnil] at hl
      cases hl
  · rcases parseArgs_one hparams hrun with has | ⟨l, a, r, hl, hunquote, -⟩ | ⟨c, l, a, hl, -, has, ha⟩
    · cases has
    · -- white space comes before the quote, so it is the closing one and nothing is behind it
      have hargs := hskip (splitCommand g).2
      rw [hl] at hargs
      rw [hargs] at hsplit
      have hbefore : t ++ [34] =
          (p ++ w :: (splitCommand g).2.takeWhile str_isspace) ++ 34 :: (l ++ z) := by
        rw [← hz]
        nth_rewrite 1 [hsplit]
        simp
      have hlast : ∀ x, (p ++ w :: (splitCommand g).2.takeWhile str_isspace).getLast? = some x →
          str_isspace x = true := by
        intro x hx
        rw [List.getLast?_append_cons] at hx
        rcases List.mem_cons.mp (List.mem_of_getLast? hx) with rfl | hmem
        · exact hw
        · exact List.mem_takeWhile_imp hmem
      have hend : l ++ z ≠ [] := by
        intro hnil
        rw [(List.append_eq_nil_iff.mp hnil).1] at hunquote
        cases hunquote
      rcases List.append_eq_append_iff.mp hbefore with ⟨q, -, hq⟩ | ⟨q, hq, hq'⟩
      · cases q with
        | nil => exact hend (List.cons.inj hq).2.symm
        | cons x q =>
            have hlen := congrArg List.length hq
            simp at hlen
      · cases q with
        | nil => exact hend (List.cons.inj hq').2
        | cons x q =>
            obtain ⟨hx, -⟩ := List.cons.inj hq'
            rw [← hx] at hq
            exact absurd (hlast 92 (ht _ q hq)) (by decide)
    · -- the argument has less white space than the text
      obtain rfl : s = a := by simpa using has
      have hle : spaces s ≤ spaces (splitCommand g).2 := by
        have h₁ := ha.sublist.countP_le (p := str_isspace)
        have h₂ := congrArg (List.countP str_isspace) (hskip (splitCommand g).2)
        rw [List.countP_append, hl] at h₂
        unfold spaces
        omega
      have hmore : spaces (splitCommand g).2 + 1 ≤ spaces t := by
        have h₁ := congrArg (List.countP str_isspace) hsplit
        have h₂ := congrArg (List.countP str_isspace) hz
        rw [List.countP_append, List.countP_cons_of_pos hw] at h₁
        rw [List.countP_append, List.countP_append, List.countP_singleton, if_neg (by decide)] at h₂
        unfold spaces
        omega
      omega

/-! ## Calls -/

/-- The command is registered with one string and may be called right away. -/
structure Callable (c : CConsole) (ClientId : Int) (i : Nat) (pCommand : CCommand) : Prop where
  name : IsName pCommand.m_pName
  params : OneString pCommand.m_pParams
  found : c.FindCommand pCommand.m_pName (c.flagMask ClientId) = some i
  command : c.commands[i]? = some pCommand
  allowed : c.Allows ClientId pCommand
  now : ¬ (c.m_StoreCommands = true ∧ pCommand.m_Flags &&& CFGFLAG_STORE ≠ 0)
  test : ¬ (pCommand.m_Flags &&& CMDFLAG_TEST ≠ 0 ∧ c.m_SvTestingCommands = false)

/-- The arguments of the calls of one command. -/
def callsOf (i : Nat) (calls : List Call) : List (List CString) :=
  (calls.filter fun call => call.1 = i).map Prod.snd

theorem callsOf_append (i : Nat) (xs ys : List Call) :
    callsOf i (xs ++ ys) = callsOf i xs ++ callsOf i ys := by
  simp [callsOf]

theorem parts_eq (l : CString) : parts l =
    if l = [] ∨ (firstPart l).1 = [] then [] else
      firstPart l :: match (partEnd false l).2 with
        | none => []
        | some next => parts next := by
  rw [parts]
  by_cases hl : l = []
  · rw [if_pos hl, if_pos (.inl hl)]
  · rw [if_neg hl]
    show (if (firstPart l).1 = [] then [] else _) = _
    by_cases hcommand : (firstPart l).1 = []
    · rw [if_pos hcommand, if_pos (.inr hcommand)]
    · rw [if_neg hcommand, if_neg (not_or.mpr ⟨hl, hcommand⟩)]
      split
      next h => rw [h]; rfl
      next next h => rw [h]; rfl

section Calls

variable {c : CConsole} {ClientId : Int} {i : Nat} {pCommand : CCommand}

/-- The calls of the command when a line is pressed. -/
def pressed (c : CConsole) (ClientId : Int) (i : Nat) (l : CString) : List (List CString) :=
  callsOf i (c.executeParts true ClientId (parts l))

/-- The calls that the rest of a line makes. -/
def pressedNext (c : CConsole) (ClientId : Int) (i : Nat) (l : CString) : List (List CString) :=
  match (partEnd false l).2 with
  | none => []
  | some next => pressed c ClientId i next

/-- The stroke that is put before the arguments. -/
def strokeArgs (pCommand : CCommand) (Stroke : Bool) : List CString :=
  if pCommand.m_pName.head? = some 43 then [CConsole.strokeStr Stroke] else []

theorem Callable.executePart (h : Callable c ClientId i pCommand) (Stroke : Bool) {s w : CString} :
    c.ExecutePart Stroke ClientId pCommand.m_pName (34 :: (escape s ++ 34 :: w)) =
      some (if Stroke = false ∧ strokeArgs pCommand Stroke = [] then []
        else [(i, strokeArgs pCommand Stroke ++ [s])]) := by
  have hargs := @parseArgs_quoted c.validFloat (c.IsColor pCommand) false _ h.params _ _ _
    (unquote_escape s w)
  unfold CConsole.ExecutePart strokeArgs
  rw [h.found]
  simp only [h.command]
  rw [if_neg (not_not.mpr h.allowed)]
  simp only [hargs, h.now, h.test, if_false]
  split
  next => split <;> rfl
  next => split <;> rfl

theorem toLower_eq_plus {c : UInt8} : toLower c = 43 ↔ c = 43 := by
  have hall : ∀ n : Fin 256, toLower (UInt8.ofNat n.val) = 43 ↔ UInt8.ofNat n.val = 43 := by
    decide +kernel
  have hc := hall ⟨c.toNat, c.toNat_lt⟩
  rwa [UInt8.ofNat_toNat] at hc

/-- The same name has the same first character `+`. -/
theorem head_of_nocase {a b : CString} (h : str_comp_nocase a b = 0) (ha : a.head? ≠ some 43) :
    b.head? ≠ some 43 := by
  intro hb
  obtain ⟨b, rfl⟩ := List.head?_eq_some_iff.mp hb
  have hplus : toLower 43 = 43 := by decide
  cases a with
  | nil =>
      unfold str_comp_nocase at h
      rw [List.map_nil, List.map_cons, hplus] at h
      have h' : -((43 : UInt8).toNat : Int) = 0 := h
      exact absurd h' (by decide)
  | cons x a =>
      have hx : toLower x ≠ 43 := by
        intro hx
        exact ha (congrArg some (toLower_eq_plus.mp hx))
      unfold str_comp_nocase at h
      rw [List.map_cons, List.map_cons, hplus, str_comp, if_neg hx] at h
      exact hx (UInt8.toNat_inj.mp (by omega))

theorem Callable.name_of_found (h : Callable c ClientId i pCommand) {m_pCommand : CString}
    (hfind : c.FindCommand m_pCommand (c.flagMask ClientId) = some i) :
    str_comp_nocase pCommand.m_pName m_pCommand = 0 := by
  unfold Server.CConsole.FindCommand at hfind
  obtain ⟨hlt, hfound, -⟩ := List.findIdx?_eq_some_iff_getElem.mp hfind
  have hget : c.commands[i] = pCommand := by
    have hcommand := h.command
    rw [List.getElem?_eq_getElem hlt] at hcommand
    exact Option.some.inj hcommand
  rw [hget] at hfound
  simp only [Bool.and_eq_true, decide_eq_true_eq] at hfound
  exact hfound.2

/-- A part calls the command that was found or none. -/
theorem executePart_found {Stroke : Bool} {m_pCommand m_pArgsStart : CString} {j : Nat}
    (hfind : c.FindCommand m_pCommand (c.flagMask ClientId) = some j) :
    c.ExecutePart Stroke ClientId m_pCommand m_pArgsStart = none ∨
      c.ExecutePart Stroke ClientId m_pCommand m_pArgsStart = some [] ∨
      ∃ args, c.ExecutePart Stroke ClientId m_pCommand m_pArgsStart = some [(j, args)] := by
  unfold CConsole.ExecutePart
  rw [hfind]
  generalize (if m_pCommand.head? = some 43 then [CConsole.strokeStr Stroke] else []) = stroke
  simp only
  cases c.commands[j]? with
  | none => exact .inr (.inl rfl)
  | some other =>
      simp only
      split
      next => exact .inr (.inl rfl)
      next =>
        split
        next => exact .inr (.inl rfl)
        next =>
          split
          next => exact .inr (.inl rfl)
          next =>
            split
            next => exact .inr (.inl rfl)
            next =>
              split
              next => exact .inl rfl
              next => exact .inr (.inr ⟨_, rfl⟩)

/-- A part makes at most one call of the command, with the arguments that `ParseArgs` finds. -/
theorem Callable.executePart_cases (h : Callable c ClientId i pCommand)
    (hplus : pCommand.m_pName.head? ≠ some 43) (part : CString × CString) :
    c.ExecutePart true ClientId part.1 part.2 = none ∨
      ∃ calls, c.ExecutePart true ClientId part.1 part.2 = some calls ∧
        (callsOf i calls = [] ∨ ∃ args, callsOf i calls = [args] ∧
          ParseArgs c.validFloat (c.IsColor pCommand)
            (formatParams .parameter pCommand.m_pParams) false part.2 = .ok args) := by
  cases hfind : c.FindCommand part.1 (c.flagMask ClientId) with
  | none =>
      refine .inr ⟨[], ?_, .inl rfl⟩
      unfold CConsole.ExecutePart
      rw [hfind]
  | some j =>
      by_cases hj : j = i
      · subst hj
        unfold CConsole.ExecutePart
        rw [hfind, if_neg (head_of_nocase (h.name_of_found hfind) hplus)]
        simp only [h.command, if_neg (not_not.mpr h.allowed), Bool.true_eq_false, false_and,
          if_false]
        cases hargs : ParseArgs c.validFloat (c.IsColor pCommand)
            (formatParams .parameter pCommand.m_pParams) false part.2 with
        | error => exact .inr ⟨[], rfl, .inl rfl⟩
        | ok args =>
            refine .inr ⟨[(j, args)], ?_, .inr ⟨args, by simp [callsOf], rfl⟩⟩
            simp only [h.now, h.test, if_false]
            rfl
      · rcases executePart_found hfind with hnone | hnil | ⟨args, hcall⟩
        · exact .inl hnone
        · exact .inr ⟨[], hnil, .inl rfl⟩
        · exact .inr ⟨_, hcall, .inl (by simp [callsOf, hj])⟩

/-- The calls of a line are those of its first part and those of the rest. -/
theorem Callable.pressed_cases (h : Callable c ClientId i pCommand)
    (hplus : pCommand.m_pName.head? ≠ some 43) (l : CString) :
    pressed c ClientId i l = [] ∨ pressed c ClientId i l = pressedNext c ClientId i l ∨
      ∃ args, pressed c ClientId i l = args :: pressedNext c ClientId i l ∧
        ParseArgs c.validFloat (c.IsColor pCommand)
          (formatParams .parameter pCommand.m_pParams) false (firstPart l).2 = .ok args := by
  have hnext : callsOf i (c.executeParts true ClientId (match (partEnd false l).2 with
      | none => []
      | some next => parts next)) = pressedNext c ClientId i l := by
    unfold pressedNext
    cases (partEnd false l).2 <;> rfl
  unfold pressed
  rw [parts_eq]
  by_cases hempty : l = [] ∨ (firstPart l).1 = []
  · rw [if_pos hempty]
    exact .inl rfl
  · rw [if_neg hempty, CConsole.executeParts]
    rcases h.executePart_cases hplus (firstPart l) with hnone | ⟨calls, hcalls, hargs⟩
    · rw [hnone]
      exact .inl rfl
    · rw [hcalls]
      simp only [callsOf_append, hnext]
      rcases hargs with hnil | ⟨args, hcall, hparse⟩
      · rw [hnil]
        exact .inr (.inl rfl)
      · rw [hcall]
        exact .inr (.inr ⟨args, rfl, hparse⟩)

/-- The first part of a quoted line calls the command with the first argument. -/
theorem Callable.pressed_quoted (h : Callable c ClientId i pCommand) {s : CString}
    {ss : List CString}
    (hlen : (quotedLine pCommand.m_pName (s :: ss)).length ≤ CONSOLE_MAX_STR_LENGTH) :
    pressed c ClientId i (quotedLine pCommand.m_pName (s :: ss)) =
      (strokeArgs pCommand true ++ [s]) ::
        pressedNext c ClientId i (quotedLine pCommand.m_pName (s :: ss)) := by
  obtain ⟨w, hw⟩ : ∃ w, firstPart (quotedLine pCommand.m_pName (s :: ss)) =
      (pCommand.m_pName, 34 :: (escape s ++ 34 :: w)) := by
    rw [quotedLine_cons] at hlen ⊢
    exact h.name.firstPart_opened hlen
  have hne : ¬ (quotedLine pCommand.m_pName (s :: ss) = [] ∨
      (firstPart (quotedLine pCommand.m_pName (s :: ss))).1 = []) := by
    rw [hw, quotedLine_cons]
    rintro (hnil | hnil)
    · exact absurd (List.append_eq_nil_iff.mp hnil).2 (List.cons_ne_nil _ _)
    · exact h.name.nonempty hnil
  unfold pressed pressedNext
  rw [parts_eq, if_neg hne, CConsole.executeParts, hw, h.executePart]
  simp only [Bool.true_eq_false, false_and, if_false, callsOf_append]
  cases (partEnd false (quotedLine pCommand.m_pName (s :: ss))).2 <;> simp [callsOf, pressed,
    CConsole.executeParts]

theorem IsName.partEnd_quotedLine {nm : CString} (hnm : IsName nm) (s : CString)
    (ss : List CString) : (partEnd false (quotedLine nm (s :: ss))).2 =
      (partEnd (decide (EndsBackslash s)) (behind nm ss)).2 := by
  rw [quotedLine_cons, opened, hnm.partEnd_opened]
  rfl

/-- The calls that are due for some arguments. -/
def due (ss : List CString) : List (List CString) := ss.map fun s => [s]

theorem not_due_next {ss : List CString} {l : CString} (hne : ss ≠ [])
    (hnext : ∀ next, (partEnd false l).2 = some next → ¬ due ss <:+ pressed c ClientId i next) :
    ¬ due ss <:+ pressedNext c ClientId i l := by
  unfold pressedNext
  cases hend : (partEnd false l).2 with
  | none =>
      intro hsuffix
      exact hne (List.map_eq_nil_iff.mp (List.suffix_nil.mp hsuffix))
  | some next => exact hnext next hend

/-- The calls due after the first one are not made by the rest of the line. -/
theorem Callable.not_due_rest (h : Callable c ClientId i pCommand)
    (hplus : pCommand.m_pName.head? ≠ some 43) {s l : CString} {ss : List CString}
    (hrest : ¬ due ss <:+ pressedNext c ClientId i l) :
    ¬ due (s :: ss) <:+ pressed c ClientId i l := by
  have hdrop : ∀ {X : List (List CString)}, due (s :: ss) <:+ X → due ss <:+ X :=
    fun hX => (List.suffix_cons _ _).trans hX
  rcases h.pressed_cases hplus l with hnil | hsame | ⟨args, hcall, -⟩
  · rw [hnil]
    intro hsuffix
    cases List.suffix_nil.mp hsuffix
  · rw [hsame]
    exact fun hsuffix => hrest (hdrop hsuffix)
  · rw [hcall]
    intro hsuffix
    rcases List.suffix_cons_iff.mp hsuffix with heq | hsuffix
    · rw [due, List.map_cons] at heq
      rw [← (List.cons.inj heq).2] at hrest
      exact hrest List.suffix_rfl
    · exact hrest (hdrop hsuffix)

/-- The first call is not the one that is due. -/
theorem Callable.not_due_first (h : Callable c ClientId i pCommand)
    (hplus : pCommand.m_pName.head? ≠ some 43) {s l t : CString} {ss : List CString}
    (ht : QuotesEscaped t) (hspaces : spaces t ≤ spaces s) (hpart : (partEnd false l).1 <+: t ++ [34])
    (hrest : ¬ due (s :: ss) <:+ pressedNext c ClientId i l) :
    ¬ due (s :: ss) <:+ pressed c ClientId i l := by
  rcases h.pressed_cases hplus l with hnil | hsame | ⟨args, hcall, hargs⟩
  · rw [hnil]
    intro hsuffix
    cases List.suffix_nil.mp hsuffix
  · rwa [hsame]
  · rw [hcall]
    intro hsuffix
    rcases List.suffix_cons_iff.mp hsuffix with heq | hsuffix
    · rw [due, List.map_cons] at heq
      obtain ⟨g, hg, hsplit⟩ := prefix_firstPart l
      rw [hsplit, ← (List.cons.inj heq).1] at hargs
      exact parseArgs_bare h.params ht hspaces (hg.trans hpart) hargs
    · exact hrest hsuffix

/-- A separator that is not in the first text is in the second one. -/
theorem separator_behind {l x p r : CString} (hl : 59 ∉ l) (heq : l ++ x = p ++ 59 :: r) :
    ∃ q, p = l ++ q ∧ x = q ++ 59 :: r := by
  rcases List.append_eq_append_iff.mp heq with ⟨q, hq, hx⟩ | ⟨q, hq, hr⟩
  · exact ⟨q, hq, hx⟩
  · cases q with
    | nil => exact ⟨[], by rw [hq, List.append_nil, List.append_nil], hr.symm⟩
    | cons y q =>
        obtain ⟨hy, -⟩ := List.cons.inj hr
        refine absurd ?_ hl
        rw [hq, ← hy]
        simp

theorem IsName.separator_behind {nm x p r : CString} (hnm : IsName nm)
    (heq : nm ++ 32 :: 34 :: x = p ++ 59 :: r) : ∃ q, x = q ++ 59 :: r := by
  have hno : 59 ∉ nm ++ [32, 34] := by
    intro hmem
    rcases List.mem_append.mp hmem with hmem | hmem
    · exact (hnm.plain 59 hmem).2.2.2.1 rfl
    · exact absurd hmem (by decide)
  obtain ⟨q, -, hq⟩ := Console.separator_behind hno (p := p) (r := r) (x := x)
    (by simpa using heq)
  exact ⟨q, hq⟩

/-- The line starts in an escaped argument. -/
theorem Callable.not_due_inside (h : Callable c ClientId i pCommand)
    (hplus : pCommand.m_pName.head? ≠ some 43) {l s p t : CString} {ss : List CString}
    (hescape : escape s = p ++ 59 :: t) (hl : l = t ++ 34 :: behind pCommand.m_pName ss)
    (hnext : ∀ next, (partEnd false l).2 = some next →
      ¬ due (s :: ss) <:+ pressed c ClientId i next)
    (hskip : ∀ s' ss' next q, ss = s' :: ss' → (partEnd false l).2 = some next →
      opened pCommand.m_pName s' ss' = q ++ 59 :: next → ¬ due ss <:+ pressed c ClientId i next) :
    ¬ due (s :: ss) <:+ pressed c ClientId i l := by
  have ht : QuotesEscaped t :=
    QuotesEscaped.behind (p := p) (c := 59) (hescape ▸ quotesEscaped_escape s) (by decide)
  have hspaces : spaces t ≤ spaces s := by
    rw [← spaces_escape s, hescape]
    unfold spaces
    rw [List.countP_append, List.countP_cons]
    omega
  have hrest := not_due_next (List.cons_ne_nil s ss) hnext
  have hbare := partEnd_bare ht (behind pCommand.m_pName ss)
  rw [← hl] at hbare
  cases hbare with
  | stopped u hu hpart =>
      apply h.not_due_first hplus ht hspaces _ hrest
      rw [hpart]
      exact hu.trans (List.prefix_append t [34])
  | passed hpart =>
      cases ss with
      | nil =>
          apply h.not_due_first hplus ht hspaces _ hrest
          rw [hpart, behind]
          simp [prepend, partEnd]
      | cons s' ss =>
          rw [behind_cons] at hpart
          cases hends : decide (EndsBackslash t) with
          | true =>
              -- the closing quote is missed, and the separator behind it is met
              apply h.not_due_first hplus ht hspaces _ hrest
              rw [hpart, hends, Bool.not_true, partEnd_other false (by decide)
                (fun h => absurd h (by decide)), if_pos ⟨rfl, rfl⟩]
              simp [prepend]
          | false =>
              -- the part runs past the next opening quote
              apply h.not_due_rest hplus
              apply not_due_next (List.cons_ne_nil s' ss)
              intro next hend
              have hopen : (partEnd false (opened pCommand.m_pName s' ss)).2 = some next := by
                rw [hpart, hends, Bool.not_false, partEnd_other true (by decide)
                  (fun h => absurd h (by decide)), if_neg (by simp), if_neg (by simp),
                  quotedLine_cons, h.name.scan] at hend
                exact hend
              obtain ⟨q, hq⟩ := partEnd_next false _ next hopen
              exact hskip s' ss next q rfl hend hq

/-- The separator is in the first argument or behind it. -/
theorem opened_split {nm s p l : CString} {ss : List CString}
    (hopened : opened nm s ss = p ++ 59 :: l) :
    (∃ t, escape s = p ++ 59 :: t ∧ l = t ++ 34 :: behind nm ss) ∨
      ∃ q, behind nm ss = q ++ 59 :: l := by
  rcases List.append_eq_append_iff.mp hopened with ⟨q, -, hq⟩ | ⟨q, hq, hq'⟩
  · cases q with
    | nil => cases (List.cons.inj hq).1
    | cons x q => exact .inr ⟨q, (List.cons.inj hq).2⟩
  · cases q with
    | nil => cases (List.cons.inj hq').1
    | cons x q =>
        obtain ⟨hx, hl⟩ := List.cons.inj hq'
        exact .inl ⟨q, by rw [hq, hx], hl⟩

/-- A line that starts behind a separator in quoted arguments does not make their calls. -/
theorem Callable.not_due (h : Callable c ClientId i pCommand)
    (hplus : pCommand.m_pName.head? ≠ some 43) {l s p : CString} {ss : List CString}
    (hopened : opened pCommand.m_pName s ss = p ++ 59 :: l) :
    ¬ due (s :: ss) <:+ pressed c ClientId i l := by
  induction hn : l.length using Nat.strongRecOn generalizing l s p ss with
  | ind n ih =>
      have hshorter : ∀ next, (partEnd false l).2 = some next → next.length < n :=
        fun next hnext => hn ▸ length_partEnd false l next hnext
      have hnext : ∀ {s ss p}, opened pCommand.m_pName s ss = p ++ 59 :: l →
          ∀ next, (partEnd false l).2 = some next →
            ¬ due (s :: ss) <:+ pressed c ClientId i next := by
        intro s ss p hopened next hend
        obtain ⟨q, hq⟩ := partEnd_next false l next hend
        refine ih _ (hshorter next hend) (p := p ++ 59 :: q) ?_ rfl
        rw [hopened, hq, List.append_assoc, List.cons_append]
      -- how far behind the first argument the line starts
      induction ss generalizing s p with
      | nil =>
          rcases opened_split hopened with ⟨t, ht, hl⟩ | ⟨q, hq⟩
          · exact h.not_due_inside hplus ht hl (hnext hopened) nofun
          · cases q <;> cases hq
      | cons s' ss ihs =>
          have hskip : ∀ next q, (partEnd false l).2 = some next →
              opened pCommand.m_pName s' ss = q ++ 59 :: next →
                ¬ due (s' :: ss) <:+ pressed c ClientId i next :=
            fun next q hend hq => ih _ (hshorter next hend) hq rfl
          rcases opened_split hopened with ⟨t, ht, hl⟩ | ⟨q, hq⟩
          · apply h.not_due_inside hplus ht hl (hnext hopened)
            rintro _ _ next q ⟨rfl, rfl⟩ hend hq
            exact hskip next q hend hq
          · rw [behind_cons] at hq
            cases q with
            | nil =>
                obtain ⟨-, rfl⟩ := List.cons.inj hq
                apply h.not_due_rest hplus
                apply not_due_next (List.cons_ne_nil s' ss)
                intro next hend
                obtain ⟨q, hq'⟩ := partEnd_next false _ next hend
                rw [quotedLine_cons] at hq'
                obtain ⟨q', hq'⟩ := h.name.separator_behind hq'
                exact hskip next q' hend hq'
            | cons x q =>
                have hq' := (List.cons.inj hq).2
                rw [quotedLine_cons] at hq'
                obtain ⟨q', hq'⟩ := h.name.separator_behind hq'
                exact fun hsuffix => ihs hq' ((List.suffix_cons _ _).trans hsuffix)

/-! ## The whole line -/

/-- The quoted line calls the command for every argument exactly if no argument but the last
ends with a backslash. -/
theorem Callable.pressed_iff (h : Callable c ClientId i pCommand)
    (hplus : pCommand.m_pName.head? ≠ some 43) {s : CString} {ss : List CString}
    (hlen : (quotedLine pCommand.m_pName (s :: ss)).length ≤ CONSOLE_MAX_STR_LENGTH) :
    pressed c ClientId i (quotedLine pCommand.m_pName (s :: ss)) = due (s :: ss) ↔
      ∀ x ∈ (s :: ss).dropLast, ¬ EndsBackslash x := by
  have hstroke : strokeArgs pCommand true = [] := if_neg hplus
  induction ss generalizing s with
  | nil =>
      have hnext : pressedNext c ClientId i (quotedLine pCommand.m_pName [s]) = [] := by
        unfold pressedNext
        rw [h.name.partEnd_quotedLine, behind, partEnd]
      rw [h.pressed_quoted hlen, hnext, hstroke]
      simp [due]
  | cons s' ss ih =>
      have hlen' : (quotedLine pCommand.m_pName (s' :: ss)).length ≤ CONSOLE_MAX_STR_LENGTH := by
        rw [quotedLine_cons, opened, behind_cons] at hlen
        simp only [List.length_append, List.length_cons] at hlen
        omega
      have hdue : due (s :: s' :: ss) = [s] :: due (s' :: ss) := rfl
      rw [h.pressed_quoted hlen, hstroke, List.nil_append, hdue, List.cons_inj_right]
      by_cases hends : EndsBackslash s
      · -- the calls that are due are not made
        have hnot : ¬ due (s' :: ss) <:+
            pressedNext c ClientId i (quotedLine pCommand.m_pName (s :: s' :: ss)) := by
          apply not_due_next (List.cons_ne_nil s' ss)
          intro next hend
          rw [h.name.partEnd_quotedLine, decide_eq_true hends, behind_cons,
            partEnd_other true (by decide) (fun h => absurd h (by decide)), if_neg (by simp),
            if_neg (by simp), quotedLine_cons, h.name.scan] at hend
          obtain ⟨q, hq⟩ := partEnd_next false _ next hend
          exact h.not_due hplus hq
        constructor
        · intro heq
          rw [heq] at hnot
          exact absurd List.suffix_rfl hnot
        · intro hall
          exact absurd hends (hall s (by simp))
      · have hnext : pressedNext c ClientId i (quotedLine pCommand.m_pName (s :: s' :: ss)) =
            pressed c ClientId i (quotedLine pCommand.m_pName (s' :: ss)) := by
          unfold pressedNext
          rw [h.name.partEnd_quotedLine, decide_eq_false hends, behind_cons,
            partEnd_other false (by decide) (fun h => absurd h (by decide)), if_pos ⟨rfl, rfl⟩]
        rw [hnext, List.dropLast_cons_cons]
        refine (ih hlen').trans ?_
        simp [hends]

/-- A command without `+` is not called when the line is released. -/
theorem Callable.released (h : Callable c ClientId i pCommand)
    (hplus : pCommand.m_pName.head? ≠ some 43) (ps : List (CString × CString)) :
    callsOf i (c.executeParts false ClientId ps) = [] := by
  induction ps with
  | nil => rfl
  | cons part ps ih =>
      rw [CConsole.executeParts]
      have hpart : c.ExecutePart false ClientId part.1 part.2 = none ∨
          ∃ calls, c.ExecutePart false ClientId part.1 part.2 = some calls ∧
            callsOf i calls = [] := by
        cases hfind : c.FindCommand part.1 (c.flagMask ClientId) with
        | none =>
            refine .inr ⟨[], ?_, rfl⟩
            unfold CConsole.ExecutePart
            rw [hfind]
        | some j =>
            by_cases hj : j = i
            · subst hj
              refine .inr ⟨[], ?_, rfl⟩
              unfold CConsole.ExecutePart
              rw [hfind, if_neg (head_of_nocase (h.name_of_found hfind) hplus)]
              simp [h.command]
            · rcases executePart_found hfind with hnone | hnil | ⟨args, hcall⟩
              · exact .inl hnone
              · exact .inr ⟨[], hnil, rfl⟩
              · exact .inr ⟨_, hcall, by simp [callsOf, hj]⟩
      rcases hpart with hnone | ⟨calls, hcalls, hnil⟩
      · rw [hnone]
        rfl
      · rw [hcalls]
        simp only [callsOf_append, hnil, ih, List.append_nil]

theorem IsName.lineParts {nm : CString} (hnm : IsName nm) (s : CString) (ss : List CString) :
    lineParts (quotedLine nm (s :: ss)) = parts (quotedLine nm (s :: ss)) := by
  unfold Console.lineParts
  split
  next l heq =>
    rw [quotedLine_cons] at heq
    match nm, hnm, heq with
    | [], hnm, _ => exact absurd rfl hnm.nonempty
    | [_], _, heq => cases (List.cons.inj (List.cons.inj heq).2).1
    | [_, _], _, heq => cases (List.cons.inj (List.cons.inj (List.cons.inj heq).2).2).1
    | a :: b :: c :: nm, hnm, heq =>
        have hc := (List.cons.inj (List.cons.inj (List.cons.inj heq).2).2).1
        exact absurd hc (hnm.plain c (by simp)).2.2.2.1
  next => rfl

end Calls

/-- Executing the quoted line calls the command once for every argument, in order, exactly if its
name does not start with `+` and no argument but the last ends with a backslash. -/
theorem quoting_survives_iff {c : CConsole} {ClientId : Int} {i : Nat} {pCommand : CCommand}
    (h : Callable c ClientId i pCommand) {ss : List CString} (hss : ss ≠ [])
    (hlen : (quotedLine pCommand.m_pName ss).length ≤ CONSOLE_MAX_STR_LENGTH) :
    callsOf i (c.ExecuteLine (quotedLine pCommand.m_pName ss) ClientId) = ss.map (fun s => [s]) ↔
      pCommand.m_pName.head? ≠ some 43 ∧ ∀ s ∈ ss.dropLast, s.getLast? ≠ some 92 := by
  obtain ⟨s, ss, rfl⟩ := List.exists_cons_of_ne_nil hss
  have hrun : callsOf i (c.ExecuteLine (quotedLine pCommand.m_pName (s :: ss)) ClientId) =
      pressed c ClientId i (quotedLine pCommand.m_pName (s :: ss)) ++
        callsOf i (c.executeParts false ClientId (parts (quotedLine pCommand.m_pName (s :: ss)))) := by
    unfold CConsole.ExecuteLine CConsole.ExecuteLineStroked
    rw [h.name.lineParts, callsOf_append]
    rfl
  rw [hrun]
  by_cases hplus : pCommand.m_pName.head? = some 43
  · -- the stroke comes before the argument
    rw [h.pressed_quoted hlen, strokeArgs, if_pos hplus]
    constructor
    · intro heq
      have hfirst := (List.cons.inj heq).1
      cases (List.cons.inj hfirst).2
    · exact fun hnot => absurd hplus hnot.1
  · rw [h.released hplus, List.append_nil]
    exact (h.pressed_iff hplus hlen).trans (and_iff_right hplus).symm

/-- A console with the command `echo`. -/
def echoConsole : CConsole where
  commands :=
    [{ m_pName := CServer.ascii "echo", m_pHelp := CServer.ascii "Echo the text"
       m_pParams := CServer.ascii "s[text]", m_Flags := CFGFLAG_SERVER, m_Temp := false
       m_AccessLevel := ACCESS_LEVEL_ADMIN }]
  m_FlagMask := CFGFLAG_SERVER
  m_AccessLevel := ACCESS_LEVEL_ADMIN
  m_StoreCommands := false
  m_SvTestingCommands := false
  IsColor := fun _ => false
  validFloat := fun _ => false

theorem isName_echo : IsName (CServer.ascii "echo") := by
  have hbytes : CServer.ascii "echo" = [101, 99, 104, 111] := by decide
  rw [hbytes]
  refine ⟨List.cons_ne_nil _ _, fun c hc => ?_⟩
  simp only [List.mem_cons, List.not_mem_nil, or_false] at hc
  rcases hc with rfl | rfl | rfl | rfl <;> decide

theorem callable_echo : ∃ pCommand, pCommand.m_pName = CServer.ascii "echo" ∧
    Callable echoConsole (-1) 0 pCommand :=
  ⟨_, rfl, isName_echo, by decide, by decide, rfl, by decide, by decide, by decide⟩

/-- An argument with a separator and a quote, and one that ends with a backslash. -/
theorem quoting_survives_echo :
    callsOf 0 (echoConsole.ExecuteLine
      (quotedLine (CServer.ascii "echo") [CServer.ascii "a;\"b", CServer.ascii "c\\"]) (-1)) =
        [[CServer.ascii "a;\"b"], [CServer.ascii "c\\"]] := by
  obtain ⟨pCommand, hname, h⟩ := callable_echo
  rw [← hname]
  refine (quoting_survives_iff h (by decide) ?_).mpr ⟨?_, ?_⟩
  · rw [hname]
    decide
  · rw [hname]
    decide
  · decide

/-- A backslash and `a`: the command is called for the backslash only. -/
theorem quoting_misses_backslash :
    callsOf 0 (echoConsole.ExecuteLine
      (quotedLine (CServer.ascii "echo") [CServer.ascii "\\", CServer.ascii "a"]) (-1)) =
        [[CServer.ascii "\\"]] ∧
    callsOf 0 (echoConsole.ExecuteLine
      (quotedLine (CServer.ascii "echo") [CServer.ascii "\\", CServer.ascii "a"]) (-1)) ≠
        [[CServer.ascii "\\"], [CServer.ascii "a"]] := by
  have hrun : callsOf 0 (echoConsole.ExecuteLine
      (quotedLine (CServer.ascii "echo") [CServer.ascii "\\", CServer.ascii "a"]) (-1)) =
        [[CServer.ascii "\\"]] := by
    decide +kernel
  exact ⟨hrun, by rw [hrun]; decide⟩

end Fex.Engine.Console
