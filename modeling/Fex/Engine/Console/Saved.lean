import Fex.Engine.Console.Quoting
import Fex.Engine.LineReader

/-!
# Lines with quoted arguments

A component saves its entries as lines of a command with quoted texts.  A line stays one part if
the scanner for the parts meets no separator while it is outside a string.
-/

namespace Fex.Engine.Console

open Fex.Lib Fex.Base Server

/-! ## Texts between quotes -/

/-- What stands between the quotes, and the argument that is read back. -/
structure Reads (x t : CString) : Prop where
  escaped : QuotesEscaped x
  read (l : CString) : unquote (x ++ 34 :: l) = some (t, l)

/-- A text that is read back although it is not escaped. -/
structure Unescaped (t : CString) : Prop where
  quote : 34 ∉ t
  pair : ¬[92, 92] <:+: t
  last : ¬EndsBackslash t

theorem Unescaped.tail {c : UInt8} {t : CString} (h : Unescaped (c :: t)) (hne : t ≠ []) :
    Unescaped t where
  quote := fun hmem => h.quote (List.mem_cons_of_mem c hmem)
  pair := fun hpair => h.pair (List.infix_cons hpair)
  last := by
    have hends := decide_eq_decide.mp (endsBackslash_cons fun _ : c = 92 => hne)
    exact fun hlast => h.last (hends.mpr hlast)

theorem unescaped_nil : Unescaped [] where
  quote := List.not_mem_nil
  pair := by simp
  last := by decide

theorem Unescaped.unquote {t : CString} (h : Unescaped t) (l : CString) :
    unquote (t ++ 34 :: l) = some (t, l) := by
  induction t with
  | nil => rfl
  | cons c t ih =>
      have hq : c ≠ 34 := fun hc => h.quote (hc ▸ List.mem_cons_self)
      cases t with
      | nil =>
          have hb : c ≠ 92 := fun hc => h.last (hc ▸ rfl)
          rw [List.cons_append, unquote_plain ⟨hq, hb⟩]
          rfl
      | cons d t =>
          have hd : d ≠ 34 := fun hd => h.quote (hd ▸ by simp)
          have hpair : ¬(c = 92 ∧ d = 92) := by
            rintro ⟨rfl, rfl⟩
            exact h.pair ⟨[], t, rfl⟩
          rw [List.cons_append, Console.unquote, ih (h.tail (List.cons_ne_nil d t))]
          · rfl
          · exact hq
          · rintro l' rfl hl
            exact hpair ⟨rfl, (List.cons.inj hl).1⟩
          · rintro l' rfl hl
            exact hd (List.cons.inj hl).1

theorem quotesEscaped_of_notMem {t : CString} (h : 34 ∉ t) : QuotesEscaped t := by
  rintro p q rfl
  exact absurd (List.mem_append_right p List.mem_cons_self) h

theorem reads_unescaped {t : CString} (h : Unescaped t) : Reads t t :=
  ⟨quotesEscaped_of_notMem h.quote, h.unquote⟩

theorem QuotesEscaped.tail {c : UInt8} {t : CString} (h : QuotesEscaped (c :: t))
    (hhead : t.head? ≠ some 34) : QuotesEscaped t := by
  intro p q heq
  have hlast := h (c :: p) q (by rw [heq]; rfl)
  cases p with
  | nil => exact absurd (by rw [heq]; rfl) hhead
  | cons d p => rwa [List.getLast?_cons_cons] at hlast

/-! ## Scanning -/

def separators (s : CString) : Nat := s.countP fun c => c = 59 ∨ c = 35

/-- The scanner passes over a text, outside a string only if there is no separator. -/
theorem partEnd_text {x : CString} (hx : QuotesEscaped x) (InString : Bool) (l : CString)
    (h : InString = false → separators x = 0) :
    partEnd InString (x ++ 34 :: l) =
      prepend (x ++ [34]) (partEnd (InString == decide (EndsBackslash x)) l) := by
  induction hn : x.length using Nat.strongRecOn generalizing x with
  | ind n ih =>
      cases x with
      | nil => cases InString <;> rfl
      | cons c t =>
          rw [List.length_cons] at hn
          have hq : c ≠ 34 := by
            rintro rfl
            cases hx [] t rfl
          by_cases hb : c = 92 ∧ t.head? = some 34
          · obtain ⟨rfl, hhead⟩ := hb
            obtain ⟨t, rfl⟩ := List.head?_eq_some_iff.mp hhead
            have hends : decide (EndsBackslash (92 :: 34 :: t)) = decide (EndsBackslash t) := by
              rw [endsBackslash_cons fun _ => List.cons_ne_nil _ _,
                endsBackslash_cons fun h => absurd h (by decide)]
            rw [List.cons_append, List.cons_append, partEnd_escaped,
              ih t.length (by rw [List.length_cons] at hn; omega)
                (hx.behind (p := [92]) (by decide)) (fun hb => by simpa [separators] using h hb) rfl,
              prepend_prepend, hends]
            rfl
          · have hhead : t.head? ≠ some 34 := by
              intro hhead
              obtain ⟨t', rfl⟩ := List.head?_eq_some_iff.mp hhead
              exact hb ⟨Option.some.inj (hx [c] t' rfl), rfl⟩
            have hsep : ¬(InString = false ∧ (c = 59 ∨ c = 35)) := by
              rintro ⟨hout, hc⟩
              have hzero := h hout
              rw [separators, List.countP_cons_of_pos (by simpa using hc)] at hzero
              exact absurd hzero (Nat.succ_ne_zero _)
            by_cases hlast : c = 92 ∧ t = []
            · obtain ⟨rfl, rfl⟩ := hlast
              rw [List.cons_append, List.nil_append, partEnd_escaped]
              cases InString <;> rfl
            · have hends : decide (EndsBackslash (c :: t)) = decide (EndsBackslash t) :=
                endsBackslash_cons fun hc ht => hlast ⟨hc, ht⟩
              have hnext : c = 92 → (t ++ 34 :: l).head? ≠ some 34 := by
                intro hc
                obtain ⟨d, t, rfl⟩ := List.exists_cons_of_ne_nil fun ht => hlast ⟨hc, ht⟩
                simpa using hhead
              have hrest : InString = false → separators t = 0 := by
                intro hout
                have hzero := h hout
                rw [separators, List.countP_cons] at hzero
                exact Nat.eq_zero_of_add_eq_zero_right hzero
              rw [List.cons_append, partEnd_other InString hq hnext,
                if_neg (fun h => hsep ⟨h.1, .inl h.2⟩), if_neg (fun h => hsep ⟨h.1, .inr h.2⟩),
                ih t.length (by omega) (hx.tail hhead) hrest rfl, prepend_prepend, hends]
              rfl

/-- The texts that the scanner passes over when it starts inside or outside of a string: where it
is outside behind an opening quote there is no separator.  A text that ends with a backslash hides
its closing quote. -/
def Whole : Bool → List CString → Prop
  | _, [] => True
  | InString, x :: xs =>
      (InString = true → separators x = 0) ∧ Whole ((!InString) == decide (EndsBackslash x)) xs

instance : (InString : Bool) → (xs : List CString) → Decidable (Whole InString xs)
  | _, [] => inferInstanceAs (Decidable True)
  | InString, x :: xs =>
      let _ := instDecidableWhole ((!InString) == decide (EndsBackslash x)) xs
      inferInstanceAs (Decidable ((InString = true → separators x = 0) ∧
        Whole ((!InString) == decide (EndsBackslash x)) xs))

/-- Each text between quotes, with a space before it. -/
def quotedArgs : List CString → CString
  | [] => []
  | x :: xs => 32 :: 34 :: (x ++ 34 :: quotedArgs xs)

theorem partEnd_space (InString : Bool) (l : CString) :
    partEnd InString (32 :: 34 :: l) = prepend [32, 34] (partEnd (!InString) l) := by
  rw [partEnd_other InString (by decide) fun h => absurd h (by decide),
    if_neg (fun h => absurd h.2 (by decide)), if_neg (fun h => absurd h.2 (by decide)),
    partEnd_quote, prepend_prepend]
  rfl

theorem partEnd_quotedArgs {xs : List CString} (hxs : ∀ x ∈ xs, QuotesEscaped x) {InString : Bool}
    (h : Whole InString xs) : partEnd InString (quotedArgs xs) = (quotedArgs xs, none) := by
  induction xs generalizing InString with
  | nil => cases InString <;> rfl
  | cons x xs ih =>
      obtain ⟨hx, hrest⟩ := h
      rw [quotedArgs, partEnd_space, partEnd_text (hxs x List.mem_cons_self) _ _ (by simpa using hx),
        ih (fun y hy => hxs y (List.mem_cons_of_mem x hy)) hrest]
      simp [prepend]

theorem quotedArgs_getLast {xs : List CString} (hne : xs ≠ []) :
    ∃ l, quotedArgs xs = l ++ [34] := by
  induction xs with
  | nil => exact absurd rfl hne
  | cons x xs ih =>
      by_cases hxs : xs = []
      · exact ⟨32 :: 34 :: x, by rw [hxs]; simp [quotedArgs]⟩
      · obtain ⟨l, hl⟩ := ih hxs
        exact ⟨32 :: 34 :: (x ++ 34 :: l), by rw [quotedArgs, hl]; simp⟩

/-! ## Arguments -/

section

variable {validFloat : CString → Bool} {IsColor : Bool}

theorem parseArgs_space {Command : UInt8} (hc : Command ≠ 63) (params : CString) (Optional : Bool)
    (s : CString) : ParseArgs validFloat IsColor (Command :: params) Optional (32 :: s) =
      ParseArgs validFloat IsColor (Command :: params) Optional s := by
  have hskip : str_skip_whitespaces (32 :: s) = str_skip_whitespaces s := rfl
  rw [ParseArgs, if_neg hc, ParseArgs, if_neg hc, hskip]

theorem parseArgs_quote {Command : UInt8} (hc : Command ≠ 63) {params x t rest : CString}
    {ts : List CString} {Optional : Bool} (hx : Reads x t)
    (hrest : ParseArgs validFloat IsColor params Optional rest = .ok ts) :
    ParseArgs validFloat IsColor (Command :: params) Optional (34 :: (x ++ 34 :: rest)) =
      .ok (t :: ts) := by
  have hskip : str_skip_whitespaces (34 :: (x ++ 34 :: rest)) = 34 :: (x ++ 34 :: rest) := rfl
  rw [ParseArgs, if_neg hc, hskip]
  simp only [hx.read, hrest]
  rfl

theorem escaped_of_reads {xs ts : List CString} (h : List.Forall₂ Reads xs ts) :
    ∀ x ∈ xs, QuotesEscaped x := by
  induction h with
  | nil => exact fun x hx => absurd hx List.not_mem_nil
  | cons hx _ ih => exact List.forall_mem_cons.mpr ⟨hx.escaped, ih⟩

/-- Every text is read back as one argument. -/
theorem parseArgs_quotedArgs {params : CString} {xs ts : List CString} {Optional : Bool}
    (hparams : ∀ c ∈ params, c ≠ 63) (hlength : params.length = xs.length)
    (hxs : List.Forall₂ Reads xs ts) :
    ParseArgs validFloat IsColor params Optional (quotedArgs xs) = .ok ts := by
  induction hxs generalizing params with
  | nil =>
      rw [List.length_eq_zero_iff.mp hlength]
      rfl
  | @cons x t xs ts hx _ ih =>
      obtain ⟨Command, params, rfl⟩ := List.exists_cons_of_length_eq_add_one hlength
      have hc := hparams Command List.mem_cons_self
      rw [quotedArgs, parseArgs_space hc]
      exact parseArgs_quote hc hx (ih (fun c h => hparams c (List.mem_cons_of_mem Command h))
        (Nat.succ.inj hlength))

end

/-! ## Calls -/

/-- The command may be called right away, and only when a line is pressed. -/
structure Usable (c : CConsole) (ClientId : Int) (i : Nat) (pCommand : CCommand) : Prop where
  name : IsName pCommand.m_pName
  plus : pCommand.m_pName.head? ≠ some 43
  found : c.FindCommand pCommand.m_pName (c.flagMask ClientId) = some i
  command : c.commands[i]? = some pCommand
  allowed : c.Allows ClientId pCommand
  now : ¬(c.m_StoreCommands = true ∧ pCommand.m_Flags &&& CFGFLAG_STORE ≠ 0)
  test : ¬(pCommand.m_Flags &&& CMDFLAG_TEST ≠ 0 ∧ c.m_SvTestingCommands = false)

section

variable {c : CConsole} {ClientId : Int} {i : Nat} {pCommand : CCommand}

theorem Usable.pressed (h : Usable c ClientId i pCommand) {m_pArgsStart : CString}
    {args : List CString} (hargs : ParseArgs c.validFloat (c.IsColor pCommand)
      (formatParams .parameter pCommand.m_pParams) false m_pArgsStart = .ok args) :
    c.ExecutePart true ClientId pCommand.m_pName m_pArgsStart = some [(i, args)] := by
  unfold CConsole.ExecutePart
  rw [h.found, if_neg h.plus]
  simp only [h.command, hargs]
  rw [if_neg (not_not.mpr h.allowed), if_neg (fun h => absurd h.1 (by decide)), if_neg h.now,
    if_neg h.test]
  rfl

theorem Usable.released (h : Usable c ClientId i pCommand) (m_pArgsStart : CString) :
    c.ExecutePart false ClientId pCommand.m_pName m_pArgsStart = some [] := by
  unfold CConsole.ExecutePart
  rw [h.found, if_neg h.plus]
  simp only [h.command]
  rw [if_neg (not_not.mpr h.allowed), if_pos (by simp)]

/-- Behind a name and a space the line cannot start with the prefix `mc;`. -/
theorem IsName.lineParts_space {nm : CString} (hnm : IsName nm) (l : CString) :
    Console.lineParts (nm ++ 32 :: l) = parts (nm ++ 32 :: l) := by
  unfold Console.lineParts
  split
  next pStr heq =>
    match nm, hnm, heq with
    | [], hnm, _ => exact absurd rfl hnm.nonempty
    | [_], _, heq => cases (List.cons.inj (List.cons.inj heq).2).1
    | [_, _], _, heq => cases (List.cons.inj (List.cons.inj (List.cons.inj heq).2).2).1
    | a :: b :: x :: nm, hnm, heq =>
        have hx := (List.cons.inj (List.cons.inj (List.cons.inj heq).2).2).1
        exact absurd hx (hnm.plain x (by simp)).2.2.2.1
  next => rfl

/-- A line that is one part calls its command once. -/
theorem Usable.executeLine (h : Usable c ClientId i pCommand) {rest : CString}
    {args : List CString} (hpart : partEnd false (pCommand.m_pName ++ 32 :: rest) =
      (pCommand.m_pName ++ 32 :: rest, none))
    (hfix : str_utf8_fix_truncation (pCommand.m_pName ++ 32 :: rest) =
      pCommand.m_pName ++ 32 :: rest)
    (hlen : (pCommand.m_pName ++ 32 :: rest).length ≤ CONSOLE_MAX_STR_LENGTH)
    (hargs : ParseArgs c.validFloat (c.IsColor pCommand)
      (formatParams .parameter pCommand.m_pParams) false rest = .ok args) :
    c.ExecuteLine (pCommand.m_pName ++ 32 :: rest) ClientId = [(i, args)] := by
  have hfirst : firstPart (pCommand.m_pName ++ 32 :: rest) = (pCommand.m_pName, rest) := by
    rw [firstPart_eq hlen, hpart, hfix, splitCommand_name h.name]
  have hparts : parts (pCommand.m_pName ++ 32 :: rest) = [(pCommand.m_pName, rest)] := by
    rw [parts_eq, hfirst, hpart, if_neg]
    rintro (hnil | hnil)
    · exact absurd (List.append_eq_nil_iff.mp hnil).2 (List.cons_ne_nil _ _)
    · exact h.name.nonempty hnil
  unfold CConsole.ExecuteLine CConsole.ExecuteLineStroked
  rw [h.name.lineParts_space, hparts]
  simp only [CConsole.executeParts, h.pressed hargs, h.released]
  rfl

/-- A line of a command with quoted texts calls it with what the texts are read back as. -/
theorem Usable.executeLine_quotedArgs (h : Usable c ClientId i pCommand) {xs ts : List CString}
    (hne : xs ≠ []) (hxs : List.Forall₂ Reads xs ts) (hwhole : Whole false xs)
    (hparams : ∀ p ∈ formatParams .parameter pCommand.m_pParams, p ≠ 63)
    (hcount : (formatParams .parameter pCommand.m_pParams).length = xs.length)
    (hlen : (pCommand.m_pName ++ quotedArgs xs).length ≤ CONSOLE_MAX_STR_LENGTH) :
    c.ExecuteLine (pCommand.m_pName ++ quotedArgs xs) ClientId = [(i, ts)] := by
  have hescaped := escaped_of_reads hxs
  have hpart : partEnd false (pCommand.m_pName ++ quotedArgs xs) =
      (pCommand.m_pName ++ quotedArgs xs, none) := by
    rw [partEnd_name (fun c hc => (h.name.plain c hc).2), partEnd_quotedArgs hescaped hwhole]
    rfl
  have hfix : str_utf8_fix_truncation (pCommand.m_pName ++ quotedArgs xs) =
      pCommand.m_pName ++ quotedArgs xs := by
    obtain ⟨l, hl⟩ := quotedArgs_getLast hne
    rw [hl, ← List.append_assoc]
    exact fix_truncation_ascii _ (by decide)
  have hargs := @parseArgs_quotedArgs c.validFloat (c.IsColor pCommand) _ xs ts false hparams
    hcount hxs
  obtain ⟨x, xs, rfl⟩ := List.exists_cons_of_ne_nil hne
  rw [quotedArgs] at hpart hfix hlen hargs ⊢
  obtain ⟨Command, params, hcommand⟩ := List.exists_cons_of_length_eq_add_one hcount
  rw [hcommand, parseArgs_space (hparams Command (by rw [hcommand]; simp)), ← hcommand] at hargs
  exact h.executeLine hpart hfix hlen hargs

end

/-! ## Results -/

def GetString (args : List CString) (Index : Nat) : CString := args[Index]?.getD []

def GetInteger (args : List CString) (Index : Nat) : Int :=
  match args[Index]? with
  | none => 0
  | some arg => wrap32 (strtol arg).1

/-! ## The saved file -/

/-- What the file holds after the lines were written. -/
def savedText (lines : List CString) : CString := lines.flatMap fun line => line ++ [10]

/-- The calls that executing the file makes. -/
def ExecuteFile (c : CConsole) (ClientId : Int) (text : CString) : List Call :=
  (validLines (dropBom text)).flatMap fun line => c.ExecuteLine line ClientId

/-- A line of a file that is read as it was written. -/
structure SavedLine (line : CString) : Prop where
  text : Text line
  feed : 10 ∉ line
  last : line.getLast? = some 34
  mark : line.head? ≠ some 0xEF

theorem SavedLine.dropCr {line : CString} (h : SavedLine line) : dropCr line = line := by
  rw [Engine.dropCr, if_neg]
  rw [h.last]
  decide

theorem validLines_savedText {lines : List CString} (h : ∀ line ∈ lines, SavedLine line) :
    validLines (savedText lines) = lines := by
  induction lines with
  | nil => rfl
  | cons line lines ih =>
      have hline := h line List.mem_cons_self
      have htext : savedText (line :: lines) = line ++ 10 :: savedText lines := by
        simp [savedText]
      rw [htext, validLines_append hline.feed, hline.dropCr, if_pos hline.text.check,
        ih fun l hl => h l (List.mem_cons_of_mem line hl)]

theorem dropBom_savedText {lines : List CString} (h : ∀ line ∈ lines, SavedLine line) :
    dropBom (savedText lines) = savedText lines := by
  rw [dropBom, if_neg]
  intro hmark
  cases lines with
  | nil => exact absurd hmark (by decide)
  | cons line lines =>
      have hline := h line List.mem_cons_self
      obtain ⟨rest, hrest⟩ := hmark
      cases line with
      | nil => exact absurd hline.last (by decide)
      | cons c line =>
          have hc : 0xEF = c := (List.cons.inj hrest).1
          exact hline.mark (hc ▸ rfl)

theorem text_quotedArgs {xs : List CString} (hxs : ∀ x ∈ xs, Text x) : Text (quotedArgs xs) := by
  induction xs with
  | nil => exact .nil
  | cons x xs ih =>
      obtain ⟨hx, hrest⟩ := List.forall_mem_cons.mp hxs
      have hclose : Text [34] := text_ascii (List.forall_mem_singleton.mpr (by decide))
      have hopen : Text [32, 34] :=
        text_ascii (List.forall_mem_cons.mpr ⟨by decide, List.forall_mem_singleton.mpr (by decide)⟩)
      have htext := ((hopen.append hx).append hclose).append (ih hrest)
      simpa [quotedArgs] using htext

theorem feed_quotedArgs {xs : List CString} (hxs : ∀ x ∈ xs, 10 ∉ x) : 10 ∉ quotedArgs xs := by
  induction xs with
  | nil => exact List.not_mem_nil
  | cons x xs ih =>
      obtain ⟨hx, hrest⟩ := List.forall_mem_cons.mp hxs
      simp [quotedArgs, hx, ih hrest]

/-- What a line starts with. -/
structure Starts (nm : CString) : Prop where
  nonempty : nm ≠ []
  ascii : ∀ b ∈ nm, b ≠ 0 ∧ b.toNat ≤ 0x7F
  feed : 10 ∉ nm

theorem starts_of_all {nm : CString} (hne : nm ≠ [])
    (h : (nm.all fun b => decide (b ≠ 0 ∧ b.toNat ≤ 0x7F ∧ b ≠ 10)) = true) : Starts nm where
  nonempty := hne
  ascii := fun b hb => by
    obtain ⟨h₀, hle, -⟩ := of_decide_eq_true (List.all_eq_true.mp h b hb)
    exact ⟨h₀, hle⟩
  feed := fun hmem => (of_decide_eq_true (List.all_eq_true.mp h 10 hmem)).2.2 rfl

theorem isName_of_all {nm : CString} (hne : nm ≠ []) (h : (nm.all fun c =>
    decide (str_isspace c = false ∧ c ≠ 34 ∧ c ≠ 35 ∧ c ≠ 59 ∧ c ≠ 92)) = true) : IsName nm where
  nonempty := hne
  plain := fun c hc => of_decide_eq_true (List.all_eq_true.mp h c hc)

theorem savedLine_quotedArgs {nm : CString} (hnm : Starts nm) {xs : List CString} (hne : xs ≠ [])
    (htext : ∀ x ∈ xs, Text x) (hfeed : ∀ x ∈ xs, 10 ∉ x) : SavedLine (nm ++ quotedArgs xs) where
  text := (text_ascii hnm.ascii).append (text_quotedArgs htext)
  feed := fun h => (List.mem_append.mp h).elim hnm.feed (feed_quotedArgs hfeed)
  last := by
    obtain ⟨l, hl⟩ := quotedArgs_getLast hne
    rw [hl, ← List.append_assoc, List.getLast?_concat]
  mark := by
    obtain ⟨b, nm', rfl⟩ := List.exists_cons_of_ne_nil hnm.nonempty
    intro hhead
    have hb := (hnm.ascii b List.mem_cons_self).2
    rw [Option.some.inj hhead] at hb
    exact absurd hb (by decide)

/-- Executing a saved file executes its lines. -/
theorem executeFile_savedText (c : CConsole) (ClientId : Int) {lines : List CString}
    (h : ∀ line ∈ lines, SavedLine line) :
    ExecuteFile c ClientId (savedText lines) =
      lines.flatMap fun line => c.ExecuteLine line ClientId := by
  rw [ExecuteFile, dropBom_savedText h, validLines_savedText h]

end Fex.Engine.Console
