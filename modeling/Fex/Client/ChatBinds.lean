import Fex.Base.Truncation
import Fex.Engine.Server

/-!
# Chat binds

Model of `CBindchat`.  A message that starts with the name of a bind executes its command.  The
file of the binds and the drawing of the menu are left out.
-/

namespace Fex.Client.ChatBinds

open Fex.Base Fex.Engine.Server

def BINDCHAT_MAX_NAME : Nat := 64

def BINDCHAT_MAX_CMD : Nat := 1024

def BINDCHAT_MAX_BINDS : Nat := 256

structure CBind where
  m_aName : CString
  m_aCommand : CString
  m_Default : Bool
  deriving DecidableEq

/-! ## The list of binds -/

def CBind.new (pName pCommand : CString) (Default : Bool) : CBind where
  m_aName := str_copy pName BINDCHAT_MAX_NAME
  m_aCommand := str_copy pCommand BINDCHAT_MAX_CMD
  m_Default := Default

def RemoveBind (m_vBinds : List CBind) (pName : CString) : List CBind :=
  if pName = [] then m_vBinds else m_vBinds.eraseP fun b => b.m_aName = pName

def RemoveBindCommand (m_vBinds : List CBind) (pCommand : CString) : List CBind :=
  if pCommand = [] then m_vBinds else m_vBinds.eraseP fun b => b.m_aCommand = pCommand

def RemoveBindIndex (m_vBinds : List CBind) (Index : Int) : List CBind :=
  if Index ≥ m_vBinds.length ∨ Index < 0 then m_vBinds else m_vBinds.eraseIdx Index.toNat

def AddBind (m_vBinds : List CBind) (pName pCommand : CString) : List CBind :=
  if (pName = [] ∧ pCommand = []) ∨ m_vBinds.length ≥ BINDCHAT_MAX_BINDS then m_vBinds
  -- prevent duplicates
  else RemoveBind m_vBinds pName ++ [.new pName pCommand false]

def AddBindDefault (m_vBinds : List CBind) (pName pCommand : CString) : List CBind :=
  if (pName = [] ∧ pCommand = []) ∨ m_vBinds.length ≥ BINDCHAT_MAX_BINDS then m_vBinds
  else m_vBinds ++ [.new pName pCommand true]

/-- A change of the list. -/
inductive Edit
  | addBind (pName pCommand : CString)
  | addBindDefault (pName pCommand : CString)
  | removeBind (pName : CString)
  | removeBindCommand (pCommand : CString)
  | removeBindIndex (Index : Int)
  | removeAllBinds

def Edit.apply (m_vBinds : List CBind) : Edit → List CBind
  | .addBind pName pCommand => AddBind m_vBinds pName pCommand
  | .addBindDefault pName pCommand => AddBindDefault m_vBinds pName pCommand
  | .removeBind pName => RemoveBind m_vBinds pName
  | .removeBindCommand pCommand => RemoveBindCommand m_vBinds pCommand
  | .removeBindIndex Index => RemoveBindIndex m_vBinds Index
  | .removeAllBinds => []

/-- The list after some changes. -/
def built (edits : List Edit) : List CBind := edits.foldl Edit.apply []

/-! ## Messages -/

/-- `str_comp_nocase_num` finds no difference. -/
def str_comp_nocase_num (a b : CString) (num : Nat) : Bool :=
  (a.take num).map toLower = (b.take num).map toLower

def str_startswith_nocase (str : CString) (start : CString) : Bool :=
  str_comp_nocase_num str start start.length

/-- The position of the first space, or the length. -/
def SpaceIndex (pText : CString) : Nat := (pText.takeWhile (· ≠ 32)).length

/-- What is behind the first space. -/
def arguments (pText : CString) : Option CString :=
  if 32 ∈ pText then some (pText.drop (SpaceIndex pText + 1)) else none

/-- The line that is executed. -/
def ExecuteBind (Bind : CBind) (pArgs : Option CString) : CString :=
  let aBuf := str_append [] Bind.m_aCommand BINDCHAT_MAX_CMD
  match pArgs with
  | none => aBuf
  | some pArgs => str_append (str_append aBuf [32] BINDCHAT_MAX_CMD) pArgs BINDCHAT_MAX_CMD

def CheckBindChat (m_vBinds : List CBind) (pText : CString) : Bool :=
  m_vBinds.any fun Bind => str_comp_nocase_num pText Bind.m_aName (SpaceIndex pText)

/-- The condition of the loop of `ChatDoBinds`. -/
def CBind.matchesText (Bind : CBind) (pText : CString) : Bool :=
  str_startswith_nocase pText Bind.m_aName &&
    str_comp_nocase_num pText Bind.m_aName (SpaceIndex pText)

/-- The bind that is executed with its line, the new entry of the history and what is returned. -/
structure Outcome where
  executed : Option (Nat × CString)
  history : Option CString
  result : Bool

def ChatDoBinds (ClSendExclamation : Bool) (m_vBinds : List CBind) (pText : CString) : Outcome :=
  let nothing : Outcome := { executed := none, history := none, result := false }
  if pText.head? = some 32 ∨ pText.length ≤ 1 then nothing
  else
    let IsExclemataion := pText.head? = some 33 ∧ ClSendExclamation
    match m_vBinds.findIdx? (CBind.matchesText · pText) with
    | none => nothing
    | some i =>
        match m_vBinds[i]? with
        | none => nothing
        | some Bind =>
            { executed := some (i, ExecuteBind Bind (arguments pText))
              -- an entry has room for the text
              history := some (str_copy pText (pText.length + 1))
              result := ¬IsExclemataion }

/-! ## What a message means -/

/-- The text up to the first space. -/
def word (pText : CString) : CString := pText.take (SpaceIndex pText)

/-- The name is the first word of the text, up to the case of letters. -/
def CBind.named (Bind : CBind) (pText : CString) : Bool :=
  Bind.m_aName.map toLower = (word pText).map toLower

/-- The command with the rest of the text. -/
def commandLine (Bind : CBind) (pArgs : Option CString) : CString :=
  match pArgs with
  | none => Bind.m_aCommand
  | some pArgs => Bind.m_aCommand ++ 32 :: pArgs

/-- Both functions agree on the text, and the bind that is executed is the first of that name and
gets its whole command line if there is room for it. -/
def Agrees (ClSendExclamation : Bool) (m_vBinds : List CBind) (pText : CString) : Prop :=
  (CheckBindChat m_vBinds pText = true ↔
    (ChatDoBinds ClSendExclamation m_vBinds pText).executed ≠ none) ∧
  ∀ i line, (ChatDoBinds ClSendExclamation m_vBinds pText).executed = some (i, line) →
    m_vBinds.findIdx? (CBind.named · pText) = some i ∧
    ∀ Bind, m_vBinds[i]? = some Bind →
      (commandLine Bind (arguments pText)).length < BINDCHAT_MAX_CMD →
      line = commandLine Bind (arguments pText)

/-- No cut at a character changes the command or its line. -/
def Whole (Bind : CBind) (pArgs : Option CString) : Prop :=
  str_utf8_fix_truncation Bind.m_aCommand = Bind.m_aCommand ∧
    str_utf8_fix_truncation (commandLine Bind pArgs) = commandLine Bind pArgs

/-- The text has one meaning.  Where a bind has its first word as name, no bind before it matches
and its line is whole; elsewhere no name begins with the word. -/
def Clear (m_vBinds : List CBind) (pText : CString) : Prop :=
  match m_vBinds.findIdx? (CBind.named · pText) with
  | none => ∀ Bind ∈ m_vBinds,
      str_comp_nocase_num pText Bind.m_aName (SpaceIndex pText) = false
  | some i =>
      (∀ Bind ∈ m_vBinds.take i, Bind.matchesText pText = false) ∧
      ∀ Bind, m_vBinds[i]? = some Bind →
        (commandLine Bind (arguments pText)).length < BINDCHAT_MAX_CMD →
        Whole Bind (arguments pText)

/-! ## The line -/

theorem executeBind_none {Bind : CBind} (h : Bind.m_aCommand.length < BINDCHAT_MAX_CMD) :
    ExecuteBind Bind none = str_utf8_fix_truncation Bind.m_aCommand :=
  str_append_fits (by simpa using h)

theorem executeBind_some {Bind : CBind} {pArgs : CString}
    (h : Bind.m_aCommand.length + pArgs.length + 1 < BINDCHAT_MAX_CMD) :
    ExecuteBind Bind (some pArgs) =
      str_utf8_fix_truncation (str_utf8_fix_truncation Bind.m_aCommand ++ 32 :: pArgs) := by
  have hcut := length_fix_truncation Bind.m_aCommand
  unfold ExecuteBind
  rw [str_append_fits (by rw [List.length_nil]; omega), List.nil_append]
  simp only
  have hblank : str_append (str_utf8_fix_truncation Bind.m_aCommand) [32] BINDCHAT_MAX_CMD =
      str_utf8_fix_truncation (str_utf8_fix_truncation Bind.m_aCommand ++ [32]) :=
    str_append_fits (by rw [List.length_singleton]; omega)
  rw [hblank, fix_truncation_ascii _ (by decide),
    str_append_fits (by simp only [List.length_append, List.length_singleton]; omega),
    List.append_assoc]
  rfl

/-- A line with room is whole exactly if no cut at a character changes it. -/
theorem executeBind_eq_iff {Bind : CBind} {pArgs : Option CString}
    (h : (commandLine Bind pArgs).length < BINDCHAT_MAX_CMD) :
    ExecuteBind Bind pArgs = commandLine Bind pArgs ↔ Whole Bind pArgs := by
  unfold Whole
  cases pArgs with
  | none =>
      rw [executeBind_none h]
      exact (and_self_iff).symm
  | some pArgs =>
      simp only [commandLine, List.length_append, List.length_cons] at h ⊢
      rw [executeBind_some (by omega)]
      constructor
      · intro hline
        have hcommand : str_utf8_fix_truncation Bind.m_aCommand = Bind.m_aCommand := by
          apply (prefix_fix_truncation _).eq_of_length_le
          have hlen := length_fix_truncation (str_utf8_fix_truncation Bind.m_aCommand ++ 32 :: pArgs)
          rw [hline, List.length_append, List.length_append] at hlen
          omega
        rw [hcommand] at hline
        exact ⟨hcommand, hline⟩
      · rintro ⟨hcommand, hline⟩
        rw [hcommand, hline]

/-! ## Names -/

theorem length_word (pText : CString) : (word pText).length = SpaceIndex pText := by
  unfold word SpaceIndex
  rw [List.length_take]
  exact Nat.min_eq_left (List.takeWhile_prefix _).length_le

/-- The bind that has the first word as name matches. -/
theorem CBind.matches_of_named {Bind : CBind} {pText : CString} (h : Bind.named pText = true) :
    Bind.matchesText pText = true := by
  have hname := of_decide_eq_true h
  have hlen : Bind.m_aName.length = SpaceIndex pText := by
    have := congrArg List.length hname
    rwa [List.length_map, List.length_map, length_word] at this
  have hsame : str_comp_nocase_num pText Bind.m_aName (SpaceIndex pText) = true := by
    apply decide_eq_true
    rw [List.take_of_length_le (l := Bind.m_aName) (Nat.le_of_eq hlen), hname]
    rfl
  unfold CBind.matchesText str_startswith_nocase
  rw [hlen, hsame]
  rfl

theorem CBind.begins_of_matches {Bind : CBind} {pText : CString}
    (h : Bind.matchesText pText = true) :
    str_comp_nocase_num pText Bind.m_aName (SpaceIndex pText) = true := by
  unfold CBind.matchesText at h
  rw [Bool.and_eq_true] at h
  exact h.2

/-- What `ChatDoBinds` executes. -/
theorem executed_eq {pText : CString} (hlen : 2 ≤ pText.length) (hspace : pText.head? ≠ some 32)
    (ClSendExclamation : Bool) (m_vBinds : List CBind) :
    (ChatDoBinds ClSendExclamation m_vBinds pText).executed =
      (m_vBinds.findIdx? (CBind.matchesText · pText)).bind fun i =>
        m_vBinds[i]?.map fun Bind => (i, ExecuteBind Bind (arguments pText)) := by
  unfold ChatDoBinds
  rw [if_neg (by rintro (h | h); exacts [hspace h, by omega])]
  cases m_vBinds.findIdx? (CBind.matchesText · pText) with
  | none => rfl
  | some i =>
      simp only [Option.bind_some]
      cases m_vBinds[i]? with
      | none => rfl
      | some Bind => rfl

/-- Recognition and execution agree exactly on the texts that are clear. -/
theorem agrees_iff (edits : List Edit) (ClSendExclamation : Bool) {pText : CString}
    (hlen : 2 ≤ pText.length) (hspace : pText.head? ≠ some 32) :
    Agrees ClSendExclamation (built edits) pText ↔ Clear (built edits) pText := by
  generalize built edits = m_vBinds
  unfold Agrees Clear
  rw [executed_eq hlen hspace]
  cases hnamed : m_vBinds.findIdx? (CBind.named · pText) with
  | none =>
      simp only
      constructor
      · rintro ⟨hcheck, hfirst⟩ Bind hmem
        by_contra hbegins
        have hany : CheckBindChat m_vBinds pText = true :=
          List.any_eq_true.mpr ⟨Bind, hmem, by simpa using hbegins⟩
        obtain ⟨⟨i, line⟩, hexecuted⟩ := Option.ne_none_iff_exists'.mp (hcheck.mp hany)
        cases (hfirst i line hexecuted).1
      · intro hclear
        have hcheck : CheckBindChat m_vBinds pText = false := by
          rw [CheckBindChat, List.any_eq_false]
          intro Bind hmem
          rw [hclear Bind hmem]
          exact Bool.false_ne_true
        have hmatches : m_vBinds.findIdx? (CBind.matchesText · pText) = none := by
          rw [List.findIdx?_eq_none_iff]
          intro Bind hmem
          by_contra hmatch
          have := CBind.begins_of_matches (by simpa using hmatch)
          rw [hclear Bind hmem] at this
          cases this
        rw [hcheck, hmatches]
        refine ⟨⟨fun h => absurd h Bool.false_ne_true, fun h => absurd rfl h⟩, ?_⟩
        intro i line h
        cases h
  | some i =>
      obtain ⟨hi, hname, -⟩ := List.findIdx?_eq_some_iff_getElem.mp hnamed
      have hbind : m_vBinds[i]? = some m_vBinds[i] := List.getElem?_eq_getElem hi
      have hmatch := CBind.matches_of_named hname
      have hcheck : CheckBindChat m_vBinds pText = true :=
        List.any_eq_true.mpr ⟨_, List.getElem_mem hi, CBind.begins_of_matches hmatch⟩
      simp only
      constructor
      · rintro ⟨-, hfirst⟩
        cases hmatches : m_vBinds.findIdx? (CBind.matchesText · pText) with
        | none =>
            have := List.findIdx?_eq_none_iff.mp hmatches _ (List.getElem_mem hi)
            rw [hmatch] at this
            cases this
        | some j =>
            obtain ⟨hj, -, hbefore⟩ := List.findIdx?_eq_some_iff_getElem.mp hmatches
            have hexecuted := hfirst j (ExecuteBind m_vBinds[j] (arguments pText)) (by
              rw [hmatches, Option.bind_some, List.getElem?_eq_getElem hj, Option.map_some])
            obtain rfl := Option.some.inj hexecuted.1
            constructor
            · intro Bind hmem
              obtain ⟨k, hk, rfl⟩ := List.mem_take_iff_getElem.mp hmem
              simpa using hbefore k (by omega)
            · intro Bind hbind' hroom
              obtain rfl := Option.some.inj (hbind.symm.trans hbind')
              exact (executeBind_eq_iff hroom).mp (hexecuted.2 _ hbind hroom)
      · rintro ⟨hbefore, hwhole⟩
        have hmatches : m_vBinds.findIdx? (CBind.matchesText · pText) = some i := by
          rw [List.findIdx?_eq_some_iff_getElem]
          refine ⟨hi, hmatch, fun j hj => ?_⟩
          rw [hbefore _ (List.mem_take_iff_getElem.mpr ⟨j, by omega, rfl⟩)]
          exact Bool.false_ne_true
        rw [hmatches, Option.bind_some, hbind, Option.map_some, hcheck]
        refine ⟨⟨fun _ => Option.some_ne_none _, fun _ => rfl⟩, ?_⟩
        intro j line hexecuted
        obtain ⟨rfl, rfl⟩ := Prod.mk.inj (Option.some.inj hexecuted)
        refine ⟨rfl, fun Bind hbind' hroom => ?_⟩
        obtain rfl := Option.some.inj (hbind.symm.trans hbind')
        exact (executeBind_eq_iff hroom).mpr (hwhole _ hbind hroom)

/-- `!war` is known and `!w` is not a bind. -/
def warBinds : List Edit := [.addBindDefault [33, 119, 97, 114] [119]]

theorem agrees_iff_war :
    Agrees false (built warBinds) [33, 119, 97, 114, 32, 120] ↔
      Clear (built warBinds) [33, 119, 97, 114, 32, 120] :=
  agrees_iff warBinds false (by decide) (by decide)

/-- The start of a name is taken for a bind. -/
theorem not_agrees_start : ¬ Agrees false (built warBinds) [33, 119] := by
  rintro ⟨hcheck, -⟩
  exact hcheck.mp (by decide) (by decide)

end Fex.Client.ChatBinds
