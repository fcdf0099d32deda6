import Fex.Engine.Config
import Fex.Engine.Console.Saved
import Fex.Lib.Run

/-!
# Map settings

Model of the remembered values of config variables, of `Con_Reset`, `Con_Toggle`, `Con_ToggleStroke`
and `SetValue`, which execute a line of their own, and of `ResetGameSettings`.  Colors are parsed in
floating point, `colors` is what comes out of it.
-/

namespace Fex.Engine.Config

open Fex.Lib Fex.Base Server Console

def CMDLINE_LENGTH : Nat := 512

structure SColorConfigVariable where
  m_pScriptName : CString
  m_Flags : Nat
  m_ReadOnly : Bool
  m_pVariable : Nat
  m_Default : Nat

/-- A variable and the value that is remembered for it. -/
inductive Setting
  | int (v : SIntConfigVariable) (m_OldValue : Int)
  | color (v : SColorConfigVariable) (m_OldValue : Nat)
  | string (v : SStringConfigVariable) (m_pOldValue : CString)

inductive Value
  | int (n : Int)
  | color (n : Nat)
  | string (s : CString)
  deriving DecidableEq

/-- The packed color of a text, for the flags of a variable, and that of `ColorHSLA(0, 0, 0)`. -/
structure Colors where
  GetColor : Nat → CString → Option Nat
  black : Nat → Nat

namespace Setting

def m_pScriptName : Setting → CString
  | int v _ => v.m_pScriptName
  | color v _ => v.m_pScriptName
  | string v _ => v.m_pScriptName

def m_Flags : Setting → Nat
  | int v _ => v.m_Flags
  | color v _ => v.m_Flags
  | string v _ => v.m_Flags

def m_ReadOnly : Setting → Bool
  | int v _ => v.m_ReadOnly
  | color v _ => v.m_ReadOnly
  | string v _ => v.m_ReadOnly

def setReadOnly (ReadOnly : Bool) : Setting → Setting
  | int v old => int { v with m_ReadOnly := ReadOnly } old
  | color v old => color { v with m_ReadOnly := ReadOnly } old
  | string v old => string { v with m_ReadOnly := ReadOnly } old

def IsGame (v : Setting) : Prop := v.m_Flags &&& CFGFLAG_GAME ≠ 0

instance (v : Setting) : Decidable v.IsGame := inferInstanceAs (Decidable (_ ≠ _))

def value : Setting → Value
  | int v _ => .int v.m_pVariable
  | color v _ => .color v.m_pVariable
  | string v _ => .string v.m_pStr

/-- What `ResetToDefault` hands to `SetValue`. -/
def default : Setting → Value
  | int v _ => .int v.m_Default
  | color v _ => .color v.m_Default
  | string v _ => .string v.m_pDefault

/-- Arguments that change the variable. -/
def Assigns (colors : Colors) (args : List CString) (v : Setting) : Bool :=
  match args with
  | [] => false
  | arg :: _ =>
      !v.m_ReadOnly &&
        match v with
        | int _ _ => true
        | color v _ => (colors.GetColor v.m_Flags arg).isSome
        | string _ _ => true

def CommandCallback (colors : Colors) (args : List CString) (m_ClientId : Int) :
    Setting → Setting
  | int v old =>
      if args = [] ∨ v.m_ReadOnly then int v old
      else
        let v := v.CommandCallback args
        int v (if m_ClientId ≠ CLIENT_ID_GAME then v.m_pVariable else old)
  | color v old =>
      match args with
      | [] => color v old
      | arg :: _ =>
          if v.m_ReadOnly then color v old
          else
            match colors.GetColor v.m_Flags arg with
            | none => color v old
            | some Value =>
                color { v with m_pVariable := Value }
                  (if m_ClientId ≠ CLIENT_ID_GAME then Value else old)
  | string v old =>
      if args = [] ∨ v.m_ReadOnly then string v old
      else
        let v := v.CommandCallback args
        string v (if m_ClientId ≠ CLIENT_ID_GAME then str_copy v.m_pStr v.m_MaxSize else old)

/-- The line of a value, `none` for a value of another type. -/
def Serialize : Setting → Value → Option CString
  | int v _, .int n => some ({ v with m_pVariable := n }.Serialize CMDLINE_LENGTH)
  | color v _, .color n => some (str_utf8_fix_truncation
      ((v.m_pScriptName ++ 32 :: formatInt n).take (CMDLINE_LENGTH - 1)))
  | string v _, .string s => some (v.Serialize LINE_SIZE s)
  | _, _ => none

def ResetToOld : Setting → Setting
  | int v old => int { v with m_pVariable := old } old
  | color v old => color { v with m_pVariable := old } old
  | string v old => string { v with m_pStr := str_copy old v.m_MaxSize } old

/-- A variable that was just registered. -/
def init : Setting → Setting
  | int v _ => int { v with m_pVariable := v.m_Default, m_ReadOnly := false } v.m_Default
  | color v _ => color { v with m_pVariable := v.m_Default, m_ReadOnly := false } v.m_Default
  | string v _ =>
      string { v with m_pStr := str_copy v.m_pDefault v.m_MaxSize, m_ReadOnly := false }
        (str_copy v.m_pDefault v.m_MaxSize)

end Setting

/-- A string that is reset between maps. -/
def Setting.isGameString : Setting → Bool
  | .string v _ => v.m_Flags &&& CFGFLAG_GAME ≠ 0
  | _ => false

/-- A variable and the value of the last assignment to it that did not come from a map. -/
structure Tracked where
  setting : Setting
  last : Value

/-- An assignment, the value is recorded if it does not come from a map. -/
def Tracked.assign (colors : Colors) (args : List CString) (ClientId : Int) (fromMap : Bool)
    (t : Tracked) : Tracked :=
  let v := t.setting.CommandCallback colors args ClientId
  ⟨v, if t.setting.Assigns colors args ∧ fromMap = false then v.value else t.last⟩

/-- Text for a string that is reset between maps is in UTF-8. -/
def Tracked.Clean (t : Tracked) (args : List CString) : Prop :=
  t.setting.isGameString = true → ∀ arg ∈ args.head?, Text arg

/-- The callbacks of the commands of the console. -/
inductive Callback
  /-- The one of a variable. -/
  | assign (k : Nat)
  | Con_Reset
  | Con_Toggle
  | Con_ToggleStroke
  | other

/-- The console does not change, `callback` belongs to the command with a number. -/
structure CConfigManager where
  m_pConsole : Console.CConsole
  callback : Nat → Callback
  colors : Colors

namespace CConfigManager

variable (m : CConfigManager)

/-- `SConfigVariable::ExecuteLine`.  The line names a variable, so that it reaches no other
callback. -/
def ExecuteLine (v : Setting) (pLine : CString) (s : List Tracked) : List Tracked :=
  let ClientId := if v.IsGame then CLIENT_ID_GAME else -1
  (m.m_pConsole.ExecuteLine pLine ClientId).foldl (fun s call =>
    match m.callback call.1 with
    | .assign k => s.modify k (Tracked.assign m.colors call.2 ClientId false)
    | _ => s) s

def SetValue (k : Nat) (Value : Value) (s : List Tracked) : List Tracked :=
  match s[k]? with
  | none => s
  | some t =>
      if t.setting.m_ReadOnly then s
      else
        match t.setting.Serialize Value with
        | none => s
        | some aBuf => m.ExecuteLine t.setting aBuf s

def ResetToDefault (k : Nat) (s : List Tracked) : List Tracked :=
  match s[k]? with
  | none => s
  | some t => m.SetValue k t.setting.default s

/-- The first variable with the name that the loops of the commands find. -/
def find (p : Setting → Bool) (pScriptName : CString) (s : List Tracked) : Option Nat :=
  s.findIdx? fun t =>
    t.setting.m_Flags &&& m.m_pConsole.m_FlagMask ≠ 0 && p t.setting &&
      str_comp pScriptName t.setting.m_pScriptName = 0

def GetColor (v : SColorConfigVariable) (arg : CString) : Nat :=
  (m.colors.GetColor v.m_Flags arg).getD (m.colors.black v.m_Flags)

/-- The variable and the value of the `SetValue` that a command calls. -/
def settles (args : List CString) (s : List Tracked) : Callback → Option (Nat × Value)
  | .Con_Reset => do
      let k ← m.find (fun _ => true) (GetString args 0) s
      let t ← s[k]?
      return (k, t.setting.default)
  | .Con_Toggle => do
      let k ← m.find (fun _ => true) (GetString args 0) s
      let t ← s[k]?
      match t.setting with
      | .int v _ =>
          let EqualToFirst := v.m_pVariable = GetInteger args 1
          return (k, .int (GetInteger args (if EqualToFirst then 2 else 1)))
      | .color v _ =>
          let EqualToFirst := v.m_pVariable = m.GetColor v (GetString args 1)
          return (k, .color (m.GetColor v (GetString args (if EqualToFirst then 2 else 1))))
      | .string v _ =>
          let EqualToFirst := str_comp v.m_pStr (GetString args 1) = 0
          return (k, .string (GetString args (if EqualToFirst then 2 else 1)))
  | .Con_ToggleStroke => do
      let k ← m.find (fun v => v matches .int _ _) (GetString args 1) s
      return (k, .int (if GetInteger args 0 = 0 then GetInteger args 3 else GetInteger args 2))
  | _ => none

def ResetGameSettings (s : List Tracked) : List Tracked :=
  s.map fun t => if t.setting.IsGame then { t with setting := t.setting.ResetToOld } else t

/-! ## Runs -/

/-- A line is the sequence of the calls that it makes. -/
inductive Event
  | call (call : Call) (ClientId : Int)
  | SetValue (k : Nat) (Value : Value)
  | ResetToDefault (k : Nat)
  | SetReadOnly (k : Nat) (ReadOnly : Bool)
  | ResetGameSettings

def step (s : List Tracked) : Event → List Tracked
  | .call (i, args) ClientId =>
      match m.callback i with
      | .assign k =>
          s.modify k (Tracked.assign m.colors args ClientId (ClientId = CLIENT_ID_GAME))
      | c =>
          match m.settles args s c with
          | none => s
          | some (k, Value) => m.SetValue k Value s
  | .SetValue k Value => m.SetValue k Value s
  | .ResetToDefault k => m.ResetToDefault k s
  | .SetReadOnly k ReadOnly =>
      s.modify k fun t => { t with setting := t.setting.setReadOnly ReadOnly }
  | .ResetGameSettings => ResetGameSettings s

/-! ## The condition -/

/-- `SetValue` is for a variable that is not for maps, or that cannot be changed. -/
def Outside (k : Nat) (Value : Value) (s : List Tracked) : Prop :=
  ∀ t, s[k]? = some t → t.setting.m_ReadOnly = true ∨ ¬ t.setting.IsGame ∧
    ∀ aBuf, t.setting.Serialize Value = some aBuf → ∀ call ∈ m.m_pConsole.ExecuteLine aBuf (-1),
      ∀ k', m.callback call.1 = .assign k' → ∀ t', s[k']? = some t' → t'.Clean call.2

def Guard (s : List Tracked) : Event → Prop
  | .call (i, args) _ =>
      match m.callback i with
      | .assign k => ∀ t, s[k]? = some t → t.Clean args
      | c => ∀ k Value, m.settles args s c = some (k, Value) → m.Outside k Value s
  | .SetValue k Value => m.Outside k Value s
  | .ResetToDefault k => ∀ t, s[k]? = some t → m.Outside k t.setting.default s
  | _ => True

end CConfigManager

/-! ## One assignment -/

/-- A text that was cut is copied as it is. -/
theorem str_copy_str_copy {arg : CString} (h : Text arg) (n : Nat) :
    str_copy (str_copy arg n) n = str_copy arg n := by
  obtain ⟨-, -, hcopy, hle, -⟩ := h.str_copy n
  exact hcopy.str_copy_self hle

/-- `ResetToOld` gives the value that was recorded. -/
def Tracked.Restores (t : Tracked) : Prop :=
  t.setting.IsGame → t.setting.ResetToOld.value = t.last

/-- What a callback does to a variable that it changes. -/
inductive Setting.Changed (colors : Colors) (args : List CString) (id : Int) :
    Setting → Setting → Prop
  | int {v : SIntConfigVariable} {old n : Int} :
      Changed colors args id (.int v old) (.int { v with m_pVariable := n }
        (if id ≠ CLIENT_ID_GAME then n else old))
  | color {v : SColorConfigVariable} {old n : Nat} :
      Changed colors args id (.color v old) (.color { v with m_pVariable := n }
        (if id ≠ CLIENT_ID_GAME then n else old))
  | string {v : SStringConfigVariable} {old arg : CString} (harg : args.head? = some arg) :
      Changed colors args id (.string v old)
        (.string { v with m_pStr := str_copy arg v.m_MaxSize }
          (if id ≠ CLIENT_ID_GAME then str_copy (str_copy arg v.m_MaxSize) v.m_MaxSize else old))

/-- A callback changes a variable exactly if the arguments assign to it. -/
theorem Setting.callback_cases (colors : Colors) (args : List CString) (id : Int) (v : Setting) :
    v.Assigns colors args = false ∧ v.CommandCallback colors args id = v ∨
    v.Assigns colors args = true ∧ Changed colors args id v (v.CommandCallback colors args id) := by
  cases args with
  | nil => exact .inl ⟨rfl, by cases v <;> rfl⟩
  | cons arg rest =>
      cases hread : v.m_ReadOnly with
      | true =>
          refine .inl ⟨by unfold Assigns; rw [hread]; rfl, ?_⟩
          cases v with
          | int v old => exact if_pos (.inr hread)
          | color v old => exact if_pos hread
          | string v old => exact if_pos (.inr hread)
      | false =>
          have hassigns : ∀ b, (!v.m_ReadOnly && b) = b := fun b => by rw [hread]; rfl
          have hread' : ¬ (v.m_ReadOnly : Prop) := fun h => Bool.false_ne_true (hread.symm.trans h)
          cases v with
          | int v old =>
              have hcallback : v.CommandCallback (arg :: rest) =
                  { v with m_pVariable := v.clamp (wrap32 (strtol arg).1) } := if_neg hread'
              have heq : (int v old).CommandCallback colors (arg :: rest) id =
                  int (v.CommandCallback (arg :: rest)) (if id ≠ CLIENT_ID_GAME then
                    (v.CommandCallback (arg :: rest)).m_pVariable else old) :=
                if_neg (not_or.mpr ⟨List.cons_ne_nil _ _, hread'⟩)
              rw [heq, hcallback]
              exact .inr ⟨hassigns true, .int⟩
          | color v old =>
              have heq : (color v old).CommandCallback colors (arg :: rest) id =
                  match colors.GetColor v.m_Flags arg with
                  | none => color v old
                  | some Value => color { v with m_pVariable := Value }
                      (if id ≠ CLIENT_ID_GAME then Value else old) := if_neg hread'
              rw [heq]
              cases hcolor : colors.GetColor v.m_Flags arg with
              | none => exact .inl ⟨(hassigns _).trans (congrArg Option.isSome hcolor), rfl⟩
              | some n => exact .inr ⟨(hassigns _).trans (congrArg Option.isSome hcolor), .color⟩
          | string v old =>
              have hcallback : v.CommandCallback (arg :: rest) =
                  { v with m_pStr := str_copy arg v.m_MaxSize } := if_neg hread'
              have heq : (string v old).CommandCallback colors (arg :: rest) id =
                  string (v.CommandCallback (arg :: rest)) (if id ≠ CLIENT_ID_GAME then
                    str_copy (v.CommandCallback (arg :: rest)).m_pStr
                      (v.CommandCallback (arg :: rest)).m_MaxSize else old) :=
                if_neg (not_or.mpr ⟨List.cons_ne_nil _ _, hread'⟩)
              rw [heq, hcallback]
              exact .inr ⟨hassigns true, .string rfl⟩

theorem Setting.isGameString_callback (colors : Colors) (args : List CString) (id : Int)
    (v : Setting) : (v.CommandCallback colors args id).isGameString = v.isGameString := by
  rcases v.callback_cases colors args id with ⟨-, heq⟩ | ⟨-, hchanged⟩
  · rw [heq]
  · generalize v.CommandCallback colors args id = w at hchanged ⊢
    cases hchanged <;> rfl

theorem Setting.m_Flags_callback (colors : Colors) (args : List CString) (id : Int)
    (v : Setting) : (v.CommandCallback colors args id).m_Flags = v.m_Flags := by
  rcases v.callback_cases colors args id with ⟨-, heq⟩ | ⟨-, hchanged⟩
  · rw [heq]
  · generalize v.CommandCallback colors args id = w at hchanged ⊢
    cases hchanged <;> rfl

theorem Setting.callback_of_not_assigns {colors : Colors} {args : List CString} {v : Setting}
    (h : v.Assigns colors args = false) (id : Int) : v.CommandCallback colors args id = v := by
  rcases v.callback_cases colors args id with ⟨-, heq⟩ | ⟨hassigns, -⟩
  · exact heq
  · exact absurd (h.symm.trans hassigns) Bool.false_ne_true

/-- A map does not change what is remembered. -/
theorem Setting.callback_game (colors : Colors) (args : List CString) (v : Setting) :
    (v.CommandCallback colors args CLIENT_ID_GAME).ResetToOld.value = v.ResetToOld.value := by
  rcases v.callback_cases colors args CLIENT_ID_GAME with ⟨-, heq⟩ | ⟨-, hchanged⟩
  · rw [heq]
  · generalize v.CommandCallback colors args CLIENT_ID_GAME = w at hchanged ⊢
    cases hchanged <;> rfl

/-- Others do. -/
theorem Setting.callback_restores {colors : Colors} {args : List CString} {v : Setting}
    (hassigns : v.Assigns colors args = true) {id : Int} (hid : id ≠ CLIENT_ID_GAME)
    (hclean : v.isGameString = true → ∀ arg ∈ args.head?, Text arg) (hgame : v.IsGame) :
    (v.CommandCallback colors args id).ResetToOld.value =
      (v.CommandCallback colors args id).value := by
  rcases v.callback_cases colors args id with ⟨hnot, -⟩ | ⟨-, hchanged⟩
  · exact absurd (hnot.symm.trans hassigns) Bool.false_ne_true
  generalize v.CommandCallback colors args id = w at hchanged ⊢
  cases hchanged with
  | int => exact congrArg Value.int (if_pos hid)
  | color => exact congrArg Value.color (if_pos hid)
  | @string v old arg harg =>
      have htext := hclean (decide_eq_true hgame) arg harg
      change Value.string (str_copy (ite _ _ _) _) = Value.string _
      rw [if_pos hid, str_copy_str_copy htext, str_copy_str_copy htext]

theorem Tracked.Restores.assign {colors : Colors} {args : List CString} {id : Int}
    {fromMap : Bool} {t : Tracked} (h : t.Restores) (hclean : t.Clean args)
    (hid : id = CLIENT_ID_GAME ↔ fromMap = true) :
    (t.assign colors args id fromMap).Restores := by
  intro hgame
  have hgame' : t.setting.IsGame := by
    unfold Setting.IsGame at hgame ⊢
    rwa [Tracked.assign, Setting.m_Flags_callback] at hgame
  unfold Tracked.assign
  cases hassigns : t.setting.Assigns colors args with
  | false =>
      rw [Setting.callback_of_not_assigns hassigns]
      simp only [Bool.false_eq_true, false_and, if_false]
      exact h hgame'
  | true =>
      cases fromMap with
      | true =>
          obtain rfl := hid.mpr rfl
          simp only [Bool.true_eq_false, and_false, if_false, Setting.callback_game]
          exact h hgame'
      | false =>
          have hid' : id ≠ CLIENT_ID_GAME := fun heq => Bool.false_ne_true (hid.mp heq)
          simp only [true_and, if_true]
          exact Setting.callback_restores hassigns hid' hclean hgame'

theorem Setting.ResetToOld_ResetToOld (v : Setting) : v.ResetToOld.ResetToOld = v.ResetToOld := by
  cases v <;> rfl

theorem Setting.m_Flags_ResetToOld (v : Setting) : v.ResetToOld.m_Flags = v.m_Flags := by
  cases v <;> rfl

theorem Tracked.Restores.resetToOld {t : Tracked} (h : t.Restores) :
    Tracked.Restores { t with setting := t.setting.ResetToOld } := by
  intro hgame
  have hgame' : t.setting.IsGame := by
    unfold Setting.IsGame at hgame ⊢
    rwa [Setting.m_Flags_ResetToOld] at hgame
  change t.setting.ResetToOld.ResetToOld.value = t.last
  rw [Setting.ResetToOld_ResetToOld]
  exact h hgame'

theorem Tracked.Restores.setReadOnly {t : Tracked} (h : t.Restores) (ReadOnly : Bool) :
    Tracked.Restores { t with setting := t.setting.setReadOnly ReadOnly } := by
  obtain ⟨v, last⟩ := t
  cases v <;> exact h

/-! ## Runs -/

theorem forall_mem_modify {α : Type} {P : α → Prop} {l : List α} (h : ∀ a ∈ l, P a) {k : Nat}
    {f : α → α} (hf : ∀ a, l[k]? = some a → P (f a)) : ∀ a ∈ l.modify k f, P a := by
  intro a ha
  obtain ⟨i, hi⟩ := List.mem_iff_getElem?.mp ha
  rw [List.getElem?_modify] at hi
  obtain ⟨b, hb, rfl⟩ := Option.map_eq_some_iff.mp hi
  split
  next hk => exact hf b (hk ▸ hb)
  · exact h b (List.mem_of_getElem? hb)

namespace CConfigManager

variable {m : CConfigManager}

/-- The lines of variables that are not for maps. -/
theorem foldl_restores {calls : List Call} {s : List Tracked}
    (h : ∀ t ∈ s, t.Restores)
    (hclean : ∀ call ∈ calls, ∀ k, m.callback call.1 = .assign k → ∀ t, s[k]? = some t →
      t.Clean call.2) :
    ∀ t ∈ calls.foldl (fun s call =>
      match m.callback call.1 with
      | .assign k => s.modify k (Tracked.assign m.colors call.2 (-1) false)
      | _ => s) s, t.Restores := by
  induction calls generalizing s with
  | nil => exact h
  | cons call calls ih =>
      rw [List.foldl_cons]
      cases hcallback : m.callback call.1 with
      | assign k =>
          refine ih ?_ ?_
          · refine forall_mem_modify h fun t ht => ?_
            exact (h t (List.mem_of_getElem? ht)).assign
              (hclean call (List.mem_cons_self ..) k hcallback t ht) (by decide)
          · intro next hnext k' hk' t ht
            rw [List.getElem?_modify] at ht
            obtain ⟨t', ht', rfl⟩ := Option.map_eq_some_iff.mp ht
            have hclean' := hclean next (List.mem_cons_of_mem _ hnext) k' hk' t' ht'
            split
            · intro hstring
              rw [Tracked.assign, Setting.isGameString_callback] at hstring
              exact hclean' hstring
            · exact hclean'
      | Con_Reset => exact ih h fun next hnext => hclean next (List.mem_cons_of_mem _ hnext)
      | Con_Toggle => exact ih h fun next hnext => hclean next (List.mem_cons_of_mem _ hnext)
      | Con_ToggleStroke => exact ih h fun next hnext => hclean next (List.mem_cons_of_mem _ hnext)
      | other => exact ih h fun next hnext => hclean next (List.mem_cons_of_mem _ hnext)

theorem SetValue_restores {k : Nat} {Value : Value} {s : List Tracked}
    (h : ∀ t ∈ s, t.Restores) (houtside : m.Outside k Value s) :
    ∀ t ∈ m.SetValue k Value s, t.Restores := by
  unfold SetValue
  cases ht : s[k]? with
  | none => exact h
  | some t =>
      by_cases hread : t.setting.m_ReadOnly = true
      · simp only [if_pos hread]
        exact h
      · obtain ⟨hgame, hclean⟩ := (houtside t ht).resolve_left hread
        simp only [if_neg hread]
        cases hline : t.setting.Serialize Value with
        | none => exact h
        | some aBuf =>
            simp only [ExecuteLine, if_neg hgame]
            exact foldl_restores h (hclean aBuf hline)

theorem ResetToDefault_restores {k : Nat} {s : List Tracked} (h : ∀ t ∈ s, t.Restores)
    (houtside : ∀ t, s[k]? = some t → m.Outside k t.setting.default s) :
    ∀ t ∈ m.ResetToDefault k s, t.Restores := by
  unfold ResetToDefault
  cases ht : s[k]? with
  | none => exact h
  | some t => exact SetValue_restores h (houtside t ht)

theorem settles_restores {c : Callback} {args : List CString} {s : List Tracked}
    (h : ∀ t ∈ s, t.Restores)
    (houtside : ∀ k Value, m.settles args s c = some (k, Value) → m.Outside k Value s) :
    ∀ t ∈ (match m.settles args s c with
      | none => s
      | some (k, Value) => m.SetValue k Value s), t.Restores := by
  cases hset : m.settles args s c with
  | none => exact h
  | some r => exact SetValue_restores h (houtside r.1 r.2 hset)

/-- One step. -/
theorem step_restores {s : List Tracked} {e : Event} (h : ∀ t ∈ s, t.Restores)
    (hguard : m.Guard s e) : ∀ t ∈ m.step s e, t.Restores := by
  cases e with
  | call call ClientId =>
      obtain ⟨i, args⟩ := call
      cases hcallback : m.callback i with
      | assign k =>
          simp only [Guard, hcallback] at hguard
          simp only [step, hcallback]
          refine forall_mem_modify h fun t ht => ?_
          exact (h t (List.mem_of_getElem? ht)).assign (hguard t ht) decide_eq_true_iff.symm
      | Con_Reset =>
          simp only [Guard, hcallback] at hguard
          simp only [step, hcallback]
          exact settles_restores h hguard
      | Con_Toggle =>
          simp only [Guard, hcallback] at hguard
          simp only [step, hcallback]
          exact settles_restores h hguard
      | Con_ToggleStroke =>
          simp only [Guard, hcallback] at hguard
          simp only [step, hcallback]
          exact settles_restores h hguard
      | other =>
          simp only [Guard, hcallback] at hguard
          simp only [step, hcallback]
          exact settles_restores h hguard
  | SetValue k Value => exact SetValue_restores h hguard
  | ResetToDefault k => exact ResetToDefault_restores h hguard
  | SetReadOnly k ReadOnly =>
      exact forall_mem_modify h fun t ht => (h t (List.mem_of_getElem? ht)).setReadOnly ReadOnly
  | ResetGameSettings =>
      intro t ht
      obtain ⟨t', ht', rfl⟩ := List.mem_map.mp ht
      split
      · exact (h t' ht').resetToOld
      · exact h t' ht'

/-- The variables as they are registered. -/
def Registered (s : List Tracked) : Prop :=
  ∀ t ∈ s, ∃ v : Setting, t = ⟨v.init, v.init.value⟩ ∧
    (v.isGameString = true → ∀ arg, v.default = .string arg → Text arg)

theorem Registered.restores {s : List Tracked} (h : Registered s) : ∀ t ∈ s, t.Restores := by
  intro t ht hgame
  obtain ⟨v, rfl, hdefault⟩ := h t ht
  cases v with
  | int v old => rfl
  | color v old => rfl
  | string v old =>
      have htext := hdefault (decide_eq_true hgame) v.m_pDefault rfl
      exact congrArg Value.string (str_copy_str_copy htext v.m_MaxSize)

/-- Without map settings every variable has the value of the last assignment from elsewhere. -/
def Undone (s : List Tracked) : Prop :=
  (ResetGameSettings s).map (fun t => t.setting.value) =
    s.map fun t => if t.setting.IsGame then t.last else t.setting.value

theorem undone_of_restores {s : List Tracked} (h : ∀ t ∈ s, t.Restores) : Undone s := by
  unfold Undone ResetGameSettings
  rw [List.map_map]
  refine List.map_congr_left fun t ht => ?_
  simp only [Function.comp]
  split
  next hgame => exact h t ht hgame
  · rfl

/-- In a run that uses `SetValue` only for other variables map settings are undone. -/
theorem undone {s₀ s : List Tracked} (h₀ : Registered s₀)
    (h : Reachable (fun s e => .ok (m.step s e)) m.Guard s₀ s) : Undone s := by
  have hrestores : ∀ t ∈ s, t.Restores := by
    refine @Reachable.invariant _ _ _ _ _ _ (∀ t ∈ ·, t.Restores) h h₀.restores ?_
    intro s t e hs hguard ht
    obtain rfl := Except.ok.inj ht
    exact step_restores hs hguard
  exact undone_of_restores hrestores

end CConfigManager

/-! ## A variable of a server -/

def sv_hit : CString := "sv_hit".toUTF8.data.toList

/-- The console of a server with a game variable and `reset`. -/
def hitManager : CConfigManager := {
  m_pConsole := {
    commands := [⟨sv_hit, [], [63, 105], 4 ||| CFGFLAG_GAME, false, 0⟩,
      ⟨"reset".toUTF8.data.toList, [], [115], 14, false, 0⟩]
    m_FlagMask := 4
    m_AccessLevel := 0
    m_StoreCommands := false
    m_SvTestingCommands := false
    IsColor := fun _ => false
    validFloat := fun _ => false
  }
  callback := fun i => if i = 0 then .assign 0 else .Con_Reset
  colors := ⟨fun _ _ => none, fun _ => 0⟩
}

def hitSettings : List Tracked :=
  [⟨.int ⟨sv_hit, 4 ||| CFGFLAG_GAME, false, 1, 1, 0, 1⟩ 1, .int 1⟩]

theorem registered_hitSettings : CConfigManager.Registered hitSettings := by
  intro t ht
  obtain rfl := List.mem_singleton.mp ht
  exact ⟨.int ⟨sv_hit, 4 ||| CFGFLAG_GAME, false, 1, 1, 0, 1⟩ 1, rfl, nofun⟩

/-- A map sets the variable. -/
theorem undone_hit :
    CConfigManager.Undone (hitManager.step hitSettings (.call (0, [[48]]) CLIENT_ID_GAME)) := by
  refine CConfigManager.undone (m := hitManager) registered_hitSettings (.next _ .init ?_ rfl)
  intro t ht hstring
  obtain rfl := Option.some.inj ht
  cases hstring

/-- `sv_hit 0` and `reset sv_hit` from the remote console: the next map starts with 0. -/
theorem reset_forgotten :
    hitManager.m_pConsole.ExecuteLine "sv_hit 0".toUTF8.data.toList (-1) = [(0, [[48]])] ∧
    hitManager.m_pConsole.ExecuteLine "reset sv_hit".toUTF8.data.toList (-1) = [(1, [sv_hit])] ∧
    (([.call (0, [[48]]) (-1), .call (1, [sv_hit]) (-1)] : List CConfigManager.Event).foldl
      hitManager.step hitSettings).map (fun t => (t.setting.value, t.last)) =
        [(.int 1, .int 1)] ∧
    (([.call (0, [[48]]) (-1), .call (1, [sv_hit]) (-1), .ResetGameSettings] :
      List CConfigManager.Event).foldl hitManager.step hitSettings).map
        (fun t => (t.setting.value, t.last)) = [(.int 0, .int 1)] ∧
    ¬ CConfigManager.Undone (([.call (0, [[48]]) (-1), .call (1, [sv_hit]) (-1)] :
      List CConfigManager.Event).foldl hitManager.step hitSettings) := by
  refine ⟨by decide +kernel, by decide +kernel, by decide +kernel, by decide +kernel, ?_⟩
  unfold CConfigManager.Undone
  decide +kernel

end Fex.Engine.Config
