import Fex.Engine.Console.Commands
import Fex.Engine.Server.RconSync
import Mathlib.Data.List.Lex

/-!
# The loops over the list of commands

What the loops of the console do to a list of linked commands: a command is put before the first
one with a name that is not less, the first temporary one with a name is taken out, and all of
them are.
-/

namespace Fex.Engine.Console.Commands

open Fex.Lib Server

/-! ## Names -/

/-- The bytes of a name as numbers. -/
def nameKey (s : CString) : List Nat := s.map UInt8.toNat

theorem nameKey_inj {a b : CString} (h : nameKey a = nameKey b) : a = b :=
  List.map_injective_iff.mpr (fun _ _ => UInt8.toNat_inj.mp) h

theorem str_comp_nonpos_iff {a b : CString} (ha : 0 ∉ a) (hb : 0 ∉ b) :
    str_comp a b ≤ 0 ↔ nameKey a ≤ nameKey b := by
  induction a generalizing b with
  | nil =>
      apply iff_of_true
      · cases b with
        | nil => exact Int.le_refl 0
        | cons y b =>
            show -(y.toNat : Int) ≤ 0
            omega
      · exact not_lt.mp (List.not_lt_nil (nameKey b))
  | cons x a ih =>
      have hx : x.toNat ≠ 0 := fun h => ha (by
        rw [UInt8.toNat_inj.mp (h.trans UInt8.toNat_zero.symm)]
        exact List.mem_cons_self)
      cases b with
      | nil =>
          apply iff_of_false
          · show ¬ (x.toNat : Int) ≤ 0
            omega
          · exact not_le.mpr (List.nil_lt_cons x.toNat (nameKey a))
      | cons y b =>
          have hrest := ih (fun h => ha (List.mem_cons_of_mem _ h))
            (fun h => hb (List.mem_cons_of_mem _ h))
          have hcons : nameKey (y :: b) < nameKey (x :: a) ↔
              y.toNat < x.toNat ∨ y.toNat = x.toNat ∧ nameKey b < nameKey a := List.cons_lt_cons_iff
          rw [← not_lt (a := nameKey (y :: b)), hcons, str_comp]
          by_cases hxy : x = y
          · rw [if_pos hxy, hrest, hxy, ← not_lt]
            simp
          · have hne : x.toNat ≠ y.toNat := fun h => hxy (UInt8.toNat_inj.mp h)
            rw [if_neg hxy]
            omega

theorem str_comp_eq_zero_iff {a b : CString} (ha : 0 ∉ a) (hb : 0 ∉ b) :
    str_comp a b = 0 ↔ a = b := by
  have hab := str_comp_nonpos_iff ha hb
  have hba := str_comp_nonpos_iff hb ha
  have hswap := str_comp_swap a b
  constructor
  · intro h
    exact nameKey_inj (le_antisymm (hab.mp (by omega)) (hba.mp (by omega)))
  · intro h
    rw [h]
    have hself := str_comp_swap b b
    omega

/-- The order of the list. -/
def NameLe (a b : CCommand) : Prop := nameKey a.m_pName ≤ nameKey b.m_pName

theorem NameLe.trans {a b d : CCommand} (hab : NameLe a b) (hbd : NameLe b d) : NameLe a d :=
  le_trans (α := List Nat) hab hbd

theorem NameLe.of_not {a b : CCommand} (h : ¬ NameLe a b) : NameLe b a :=
  le_of_lt (α := List Nat) (not_le.mp h)

/-! ## Memory -/

namespace CConsole

theorem deref_eq {c : CConsole} {p : Nat} {n : Node Nat CCommand} (h : c.memory p = some n) :
    c.deref p = .ok n := by
  unfold deref
  rw [h]

theorem setNext_eq {c : CConsole} {p : Nat} {n : Node Nat CCommand} (h : c.memory p = some n)
    (q : Option Nat) : c.setNext p q = .ok (c.write p { n with next := q }) := by
  unfold setNext
  rw [deref_eq h]
  rfl

/-! ## Insertion -/

/-- The addresses of a list. -/
abbrev addrs (l : List (Nat × CCommand)) : List Nat := l.map Prod.fst

/-- A command is linked between a node and what comes behind it. -/
theorem insert_here {c : CConsole} {pCommand p : Nat} {command d : CCommand} {m q : Option Nat}
    {l : List (Nat × CCommand)} (hnew : c.memory pCommand = some { data := command, next := m })
    (hnode : c.memory p = some { data := d, next := q }) (hlist : Seg c.memory q l none)
    (hp : p ∉ addrs l) (hne : p ≠ pCommand) (hcommand : pCommand ∉ addrs l) :
    ∃ mem', ((c.setNext pCommand q).bind fun c => c.setNext p (some pCommand)) =
        .ok { c with memory := mem' } ∧
      Seg mem' (some p) ((p, d) :: (pCommand, command) :: l) none ∧
      ∀ a, a ≠ pCommand → a ≠ p → mem' a = c.memory a := by
  have hnode' : (c.write pCommand { data := command, next := q }).memory p =
      some { data := d, next := q } := by
    show Function.update _ _ _ _ = _
    rw [Function.update_of_ne hne]
    exact hnode
  refine ⟨Function.update (Function.update c.memory pCommand (some { data := command, next := q })) p
    (some { data := d, next := some pCommand }), ?_, ?_, fun a ha ha' => ?_⟩
  · rw [setNext_eq hnew]
    show setNext _ p _ = _
    rw [setNext_eq hnode']
    rfl
  · have hcons := @Seg.cons _ _ _ _ _ _ (pCommand, command) _ hlist hcommand
    refine @Seg.link _ _ _ _ _ _ _ (p, d) _ rfl hcons ?_
    intro hmem
    rcases List.mem_cons.mp hmem with heq | hmem
    · exact hne heq
    · exact hp hmem
  · rw [Function.update_of_ne ha', Function.update_of_ne ha]

/-- The command is put before the first one with a name that is not less. -/
theorem insertLoop_spec {c : CConsole} {pCommand : Nat} {command : CCommand} {m : Option Nat}
    (hnew : c.memory pCommand = some { data := command, next := m }) (hname : 0 ∉ command.m_pName)
    {l : List (Nat × CCommand)} (fuel p : Nat) (d : CCommand) (hfuel : l.length < fuel)
    (hlist : Seg c.memory (some p) ((p, d) :: l) none) (hnodup : (addrs ((p, d) :: l)).Nodup)
    (hcommand : pCommand ∉ addrs ((p, d) :: l)) (hnames : ∀ x ∈ l, 0 ∉ x.2.m_pName) :
    ∃ mem' as bs, c.insertLoop pCommand command.m_pName fuel p = .ok { c with memory := mem' } ∧
      l = as ++ bs ∧ (∀ a ∈ as, ¬ NameLe command a.2) ∧ (∀ b ∈ bs.head?, NameLe command b.2) ∧
      Seg mem' (some p) ((p, d) :: (as ++ (pCommand, command) :: bs)) none ∧
      ∀ q, q ≠ pCommand → q ∉ addrs ((p, d) :: l) → mem' q = c.memory q := by
  induction l generalizing fuel p d with
  | nil =>
      cases fuel with
      | zero => exact absurd hfuel (Nat.not_lt_zero _)
      | succ fuel =>
          obtain ⟨-, n, hn, hrest⟩ := hlist
          have hne : p ≠ pCommand := fun h => hcommand (h ▸ List.mem_cons_self)
          obtain ⟨mem', hrun, hlist', hsame⟩ := insert_here hnew hn hrest List.not_mem_nil hne
            List.not_mem_nil
          have hnone : n = none := hrest
          refine ⟨mem', [], [], ?_, rfl, fun _ h => absurd h List.not_mem_nil,
            fun _ h => absurd h (Option.not_mem_none _), hlist', fun q hq hmem => ?_⟩
          · rw [hnone] at hn hrun
            rw [insertLoop, deref_eq hn]
            exact hrun
          · exact hsame q hq fun h => hmem (h ▸ List.mem_cons_self)
  | cons y l ih =>
      cases fuel with
      | zero => exact absurd hfuel (Nat.not_lt_zero _)
      | succ fuel =>
          obtain ⟨-, n, hn, hrest⟩ := hlist
          have hnext : n = some y.1 := hrest.head
          obtain ⟨m', hy, -⟩ := hrest.2
          have hne : p ≠ pCommand := fun h => hcommand (h ▸ List.mem_cons_self)
          have hcommand' : pCommand ∉ addrs (y :: l) := fun h => hcommand (List.mem_cons_of_mem _ h)
          have hp : p ∉ addrs (y :: l) := (List.nodup_cons.mp hnodup).1
          have hle := str_comp_nonpos_iff hname (hnames y List.mem_cons_self)
          have hnext' := hnext ▸ hn
          have hrun : c.insertLoop pCommand command.m_pName (fuel + 1) p =
              if str_comp command.m_pName y.2.m_pName ≤ 0 then
                (c.setNext pCommand (some y.1)).bind fun c => c.setNext p (some pCommand)
              else c.insertLoop pCommand command.m_pName fuel y.1 := by
            rw [insertLoop, deref_eq hnext']
            simp only [bind, Except.bind, deref_eq hy]
          rw [hrun]
          rw [hnext] at hn hrest
          by_cases hcomp : str_comp command.m_pName y.2.m_pName ≤ 0
          · rw [if_pos hcomp]
            obtain ⟨mem', hrun', hlist', hsame⟩ := insert_here hnew hn hrest hp hne hcommand'
            refine ⟨mem', [], y :: l, hrun', rfl, fun _ h => absurd h List.not_mem_nil,
              fun b hb => ?_, hlist', fun q hq hmem => ?_⟩
            · rw [← Option.some.inj hb]
              exact hle.mp hcomp
            · exact hsame q hq fun h => hmem (h ▸ List.mem_cons_self)
          · rw [if_neg hcomp]
            obtain ⟨mem', as, bs, hrun', hsplit, hbefore, hafter, hlist', hsame⟩ :=
              ih fuel y.1 y.2 (Nat.lt_of_succ_lt_succ hfuel) hrest (List.nodup_cons.mp hnodup).2
                hcommand' fun x hx => hnames x (List.mem_cons_of_mem _ hx)
            refine ⟨mem', y :: as, bs, hrun', by rw [hsplit, List.cons_append], fun a ha => ?_,
              hafter, ⟨rfl, some y.1, ?_, hlist'⟩, fun q hq hmem => ?_⟩
            · rcases List.mem_cons.mp ha with rfl | ha
              · exact fun h => hcomp (hle.mpr h)
              · exact hbefore a ha
            · rw [hsame p hne hp]
              exact hn
            · exact hsame q hq fun h => hmem (List.mem_cons_of_mem _ h)

/-- A command goes to its place in a sorted list, unless it comes before a single one. -/
theorem AddCommandSorted_spec {c : CConsole} {pCommand : Nat} {command : CCommand} {m : Option Nat}
    (hnew : c.memory pCommand = some { data := command, next := m }) (hname : 0 ∉ command.m_pName)
    {l : List (Nat × CCommand)} (hlist : Seg c.memory c.m_pFirstCommand l none)
    (hnodup : (addrs l).Nodup) (hcommand : pCommand ∉ addrs l) (hnames : ∀ x ∈ l, 0 ∉ x.2.m_pName)
    (hsorted : l.Pairwise fun x y => NameLe x.2 y.2) (hlength : l.length ≤ c.allocated)
    (hkeep : ∀ y, l = [y] → ¬ NameLe command y.2) :
    ∃ mem' first' as bs,
      c.AddCommandSorted pCommand = .ok { c with memory := mem', m_pFirstCommand := first' } ∧
      l = as ++ bs ∧ (∀ a ∈ as, ¬ NameLe command a.2) ∧ (∀ b ∈ bs, NameLe command b.2) ∧
      Seg mem' first' (as ++ (pCommand, command) :: bs) none ∧
      ∀ q, q ≠ pCommand → q ∉ addrs l → mem' q = c.memory q := by
  have hall : ∀ {as bs : List (Nat × CCommand)}, l = as ++ bs →
      (∀ b ∈ bs.head?, NameLe command b.2) → ∀ b ∈ bs, NameLe command b.2 := by
    intro as bs hsplit hhead b hb
    cases bs with
    | nil => exact absurd hb List.not_mem_nil
    | cons y bs =>
        rw [hsplit, List.pairwise_append] at hsorted
        have hy := hhead y rfl
        rcases List.mem_cons.mp hb with rfl | hb
        · exact hy
        · exact hy.trans ((List.pairwise_cons.mp hsorted.2.1).1 b hb)
  cases l with
  | nil =>
      have hfirst : c.m_pFirstCommand = none := hlist
      refine ⟨Function.update c.memory pCommand (some { data := command, next := none }),
        some pCommand, [], [], ?_, rfl, fun _ h => absurd h List.not_mem_nil,
        fun _ h => absurd h List.not_mem_nil, ⟨rfl, none, Function.update_self .., rfl⟩,
        fun q hq _ => Function.update_of_ne hq _ _⟩
      unfold AddCommandSorted
      rw [deref_eq hnew, hfirst]
      simp only [bind, Except.bind]
      rw [setNext_eq hnew]
      rfl
  | cons y l =>
      have hfirst : c.m_pFirstCommand = some y.1 := hlist.head
      obtain ⟨-, n, hy, hrest⟩ := hlist
      have hle := str_comp_nonpos_iff hname (hnames y List.mem_cons_self)
      have hrun : c.AddCommandSorted pCommand =
          if str_comp command.m_pName y.2.m_pName ≤ 0 then
            (c.setNext pCommand (if n.isSome then some y.1 else none)).bind fun c =>
              .ok { c with m_pFirstCommand := some pCommand }
          else c.insertLoop pCommand command.m_pName c.allocated y.1 := by
        unfold AddCommandSorted
        rw [deref_eq hnew, hfirst]
        simp only [bind, Except.bind, deref_eq hy]
        rfl
      rw [hrun]
      by_cases hcomp : str_comp command.m_pName y.2.m_pName ≤ 0
      · have hsome : n.isSome = true := by
          cases l with
          | nil => exact absurd (hle.mp hcomp) (hkeep y rfl)
          | cons z l =>
              rw [hrest.head]
              rfl
        have hlist : Seg c.memory (some y.1) (y :: l) none := ⟨rfl, n, hy, hrest⟩
        rw [if_pos hcomp, if_pos hsome, setNext_eq hnew]
        refine ⟨_, some pCommand, [], y :: l, rfl, rfl, fun _ h => absurd h List.not_mem_nil,
          @hall [] (y :: l) rfl fun b hb => ?_, @Seg.cons _ _ _ _ _ _ (pCommand, command) _ hlist hcommand,
          fun q hq _ => Function.update_of_ne hq _ _⟩
        rw [← Option.some.inj hb]
        exact hle.mp hcomp
      · have hlist : Seg c.memory (some y.1) ((y.1, y.2) :: l) none := ⟨rfl, n, hy, hrest⟩
        rw [if_neg hcomp]
        obtain ⟨mem', as, bs, hloop, hsplit, hbefore, hafter, hlist', hsame⟩ :=
          insertLoop_spec hnew hname c.allocated y.1 y.2 hlength hlist hnodup hcommand
            fun x hx => hnames x (List.mem_cons_of_mem _ hx)
        refine ⟨mem', c.m_pFirstCommand, y :: as, bs, hloop, by rw [hsplit, List.cons_append],
          fun a ha => ?_, @hall (y :: as) bs (by rw [hsplit, List.cons_append]) hafter, ?_, hsame⟩
        · rcases List.mem_cons.mp ha with rfl | ha
          · exact fun h => hcomp (hle.mpr h)
          · exact hbefore a ha
        · rw [hfirst]
          exact hlist'

/-! ## Removal -/

/-- The command with this name that `DeregisterTemp` takes out. -/
def Matches (pName : CString) (d : CCommand) : Prop := d.m_Temp = true ∧ d.m_pName = pName

/-- The first match behind a node is taken out, if there is one. -/
theorem removeLoop_spec {c : CConsole} {pName : CString} (hname : 0 ∉ pName)
    {l : List (Nat × CCommand)} (fuel p : Nat) (d : CCommand) (hfuel : l.length < fuel)
    (hlist : Seg c.memory (some p) ((p, d) :: l) none) (hnodup : (addrs ((p, d) :: l)).Nodup)
    (hnames : ∀ x ∈ l, 0 ∉ x.2.m_pName) :
    (c.removeLoop pName fuel p = .ok (c, none) ∧ ∀ x ∈ l, ¬ Matches pName x.2) ∨
    ∃ mem' as y bs, c.removeLoop pName fuel p = .ok ({ c with memory := mem' }, some y.1) ∧
      l = as ++ y :: bs ∧ (∀ a ∈ as, ¬ Matches pName a.2) ∧ Matches pName y.2 ∧
      Seg mem' (some p) ((p, d) :: (as ++ bs)) none ∧
      ∀ q, q ∉ addrs ((p, d) :: as) → mem' q = c.memory q := by
  induction l generalizing fuel p d with
  | nil =>
      cases fuel with
      | zero => exact absurd hfuel (Nat.not_lt_zero _)
      | succ fuel =>
          obtain ⟨-, n, hn, hrest⟩ := hlist
          have hnone : n = none := hrest
          rw [hnone] at hn
          left
          refine ⟨?_, fun _ h => absurd h List.not_mem_nil⟩
          rw [removeLoop, deref_eq hn]
          rfl
  | cons y l ih =>
      cases fuel with
      | zero => exact absurd hfuel (Nat.not_lt_zero _)
      | succ fuel =>
          obtain ⟨-, n, hn, hrest⟩ := hlist
          have hnext : n = some y.1 := hrest.head
          obtain ⟨m', hy, hrest'⟩ := hrest.2
          have hp : p ∉ addrs (y :: l) := (List.nodup_cons.mp hnodup).1
          rw [hnext] at hn hrest
          have heq := str_comp_eq_zero_iff (hnames y List.mem_cons_self) hname
          have hrun : c.removeLoop pName (fuel + 1) p =
              if y.2.m_Temp = true ∧ str_comp y.2.m_pName pName = 0 then
                (c.setNext p m').bind fun c => .ok (c, some y.1)
              else c.removeLoop pName fuel y.1 := by
            rw [removeLoop, deref_eq hn]
            simp only [bind, Except.bind, deref_eq hy]
            rfl
          have hcond : y.2.m_Temp = true ∧ str_comp y.2.m_pName pName = 0 ↔ Matches pName y.2 :=
            and_congr_right fun _ => heq
          rw [hrun]
          by_cases hmatch : Matches pName y.2
          · rw [if_pos (hcond.mpr hmatch), setNext_eq hn]
            right
            refine ⟨_, [], y, l, rfl, rfl, fun _ h => absurd h List.not_mem_nil, hmatch,
              @Seg.link _ _ _ _ _ _ _ (p, d) _ rfl hrest' fun h => hp (List.mem_cons_of_mem _ h),
              fun q hq => ?_⟩
            have hne : q ≠ p := fun h => hq (List.mem_cons.mpr (.inl h))
            exact Function.update_of_ne hne _ _
          · rw [if_neg fun h => hmatch (hcond.mp h)]
            rcases ih fuel y.1 y.2 (Nat.lt_of_succ_lt_succ hfuel) hrest (List.nodup_cons.mp hnodup).2
                fun x hx => hnames x (List.mem_cons_of_mem _ hx) with
              ⟨hloop, hno⟩ | ⟨mem', as, z, bs, hloop, hsplit, hno, hz, hlist', hsame⟩
            · left
              refine ⟨hloop, fun x hx => ?_⟩
              rcases List.mem_cons.mp hx with rfl | hx
              · exact hmatch
              · exact hno x hx
            · right
              refine ⟨mem', y :: as, z, bs, hloop, by rw [hsplit, List.cons_append], fun a ha => ?_, hz,
                ⟨rfl, some y.1, ?_, hlist'⟩, fun q hq => ?_⟩
              · rcases List.mem_cons.mp ha with rfl | ha
                · exact hmatch
                · exact hno a ha
              · have hp' : p ∉ addrs (y :: as) := by
                  intro h
                  apply hp
                  rw [hsplit]
                  rcases List.mem_cons.mp h with h | h
                  · exact h ▸ List.mem_cons_self
                  · apply List.mem_cons_of_mem
                    rw [List.map_append]
                    exact List.mem_append_left _ h
                rw [hsame p hp']
                exact hn
              · exact hsame q fun h => hq (List.mem_cons_of_mem _ h)

/-! ## Removal of all temporary commands -/

/-- The command is temporary. -/
def isTemp (x : Nat × CCommand) : Bool := x.2.m_Temp

/-- The permanent commands of a list. -/
abbrev permanents (l : List (Nat × CCommand)) : List (Nat × CCommand) :=
  l.filter fun x => !isTemp x

theorem skipTemp_spec {c : CConsole} {s : Option Nat} {l : List (Nat × CCommand)} (fuel : Nat)
    (hfuel : l.length ≤ fuel) (hlist : Seg c.memory s l none) :
    ∃ s', c.skipTemp fuel s = .ok s' ∧
      Seg c.memory s' (l.dropWhile isTemp) none := by
  induction l generalizing fuel s with
  | nil =>
      have hs : s = none := hlist
      rw [hs]
      refine ⟨none, ?_, rfl⟩
      cases fuel <;> rfl
  | cons x l ih =>
      cases fuel with
      | zero => exact absurd hfuel (Nat.not_succ_le_zero _)
      | succ fuel =>
          obtain ⟨hs, n, hn, hrest⟩ := hlist
          rw [hs]
          unfold skipTemp
          rw [deref_eq hn]
          simp only [bind, Except.bind]
          show ∃ s', (if isTemp x = true then _ else Except.ok (some x.1)) = _ ∧ _
          by_cases htemp : isTemp x = true
          · rw [if_pos htemp, List.dropWhile_cons_of_pos htemp]
            exact ih fuel (Nat.le_of_succ_le_succ hfuel) hrest
          · rw [if_neg htemp, List.dropWhile_cons_of_neg htemp]
            exact ⟨some x.1, rfl, rfl, n, hn, hrest⟩

theorem permanents_cons_temp {x : Nat × CCommand} (h : isTemp x = true)
    (l : List (Nat × CCommand)) : permanents (x :: l) = permanents l :=
  List.filter_cons_of_neg (by rw [h]; decide)

theorem permanents_cons {x : Nat × CCommand} (h : isTemp x = false) (l : List (Nat × CCommand)) :
    permanents (x :: l) = x :: permanents l :=
  List.filter_cons_of_pos (by rw [h]; rfl)

theorem permanents_dropWhile (l : List (Nat × CCommand)) :
    permanents (l.dropWhile isTemp) = permanents l := by
  induction l with
  | nil => rfl
  | cons x l ih =>
      by_cases htemp : isTemp x = true
      · rw [List.dropWhile_cons_of_pos htemp, ih, permanents_cons_temp htemp]
      · rw [List.dropWhile_cons_of_neg htemp]

/-- One turn of the loop links a command to the next permanent one. -/
theorem relinkLoop_turn {c : CConsole} {x y : Nat × CCommand} {l : List (Nat × CCommand)}
    (fuel : Nat) (hallocated : (y :: l).length ≤ c.allocated) {s : Option Nat}
    (hlist : Seg c.memory s (x :: y :: l) none) (hx : x.1 ∉ addrs (y :: l)) :
    ∃ mem' s', c.relinkLoop (fuel + 1) s = { c with memory := mem' }.relinkLoop fuel s' ∧
      Seg mem' s' ((y :: l).dropWhile isTemp) none ∧
      mem' x.1 = some { data := x.2, next := s' } ∧ ∀ q, q ≠ x.1 → mem' q = c.memory q := by
  obtain ⟨hs, next, hnode, hrest⟩ := hlist
  have hnext : next = some y.1 := hrest.head
  obtain ⟨m, hy, -⟩ := hrest.2
  rw [hnext] at hnode hrest
  have hrun : c.relinkLoop (fuel + 1) s =
      if isTemp y = true then
        (c.skipTemp c.allocated (some y.1)).bind fun s' =>
          (c.setNext x.1 s').bind fun c => c.relinkLoop fuel s'
      else c.relinkLoop fuel (some y.1) := by
    rw [hs, relinkLoop, deref_eq hnode]
    simp only [bind, Except.bind, deref_eq hy]
    rfl
  rw [hrun]
  by_cases htemp : isTemp y = true
  · obtain ⟨s', hskip, hlist'⟩ := skipTemp_spec c.allocated hallocated hrest
    have hx' : x.1 ∉ addrs ((y :: l).dropWhile isTemp) := fun h => hx
      (((List.dropWhile_suffix isTemp).sublist.map Prod.fst).subset h)
    refine ⟨Function.update c.memory x.1 (some { data := x.2, next := s' }), s', ?_,
      hlist'.update hx' _, Function.update_self .., fun q hq => Function.update_of_ne hq _ _⟩
    rw [if_pos htemp, hskip]
    show (c.setNext x.1 s').bind _ = _
    rw [setNext_eq hnode]
    rfl
  · rw [if_neg htemp, List.dropWhile_cons_of_neg htemp]
    exact ⟨c.memory, some y.1, rfl, hrest, hnode, fun _ _ => rfl⟩

/-- From a permanent command on the temporary ones are taken out. -/
theorem relinkLoop_spec {c : CConsole} {s : Option Nat} {l : List (Nat × CCommand)} (fuel : Nat)
    (hfuel : l.length ≤ fuel) (hallocated : l.length ≤ c.allocated)
    (hlist : Seg c.memory s l none) (hnodup : (addrs l).Nodup)
    (hhead : ∀ x ∈ l.head?, isTemp x = false) :
    ∃ mem', c.relinkLoop fuel s = .ok { c with memory := mem' } ∧
      Seg mem' s (permanents l) none ∧ ∀ q, q ∉ addrs l → mem' q = c.memory q := by
  induction hn : l.length using Nat.strongRecOn generalizing c s l fuel with
  | ind n ih =>
      cases l with
      | nil =>
          have hs : s = none := hlist
          refine ⟨c.memory, ?_, hlist, fun _ _ => rfl⟩
          rw [hs]
          cases fuel <;> rfl
      | cons x l =>
          cases fuel with
          | zero => exact absurd hfuel (Nat.not_succ_le_zero _)
          | succ fuel =>
              rw [permanents_cons (hhead x rfl)]
              cases l with
              | nil =>
                  obtain ⟨hs, next, hnode, hrest⟩ := hlist
                  have hnext : next = none := hrest
                  refine ⟨c.memory, ?_, ⟨hs, next, hnode, hrest⟩, fun _ _ => rfl⟩
                  rw [hnext] at hnode
                  rw [hs, relinkLoop, deref_eq hnode]
                  rfl
              | cons y l =>
                  have hx : x.1 ∉ addrs (y :: l) := (List.nodup_cons.mp hnodup).1
                  have hs := hlist.head
                  have hsub : (y :: l).dropWhile isTemp <:+ y :: l := List.dropWhile_suffix isTemp
                  have hlength := hsub.length_le
                  have hsubset := (hsub.sublist.map Prod.fst).subset
                  rw [List.length_cons] at hfuel hallocated hn
                  obtain ⟨mem₁, s', hturn, hlist₁, hnode, hsame₁⟩ :=
                    relinkLoop_turn fuel (by omega) hlist hx
                  have hhead' : ∀ z ∈ ((y :: l).dropWhile isTemp).head?, isTemp z = false := by
                    intro z hz
                    have hnot := List.head?_dropWhile_not isTemp (y :: l)
                    rw [hz] at hnot
                    exact hnot
                  obtain ⟨mem', hrun, hlist', hsame⟩ := @ih ((y :: l).dropWhile isTemp).length
                    (by omega) { c with memory := mem₁ } s' _ fuel (by omega)
                    (show _ ≤ c.allocated by omega) hlist₁ ((hsub.sublist.map Prod.fst).nodup (List.nodup_cons.mp hnodup).2) hhead' rfl
                  rw [permanents_dropWhile] at hlist'
                  refine ⟨mem', hturn.trans hrun, ⟨hs, s', ?_, hlist'⟩, fun q hq => ?_⟩
                  · exact (hsame x.1 fun h => hx (hsubset h)).trans hnode
                  · have hq' : q ≠ x.1 := fun h => hq (List.mem_cons.mpr (.inl h))
                    exact (hsame q fun h => hq (List.mem_cons_of_mem _ (hsubset h))).trans
                      (hsame₁ q hq')

end CConsole

end Fex.Engine.Console.Commands
