import Fex.Base.Characters
import Fex.Engine.Console.Sorting
import Fex.Lib.Run
import Mathlib.Data.List.Perm.Basic

/-!
# The commands that are registered

The list of the console has the commands that were registered and not removed, in the order of
their names, as long as no command is put in front of a single one and no registration finds a
command that is there.
-/

namespace Fex.Engine.Console.Commands

open Fex.Lib Fex.Base Server

/-! ## The table -/

/-- The permanent commands that were registered and the temporary ones that were not removed, the
last one first. -/
structure Table where
  perms : List CCommand
  temps : List CCommand

def hasName (n : CString) (d : CCommand) : Bool := d.m_pName = n

def Table.step (t : Table) : CConsole.Event → Table
  | .Register pName pParams Flags pHelp =>
      { t with
        perms := CConsole.permanent pName pParams Flags pHelp
          (if Flags &&& CFGFLAG_CHAT ≠ 0 then ACCESS_LEVEL_USER else ACCESS_LEVEL_ADMIN) :: t.perms }
  | .RegisterTemp pName pParams Flags pHelp =>
      { t with temps := CConsole.temporary pName pParams Flags pHelp ACCESS_LEVEL_ADMIN :: t.temps }
  | .DeregisterTemp pName => { t with temps := t.temps.eraseP (hasName pName) }
  | .DeregisterTempAll => { t with temps := [] }

def Table.add (t : Table) (d : CCommand) : Table :=
  if d.m_Temp then { t with temps := d :: t.temps } else { t with perms := d :: t.perms }

theorem Table.step_register (t : Table) (pName pParams : CString) (Flags : Nat) (pHelp : CString) :
    t.step (.Register pName pParams Flags pHelp) =
      t.add (CConsole.permanent pName pParams Flags pHelp
        (if Flags &&& CFGFLAG_CHAT ≠ 0 then ACCESS_LEVEL_USER else ACCESS_LEVEL_ADMIN)) := rfl

theorem Table.step_registerTemp (t : Table) (pName pParams : CString) (Flags : Nat)
    (pHelp : CString) :
    t.step (.RegisterTemp pName pParams Flags pHelp) =
      t.add (CConsole.temporary pName pParams Flags pHelp ACCESS_LEVEL_ADMIN) := rfl

/-- The commands with a name. -/
def named (n : CString) (cs : List CCommand) : List CCommand := cs.filter (hasName n)

theorem named_append (n : CString) (cs ds : List CCommand) :
    named n (cs ++ ds) = named n cs ++ named n ds := List.filter_append ..

theorem named_cons_self (d : CCommand) (cs : List CCommand) :
    named d.m_pName (d :: cs) = d :: named d.m_pName cs :=
  List.filter_cons_of_pos (decide_eq_true rfl)

theorem named_cons_of_ne {n : CString} {d : CCommand} (h : d.m_pName ≠ n) (cs : List CCommand) :
    named n (d :: cs) = named n cs :=
  List.filter_cons_of_neg fun hc => h (of_decide_eq_true hc)

theorem named_eq_nil {n : CString} {cs : List CCommand} (h : ∀ d ∈ cs, d.m_pName ≠ n) :
    named n cs = [] :=
  List.filter_eq_nil_iff.mpr fun d hd hc => h d hd (of_decide_eq_true hc)

/-- The last one with a name is removed. -/
theorem named_eraseP_self (n : CString) (cs : List CCommand) :
    named n (cs.eraseP (hasName n)) = (named n cs).tail := by
  induction cs with
  | nil => rfl
  | cons d cs ih =>
      by_cases hd : d.m_pName = n
      · rw [List.eraseP_cons_of_pos (show hasName _ d = true from decide_eq_true hd), ← hd, named_cons_self]
        rfl
      · rw [List.eraseP_cons_of_neg (show ¬ hasName _ d = true from fun h => hd (of_decide_eq_true h)), named_cons_of_ne hd,
          named_cons_of_ne hd, ih]

theorem named_eraseP_of_ne {n m : CString} (h : m ≠ n) (cs : List CCommand) :
    named n (cs.eraseP (hasName m)) = named n cs := by
  induction cs with
  | nil => rfl
  | cons d cs ih =>
      by_cases hd : d.m_pName = m
      · rw [List.eraseP_cons_of_pos (show hasName _ d = true from decide_eq_true hd), named_cons_of_ne fun hc => h (hd.symm.trans hc)]
      · rw [List.eraseP_cons_of_neg (show ¬ hasName _ d = true from fun hc => hd (of_decide_eq_true hc))]
        by_cases hn : d.m_pName = n
        · rw [← hn] at ih ⊢
          rw [named_cons_self, named_cons_self, ih]
        · rw [named_cons_of_ne hn, named_cons_of_ne hn, ih]

open Classical in
/-- Lists with the same commands of every name have the same commands. -/
theorem perm_of_named {cs ds : List CCommand} (h : ∀ n, named n cs = named n ds) : cs.Perm ds := by
  rw [List.perm_iff_count]
  intro d
  have hname : hasName d.m_pName d = true := decide_eq_true rfl
  have hcs := List.count_filter (l := cs) hname
  have hds := List.count_filter (l := ds) hname
  rw [← hcs, ← hds]
  exact congrArg (List.count d) (h d.m_pName)

/-! ## The invariant -/

namespace CConsole

/-- The commands of a list that are temporary, or not. -/
def ofKind (temp : Bool) (l : List (Nat × CCommand)) : List CCommand :=
  (l.map Prod.snd).filter fun d => d.m_Temp = temp

theorem ofKind_append (temp : Bool) (l l' : List (Nat × CCommand)) :
    ofKind temp (l ++ l') = ofKind temp l ++ ofKind temp l' := by
  unfold ofKind
  rw [List.map_append, List.filter_append]

theorem ofKind_cons_pos {temp : Bool} {x : Nat × CCommand} (h : x.2.m_Temp = temp)
    (l : List (Nat × CCommand)) : ofKind temp (x :: l) = x.2 :: ofKind temp l :=
  List.filter_cons_of_pos (decide_eq_true h)

theorem ofKind_cons_neg {temp : Bool} {x : Nat × CCommand} (h : x.2.m_Temp ≠ temp)
    (l : List (Nat × CCommand)) : ofKind temp (x :: l) = ofKind temp l :=
  List.filter_cons_of_neg fun hc => h (of_decide_eq_true hc)

theorem mem_ofKind {temp : Bool} {d : CCommand} {l : List (Nat × CCommand)} :
    d ∈ ofKind temp l ↔ ∃ x ∈ l, x.2 = d ∧ d.m_Temp = temp := by
  unfold ofKind
  rw [List.mem_filter, List.mem_map, decide_eq_true_iff]
  constructor
  · rintro ⟨⟨x, hx, rfl⟩, h⟩
    exact ⟨x, hx, rfl, h⟩
  · rintro ⟨x, hx, rfl, h⟩
    exact ⟨⟨x, hx, rfl⟩, h⟩

/-- The list `l` of the console and its recycle list `r`. -/
structure Holds (c : CConsole) (t : Table) (l r : List (Nat × CCommand)) : Prop where
  list : Seg c.memory c.m_pFirstCommand l none
  recycle : Seg c.memory c.m_pRecycleList r none
  nodup : (addrs (l ++ r)).Nodup
  allocated : ∀ x ∈ l ++ r, x.1 < c.allocated
  heap : ∀ x ∈ l ++ r, x.1 ∈ c.m_TempCommands ↔ x.2.m_Temp = true
  heapAllocated : ∀ p ∈ c.m_TempCommands, p < c.allocated
  recycled : ∀ x ∈ r, x.2.m_Temp = true
  names : ∀ x ∈ l, 0 ∉ x.2.m_pName
  level : ∀ x ∈ l ++ r, x.2.m_Temp = true → x.2.m_AccessLevel = ACCESS_LEVEL_ADMIN
  sorted : l.Pairwise fun x y => NameLe x.2 y.2
  perms : (ofKind false l).Perm t.perms
  temps : ∀ n, named n (ofKind true l) = named n t.temps

/-- The list is finite and sorted, has each permanent command and each temporary one that was not
removed once, and none of its nodes is in the recycle list. -/
def Correct (c : CConsole) (t : Table) : Prop :=
  ∃ l r, Seg c.memory c.m_pFirstCommand l none ∧ Seg c.memory c.m_pRecycleList r none ∧
    (addrs (l ++ r)).Nodup ∧ (l.Pairwise fun x y => str_comp x.2.m_pName y.2.m_pName ≤ 0) ∧
    (l.map Prod.snd).Perm (t.perms ++ t.temps)

variable {c : CConsole} {t : Table} {l r : List (Nat × CCommand)}

theorem Holds.correct (h : Holds c t l r) : Correct c t := by
  refine ⟨l, r, h.list, h.recycle, h.nodup, ?_, ?_⟩
  · refine h.sorted.imp_of_mem fun hx hy hle => ?_
    exact (str_comp_nonpos_iff (h.names _ hx) (h.names _ hy)).mpr hle
  · have htemps := perm_of_named h.temps
    have hsplit : (ofKind false l ++ ofKind true l).Perm (l.map Prod.snd) := by
      have hfilter := List.filter_append_perm (fun d : CCommand => decide (d.m_Temp = false))
        (l.map Prod.snd)
      have hnot : (fun d : CCommand => !decide (d.m_Temp = false)) =
          fun d => decide (d.m_Temp = true) := by
        funext d
        cases d.m_Temp <;> rfl
      rw [hnot] at hfilter
      exact hfilter
    exact hsplit.symm.trans (h.perms.append htemps)

theorem holds_empty : Holds empty { perms := [], temps := [] } [] [] where
  list := rfl
  recycle := rfl
  nodup := List.nodup_nil
  allocated := fun _ h => absurd h List.not_mem_nil
  heap := fun _ h => absurd h List.not_mem_nil
  heapAllocated := fun _ h => absurd h List.not_mem_nil
  recycled := fun _ h => absurd h List.not_mem_nil
  names := fun _ h => absurd h List.not_mem_nil
  level := fun _ h => absurd h List.not_mem_nil
  sorted := List.Pairwise.nil
  perms := List.Perm.nil
  temps := fun _ => rfl

/-- Addresses below a bound are at most as many. -/
theorem length_le_of_lt {l : List (Nat × CCommand)} {n : Nat} (hnodup : (addrs l).Nodup)
    (h : ∀ x ∈ l, x.1 < n) : l.length ≤ n := by
  have hsub : addrs l ⊆ List.range n := by
    intro p hp
    obtain ⟨x, hx, rfl⟩ := List.mem_map.mp hp
    exact List.mem_range.mpr (h x hx)
  have hlength := (hnodup.subperm hsub).length_le
  rw [List.length_map, List.length_range] at hlength
  exact hlength

/-! ## Registration -/

/-- A command that is put to its place. -/
theorem Holds.added (h : Holds c t l r) {c' : CConsole} {p : Nat} {d : CCommand}
    {as bs r' : List (Nat × CCommand)} (hsplit : l = as ++ bs)
    (hbefore : ∀ a ∈ as, ¬ NameLe d a.2) (hafter : ∀ b ∈ bs, NameLe d b.2)
    (hlist : Seg c'.memory c'.m_pFirstCommand (as ++ (p, d) :: bs) none)
    (hrecycle : Seg c'.memory c'.m_pRecycleList r' none) (hr : r' <:+ r)
    (hp : p ∉ addrs (l ++ r')) (hallocated : c.allocated ≤ c'.allocated) (hlt : p < c'.allocated)
    (hheap : ∀ q, q ≠ p → (q ∈ c'.m_TempCommands ↔ q ∈ c.m_TempCommands))
    (hkind : p ∈ c'.m_TempCommands ↔ d.m_Temp = true) (hname : 0 ∉ d.m_pName)
    (hlevel : d.m_Temp = true → d.m_AccessLevel = ACCESS_LEVEL_ADMIN) :
    Holds c' (t.add d) (as ++ (p, d) :: bs) r' := by
  have hmem : ∀ x, x ∈ as ++ (p, d) :: bs ++ r' → x = (p, d) ∨ x ∈ l ++ r' := by
    intro x hx
    rw [hsplit]
    simp only [List.mem_append, List.mem_cons] at hx ⊢
    rcases hx with (hx | rfl | hx) | hx
    · exact .inr (.inl (.inl hx))
    · exact .inl rfl
    · exact .inr (.inl (.inr hx))
    · exact .inr (.inr hx)
  have hold : ∀ x, x ∈ l ++ r' → x ∈ l ++ r ∧ x.1 ≠ p := by
    intro x hx
    refine ⟨?_, fun heq => hp (heq ▸ List.mem_map_of_mem hx)⟩
    rcases List.mem_append.mp hx with hx | hx
    · exact List.mem_append_left _ hx
    · exact List.mem_append_right _ (hr.subset hx)
  constructor
  case list => exact hlist
  case recycle => exact hrecycle
  case nodup =>
    have hperm : (as ++ (p, d) :: bs ++ r').Perm ((p, d) :: (l ++ r')) := by
      rw [hsplit]
      exact (List.perm_middle.append_right r')
    rw [(hperm.map Prod.fst).nodup_iff]
    refine List.nodup_cons.mpr ⟨hp, ?_⟩
    exact (((hr.sublist.append_left l).map Prod.fst)).nodup h.nodup
  case allocated =>
    intro x hx
    rcases hmem x hx with rfl | hx
    · exact hlt
    · exact Nat.lt_of_lt_of_le (h.allocated x (hold x hx).1) hallocated
  case heap =>
    intro x hx
    rcases hmem x hx with rfl | hx
    · exact hkind
    · rw [hheap x.1 (hold x hx).2]
      exact h.heap x (hold x hx).1
  case heapAllocated =>
    intro q hq
    by_cases hqp : q = p
    · rw [hqp]
      exact hlt
    · exact Nat.lt_of_lt_of_le (h.heapAllocated q ((hheap q hqp).mp hq)) hallocated
  case recycled => exact fun x hx => h.recycled x (hr.subset hx)
  case names =>
    intro x hx
    rw [hsplit] at h
    rcases List.mem_append.mp hx with hx | hx
    · exact h.names x (List.mem_append_left _ hx)
    · rcases List.mem_cons.mp hx with rfl | hx
      · exact hname
      · exact h.names x (List.mem_append_right _ hx)
  case level =>
    intro x hx
    rcases hmem x hx with rfl | hx
    · exact hlevel
    · exact h.level x (hold x hx).1
  case sorted =>
    have hsorted := h.sorted
    rw [hsplit, List.pairwise_append] at hsorted
    obtain ⟨has, hbs, hcross⟩ := hsorted
    refine List.pairwise_append.mpr ⟨has, List.pairwise_cons.mpr ⟨hafter, hbs⟩, fun a ha b hb => ?_⟩
    rcases List.mem_cons.mp hb with rfl | hb
    · exact NameLe.of_not (hbefore a ha)
    · exact hcross a ha b hb
  case perms =>
    have hperms := h.perms
    rw [hsplit, ofKind_append] at hperms
    unfold Table.add
    rw [ofKind_append]
    by_cases htemp : d.m_Temp = true
    · rw [if_pos htemp, ofKind_cons_neg (by simp [htemp])]
      exact hperms
    · rw [if_neg htemp, ofKind_cons_pos (x := (p, d)) (by simpa using htemp)]
      exact List.perm_middle.trans (List.Perm.cons d hperms)
  case temps =>
    intro n
    have htemps := h.temps n
    rw [hsplit, ofKind_append, named_append] at htemps
    unfold Table.add
    rw [ofKind_append, named_append]
    by_cases htemp : d.m_Temp = true
    · rw [if_pos htemp, ofKind_cons_pos (x := (p, d)) htemp]
      by_cases hn : d.m_pName = n
      · have hnone : named n (ofKind true as) = [] := by
          apply named_eq_nil
          intro e he heq
          obtain ⟨a, ha, rfl, -⟩ := mem_ofKind.mp he
          apply hbefore a ha
          unfold NameLe
          rw [heq, hn]
        rw [hnone, List.nil_append] at htemps ⊢
        rw [← hn] at htemps ⊢
        rw [named_cons_self, named_cons_self, htemps]
      · rw [named_cons_of_ne hn, named_cons_of_ne hn]
        exact htemps
    · rw [if_neg htemp, ofKind_cons_neg (x := (p, d)) htemp]
      exact htemps

/-- A command put here loses the only one of the list. -/
def Loses (c : CConsole) (pName : CString) : Prop :=
  ∃ p n, c.m_pFirstCommand = some p ∧ c.memory p = some n ∧ n.next = none ∧
    str_comp pName n.data.m_pName ≤ 0

theorem Holds.keeps (h : Holds c t l r) {command : CCommand} (hname : 0 ∉ command.m_pName)
    (hkeep : ¬ c.Loses command.m_pName) (y : Nat × CCommand) (hy : l = [y]) :
    ¬ NameLe command y.2 := by
  intro hle
  have hlist := h.list
  have hnames := h.names
  rw [hy] at hlist hnames
  obtain ⟨hfirst, n, hn, hnone⟩ := hlist
  have hnext : n = none := hnone
  exact hkeep ⟨y.1, _, hfirst, hn, hnext,
    (str_comp_nonpos_iff hname (hnames y List.mem_cons_self)).mpr hle⟩

theorem Holds.notMem (h : Holds c t l r) : c.allocated ∉ addrs (l ++ r) := by
  intro hmem
  obtain ⟨x, hx, heq⟩ := List.mem_map.mp hmem
  have hlt := h.allocated x hx
  omega

theorem addrs_append (l r : List (Nat × CCommand)) : addrs (l ++ r) = addrs l ++ addrs r :=
  List.map_append

theorem Holds.length_le (h : Holds c t l r) : l.length ≤ c.allocated := by
  have hnodup := h.nodup
  rw [addrs_append] at hnodup
  exact length_le_of_lt (List.nodup_append.mp hnodup).1 fun x hx =>
    h.allocated x (List.mem_append_left _ hx)

theorem addrs_subset_left (l r : List (Nat × CCommand)) : addrs l ⊆ addrs (l ++ r) :=
  List.map_subset _ (List.subset_append_left l r)

theorem addrs_subset_right (l r : List (Nat × CCommand)) : addrs r ⊆ addrs (l ++ r) :=
  List.map_subset _ (List.subset_append_right l r)

theorem Holds.nodup_left (h : Holds c t l r) : (addrs l).Nodup :=
  ((List.sublist_append_left l r).map Prod.fst).nodup h.nodup

theorem Holds.disjoint (h : Holds c t l r) {q : Nat} (hq : q ∈ addrs r) : q ∉ addrs l := by
  intro hl
  have hnodup := h.nodup
  rw [addrs_append] at hnodup
  exact (List.nodup_append.mp hnodup).2.2 q hl q hq rfl

/-- The console with a new command at the first free address. -/
def withNew (c : CConsole) (command : CCommand) (heap : List Nat) : CConsole :=
  { c with
    memory := Function.update c.memory c.allocated (some { data := command, next := none })
    allocated := c.allocated + 1
    m_TempCommands := heap }

/-- A new command is put to its place. -/
theorem Holds.addNew (h : Holds c t l r) {command : CCommand} (hname : 0 ∉ command.m_pName)
    (hkeep : ¬ c.Loses command.m_pName) (heap : List Nat) :
    ∃ mem' first' as bs,
      (c.withNew command heap).AddCommandSorted c.allocated =
        .ok { c.withNew command heap with memory := mem', m_pFirstCommand := first' } ∧
      l = as ++ bs ∧ (∀ a ∈ as, ¬ NameLe command a.2) ∧ (∀ b ∈ bs, NameLe command b.2) ∧
      Seg mem' first' (as ++ (c.allocated, command) :: bs) none ∧
      Seg mem' c.m_pRecycleList r none := by
  have hnot := h.notMem
  have hnotl : c.allocated ∉ addrs l := fun hmem => hnot (addrs_subset_left l r hmem)
  have hnotr : c.allocated ∉ addrs r := fun hmem => hnot (addrs_subset_right l r hmem)
  have hnew : (c.withNew command heap).memory c.allocated =
      some { data := command, next := none } := Function.update_self ..
  have hlist : Seg (c.withNew command heap).memory (c.withNew command heap).m_pFirstCommand l none :=
    h.list.update hnotl _
  have hrecycle : Seg (c.withNew command heap).memory c.m_pRecycleList r none :=
    h.recycle.update hnotr _
  obtain ⟨mem', first', as, bs, hrun, hsplit, hbefore, hafter, hlist', hsame⟩ :=
    AddCommandSorted_spec hnew hname hlist h.nodup_left hnotl h.names h.sorted
      (Nat.le_succ_of_le h.length_le) (h.keeps hname hkeep)
  refine ⟨mem', first', as, bs, hrun, hsplit, hbefore, hafter, hlist', ?_⟩
  apply hrecycle.congr
  intro x hx
  have hx' : x.1 ∈ addrs r := List.mem_map_of_mem hx
  refine hsame x.1 (fun heq => hnotr ?_) (h.disjoint hx')
  rw [← heq]
  exact hx'

theorem Holds.register (h : Holds c t l r) {pName pParams pHelp : CString} {Flags : Nat}
    (hname : 0 ∉ pName) (hfind : c.FindCommand pName Flags = .ok none) (hkeep : ¬ c.Loses pName) :
    ∃ c' l', c.Register pName pParams Flags pHelp = .ok c' ∧
      Holds c' (t.step (.Register pName pParams Flags pHelp)) l' r := by
  let d := permanent pName pParams Flags pHelp ACCESS_LEVEL_ADMIN
  obtain ⟨mem', first', as, bs, hadd, hsplit, hbefore, hafter, hlist, hrecycle⟩ :=
    @Holds.addNew c t l r h d hname hkeep c.m_TempCommands
  have hnot := h.notMem
  have hheap : c.allocated ∉ c.m_TempCommands := fun hmem =>
    Nat.lt_irrefl _ (h.heapAllocated _ hmem)
  have hnodup : (addrs (as ++ (c.allocated, d) :: bs)).Nodup := by
    have hperm : (as ++ (c.allocated, d) :: bs).Perm ((c.allocated, d) :: l) := by
      rw [hsplit]
      exact List.perm_middle
    rw [(hperm.map Prod.fst).nodup_iff]
    exact List.nodup_cons.mpr ⟨fun hmem => hnot (addrs_subset_left l r hmem), h.nodup_left⟩
  obtain ⟨n, hn, hlist'⟩ := hlist.replace hnodup
    (permanent pName pParams Flags pHelp ACCESS_LEVEL_USER)
  have hrun : c.Register pName pParams Flags pHelp =
      if Flags &&& CFGFLAG_CHAT ≠ 0 then
        .ok { c.withNew d c.m_TempCommands with
          memory := Function.update mem' c.allocated
            (some { data := permanent pName pParams Flags pHelp ACCESS_LEVEL_USER, next := n })
          m_pFirstCommand := first' }
      else .ok { c.withNew d c.m_TempCommands with memory := mem', m_pFirstCommand := first' } := by
    have hfresh : (c.allocate (permanent [] [] 0 [] ACCESS_LEVEL_ADMIN)).1.deref c.allocated =
        .ok { data := permanent [] [] 0 [] ACCESS_LEVEL_ADMIN, next := none } :=
      deref_eq (Function.update_self ..)
    have hwrite : (c.allocate (permanent [] [] 0 [] ACCESS_LEVEL_ADMIN)).1.write c.allocated
        { data := d, next := none } = c.withNew d c.m_TempCommands := by
      unfold allocate write withNew
      simp only [Function.update_idem]
    unfold Register
    rw [hfind]
    show ((c.allocate (permanent [] [] 0 [] ACCESS_LEVEL_ADMIN)).1.deref c.allocated).bind _ = _
    rw [hfresh]
    show (((c.allocate (permanent [] [] 0 [] ACCESS_LEVEL_ADMIN)).1.write c.allocated
        { data := d, next := none }).AddCommandSorted c.allocated).bind _ = _
    rw [hwrite, hadd]
    show (deref _ c.allocated).bind _ = _
    rw [deref_eq hn]
    rfl
  have hadded : ∀ (c' : CConsole) (AccessLevel : Int), c'.m_pRecycleList = c.m_pRecycleList →
      c'.allocated = c.allocated + 1 → c'.m_TempCommands = c.m_TempCommands →
      Seg c'.memory c'.m_pFirstCommand
        (as ++ (c.allocated, permanent pName pParams Flags pHelp AccessLevel) :: bs) none →
      Seg c'.memory c.m_pRecycleList r none →
      Holds c' (t.add (permanent pName pParams Flags pHelp AccessLevel))
        (as ++ (c.allocated, permanent pName pParams Flags pHelp AccessLevel) :: bs) r := by
    intro c' AccessLevel hr ha hh hl hrec
    refine h.added hsplit hbefore hafter hl (hr ▸ hrec) (List.suffix_refl r) hnot (by omega) (by omega)
      (fun q _ => by rw [hh]) ?_ hname fun htemp => by cases htemp
    rw [hh]
    exact iff_of_false hheap fun htemp => by cases htemp
  rw [hrun]
  by_cases hchat : Flags &&& CFGFLAG_CHAT ≠ 0
  · rw [if_pos hchat]
    refine ⟨_, as ++ (c.allocated, permanent pName pParams Flags pHelp ACCESS_LEVEL_USER) :: bs, rfl, ?_⟩
    rw [Table.step_register, if_pos hchat]
    exact hadded _ ACCESS_LEVEL_USER rfl rfl rfl hlist' (hrecycle.update (fun hmem => hnot
      (addrs_subset_right l r hmem)) _)
  · rw [if_neg hchat]
    refine ⟨_, as ++ (c.allocated, permanent pName pParams Flags pHelp ACCESS_LEVEL_ADMIN) :: bs, rfl, ?_⟩
    rw [Table.step_register, if_neg hchat]
    exact hadded _ ACCESS_LEVEL_ADMIN rfl rfl rfl hlist hrecycle

/-! ## Temporary commands -/

theorem zero_notMem_str_copy {s : CString} (h : 0 ∉ s) (n : Nat) : 0 ∉ str_copy s n :=
  fun hmem => h ((prefix_str_copy s n).subset hmem)

theorem Holds.registerTemp (h : Holds c t l r) {pName pParams pHelp : CString} {Flags : Nat}
    (hname : 0 ∉ pName) (hkeep : ¬ c.Loses (str_copy pName TEMPCMD_NAME_LENGTH)) :
    ∃ c' l' r', c.RegisterTemp pName pParams Flags pHelp = .ok c' ∧
      Holds c' (t.step (.RegisterTemp pName pParams Flags pHelp)) l' r' := by
  let d := temporary pName pParams Flags pHelp ACCESS_LEVEL_ADMIN
  have hd : 0 ∉ d.m_pName := zero_notMem_str_copy hname _
  rw [Table.step_registerTemp]
  have hrecycle := h.recycle
  cases r with
  | nil =>
      have hnone : c.m_pRecycleList = none := hrecycle
      obtain ⟨mem', first', as, bs, hadd, hsplit, hbefore, hafter, hlist, hrecycle'⟩ :=
        @Holds.addNew c t l [] h d hd hkeep (c.allocated :: c.m_TempCommands)
      have hrun : c.RegisterTemp pName pParams Flags pHelp =
          (c.withNew d (c.allocated :: c.m_TempCommands)).AddCommandSorted c.allocated := by
        unfold RegisterTemp
        rw [hnone]
        rfl
      rw [hrun, hadd]
      refine ⟨_, as ++ (c.allocated, d) :: bs, [], rfl, ?_⟩
      refine h.added hsplit hbefore hafter hlist hrecycle' (List.suffix_refl _) h.notMem
        (Nat.le_succ _) (Nat.lt_succ_self _) (fun q hq => ?_)
        (iff_of_true List.mem_cons_self rfl) hd fun _ => rfl
      show q ∈ c.allocated :: c.m_TempCommands ↔ _
      rw [List.mem_cons]
      exact or_iff_right hq
  | cons y r =>
      obtain ⟨hfirst, next, hy, hrest⟩ := hrecycle
      have hymem : y ∈ l ++ y :: r := List.mem_append_right _ List.mem_cons_self
      have hytemp := h.recycled y List.mem_cons_self
      have hlevel := h.level y hymem hytemp
      have hynot : y.1 ∉ addrs (l ++ r) := by
        have hperm : (l ++ y :: r).Perm (y :: (l ++ r)) := List.perm_middle
        have hnodup := ((hperm.map Prod.fst).nodup_iff).mp h.nodup
        exact (List.nodup_cons.mp hnodup).1
      have hyl : y.1 ∉ addrs l := fun hmem => hynot (addrs_subset_left l r hmem)
      have hyr : y.1 ∉ addrs r := fun hmem => hynot (addrs_subset_right l r hmem)
      let c₁ : CConsole := { c.write y.1 { data := d, next := next } with m_pRecycleList := next }
      have hnew : c₁.memory y.1 = some { data := d, next := next } := Function.update_self ..
      have hlist₁ : Seg c₁.memory c₁.m_pFirstCommand l none := h.list.update hyl _
      have hrest₁ : Seg c₁.memory next r none := hrest.update hyr _
      obtain ⟨mem', first', as, bs, hadd, hsplit, hbefore, hafter, hlist, hsame⟩ :=
        AddCommandSorted_spec hnew hd hlist₁ h.nodup_left hyl h.names h.sorted h.length_le
          (h.keeps hd hkeep)
      have hdata : temporary pName pParams Flags pHelp y.2.m_AccessLevel = d :=
        congrArg (temporary pName pParams Flags pHelp) hlevel
      have hrun : c.RegisterTemp pName pParams Flags pHelp = c₁.AddCommandSorted y.1 := by
        unfold RegisterTemp
        rw [hfirst]
        show (c.deref y.1).bind _ = _
        rw [deref_eq hy]
        exact congrArg (fun data => AddCommandSorted
          { c.write y.1 { data := data, next := next } with m_pRecycleList := next } y.1) hdata
      rw [hrun, hadd]
      refine ⟨_, as ++ (y.1, d) :: bs, r, rfl, ?_⟩
      refine h.added hsplit hbefore hafter hlist ?_ (List.suffix_cons y r) hynot (Nat.le_refl _)
        (h.allocated y hymem) (fun _ _ => Iff.rfl)
        (iff_of_true ((h.heap y hymem).mpr hytemp) rfl) hd fun _ => rfl
      apply hrest₁.congr
      intro x hx
      have hx' : x.1 ∈ addrs r := List.mem_map_of_mem hx
      refine hsame x.1 (fun heq => hyr ?_) (h.disjoint (List.mem_cons_of_mem _ hx'))
      rw [← heq]
      exact hx'

/-- A command that goes to the recycle list. -/
theorem Holds.removed (h : Holds c t l r) {pName : CString} {c' : CConsole} {y : Nat × CCommand}
    {as bs : List (Nat × CCommand)} (hsplit : l = as ++ y :: bs)
    (hno : ∀ a ∈ as, ¬ Matches pName a.2) (hy : Matches pName y.2)
    (hlist : Seg c'.memory c'.m_pFirstCommand (as ++ bs) none)
    (hrecycle : Seg c'.memory c'.m_pRecycleList (y :: r) none)
    (hallocated : c'.allocated = c.allocated) (hheap : c'.m_TempCommands = c.m_TempCommands) :
    Holds c' (t.step (.DeregisterTemp pName)) (as ++ bs) (y :: r) := by
  have hperm : (as ++ bs ++ y :: r).Perm (l ++ r) := by
    rw [hsplit, List.append_assoc as (y :: bs)]
    have hmiddle : (bs ++ y :: r).Perm (y :: bs ++ r) := List.perm_middle
    rw [List.append_assoc]
    exact hmiddle.append_left as
  have hsub : as ++ bs ⊆ l := by
    rw [hsplit]
    intro x hx
    rcases List.mem_append.mp hx with hx | hx
    · exact List.mem_append_left _ hx
    · exact List.mem_append_right _ (List.mem_cons_of_mem _ hx)
  constructor
  case list => exact hlist
  case recycle => exact hrecycle
  case nodup => exact ((hperm.map Prod.fst).nodup_iff).mpr h.nodup
  case allocated =>
    intro x hx
    rw [hallocated]
    exact h.allocated x (hperm.mem_iff.mp hx)
  case heap =>
    intro x hx
    rw [hheap]
    exact h.heap x (hperm.mem_iff.mp hx)
  case heapAllocated =>
    rw [hallocated, hheap]
    exact h.heapAllocated
  case recycled =>
    intro x hx
    rcases List.mem_cons.mp hx with rfl | hx
    · exact hy.1
    · exact h.recycled x hx
  case names => exact fun x hx => h.names x (hsub hx)
  case level => exact fun x hx => h.level x (hperm.mem_iff.mp hx)
  case sorted =>
    have hsublist : (as ++ bs).Sublist l := by
      rw [hsplit]
      exact (List.sublist_cons_self y bs).append_left as
    exact h.sorted.sublist hsublist
  case perms =>
    have hperms := h.perms
    rw [hsplit, ofKind_append, ofKind_cons_neg (by rw [hy.1]; decide)] at hperms
    rw [ofKind_append]
    exact hperms
  case temps =>
    intro n
    have htemps := h.temps n
    rw [hsplit, ofKind_append, named_append, ofKind_cons_pos hy.1] at htemps
    rw [ofKind_append, named_append]
    show _ = named n (t.temps.eraseP (hasName pName))
    by_cases hn : pName = n
    · have hnone : named n (ofKind true as) = [] := by
        apply named_eq_nil
        intro e he heq
        obtain ⟨a, ha, rfl, htemp⟩ := mem_ofKind.mp he
        exact hno a ha ⟨htemp, heq.trans hn.symm⟩
      have hyname : y.2.m_pName = n := hy.2.trans hn
      rw [hn, named_eraseP_self, ← htemps, hnone, List.nil_append, List.nil_append, ← hyname,
        named_cons_self]
      rfl
    · have hyname : y.2.m_pName ≠ n := fun heq => hn (hy.2.symm.trans heq)
      rw [named_eraseP_of_ne hn, ← htemps, named_cons_of_ne hyname]

/-- No command of the list is removed. -/
theorem Holds.unmatched (h : Holds c t l r) {pName : CString} (hno : ∀ x ∈ l, ¬ Matches pName x.2) :
    Holds c (t.step (.DeregisterTemp pName)) l r := by
  refine { h with temps := fun n => ?_ }
  rw [h.temps n]
  show _ = named n (t.temps.eraseP (hasName pName))
  by_cases hn : pName = n
  · have hnone : named n (ofKind true l) = [] := by
      apply named_eq_nil
      intro e he heq
      obtain ⟨x, hx, rfl, htemp⟩ := mem_ofKind.mp he
      exact hno x hx ⟨htemp, heq.trans hn.symm⟩
    rw [hn, named_eraseP_self, ← h.temps n, hnone]
    rfl
  · rw [named_eraseP_of_ne hn]

/-- A command that was taken out is put in front of the recycle list. -/
theorem recycle_eq {c : CConsole} {y : Nat × CCommand} {next : Option Nat}
    {r : List (Nat × CCommand)} (hy : c.memory y.1 = some { data := y.2, next := next })
    (hrecycle : Seg c.memory c.m_pRecycleList r none) (hr : y.1 ∉ addrs r) :
    ∃ c', (c.setNext y.1 c.m_pRecycleList).bind
        (fun c' => Except.ok { c' with m_pRecycleList := some y.1 }) = .ok c' ∧
      Seg c'.memory c'.m_pRecycleList (y :: r) none ∧ c'.m_pFirstCommand = c.m_pFirstCommand ∧
      c'.allocated = c.allocated ∧ c'.m_TempCommands = c.m_TempCommands ∧
      ∀ q, q ≠ y.1 → c'.memory q = c.memory q := by
  rw [setNext_eq hy]
  exact ⟨_, rfl, hrecycle.cons hr, rfl, rfl, rfl, fun q hq => Function.update_of_ne hq _ _⟩

theorem Holds.deregisterTemp (h : Holds c t l r) {pName : CString} (hname : 0 ∉ pName) :
    ∃ c' l' r', c.DeregisterTemp pName = .ok c' ∧
      Holds c' (t.step (.DeregisterTemp pName)) l' r' := by
  have hlist := h.list
  cases l with
  | nil =>
      have hfirst : c.m_pFirstCommand = none := hlist
      refine ⟨c, [], r, ?_, h.unmatched fun _ hx => absurd hx List.not_mem_nil⟩
      unfold DeregisterTemp
      rw [hfirst]
      rfl
  | cons x l =>
      obtain ⟨hfirst, next, hx, hrest⟩ := hlist
      have hxname := h.names x List.mem_cons_self
      have hcond : x.2.m_Temp = true ∧ str_comp x.2.m_pName pName = 0 ↔ Matches pName x.2 :=
        and_congr_right fun _ => str_comp_eq_zero_iff hxname hname
      -- the end of the function, for a list without `y`
      have hfinish : ∀ (c₁ : CConsole) (as bs : List (Nat × CCommand)) (y : Nat × CCommand)
          (n : Option Nat), x :: l = as ++ y :: bs → (∀ a ∈ as, ¬ Matches pName a.2) →
          Matches pName y.2 → Seg c₁.memory c₁.m_pFirstCommand (as ++ bs) none →
          c₁.memory y.1 = some { data := y.2, next := n } →
          Seg c₁.memory c₁.m_pRecycleList r none → c₁.allocated = c.allocated →
          c₁.m_TempCommands = c.m_TempCommands →
          ∃ c' l' r', (c₁.setNext y.1 c₁.m_pRecycleList).bind
              (fun c' => Except.ok { c' with m_pRecycleList := some y.1 }) = .ok c' ∧
            Holds c' (t.step (.DeregisterTemp pName)) l' r' := by
        intro c₁ as bs y n hsplit hno hmatch hlist₁ hy hrec ha hh
        have hperm : (x :: l ++ r).Perm (y :: (as ++ bs ++ r)) := by
          rw [hsplit]
          exact List.perm_middle.append_right r
        have hnodup := ((hperm.map Prod.fst).nodup_iff).mp h.nodup
        have hynot : y.1 ∉ addrs (as ++ bs ++ r) := (List.nodup_cons.mp hnodup).1
        obtain ⟨c', hrun, hrec', hf, ha', hh', hsame⟩ := recycle_eq hy hrec
          fun hmem => hynot (addrs_subset_right _ r hmem)
        refine ⟨c', as ++ bs, y :: r, hrun, h.removed hsplit hno hmatch ?_ hrec' (ha'.trans ha)
          (hh'.trans hh)⟩
        rw [hf]
        apply hlist₁.congr
        intro z hz
        refine hsame z.1 fun heq => hynot ?_
        rw [← heq]
        exact addrs_subset_left _ r (List.mem_map_of_mem hz)
      have hrun : c.DeregisterTemp pName =
          if x.2.m_Temp = true ∧ str_comp x.2.m_pName pName = 0 then
            ({ c with m_pFirstCommand := next }.setNext x.1 c.m_pRecycleList).bind
              (fun c' => Except.ok { c' with m_pRecycleList := some x.1 })
          else (c.removeLoop pName c.allocated x.1).bind fun
            | (c, none) => .ok c
            | (c, some pRemoved) => (c.setNext pRemoved c.m_pRecycleList).bind
              (fun c' => Except.ok { c' with m_pRecycleList := some pRemoved }) := by
        unfold DeregisterTemp
        rw [hfirst]
        simp only [bind, Except.bind, deref_eq hx]
        split
        · rfl
        · cases hloop : c.removeLoop pName c.allocated x.1 with
          | error e => rfl
          | ok v =>
              obtain ⟨c', p⟩ := v
              cases p <;> rfl
      rw [hrun]
      by_cases hmatch : Matches pName x.2
      · rw [if_pos (hcond.mpr hmatch)]
        exact hfinish { c with m_pFirstCommand := next } [] l x next rfl
          (fun _ ha => absurd ha List.not_mem_nil) hmatch hrest hx h.recycle rfl rfl
      · rw [if_neg fun hc => hmatch (hcond.mp hc)]
        have hlength := h.length_le
        rw [List.length_cons] at hlength
        rcases removeLoop_spec hname c.allocated x.1 x.2 hlength ⟨rfl, next, hx, hrest⟩ h.nodup_left
            fun y hy => h.names y (List.mem_cons_of_mem _ hy) with
          ⟨hloop, hno⟩ | ⟨mem', as, y, bs, hloop, hsplit, hno, hy, hlist', hsame⟩
        · rw [hloop]
          refine ⟨c, x :: l, r, rfl, h.unmatched fun y hy => ?_⟩
          rcases List.mem_cons.mp hy with rfl | hy
          · exact hmatch
          · exact hno y hy
        · rw [hloop]
          have hysplit : x :: l = x :: as ++ y :: bs := by rw [hsplit, List.cons_append]
          have hydata : ∃ n, c.memory y.1 = some { data := y.2, next := n } := by
            rw [hsplit] at hrest
            obtain ⟨m, -, hseg⟩ := seg_append.mp hrest
            exact ⟨_, hseg.2.choose_spec.1⟩
          obtain ⟨n, hydata⟩ := hydata
          have hnodup := h.nodup_left
          rw [hysplit, addrs_append] at hnodup
          have hynot : y.1 ∉ addrs (x :: as) := fun hmem =>
            (List.nodup_append.mp hnodup).2.2 _ hmem _ List.mem_cons_self rfl
          apply hfinish { c with memory := mem' } (x :: as) bs y n hysplit _ hy
          · show Seg mem' c.m_pFirstCommand _ _
            rw [hfirst]
            exact hlist'
          · exact (hsame y.1 hynot).trans hydata
          · apply h.recycle.congr
            intro z hz
            have hz' : z.1 ∈ addrs r := List.mem_map_of_mem hz
            refine hsame z.1 fun hmem => h.disjoint hz' ?_
            rw [hysplit]
            exact addrs_subset_left _ _ hmem
          · rfl
          · rfl
          · intro a ha
            rcases List.mem_cons.mp ha with rfl | ha
            · exact hmatch
            · exact hno a ha

/-! ## Removal of all temporary commands -/

theorem mem_permanents {x : Nat × CCommand} {l : List (Nat × CCommand)} :
    x ∈ permanents l ↔ x ∈ l ∧ x.2.m_Temp = false := by
  rw [List.mem_filter, Bool.not_eq_true']
  rfl

theorem ofKind_permanents (l : List (Nat × CCommand)) :
    ofKind false (permanents l) = ofKind false l ∧ ofKind true (permanents l) = [] := by
  induction l with
  | nil => exact ⟨rfl, rfl⟩
  | cons x l ih =>
      cases htemp : isTemp x with
      | true =>
          have hne : x.2.m_Temp ≠ false := fun h => Bool.noConfusion (h.symm.trans htemp)
          rw [permanents_cons_temp htemp, ofKind_cons_neg hne]
          exact ih
      | false =>
          have hne : x.2.m_Temp ≠ true := fun h => Bool.noConfusion (h.symm.trans htemp)
          rw [permanents_cons htemp, ofKind_cons_pos htemp, ofKind_cons_pos htemp,
            ofKind_cons_neg hne, ih.1]
          exact ⟨rfl, ih.2⟩

/-- The permanent commands stay when the heap is reset. -/
theorem Holds.resetHeap (h : Holds c t l r) {c' : CConsole}
    (hlist : Seg c'.memory c'.m_pFirstCommand (permanents l) none)
    (hallocated : c'.allocated = c.allocated) (hheap : c'.m_TempCommands = c.m_TempCommands) :
    Holds { c'.resetHeap with m_pRecycleList := none } (t.step .DeregisterTempAll)
      (permanents l) [] := by
  have hsub : ∀ x, x ∈ permanents l ++ [] → x ∈ l ∧ x.2.m_Temp = false := by
    intro x hx
    rw [List.append_nil] at hx
    exact mem_permanents.mp hx
  have hold : ∀ x, x ∈ permanents l ++ [] → x ∈ l ++ r := fun x hx =>
    List.mem_append_left _ (hsub x hx).1
  have hkinds := ofKind_permanents l
  constructor
  case list =>
    apply hlist.congr
    intro x hx
    have hnot : x.1 ∉ c'.m_TempCommands := by
      rw [hheap, h.heap x (List.mem_append_left _ (mem_permanents.mp hx).1),
        (mem_permanents.mp hx).2]
      exact Bool.false_ne_true
    exact if_neg hnot
  case recycle => rfl
  case nodup =>
    rw [List.append_nil]
    exact (List.filter_sublist.map Prod.fst).nodup h.nodup_left
  case allocated =>
    intro x hx
    exact Nat.lt_of_lt_of_eq (h.allocated x (hold x hx)) hallocated.symm
  case heap =>
    intro x hx
    apply iff_of_false List.not_mem_nil
    rw [(hsub x hx).2]
    exact Bool.false_ne_true
  case heapAllocated => exact fun p hp => absurd hp List.not_mem_nil
  case recycled => exact fun x hx => absurd hx List.not_mem_nil
  case names => exact fun x hx => h.names x (mem_permanents.mp hx).1
  case level => exact fun x hx => h.level x (hold x hx)
  case sorted => exact h.sorted.sublist List.filter_sublist
  case perms =>
    rw [hkinds.1]
    exact h.perms
  case temps =>
    intro n
    rw [hkinds.2]
    rfl

theorem Holds.deregisterTempAll (h : Holds c t l r) :
    ∃ c' l', c.DeregisterTempAll = .ok c' ∧ Holds c' (t.step .DeregisterTempAll) l' [] := by
  obtain ⟨s', hskip, hlist⟩ := skipTemp_spec c.allocated h.length_le h.list
  have hsuffix : l.dropWhile isTemp <:+ l := List.dropWhile_suffix isTemp
  have hlength := Nat.le_trans hsuffix.length_le h.length_le
  have hhead : ∀ x ∈ (l.dropWhile isTemp).head?, isTemp x = false := by
    intro x hx
    have hnot := List.head?_dropWhile_not isTemp l
    rw [hx] at hnot
    exact hnot
  obtain ⟨mem', hloop, hlist', -⟩ := @relinkLoop_spec { c with m_pFirstCommand := s' } s' _
    c.allocated hlength hlength hlist ((hsuffix.sublist.map Prod.fst).nodup h.nodup_left) hhead
  rw [permanents_dropWhile] at hlist'
  refine ⟨_, permanents l, ?_, @Holds.resetHeap c t l r h
    { c with memory := mem', m_pFirstCommand := s' } hlist' rfl rfl⟩
  unfold DeregisterTempAll
  rw [hskip]
  show (relinkLoop { c with m_pFirstCommand := s' } c.allocated s').bind _ = _
  rw [hloop]
  rfl

/-! ## Runs -/

/-- The names are C strings, a command is not put in front of a single one, and `Register` does
not find a command with the name and one of the flags. -/
def Keeps (c : CConsole) : Event → Prop
  | .Register pName _ Flags _ =>
      0 ∉ pName ∧ c.FindCommand pName Flags = .ok none ∧ ¬ c.Loses pName
  | .RegisterTemp pName _ _ _ => 0 ∉ pName ∧ ¬ c.Loses (str_copy pName TEMPCMD_NAME_LENGTH)
  | .DeregisterTemp pName => 0 ∉ pName
  | .DeregisterTempAll => True

theorem Holds.step (h : Holds c t l r) {e : Event} (hkeeps : c.Keeps e) :
    ∃ c' l' r', c.step e = .ok c' ∧ Holds c' (t.step e) l' r' := by
  cases e with
  | Register pName pParams Flags pHelp =>
      obtain ⟨c', l', hrun, h'⟩ := h.register hkeeps.1 hkeeps.2.1 hkeeps.2.2
      exact ⟨c', l', r, hrun, h'⟩
  | RegisterTemp pName pParams Flags pHelp => exact h.registerTemp hkeeps.1 hkeeps.2
  | DeregisterTemp pName => exact h.deregisterTemp hkeeps
  | DeregisterTempAll =>
      obtain ⟨c', l', hrun, h'⟩ := h.deregisterTempAll
      exact ⟨c', l', [], hrun, h'⟩

/-- A console together with the table of its commands. -/
def stepBoth (s : CConsole × Table) (e : Event) : Exec (CConsole × Table) := do
  return (← s.1.step e, s.2.step e)

/-- The run from the empty list. -/
abbrev Run : CConsole × Table → Prop :=
  Reachable stepBoth (fun s e => s.1.Keeps e) (empty, { perms := [], temps := [] })

theorem Run.holds {s : CConsole × Table} (h : Run s) : ∃ l r, Holds s.1 s.2 l r := by
  refine @Reachable.invariant _ _ _ _ _ _ (fun s => ∃ l r, Holds s.1 s.2 l r) h
    ⟨[], [], holds_empty⟩ ?_
  rintro s s' e ⟨l, r, hinv⟩ hkeeps hstep
  obtain ⟨c', l', r', hrun, h'⟩ := hinv.step hkeeps
  unfold stepBoth at hstep
  rw [hrun] at hstep
  cases hstep
  exact ⟨l', r', h'⟩

/-- Every state of a run has the list that the table says, and no step that keeps the list
faults. -/
theorem run_correct {s : CConsole × Table} (h : Run s) :
    Correct s.1 s.2 ∧ ∀ e, s.1.Keeps e → ∃ s', stepBoth s e = .ok s' := by
  obtain ⟨l, r, hinv⟩ := h.holds
  refine ⟨hinv.correct, fun e hkeeps => ?_⟩
  obtain ⟨c', l', r', hrun, -⟩ := hinv.step hkeeps
  refine ⟨(c', s.2.step e), ?_⟩
  unfold stepBoth
  rw [hrun]
  rfl

theorem run_correct_two :
    ∃ s, Run s ∧ s.2.perms.length = 1 ∧ s.2.temps.length = 1 ∧ Correct s.1 s.2 := by
  have hone : Run _ := Reachable.next (.Register [98] [] 4 []) Reachable.init
    ⟨by decide, rfl, fun h => by obtain ⟨p, n, hp, -⟩ := h; cases hp⟩ rfl
  have htwo : Run _ := Reachable.next (.RegisterTemp [99] [] 4 []) hone
    ⟨by decide, fun h => by
      obtain ⟨p, n, hp, hn, -, hle⟩ := h
      cases hp
      cases hn
      exact absurd hle (by decide)⟩ rfl
  exact ⟨_, htwo, rfl, rfl, (run_correct htwo).1⟩

/-- The command `b` is lost when `a` is registered. -/
theorem register_loses :
    ∃ s s', stepBoth (empty, { perms := [], temps := [] }) (.Register [98] [] 4 []) = .ok s ∧
      stepBoth s (.Register [97] [] 4 []) = .ok s' ∧ ¬ Correct s'.1 s'.2 := by
  refine ⟨_, _, rfl, rfl, ?_⟩
  rintro ⟨l, r, hlist, -, -, -, hperm⟩
  have hlength := hperm.length_eq
  match l, hlist, hlength with
  | [], _, hlength => cases hlength
  | [_], _, hlength => cases hlength
  | x :: y :: l, ⟨hfirst, next, hx, hrest⟩, _ =>
      have haddr : x.1 = 1 := (Option.some.inj hfirst).symm
      rw [haddr] at hx
      have hnone : next = none := (congrArg Node.next (Option.some.inj hx)).symm
      rw [hnone] at hrest
      cases hrest.head

end CConsole

end Fex.Engine.Console.Commands
