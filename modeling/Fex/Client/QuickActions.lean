import Fex.Engine.Console.Saved

/-!
# Quick actions

Model of `CActions`: the pages are the list of the `m_NumPages` pages in use, and the actions of a
page the list of its `m_NumActions` actions.  A page is saved with its name in the place of its
index, and the texts are not escaped.
-/

namespace Fex.Client.QuickActions

open Fex.Base Fex.Engine Fex.Engine.Server Fex.Engine.Console Fex.Lib

def ACTION_PAGE_MAX_NAME : Nat := 16
def ACTION_MAX_NAME : Nat := 32
def ACTION_MAX_CMD : Nat := 1024
def MAX_PAGES : Nat := 32
def MAX_ACTIONS_PER_PAGE : Nat := 3

structure SAction where
  m_aName : CString
  m_aCommand : CString
  deriving DecidableEq

structure SPage where
  m_aName : CString
  m_aActions : List SAction
  deriving DecidableEq

structure CActions where
  m_aPages : List SPage
  deriving DecidableEq

/-- A page that was constructed. -/
def SPage.new : SPage := ⟨[], []⟩

/-- No page is in use at the construction. -/
def CActions.new : CActions := ⟨[]⟩

def CActions.m_NumPages (s : CActions) : Nat := s.m_aPages.length

def InitDefaultPages : CActions where
  m_aPages :=
    [⟨CServer.ascii "Player",
      [⟨CServer.ascii "War", CServer.ascii "spec_war \x7bspecid\x7d"⟩,
        ⟨CServer.ascii "Team", CServer.ascii "spec_team \x7bspecid\x7d"⟩,
        ⟨CServer.ascii "Helper", CServer.ascii "spec_helper \x7bspecid\x7d"⟩]⟩,
      ⟨CServer.ascii "Clan",
      [⟨CServer.ascii "ClanWar", CServer.ascii "spec_clanwar \x7bspecid\x7d"⟩,
        ⟨CServer.ascii "ClanTeam", CServer.ascii "spec_clanteam \x7bspecid\x7d"⟩,
        ⟨CServer.ascii "ClanHelper", CServer.ascii "spec_clanhelper \x7bspecid\x7d"⟩]⟩,
      ⟨CServer.ascii "General",
      [⟨CServer.ascii "Vote", CServer.ascii "spec_vote \x7bspecid\x7d"⟩,
        ⟨CServer.ascii "Friend", CServer.ascii "spec_friend \x7bspecid\x7d"⟩,
        ⟨CServer.ascii "Mute", CServer.ascii "spec_mute \x7bspecid\x7d"⟩]⟩]

/-! ## Operations -/

/-- `if(m_NumPages < 3) m_NumPages = 3;` -/
def atLeastThree (s : CActions) : CActions :=
  { s with m_aPages := s.m_aPages ++ List.replicate (3 - s.m_NumPages) .new }

/-- The null pointer is `none`. -/
def AddPage (s : CActions) (pPageName : Option CString) : CActions × Bool :=
  let s := atLeastThree s
  match pPageName with
  | none => (s, false)
  | some pPageName =>
      if s.m_NumPages ≥ MAX_PAGES ∨ pPageName = [] then (s, false)
      else ({ s with m_aPages := s.m_aPages ++ [⟨str_copy pPageName ACTION_PAGE_MAX_NAME, []⟩] }, true)

def RemovePage (s : CActions) (PageIndex : Int) : CActions × Bool :=
  if PageIndex < 3 ∨ PageIndex ≥ s.m_NumPages then (s, false)
  else ({ s with m_aPages := s.m_aPages.eraseIdx PageIndex.toNat }, true)

/-- The page that may be changed, and how. -/
def changePage (s : CActions) (PageIndex : Int) (change : SPage → Option SPage) : CActions × Bool :=
  if PageIndex < 3 then (s, false)
  else
    match s.m_aPages[PageIndex.toNat]?.bind change with
    | none => (s, false)
    | some Page => ({ s with m_aPages := s.m_aPages.set PageIndex.toNat Page }, true)

def AddActionToPage (s : CActions) (PageIndex : Int) (pActionName pActionCommand : CString) :
    CActions × Bool :=
  changePage s PageIndex fun Page =>
    if Page.m_aActions.length ≥ MAX_ACTIONS_PER_PAGE then none
    else some { Page with
      m_aActions := Page.m_aActions ++
        [⟨str_copy pActionName ACTION_MAX_NAME, str_copy pActionCommand ACTION_MAX_CMD⟩] }

def RemoveActionFromPage (s : CActions) (PageIndex ActionIndex : Int) : CActions × Bool :=
  changePage s PageIndex fun Page =>
    if ActionIndex < 0 ∨ ActionIndex ≥ Page.m_aActions.length then none
    else some { Page with m_aActions := Page.m_aActions.eraseIdx ActionIndex.toNat }

inductive Op
  | AddPage (pPageName : Option CString)
  | RemovePage (PageIndex : Int)
  | AddActionToPage (PageIndex : Int) (pActionName pActionCommand : CString)
  | RemoveActionFromPage (PageIndex ActionIndex : Int)

def step (s : CActions) : Op → CActions × Bool
  | .AddPage pPageName => AddPage s pPageName
  | .RemovePage PageIndex => RemovePage s PageIndex
  | .AddActionToPage PageIndex pActionName pActionCommand =>
      AddActionToPage s PageIndex pActionName pActionCommand
  | .RemoveActionFromPage PageIndex ActionIndex => RemoveActionFromPage s PageIndex ActionIndex

/-- The state behind some calls. -/
def run (s : CActions) (ops : List Op) : CActions := ops.foldl (fun s op => (step s op).1) s

/-! ## Saving and loading -/

def pageLine (Page : SPage) : CString :=
  str_copy (CServer.ascii "add_action_page" ++ quotedArgs [Page.m_aName]) 256

def actionLine (Page : SPage) (Action : SAction) : CString :=
  str_copy (CServer.ascii "add_action" ++
    quotedArgs [Page.m_aName, Action.m_aName, Action.m_aCommand]) 1024

def pageLines (Page : SPage) : List CString :=
  pageLine Page :: Page.m_aActions.map (actionLine Page)

/-- The lines of `ConfigSaveCallback`. -/
def savedLines (s : CActions) : List CString := s.m_aPages.flatMap pageLines

/-- The commands of `OnConsoleInit` by their places in the list of the console. -/
structure Commands where
  add_action_page : Nat
  remove_action_page : Nat
  add_action : Nat
  remove_action : Nat

/-- The callbacks; those of other commands leave the pages alone. -/
def callback (cmds : Commands) (s : CActions) (call : Call) : CActions :=
  if call.1 = cmds.add_action_page then (AddPage s (some (GetString call.2 0))).1
  else if call.1 = cmds.remove_action_page then (RemovePage s (GetInteger call.2 0)).1
  else if call.1 = cmds.add_action then
    (AddActionToPage s (GetInteger call.2 0) (GetString call.2 1) (GetString call.2 2)).1
  else if call.1 = cmds.remove_action then
    (RemoveActionFromPage s (GetInteger call.2 0) (GetInteger call.2 1)).1
  else s

/-- What executing a file makes of the pages. -/
def load (c : Console.CConsole) (ClientId : Int) (cmds : Commands) (s : CActions) (text : CString) :
    CActions :=
  (Console.ExecuteFile c ClientId text).foldl (callback cmds) s

/-- A command is registered and may be called. -/
def Registered (c : Console.CConsole) (ClientId : Int) (i : Nat) (pName pParams : CString) : Prop :=
  ∃ pCommand, Usable c ClientId i pCommand ∧ pCommand.m_pName = pName ∧
    pCommand.m_pParams = pParams

/-- What `OnConsoleInit` registers. -/
structure OnConsoleInit (c : Console.CConsole) (ClientId : Int) (cmds : Commands) : Prop where
  add_action_page : Registered c ClientId cmds.add_action_page (CServer.ascii "add_action_page")
    (CServer.ascii "s[page_name]")
  remove_action_page : Registered c ClientId cmds.remove_action_page
    (CServer.ascii "remove_action_page") (CServer.ascii "i[page_index]")
  add_action : Registered c ClientId cmds.add_action (CServer.ascii "add_action")
    (CServer.ascii "i[page_index] s[action_name] s[action_command]")
  remove_action : Registered c ClientId cmds.remove_action (CServer.ascii "remove_action")
    (CServer.ascii "i[page_index] i[action_index]")

/-! ## Bounds -/

structure Bounded (s : CActions) : Prop where
  pages : s.m_NumPages ≤ MAX_PAGES
  actions : ∀ Page ∈ s.m_aPages, Page.m_aActions.length ≤ MAX_ACTIONS_PER_PAGE

theorem Bounded.atLeastThree {s : CActions} (h : Bounded s) : Bounded (atLeastThree s) where
  pages := by
    have hle := h.pages
    unfold QuickActions.atLeastThree
    unfold CActions.m_NumPages MAX_PAGES at *
    rw [List.length_append, List.length_replicate]
    omega
  actions := by
    intro Page hPage
    rcases List.mem_append.mp hPage with hPage | hPage
    · exact h.actions Page hPage
    · rw [List.eq_of_mem_replicate hPage]
      exact Nat.zero_le _

theorem Bounded.changePage {s : CActions} (h : Bounded s) (PageIndex : Int)
    {change : SPage → Option SPage} (hchange : ∀ Page Page', change Page = some Page' →
      Page.m_aActions.length ≤ MAX_ACTIONS_PER_PAGE →
        Page'.m_aActions.length ≤ MAX_ACTIONS_PER_PAGE) :
    Bounded (changePage s PageIndex change).1 := by
  unfold QuickActions.changePage
  split
  · exact h
  · split
    · exact h
    next Page' hfound =>
      obtain ⟨Page, hget, hPage'⟩ := Option.bind_eq_some_iff.mp hfound
      refine ⟨?_, ?_⟩
      · have hle := h.pages
        unfold CActions.m_NumPages at *
        rwa [List.length_set]
      · intro P hP
        rcases List.mem_or_eq_of_mem_set hP with hP | rfl
        · exact h.actions P hP
        · exact hchange Page P hPage' (h.actions Page (List.mem_of_getElem? hget))

theorem Bounded.step {s : CActions} (h : Bounded s) (op : Op) : Bounded (step s op).1 := by
  cases op with
  | AddPage pPageName =>
      cases pPageName with
      | none => exact h.atLeastThree
      | some pPageName =>
          rw [QuickActions.step, AddPage]
          split
          · exact h.atLeastThree
          next hroom =>
            refine ⟨?_, ?_⟩
            · have hlt := (not_or.mp hroom).1
              unfold CActions.m_NumPages at *
              rw [List.length_append, List.length_singleton]
              omega
            · intro Page hPage
              rcases List.mem_append.mp hPage with hPage | hPage
              · exact h.atLeastThree.actions Page hPage
              · rw [List.mem_singleton.mp hPage]
                exact Nat.zero_le _
  | RemovePage PageIndex =>
      rw [QuickActions.step, RemovePage]
      split
      · exact h
      · refine ⟨?_, fun Page hPage => h.actions Page (List.mem_of_mem_eraseIdx hPage)⟩
        have hle := h.pages
        unfold CActions.m_NumPages at *
        exact (List.length_eraseIdx_le _ _).trans hle
  | AddActionToPage PageIndex pActionName pActionCommand =>
      apply h.changePage
      intro Page Page' hPage' _
      split at hPage'
      · cases hPage'
      next hroom =>
        cases hPage'
        rw [List.length_append, List.length_singleton]
        exact Nat.lt_of_not_le hroom
  | RemoveActionFromPage PageIndex ActionIndex =>
      apply h.changePage
      intro Page Page' hPage' hle
      split at hPage'
      · cases hPage'
      · cases hPage'
        exact (List.length_eraseIdx_le _ _).trans hle

theorem m_NumPages_changePage (s : CActions) (PageIndex : Int) (change : SPage → Option SPage) :
    (changePage s PageIndex change).1.m_NumPages = s.m_NumPages := by
  unfold changePage CActions.m_NumPages
  split
  · rfl
  · split
    · rfl
    · exact List.length_set

theorem three_le_AddPage (s : CActions) (pPageName : Option CString) :
    3 ≤ (AddPage s pPageName).1.m_NumPages := by
  have hthree : 3 ≤ (atLeastThree s).m_NumPages := by
    unfold CActions.m_NumPages atLeastThree CActions.m_NumPages
    rw [List.length_append, List.length_replicate]
    omega
  cases pPageName with
  | none => exact hthree
  | some pPageName =>
      rw [AddPage]
      split
      · exact hthree
      · unfold CActions.m_NumPages at *
        rw [List.length_append]
        omega

/-- The default pages stay. -/
theorem three_le_step {s : CActions} (h : 3 ≤ s.m_NumPages) (op : Op) :
    3 ≤ (step s op).1.m_NumPages := by
  cases op with
  | AddPage pPageName => exact three_le_AddPage s pPageName
  | RemovePage PageIndex =>
      rw [step, RemovePage]
      split
      · exact h
      next hrange =>
        obtain ⟨hlow, hhigh⟩ := not_or.mp hrange
        unfold CActions.m_NumPages at *
        rw [List.length_eraseIdx]
        split <;> omega
  | AddActionToPage PageIndex pActionName pActionCommand =>
      exact h.trans_eq (m_NumPages_changePage ..).symm
  | RemoveActionFromPage PageIndex ActionIndex =>
      exact h.trans_eq (m_NumPages_changePage ..).symm

theorem bounded_run {s : CActions} (h : Bounded s) (ops : List Op) : Bounded (run s ops) := by
  induction ops generalizing s with
  | nil => exact h
  | cons op ops ih => exact ih (h.step op)

theorem three_le_run {s : CActions} {ops : List Op}
    (h : 3 ≤ s.m_NumPages ∨ ∃ pPageName, .AddPage pPageName ∈ ops) :
    3 ≤ (run s ops).m_NumPages := by
  induction ops generalizing s with
  | nil =>
      rcases h with h | ⟨pPageName, hmem⟩
      · exact h
      · exact absurd hmem List.not_mem_nil
  | cons op ops ih =>
      apply ih
      rcases h with h | ⟨pPageName, hmem⟩
      · exact .inl (three_le_step h op)
      · rcases List.mem_cons.mp hmem with rfl | hmem
        · exact .inl (three_le_AddPage s pPageName)
        · exact .inr ⟨pPageName, hmem⟩

/-! ## Pages that are read back -/

/-- A text that a line keeps although it is not escaped. -/
structure Keeps (t : CString) : Prop where
  text : Text t
  feed : 10 ∉ t
  unescaped : Unescaped t

/-- Printable ASCII without quotes and backslashes is kept. -/
theorem keeps_ascii {t : CString} (h : (t.all fun b =>
    decide (b ≠ 0 ∧ b.toNat ≤ 0x7F ∧ b ≠ 10 ∧ b ≠ 34 ∧ b ≠ 92)) = true) : Keeps t := by
  have hall : ∀ b ∈ t, b ≠ 0 ∧ b.toNat ≤ 0x7F ∧ b ≠ 10 ∧ b ≠ 34 ∧ b ≠ 92 :=
    fun b hb => of_decide_eq_true (List.all_eq_true.mp h b hb)
  refine ⟨text_ascii fun b hb => ⟨(hall b hb).1, (hall b hb).2.1⟩,
    fun hmem => (hall 10 hmem).2.2.1 rfl, ⟨fun hmem => (hall 34 hmem).2.2.2.1 rfl, ?_, ?_⟩⟩
  · rintro ⟨p, q, rfl⟩
    exact (hall 92 (by simp)).2.2.2.2 rfl
  · exact fun hlast => (hall 92 (List.mem_of_getLast? hlast)).2.2.2.2 rfl

theorem keeps_nil : Keeps [] := ⟨.nil, List.not_mem_nil, unescaped_nil⟩

/-- An action whose line fits. -/
structure ActionKept (m_aName : CString) (Action : SAction) : Prop where
  name : Keeps Action.m_aName
  command : Keeps Action.m_aCommand
  nameLength : Action.m_aName.length ≤ ACTION_MAX_NAME - 1
  commandLength : Action.m_aCommand.length ≤ ACTION_MAX_CMD - 1
  fits : (CServer.ascii "add_action" ++
    quotedArgs [m_aName, Action.m_aName, Action.m_aCommand]).length ≤ 1023

/-- A page at an index that is read back: with actions its name is the number of the index. -/
structure PageKept (k : Nat) (Page : SPage) : Prop where
  name : Keeps Page.m_aName
  nonempty : Page.m_aName ≠ []
  nameLength : Page.m_aName.length ≤ ACTION_PAGE_MAX_NAME - 1
  index : Page.m_aActions ≠ [] → GetInteger [Page.m_aName] 0 = k
  actions : ∀ Action ∈ Page.m_aActions, ActionKept Page.m_aName Action

/-- The pages from an index on are read back. -/
def PagesKept (k : Nat) : List SPage → Prop
  | [] => True
  | Page :: Pages => PageKept k Page ∧ PagesKept (k + 1) Pages

theorem PagesKept.append {k : Nat} {Pages : List SPage} (h : PagesKept k Pages) {Page : SPage}
    (hPage : PageKept (k + Pages.length) Page) : PagesKept k (Pages ++ [Page]) := by
  induction Pages generalizing k with
  | nil => exact ⟨hPage, trivial⟩
  | cons P Pages ih =>
      refine ⟨h.1, ih h.2 ?_⟩
      rw [List.length_cons] at hPage
      rwa [Nat.add_right_comm, Nat.add_assoc]

theorem PagesKept.get {k : Nat} {Pages : List SPage} (h : PagesKept k Pages) {j : Nat} {Page : SPage}
    (hget : Pages[j]? = some Page) : PageKept (k + j) Page := by
  induction Pages generalizing k j with
  | nil => cases hget
  | cons P Pages ih =>
      cases j with
      | zero =>
          cases hget
          exact h.1
      | succ j =>
          have hrest := ih h.2 hget
          rwa [Nat.add_right_comm, Nat.add_assoc] at hrest

theorem PagesKept.set {k : Nat} {Pages : List SPage} (h : PagesKept k Pages) {j : Nat}
    {Page : SPage} (hPage : PageKept (k + j) Page) : PagesKept k (Pages.set j Page) := by
  induction Pages generalizing k j with
  | nil => exact h
  | cons P Pages ih =>
      cases j with
      | zero => exact ⟨hPage, h.2⟩
      | succ j =>
          refine ⟨h.1, ih h.2 ?_⟩
          rwa [Nat.add_right_comm, Nat.add_assoc]

/-- Pages without actions may be moved. -/
theorem PagesKept.move {k : Nat} {Pages : List SPage} (h : PagesKept (k + 1) Pages)
    (hactions : ∀ Page ∈ Pages, Page.m_aActions = []) : PagesKept k Pages := by
  induction Pages generalizing k with
  | nil => trivial
  | cons P Pages ih =>
      have hP := hactions P List.mem_cons_self
      refine ⟨⟨h.1.name, h.1.nonempty, h.1.nameLength, fun hne => absurd hP hne, h.1.actions⟩, ?_⟩
      exact ih h.2 fun Page hPage => hactions Page (List.mem_cons_of_mem P hPage)

theorem PagesKept.eraseIdx {k : Nat} {Pages : List SPage} (h : PagesKept k Pages) {j : Nat}
    (hactions : ∀ Page ∈ Pages.drop (j + 1), Page.m_aActions = []) :
    PagesKept k (Pages.eraseIdx j) := by
  induction Pages generalizing k j with
  | nil => exact h
  | cons P Pages ih =>
      cases j with
      | zero => exact h.2.move hactions
      | succ j => exact ⟨h.1, ih h.2 hactions⟩

/-- The default pages without a name and behind them pages that are read back. -/
structure KeptBehind (s : CActions) (Pages : List SPage) : Prop where
  eq : s.m_aPages = List.replicate 3 .new ++ Pages
  kept : PagesKept 3 Pages
  pages : Pages.length ≤ MAX_PAGES - 3
  actions : ∀ Page ∈ Pages, Page.m_aActions.length ≤ MAX_ACTIONS_PER_PAGE

def Kept (s : CActions) : Prop := s.m_aPages = [] ∨ ∃ Pages, KeptBehind s Pages

/-! ## Lines -/

section

variable {c : Console.CConsole} {ClientId : Int} {cmds : Commands}

/-- Commands of different names have different places. -/
theorem Registered.ne {i j : Nat} {pName pName' pParams pParams' : CString}
    (h : Registered c ClientId i pName pParams) (h' : Registered c ClientId j pName' pParams')
    (hne : pName ≠ pName') : i ≠ j := by
  obtain ⟨pCommand, husable, hname, -⟩ := h
  obtain ⟨pCommand', husable', hname', -⟩ := h'
  rintro rfl
  have hsame := husable.command.symm.trans husable'.command
  cases hsame
  exact hne (hname.symm.trans hname')

/-- A line of unescaped texts that are kept calls its command with them. -/
theorem Registered.executeLine {i : Nat} {pName pParams : CString}
    (h : Registered c ClientId i pName pParams) {ts : List CString} (hne : ts ≠ [])
    (hts : ∀ t ∈ ts, Keeps t)
    (hparams : ∀ p ∈ formatParams .parameter pParams, p ≠ 63)
    (hcount : (formatParams .parameter pParams).length = ts.length)
    (hlen : (pName ++ quotedArgs ts).length ≤ 1023) :
    c.ExecuteLine (pName ++ quotedArgs ts) ClientId = [(i, ts)] := by
  obtain ⟨pCommand, husable, rfl, rfl⟩ := h
  have hreads : List.Forall₂ Reads ts ts := by
    clear hne hcount hlen
    induction ts with
    | nil => exact .nil
    | cons t ts ih =>
        obtain ⟨ht, hrest⟩ := List.forall_mem_cons.mp hts
        exact .cons (reads_unescaped ht.unescaped) (ih hrest)
  have hwhole : Whole false ts := by
    clear hne hcount hlen hreads
    induction ts with
    | nil => trivial
    | cons t ts ih =>
        obtain ⟨ht, hrest⟩ := List.forall_mem_cons.mp hts
        refine ⟨fun h => absurd h (by decide), ?_⟩
        rw [decide_eq_false ht.unescaped.last]
        exact ih hrest
  exact husable.executeLine_quotedArgs hne hreads hwhole hparams hcount
    (hlen.trans (by decide))

/-- A line that fits is written whole. -/
theorem str_copy_line {nm : CString} (hnm : Starts nm) {ts : List CString}
    (hts : ∀ t ∈ ts, Keeps t) {dst_size : Nat} (hlen : (nm ++ quotedArgs ts).length ≤ dst_size - 1) :
    str_copy (nm ++ quotedArgs ts) dst_size = nm ++ quotedArgs ts :=
  ((text_ascii hnm.ascii).append (text_quotedArgs fun t ht => (hts t ht).text)).str_copy_self hlen

theorem starts_add_action_page : Starts (CServer.ascii "add_action_page") :=
  starts_of_all (by decide) (by decide)

theorem starts_add_action : Starts (CServer.ascii "add_action") :=
  starts_of_all (by decide) (by decide)

theorem fits_pageLine {m_aName : CString} (h : m_aName.length ≤ ACTION_PAGE_MAX_NAME - 1) :
    (CServer.ascii "add_action_page" ++ quotedArgs [m_aName]).length ≤ 255 := by
  have hlength : (CServer.ascii "add_action_page").length = 15 := by decide
  unfold ACTION_PAGE_MAX_NAME at h
  simp only [List.length_append, hlength, quotedArgs, List.length_cons, List.length_nil]
  omega

theorem pageLine_eq {Page : SPage} (hname : Keeps Page.m_aName)
    (hlength : Page.m_aName.length ≤ ACTION_PAGE_MAX_NAME - 1) :
    pageLine Page = CServer.ascii "add_action_page" ++ quotedArgs [Page.m_aName] :=
  str_copy_line starts_add_action_page (List.forall_mem_singleton.mpr hname) (fits_pageLine hlength)

theorem ActionKept.texts {m_aName : CString} {Action : SAction} (h : ActionKept m_aName Action)
    (hname : Keeps m_aName) : ∀ t ∈ [m_aName, Action.m_aName, Action.m_aCommand], Keeps t :=
  List.forall_mem_cons.mpr
    ⟨hname, List.forall_mem_cons.mpr ⟨h.name, List.forall_mem_singleton.mpr h.command⟩⟩

theorem actionLine_eq {Page : SPage} {Action : SAction} (h : ActionKept Page.m_aName Action)
    (hname : Keeps Page.m_aName) :
    actionLine Page Action = CServer.ascii "add_action" ++
      quotedArgs [Page.m_aName, Action.m_aName, Action.m_aCommand] :=
  str_copy_line starts_add_action (h.texts hname) h.fits

theorem savedLine_pageLine {Page : SPage} (hname : Keeps Page.m_aName)
    (hlength : Page.m_aName.length ≤ ACTION_PAGE_MAX_NAME - 1) : SavedLine (pageLine Page) := by
  rw [pageLine_eq hname hlength]
  exact savedLine_quotedArgs starts_add_action_page (List.cons_ne_nil _ _)
    (List.forall_mem_singleton.mpr hname.text) (List.forall_mem_singleton.mpr hname.feed)

theorem savedLine_actionLine {Page : SPage} {Action : SAction}
    (h : ActionKept Page.m_aName Action) (hname : Keeps Page.m_aName) :
    SavedLine (actionLine Page Action) := by
  rw [actionLine_eq h hname]
  exact savedLine_quotedArgs starts_add_action (List.cons_ne_nil _ _)
    (fun t ht => (h.texts hname t ht).text) (fun t ht => (h.texts hname t ht).feed)

theorem savedLine_pageLines {k : Nat} {Page : SPage} (h : PageKept k Page) :
    ∀ line ∈ pageLines Page, SavedLine line := by
  refine List.forall_mem_cons.mpr ⟨savedLine_pageLine h.name h.nameLength, fun line hline => ?_⟩
  obtain ⟨Action, hAction, rfl⟩ := List.mem_map.mp hline
  exact savedLine_actionLine (h.actions Action hAction) h.name

theorem savedLine_pages {k : Nat} {Pages : List SPage} (h : PagesKept k Pages) :
    ∀ line ∈ Pages.flatMap pageLines, SavedLine line := by
  induction Pages generalizing k with
  | nil => exact fun line hline => absurd hline List.not_mem_nil
  | cons P Pages ih =>
      intro line hline
      rcases List.mem_append.mp hline with hline | hline
      · exact savedLine_pageLines h.1 line hline
      · exact ih h.2 line hline

/-! ## Loading -/

/-- What executing some lines makes of the pages. -/
def loadLines (c : Console.CConsole) (ClientId : Int) (cmds : Commands) (s : CActions)
    (lines : List CString) : CActions :=
  (lines.flatMap fun line => c.ExecuteLine line ClientId).foldl (callback cmds) s

theorem loadLines_append (s : CActions) (lines lines' : List CString) :
    loadLines c ClientId cmds s (lines ++ lines') =
      loadLines c ClientId cmds (loadLines c ClientId cmds s lines) lines' := by
  rw [loadLines, List.flatMap_append, List.foldl_append]
  rfl

theorem loadLines_cons (s : CActions) (line : CString) (lines : List CString) :
    loadLines c ClientId cmds s (line :: lines) =
      loadLines c ClientId cmds (loadLines c ClientId cmds s [line]) lines :=
  loadLines_append s [line] lines

variable (h : OnConsoleInit c ClientId cmds)

include h

theorem load_pageLine (s : CActions) {Page : SPage} (hname : Keeps Page.m_aName)
    (hlength : Page.m_aName.length ≤ ACTION_PAGE_MAX_NAME - 1) :
    loadLines c ClientId cmds s [pageLine Page] = (AddPage s (some Page.m_aName)).1 := by
  have hparams : formatParams .parameter (CServer.ascii "s[page_name]") = [115] := by decide
  have hline := h.add_action_page.executeLine (List.cons_ne_nil _ _)
    (List.forall_mem_singleton.mpr hname) (by rw [hparams]; simp) (by rw [hparams]; rfl)
    ((fits_pageLine hlength).trans (by decide))
  rw [loadLines, List.flatMap_singleton, pageLine_eq hname hlength, hline]
  exact if_pos rfl

theorem load_actionLine (s : CActions) {Page : SPage} {Action : SAction}
    (hAction : ActionKept Page.m_aName Action) (hname : Keeps Page.m_aName) :
    loadLines c ClientId cmds s [actionLine Page Action] =
      (AddActionToPage s (GetInteger [Page.m_aName] 0) Action.m_aName Action.m_aCommand).1 := by
  have hparams : formatParams .parameter
      (CServer.ascii "i[page_index] s[action_name] s[action_command]") = [105, 115, 115] := by decide
  have hline := h.add_action.executeLine (List.cons_ne_nil _ _) (hAction.texts hname)
    (by rw [hparams]; simp) (by rw [hparams]; rfl) hAction.fits
  have hne := h.add_action.ne h.add_action_page (by decide)
  have hne' := h.add_action.ne h.remove_action_page (by decide)
  rw [loadLines, List.flatMap_singleton, actionLine_eq hAction hname, hline]
  simp only [List.foldl_cons, List.foldl_nil, callback, if_neg hne, if_neg hne', if_true]
  rfl

/-- The actions of a page that was added last follow each other. -/
theorem load_actions {Pages : List SPage} {Page : SPage} (hlow : 3 ≤ Pages.length)
    (hindex : Page.m_aActions ≠ [] → GetInteger [Page.m_aName] 0 = Pages.length)
    (hname : Keeps Page.m_aName) {done rest : List SAction} (hactions : Page.m_aActions = done ++ rest)
    (hcount : Page.m_aActions.length ≤ MAX_ACTIONS_PER_PAGE)
    (hkept : ∀ Action ∈ rest, ActionKept Page.m_aName Action) :
    loadLines c ClientId cmds ⟨Pages ++ [⟨Page.m_aName, done⟩]⟩ (rest.map (actionLine Page)) =
      ⟨Pages ++ [Page]⟩ := by
  induction rest generalizing done with
  | nil =>
      rw [List.append_nil] at hactions
      rw [← hactions]
      rfl
  | cons Action rest ih =>
      obtain ⟨hAction, hrest⟩ := List.forall_mem_cons.mp hkept
      have hlt : done.length < MAX_ACTIONS_PER_PAGE := by
        rw [hactions, List.length_append, List.length_cons] at hcount
        omega
      have hk : GetInteger [Page.m_aName] 0 = Pages.length := hindex (by rw [hactions]; simp)
      have hlast : (Pages ++ [(⟨Page.m_aName, done⟩ : SPage)])[Pages.length]? =
          some ⟨Page.m_aName, done⟩ := by simp
      rw [List.map_cons, loadLines_cons, load_actionLine h _ hAction hname, hk]
      have hadd : (AddActionToPage ⟨Pages ++ [⟨Page.m_aName, done⟩]⟩ Pages.length Action.m_aName
          Action.m_aCommand).1 = ⟨Pages ++ [⟨Page.m_aName, done ++ [Action]⟩]⟩ := by
        rw [AddActionToPage, changePage, if_neg (by omega), Int.toNat_natCast, hlast]
        simp only [Option.bind_some, if_neg (Nat.not_le_of_lt hlt),
          hAction.name.text.str_copy_self hAction.nameLength,
          hAction.command.text.str_copy_self hAction.commandLength]
        simp
      rw [hadd]
      exact ih (by rw [hactions]; simp) hrest

/-- Each page that is kept is added behind those that are there. -/
theorem load_pages {done Pages : List SPage} (hlow : 3 ≤ done.length)
    (hkept : PagesKept done.length Pages) (hcount : done.length + Pages.length ≤ MAX_PAGES)
    (hactions : ∀ Page ∈ Pages, Page.m_aActions.length ≤ MAX_ACTIONS_PER_PAGE) :
    loadLines c ClientId cmds ⟨done⟩ (Pages.flatMap pageLines) = ⟨done ++ Pages⟩ := by
  induction Pages generalizing done with
  | nil =>
      rw [List.append_nil]
      rfl
  | cons Page Pages ih =>
      obtain ⟨hPage, hrest⟩ := hkept
      rw [List.length_cons] at hcount
      have hthree : atLeastThree ⟨done⟩ = ⟨done⟩ := by
        simp [atLeastThree, CActions.m_NumPages, Nat.sub_eq_zero_of_le hlow]
      have hadd : (AddPage ⟨done⟩ (some Page.m_aName)).1 = ⟨done ++ [⟨Page.m_aName, []⟩]⟩ := by
        have hroom : ¬(CActions.m_NumPages ⟨done⟩ ≥ MAX_PAGES ∨ Page.m_aName = []) := by
          rintro (hfull | hnil)
          · unfold CActions.m_NumPages at hfull
            simp only at hfull
            omega
          · exact hPage.nonempty hnil
        rw [AddPage, hthree, if_neg hroom, hPage.name.text.str_copy_self hPage.nameLength]
      rw [List.flatMap_cons, loadLines_append, pageLines, loadLines_cons,
        load_pageLine h _ hPage.name hPage.nameLength, hadd,
        load_actions h hlow hPage.index hPage.name rfl (hactions Page List.mem_cons_self)
          hPage.actions,
        ih (by rw [List.length_append]; omega) (by rwa [List.length_append])
          (by rw [List.length_append, List.length_singleton]; omega)
          (fun P hP => hactions P (List.mem_cons_of_mem Page hP)),
        List.append_assoc]
      rfl

theorem load_kept {s : CActions} (hs : Kept s) :
    load c ClientId cmds .new (savedText (savedLines s)) = s := by
  obtain ⟨m_aPages⟩ := s
  rcases hs with rfl | ⟨Pages, rfl, hkept, hcount, hactions⟩
  · rfl
  · have hunnamed : Keeps SPage.new.m_aName := keeps_nil
    have hlines : savedLines ⟨List.replicate 3 .new ++ Pages⟩ =
        [pageLine .new, pageLine .new, pageLine .new] ++ Pages.flatMap pageLines := by
      rw [savedLines, List.flatMap_append]
      rfl
    have hsaved : ∀ line ∈ savedLines ⟨List.replicate 3 .new ++ Pages⟩, SavedLine line := by
      rw [hlines]
      intro line hline
      rcases List.mem_append.mp hline with hline | hline
      · simp only [List.mem_cons, List.not_mem_nil, or_false, or_self] at hline
        exact hline ▸ savedLine_pageLine hunnamed (Nat.zero_le _)
      · exact savedLine_pages hkept line hline
    have hadd : ∀ s : CActions, (AddPage s (some SPage.new.m_aName)).1 = atLeastThree s := by
      intro s
      rw [AddPage, if_pos (.inr rfl)]
    rw [load, executeFile_savedText c ClientId hsaved]
    change loadLines c ClientId cmds .new (savedLines ⟨List.replicate 3 .new ++ Pages⟩) = _
    rw [hlines, loadLines_append, loadLines_cons, load_pageLine h _ hunnamed (Nat.zero_le _),
      loadLines_cons, load_pageLine h _ hunnamed (Nat.zero_le _),
      load_pageLine h _ hunnamed (Nat.zero_le _), hadd, hadd, hadd]
    have hroom : (List.replicate 3 SPage.new).length + Pages.length ≤ MAX_PAGES := by
      rw [List.length_replicate]
      unfold MAX_PAGES at *
      omega
    exact load_pages h (Nat.le_refl 3) hkept hroom hactions

end

/-! ## Runs -/

/-- The state at the start: as constructed, or with the default pages of `InitDefaultPages`. -/
def start : Bool → CActions
  | false => .new
  | true => InitDefaultPages

/-- A page that is added has a name that a line keeps.  Actions are added only to a page whose name
is the number of its index, with texts that a line keeps, and pages with actions are not moved. -/
def OpMeets (s : CActions) : Op → Prop
  | .AddPage none => True
  | .AddPage (some pPageName) => s.m_NumPages < MAX_PAGES → pPageName ≠ [] →
      Keeps (str_copy pPageName ACTION_PAGE_MAX_NAME) ∧
        str_copy pPageName ACTION_PAGE_MAX_NAME ≠ []
  | .RemovePage PageIndex => 3 ≤ PageIndex → PageIndex < s.m_NumPages →
      ∀ Page ∈ s.m_aPages.drop (PageIndex.toNat + 1), Page.m_aActions = []
  | .AddActionToPage PageIndex pActionName pActionCommand => 3 ≤ PageIndex →
      ∀ Page, s.m_aPages[PageIndex.toNat]? = some Page →
        Page.m_aActions.length < MAX_ACTIONS_PER_PAGE →
          GetInteger [Page.m_aName] 0 = PageIndex ∧
          ActionKept Page.m_aName ⟨str_copy pActionName ACTION_MAX_NAME,
            str_copy pActionCommand ACTION_MAX_CMD⟩
  | .RemoveActionFromPage _ _ => True

/-- Every call meets its condition in the state before it. -/
def AllMeet (s : CActions) : List Op → Prop
  | [] => True
  | op :: ops => OpMeets s op ∧ AllMeet (step s op).1 ops

theorem Kept.atLeastThree {s : CActions} (hs : Kept s) :
    ∃ Pages, KeptBehind (atLeastThree s) Pages := by
  obtain ⟨m_aPages⟩ := s
  rcases hs with rfl | ⟨Pages, rfl, hkept, hcount, hactions⟩
  · exact ⟨[], rfl, trivial, Nat.zero_le _, fun Page hPage => absurd hPage List.not_mem_nil⟩
  · refine ⟨Pages, ?_, hkept, hcount, hactions⟩
    simp [QuickActions.atLeastThree, CActions.m_NumPages]

theorem KeptBehind.toKept {s : CActions} {Pages : List SPage} (h : KeptBehind s Pages) : Kept s :=
  .inr ⟨Pages, h⟩

theorem Kept.addPage {s : CActions} (hs : Kept s) {pPageName : Option CString}
    (hop : OpMeets s (.AddPage pPageName)) : Kept (AddPage s pPageName).1 := by
  obtain ⟨Pages, h⟩ := hs.atLeastThree
  cases pPageName with
  | none => exact h.toKept
  | some pPageName =>
      rw [AddPage]
      split
      · exact h.toKept
      next hroom =>
        obtain ⟨hlt, hne⟩ := not_or.mp hroom
        have hle : s.m_NumPages ≤ (QuickActions.atLeastThree s).m_NumPages := by
          unfold QuickActions.atLeastThree CActions.m_NumPages
          rw [List.length_append]
          exact Nat.le_add_right _ _
        obtain ⟨hname, hnonempty⟩ := hop (by omega) hne
        have hcount : Pages.length < MAX_PAGES - 3 := by
          unfold CActions.m_NumPages at hlt
          rw [h.eq, List.length_append, List.length_replicate] at hlt
          omega
        refine .inr ⟨Pages ++ [⟨str_copy pPageName ACTION_PAGE_MAX_NAME, []⟩], ?_, ?_, ?_, ?_⟩
        · rw [h.eq, List.append_assoc]
        · have hlength : (str_copy pPageName ACTION_PAGE_MAX_NAME).length ≤
              ACTION_PAGE_MAX_NAME - 1 := (length_fix_truncation _).trans (List.length_take_le _ _)
          exact h.kept.append ⟨hname, hnonempty, hlength, fun hne => absurd rfl hne,
            fun Action hAction => absurd hAction List.not_mem_nil⟩
        · rw [List.length_append, List.length_singleton]
          omega
        · intro Page hPage
          rcases List.mem_append.mp hPage with hPage | hPage
          · exact h.actions Page hPage
          · rw [List.mem_singleton.mp hPage]
            exact Nat.zero_le _

theorem Kept.removePage {s : CActions} (hs : Kept s) {PageIndex : Int}
    (hop : OpMeets s (.RemovePage PageIndex)) : Kept (RemovePage s PageIndex).1 := by
  rw [RemovePage]
  split
  · exact hs
  next hrange =>
    obtain ⟨hlow, hhigh⟩ := not_or.mp hrange
    have hmoved := hop (by omega) (by omega)
    rcases hs with hnil | ⟨Pages, heq, hkept, hcount, hactions⟩
    · unfold CActions.m_NumPages at hhigh
      rw [hnil, List.length_nil] at hhigh
      omega
    · have hle : (List.replicate 3 SPage.new).length ≤ PageIndex.toNat := by
        rw [List.length_replicate]
        omega
      refine .inr ⟨Pages.eraseIdx (PageIndex.toNat - 3), ?_, ?_, ?_, ?_⟩
      · change s.m_aPages.eraseIdx PageIndex.toNat = _
        rw [heq, List.eraseIdx_append_of_length_le hle, List.length_replicate]
      · apply hkept.eraseIdx
        rw [heq, List.drop_append, List.drop_of_length_le (by omega), List.nil_append,
          List.length_replicate] at hmoved
        rwa [← Nat.sub_add_comm (by rw [List.length_replicate] at hle; exact hle)]
      · exact (List.length_eraseIdx_le _ _).trans hcount
      · exact fun Page hPage => hactions Page (List.mem_of_mem_eraseIdx hPage)

theorem Kept.changePage {s : CActions} (hs : Kept s) {PageIndex : Int}
    {change : SPage → Option SPage}
    (hchange : 3 ≤ PageIndex → ∀ Page Page', s.m_aPages[PageIndex.toNat]? = some Page →
      change Page = some Page' → PageKept PageIndex.toNat Page →
        Page.m_aActions.length ≤ MAX_ACTIONS_PER_PAGE →
          PageKept PageIndex.toNat Page' ∧ Page'.m_aActions.length ≤ MAX_ACTIONS_PER_PAGE) :
    Kept (changePage s PageIndex change).1 := by
  unfold QuickActions.changePage
  split
  · exact hs
  next hlow =>
    split
    · exact hs
    next Page' hfound =>
      obtain ⟨Page, hget, hPage'⟩ := Option.bind_eq_some_iff.mp hfound
      rcases hs with hnil | ⟨Pages, heq, hkept, hcount, hactions⟩
      · rw [hnil] at hget
        cases hget
      · have hle : (List.replicate 3 SPage.new).length ≤ PageIndex.toNat := by
          rw [List.length_replicate]
          omega
        have hget' : Pages[PageIndex.toNat - 3]? = some Page := by
          rwa [heq, List.getElem?_append_right hle, List.length_replicate] at hget
        have hindex : 3 + (PageIndex.toNat - 3) = PageIndex.toNat := by omega
        obtain ⟨hkept', hcount'⟩ := hchange (by omega) Page Page' hget hPage'
          (hindex ▸ hkept.get hget') (hactions Page (List.mem_of_getElem? hget'))
        refine .inr ⟨Pages.set (PageIndex.toNat - 3) Page', ?_, ?_, ?_, ?_⟩
        · change s.m_aPages.set PageIndex.toNat Page' = _
          rw [heq, List.set_append_right _ _ hle, List.length_replicate]
        · exact hkept.set (hindex.symm ▸ hkept')
        · rwa [List.length_set]
        · intro P hP
          rcases List.mem_or_eq_of_mem_set hP with hP | rfl
          · exact hactions P hP
          · exact hcount'

theorem Kept.step {s : CActions} (hs : Kept s) {op : Op} (hop : OpMeets s op) :
    Kept (step s op).1 := by
  cases op with
  | AddPage pPageName => exact hs.addPage hop
  | RemovePage PageIndex => exact hs.removePage hop
  | AddActionToPage PageIndex pActionName pActionCommand =>
      apply hs.changePage
      intro hlow Page Page' hget hPage' hkept hcount
      split at hPage'
      · cases hPage'
      next hroom =>
        cases hPage'
        obtain ⟨hindex, hAction⟩ := hop hlow Page hget (Nat.lt_of_not_le hroom)
        refine ⟨⟨hkept.name, hkept.nonempty, hkept.nameLength, fun _ => ?_, ?_⟩, ?_⟩
        · rw [hindex]
          omega
        · intro Action hmem
          rcases List.mem_append.mp hmem with hmem | hmem
          · exact hkept.actions Action hmem
          · exact List.mem_singleton.mp hmem ▸ hAction
        · rw [List.length_append, List.length_singleton]
          exact Nat.lt_of_not_le hroom
  | RemoveActionFromPage PageIndex ActionIndex =>
      apply hs.changePage
      intro hlow Page Page' hget hPage' hkept hcount
      split at hPage'
      · cases hPage'
      · cases hPage'
        refine ⟨⟨hkept.name, hkept.nonempty, hkept.nameLength, fun hne => hkept.index ?_, ?_⟩,
          (List.length_eraseIdx_le _ _).trans hcount⟩
        · intro hnil
          exact hne (by rw [hnil]; rfl)
        · exact fun Action hmem => hkept.actions Action (List.mem_of_mem_eraseIdx hmem)

theorem kept_run {s : CActions} (hs : Kept s) {ops : List Op} (hmeet : AllMeet s ops) :
    Kept (run s ops) := by
  induction ops generalizing s with
  | nil => exact hs
  | cons op ops ih => exact ih (hs.step hmeet.1) hmeet.2

theorem bounded_start (defaults : Bool) : Bounded (start defaults) := by
  cases defaults with
  | false => exact ⟨Nat.zero_le _, fun Page hPage => absurd hPage List.not_mem_nil⟩
  | true =>
      refine ⟨by decide, ?_⟩
      simp [start, InitDefaultPages, MAX_ACTIONS_PER_PAGE]

/-- Executing the saved lines recreates the pages behind the default pages, and saving them again
writes the same lines. -/
def Survives (c : Console.CConsole) (ClientId : Int) (cmds : Commands) (defaults : Bool)
    (s : CActions) : Prop :=
  let loaded := load c ClientId cmds (start defaults) (savedText (savedLines s))
  loaded.m_aPages.drop 3 = s.m_aPages.drop 3 ∧ savedLines loaded = savedLines s

/-- The bounds hold in every run.  The pages survive in every run from unnamed default pages whose
calls meet their conditions. -/
theorem bounded_and_survives {c : Console.CConsole} {ClientId : Int} {cmds : Commands}
    (h : OnConsoleInit c ClientId cmds) (defaults : Bool) (ops : List Op) :
    Bounded (run (start defaults) ops) ∧
    ((∃ pPageName, .AddPage pPageName ∈ ops) → 3 ≤ (run (start defaults) ops).m_NumPages) ∧
    (defaults = false → AllMeet (start defaults) ops →
      Survives c ClientId cmds defaults (run (start defaults) ops)) := by
  refine ⟨bounded_run (bounded_start defaults) ops, fun hadd => three_le_run (.inr hadd), ?_⟩
  rintro rfl hmeet
  have hkept : Kept (run .new ops) := kept_run (.inl rfl) hmeet
  have hload := load_kept h hkept
  rw [Survives, start, hload]
  exact ⟨rfl, rfl⟩

def CFGFLAG_CLIENT : Nat := 1 <<< 1

/-- A command of the client with its parameters. -/
def clientCommand (pName pParams : CString) : CCommand where
  m_pName := pName
  m_pHelp := []
  m_pParams := pParams
  m_Flags := CFGFLAG_CLIENT
  m_Temp := false
  m_AccessLevel := ACCESS_LEVEL_ADMIN

/-- A console with the commands of the quick actions. -/
def actionsConsole : Console.CConsole where
  commands :=
    [clientCommand (CServer.ascii "add_action")
        (CServer.ascii "i[page_index] s[action_name] s[action_command]"),
      clientCommand (CServer.ascii "add_action_page") (CServer.ascii "s[page_name]"),
      clientCommand (CServer.ascii "remove_action")
        (CServer.ascii "i[page_index] i[action_index]"),
      clientCommand (CServer.ascii "remove_action_page") (CServer.ascii "i[page_index]")]
  m_FlagMask := CFGFLAG_CLIENT
  m_AccessLevel := ACCESS_LEVEL_ADMIN
  m_StoreCommands := false
  m_SvTestingCommands := false
  IsColor := fun _ => false
  validFloat := fun _ => false

def actionsCommands : Commands where
  add_action := 0
  add_action_page := 1
  remove_action := 2
  remove_action_page := 3

theorem onConsoleInit_actionsConsole : OnConsoleInit actionsConsole (-1) actionsCommands where
  add_action := ⟨_, ⟨isName_of_all (by decide) (by decide), by decide, by decide, rfl, by decide,
    by decide, by decide⟩, rfl, rfl⟩
  add_action_page := ⟨_, ⟨isName_of_all (by decide) (by decide), by decide, by decide, rfl,
    by decide, by decide, by decide⟩, rfl, rfl⟩
  remove_action := ⟨_, ⟨isName_of_all (by decide) (by decide), by decide, by decide, rfl,
    by decide, by decide, by decide⟩, rfl, rfl⟩
  remove_action_page := ⟨_, ⟨isName_of_all (by decide) (by decide), by decide, by decide, rfl,
    by decide, by decide, by decide⟩, rfl, rfl⟩

/-- Page 3 is named, page 4 has the name `4` and an action. -/
theorem bounded_and_survives_actions :
    Survives actionsConsole (-1) actionsCommands false (run .new
      [.AddPage (some (CServer.ascii "Friends")), .AddPage (some (CServer.ascii "4")),
        .AddActionToPage 4 (CServer.ascii "Hi") (CServer.ascii "say hi; emote 1")]) :=
  (bounded_and_survives onConsoleInit_actionsConsole false
    [.AddPage (some (CServer.ascii "Friends")), .AddPage (some (CServer.ascii "4")),
      .AddActionToPage 4 (CServer.ascii "Hi") (CServer.ascii "say hi; emote 1")]).2.2 rfl (by
    refine ⟨fun _ _ => ⟨keeps_ascii (by decide), by decide⟩,
      fun _ _ => ⟨keeps_ascii (by decide), by decide⟩, fun _ Page hPage _ => ?_, trivial⟩
    obtain rfl : Page = ⟨CServer.ascii "4", []⟩ := by
      cases hPage
      decide
    exact ⟨by decide, keeps_ascii (by decide), keeps_ascii (by decide), by decide, by decide,
      by decide⟩)

/-- The action of the page `Friends` is lost; the default pages of `InitDefaultPages` are added
once more. -/
theorem not_survives :
    ¬Survives actionsConsole (-1) actionsCommands false (run (start false)
      [.AddPage (some (CServer.ascii "Friends")),
        .AddActionToPage 3 (CServer.ascii "Hi") (CServer.ascii "say hi")]) ∧
    ¬Survives actionsConsole (-1) actionsCommands true (run (start true) []) := by
  constructor
  · intro h
    exact absurd h.1 (by decide +kernel)
  · intro h
    exact absurd h.1 (by decide +kernel)

end Fex.Client.QuickActions
