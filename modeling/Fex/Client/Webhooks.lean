import Fex.Base.Truncation

/-!
# Webhooks of the war list

Model of `ParseWebhookUrls`, `GetWebhookUrl` and `SaveWebhookUrls`.  The config variable has room
for 2560 bytes, like the buffers on the way to it.
-/

namespace Fex.Client.Webhooks

open Fex.Base

structure WebhookInfo where
  m_aUrl : List UInt8
  m_Valid : Bool

/-- An element that `resize` adds. -/
def WebhookInfo.zero : WebhookInfo := { m_aUrl := [], m_Valid := false }

/-- The next token and what is behind its separator. -/
def strtok_r (sep : UInt8) (s : List UInt8) : Option (List UInt8 × List UInt8) :=
  match s.dropWhile (· = sep) with
  | [] => none
  | c :: s => some ((c :: s).takeWhile (· ≠ sep), ((c :: s).dropWhile (· ≠ sep)).drop 1)

/-- The loop over the tokens, `left` elements before the end of the webhooks. -/
def parseLoop : Nat → List UInt8 → List WebhookInfo
  | 0, _ => []
  | left + 1, s =>
      match strtok_r 59 s with
      | none => List.replicate (left + 1) .zero
      | some (pUrl, s) => { m_aUrl := str_copy pUrl 256, m_Valid := true } :: parseLoop left s

def ParseWebhookUrls (ClDiscordWebhookCount : Nat) (ClDiscordWebhookUrls : List UInt8) :
    List WebhookInfo :=
  parseLoop ClDiscordWebhookCount (str_copy ClDiscordWebhookUrls 2560)

def GetWebhookUrl (m_Webhooks : List WebhookInfo) (Index : Int) : Option (List UInt8) :=
  if Index < 0 then none
  else
    match m_Webhooks[Index.toNat]? with
    | none => none
    | some w => if ¬w.m_Valid ∨ w.m_aUrl = [] then none else some w.m_aUrl

/-- One round of the loop of `SaveWebhookUrls`. -/
def saveWebhook (Offset : Nat) (aUrls : List UInt8) (w : WebhookInfo) : List UInt8 :=
  if w.m_Valid then
    let aUrls := if Offset > 0 then str_append aUrls [59] 2560 else aUrls
    str_append aUrls w.m_aUrl 2560
  else aUrls

/-- The text that the config variable gets; `Offset` stays zero. -/
def SaveWebhookUrls (m_Webhooks : List WebhookInfo) : List UInt8 :=
  str_copy (m_Webhooks.foldl (saveWebhook 0) []) 2560

/-! ## Round trip -/

/-- The URL of a webhook that is valid. -/
def WebhookInfo.url (w : WebhookInfo) : Option (List UInt8) :=
  if w.m_Valid then some w.m_aUrl else none

/-- Each webhook is as valid as before and has the same URL. -/
def Kept (ws ws' : List WebhookInfo) : Prop :=
  (∀ i : Nat, ws'[i]?.bind WebhookInfo.url = ws[i]?.bind WebhookInfo.url) ∧
    ∀ Index : Int, GetWebhookUrl ws' Index = GetWebhookUrl ws Index

/-- A webhook the game can hold. -/
def WebhookInfo.Allowed (w : WebhookInfo) : Prop :=
  w.m_Valid = true → w.m_aUrl ≠ [] ∧ 59 ∉ w.m_aUrl ∧ w.m_aUrl.length ≤ 255

/-- No webhook but the first is valid, and its URL does not end within a character. -/
def Alone (ws : List WebhookInfo) : Prop :=
  ∀ i w, ws[i]? = some w → w.m_Valid = true → i = 0 ∧ str_utf8_fix_truncation w.m_aUrl = w.m_aUrl

theorem getWebhookUrl_eq (ws : List WebhookInfo) (i : Nat) :
    GetWebhookUrl ws i = (ws[i]?.bind WebhookInfo.url).filter (· ≠ []) := by
  unfold GetWebhookUrl
  rw [if_neg (by omega), Int.toNat_natCast]
  cases ws[i]? with
  | none => rfl
  | some w =>
      unfold WebhookInfo.url
      simp only [Option.bind_some]
      cases w.m_Valid <;> by_cases hurl : w.m_aUrl = [] <;> simp [hurl, Option.filter]

theorem kept_iff {ws ws' : List WebhookInfo} :
    Kept ws ws' ↔ ∀ i : Nat, ws'[i]?.bind WebhookInfo.url = ws[i]?.bind WebhookInfo.url := by
  refine ⟨And.left, fun h => ⟨h, fun Index => ?_⟩⟩
  rcases Int.lt_or_le Index 0 with hneg | hpos
  · unfold GetWebhookUrl
    rw [if_pos hneg, if_pos hneg]
  · obtain ⟨i, rfl⟩ := Int.eq_ofNat_of_zero_le hpos
    rw [getWebhookUrl_eq, getWebhookUrl_eq, h i]

/-- No separator is written. -/
theorem saved_notMem {ws : List WebhookInfo} (hws : ∀ w ∈ ws, w.Allowed) {s : List UInt8}
    (hs : 59 ∉ s) : 59 ∉ ws.foldl (saveWebhook 0) s := by
  induction ws generalizing s with
  | nil => exact hs
  | cons w ws ih =>
      refine ih (fun w' hw' => hws w' (List.mem_cons_of_mem _ hw')) ?_
      unfold saveWebhook
      split
      next hvalid =>
        intro hmem
        have hmem := List.mem_of_mem_take ((prefix_fix_truncation _).subset hmem)
        rw [appendLoop_eq] at hmem
        rcases List.mem_append.mp hmem with hmem | hmem
        · exact hs hmem
        · exact (hws w List.mem_cons_self hvalid).2.1 (List.mem_of_mem_take hmem)
      next => exact hs

theorem foldl_invalid {ws : List WebhookInfo} (hws : ∀ w ∈ ws, w.m_Valid = false) (s : List UInt8) :
    ws.foldl (saveWebhook 0) s = s := by
  induction ws with
  | nil => rfl
  | cons w ws ih =>
      have hw : saveWebhook 0 s w = s := by
        unfold saveWebhook
        rw [hws w List.mem_cons_self]
        rfl
      rw [List.foldl_cons, hw]
      exact ih fun w' hw' => hws w' (List.mem_cons_of_mem _ hw')

theorem parseLoop_nil (left : Nat) : parseLoop left [] = List.replicate left .zero := by
  cases left <;> rfl

/-- A text without a separator is the first URL. -/
theorem parseLoop_one {s : List UInt8} (hs : 59 ∉ s) (hne : s ≠ []) (left : Nat) :
    parseLoop (left + 1) s =
      { m_aUrl := str_copy s 256, m_Valid := true } :: List.replicate left .zero := by
  have hkeep : ∀ c ∈ s, decide (c ≠ 59) = true := fun c hc =>
    decide_eq_true fun h => hs (h ▸ hc)
  obtain ⟨c, t, rfl⟩ := List.exists_cons_of_ne_nil hne
  have htoken : strtok_r 59 (c :: t) = some (c :: t, []) := by
    have hhead : (c :: t).dropWhile (· = 59) = c :: t :=
      List.dropWhile_cons_of_neg (by simpa using hkeep c List.mem_cons_self)
    unfold strtok_r
    rw [hhead]
    simp only
    rw [List.takeWhile_eq_self_iff.mpr hkeep, List.dropWhile_eq_nil_iff.mpr hkeep, List.drop_nil]
  rw [parseLoop, htoken]
  simp only
  rw [parseLoop_nil]

@[simp] theorem url_zero : WebhookInfo.zero.url = none := rfl

theorem url_replicate (n i : Nat) : (List.replicate n WebhookInfo.zero)[i]?.bind WebhookInfo.url =
    none := by
  rw [List.getElem?_replicate]
  split <;> rfl

/-- All URLs of a text without a separator. -/
theorem url_parse {s : List UInt8} (hs : 59 ∉ s) (left i : Nat) :
    (parseLoop (left + 1) s)[i]?.bind WebhookInfo.url =
      if i = 0 ∧ s ≠ [] then some (str_copy s 256) else none := by
  by_cases hne : s = []
  · rw [if_neg fun h => h.2 hne, hne, parseLoop_nil]
    exact url_replicate _ _
  · rw [parseLoop_one hs hne]
    cases i with
    | zero =>
        rw [if_pos ⟨rfl, hne⟩]
        rfl
    | succ i =>
        rw [if_neg fun h => absurd h.1 (Nat.succ_ne_zero i), List.getElem?_cons_succ]
        exact url_replicate _ _

/-- A short text goes into the config variable as `str_append` leaves it. -/
theorem append_short {u : List UInt8} (hu : u.length ≤ 255) :
    str_append [] u 2560 = str_utf8_fix_truncation u :=
  str_append_fits (by rw [List.length_nil]; omega)

theorem str_copy_short {u : List UInt8} (hu : u.length ≤ 255) {dst_size : Nat}
    (hsize : 256 ≤ dst_size) (hfix : str_utf8_fix_truncation u = u) : str_copy u dst_size = u := by
  unfold str_copy
  rw [List.take_of_length_le (by omega), hfix]

/-- What is saved when no webhook behind the first is valid. -/
theorem saveWebhookUrls_cons {w : WebhookInfo} {ws : List WebhookInfo} (hw : w.Allowed)
    (hws : ∀ w ∈ ws, w.m_Valid = false) :
    SaveWebhookUrls (w :: ws) =
      if w.m_Valid then str_copy (str_utf8_fix_truncation w.m_aUrl) 2560 else [] := by
  unfold SaveWebhookUrls
  rw [List.foldl_cons, foldl_invalid hws]
  unfold saveWebhook
  by_cases hvalid : w.m_Valid = true
  · rw [if_pos hvalid, if_pos hvalid, if_neg (Nat.lt_irrefl 0)]
    simp only
    rw [append_short (hw hvalid).2.2]
  · rw [if_neg hvalid, if_neg hvalid]
    rfl

/-- Saving and parsing keeps the webhooks exactly if no webhook but the first is valid. -/
theorem parse_save_iff {ClDiscordWebhookCount : Nat} (hcount : 1 ≤ ClDiscordWebhookCount)
    {ws : List WebhookInfo} (hws : ∀ w ∈ ws, w.Allowed) :
    Kept ws (ParseWebhookUrls ClDiscordWebhookCount (SaveWebhookUrls ws)) ↔ Alone ws := by
  obtain ⟨left, rfl⟩ := Nat.exists_eq_add_of_le' hcount
  have hsep : 59 ∉ str_copy (SaveWebhookUrls ws) 2560 := fun hmem =>
    saved_notMem hws List.not_mem_nil ((prefix_str_copy _ _).subset ((prefix_str_copy _ _).subset hmem))
  rw [kept_iff]
  unfold ParseWebhookUrls
  simp only [url_parse hsep]
  cases ws with
  | nil =>
      constructor
      · intro _ i w hi
        cases hi
      · intro _ i
        exact if_neg fun h => h.2 rfl
  | cons w ws =>
      have hw := hws w List.mem_cons_self
      constructor
      · intro hkept i w' hi hvalid
        have hrest : ∀ w' ∈ ws, w'.m_Valid = false := by
          intro w' hw'
          obtain ⟨j, hj⟩ := List.mem_iff_getElem?.mp hw'
          have hurl := hkept (j + 1)
          rw [if_neg fun h => absurd h.1 (Nat.succ_ne_zero j), List.getElem?_cons_succ, hj] at hurl
          cases hvalid' : w'.m_Valid with
          | false => rfl
          | true =>
              rw [Option.bind_some, WebhookInfo.url, if_pos hvalid'] at hurl
              cases hurl
        cases i with
        | succ i =>
            have := hrest w' (List.mem_of_getElem? hi)
            rw [this] at hvalid
            cases hvalid
        | zero =>
            obtain rfl := Option.some.inj hi
            have hurl := hkept 0
            rw [saveWebhookUrls_cons hw hrest, if_pos hvalid, List.getElem?_cons_zero,
              Option.bind_some, WebhookInfo.url, if_pos hvalid] at hurl
            split at hurl
            next =>
              have hcopied := Option.some.inj hurl
              have hprefix := (prefix_str_copy (str_copy (str_copy (str_utf8_fix_truncation
                w.m_aUrl) 2560) 2560) 256).trans ((prefix_str_copy _ _).trans (prefix_str_copy _ _))
              rw [hcopied] at hprefix
              exact ⟨rfl, (prefix_fix_truncation _).eq_of_length_le hprefix.length_le⟩
            next => cases hurl
      · intro halone i
        have hrest : ∀ w' ∈ ws, w'.m_Valid = false := by
          intro w' hw'
          obtain ⟨j, hj⟩ := List.mem_iff_getElem?.mp hw'
          by_contra hvalid
          exact absurd (halone (j + 1) w' hj (by simpa using hvalid)).1 (Nat.succ_ne_zero j)
        rw [saveWebhookUrls_cons hw hrest]
        cases i with
        | succ i =>
            rw [if_neg fun h => absurd h.1 (Nat.succ_ne_zero i), List.getElem?_cons_succ]
            cases hi : ws[i]? with
            | none => rfl
            | some w' =>
                rw [Option.bind_some, WebhookInfo.url, hrest w' (List.mem_of_getElem? hi)]
                rfl
        | zero =>
            rw [List.getElem?_cons_zero, Option.bind_some, WebhookInfo.url]
            by_cases hvalid : w.m_Valid = true
            · obtain ⟨hne, -, hshort⟩ := hw hvalid
              have hfix := (halone 0 w rfl hvalid).2
              rw [if_pos hvalid, if_pos hvalid, hfix, str_copy_short hshort (by decide) hfix,
                str_copy_short hshort (by decide) hfix, if_pos ⟨rfl, hne⟩,
                str_copy_short hshort (by decide) hfix]
            · rw [if_neg hvalid, if_neg hvalid]
              exact if_neg fun h => h.2 rfl

def webhook (m_aUrl : List UInt8) : WebhookInfo := { m_aUrl := m_aUrl, m_Valid := true }

theorem parse_save_iff_one :
    Kept [webhook [97]] (ParseWebhookUrls 1 (SaveWebhookUrls [webhook [97]])) ↔
      Alone [webhook [97]] := by
  apply parse_save_iff (by decide)
  intro w hw _
  rw [List.mem_singleton.mp hw]
  decide

/-- Two URLs come back as one. -/
theorem not_kept_two :
    ¬ Kept [webhook [97], webhook [98]]
      (ParseWebhookUrls 2 (SaveWebhookUrls [webhook [97], webhook [98]])) := by
  intro h
  have hurl := h.1 1
  rw [show SaveWebhookUrls [webhook [97], webhook [98]] = [97, 98] by decide] at hurl
  exact absurd hurl (by decide)

end Fex.Client.Webhooks
