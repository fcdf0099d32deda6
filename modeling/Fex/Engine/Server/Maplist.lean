import Fex.Engine.Server

/-!
# The list of maps arrives

Every message takes names as long as they fit.  A name that leaves less than two
bytes of the message is sent again in the next one, so the names arrive once
exactly where this does not happen.
-/

namespace Fex.Engine.Server

open Fex.Lib Fex.Base Packer Network

/-! ## Names in messages -/

/-- The strings a client reads from a message, `name` is read before `data`. -/
def readNames (name : CString) : List UInt8 → List CString
  | [] => []
  | b :: data => if b = 0 then name :: readNames [] data else readNames (name ++ [b]) data

theorem readNames_append (name s : CString) (hs : 0 ∉ s) (data : List UInt8) :
    readNames name (s ++ 0 :: data) = (name ++ s) :: readNames [] data := by
  induction s generalizing name with
  | nil => simp [readNames]
  | cons b s ih =>
      have hb : b ≠ 0 := fun h => hs (by rw [h]; exact List.mem_cons_self)
      rw [List.cons_append, readNames, if_neg hb, ih _ fun h => hs (List.mem_cons_of_mem _ h),
        List.append_assoc]
      rfl

theorem readNames_flatMap (names : List CString) (h : ∀ s ∈ names, 0 ∉ s) :
    readNames [] (names.flatMap fun s => s ++ [0]) = names := by
  induction names with
  | nil => rfl
  | cons s names ih =>
      have hdata : ((s :: names).flatMap fun s => s ++ [0]) =
          s ++ 0 :: names.flatMap fun s => s ++ [0] := by
        rw [List.flatMap_cons, List.append_assoc]
        rfl
      rw [hdata, readNames_append [] s (h s (by simp)), ih fun s hs => h s (by simp [hs])]
      rfl

/-- The names in a message of the list. -/
def messageNames (Msg : CMsgPacker) : List CString :=
  if Msg.m_MsgId = NETMSG_MAPLIST_ADD then readNames [] Msg.packer.m_pBuffer else []

/-- The message goes into one chunk of a packet. -/
def Fits (Msg : CMsgPacker) : Prop :=
  ∀ g_UuidManager Uuid, Snapshot.CUuidManager.GetUuid g_UuidManager Msg.m_MsgId = .ok Uuid →
    ∃ Pack, RepackMsg g_UuidManager Msg = .ok Pack ∧ Pack.m_Error = false ∧
      Pack.Size + NET_MAX_CHUNKHEADERSIZE ≤ NET_MAX_PAYLOAD - TOKEN_SIZE

/-! ## Which names a message takes -/

/-- The bytes of a name in a message. -/
def packedSize (name : CString) : Nat := (packedText name).length + 1

/-- What `Limit` is for an empty message. -/
def MAPLIST_LIMIT : Nat := NET_MAX_PAYLOAD - 128

/-- No name leaves less than two bytes of its message.  `Limit` is what is left of the message the
first name is tried in. -/
def LeavesRoom : Nat → List CString → Prop
  | _, [] => True
  | Limit, name :: names =>
      if packedSize name ≤ Limit then
        1 < Limit - packedSize name ∧ LeavesRoom (Limit - packedSize name) names
      else
        1 < MAPLIST_LIMIT - packedSize name ∧ LeavesRoom (MAPLIST_LIMIT - packedSize name) names

/-- The names of one message and how far the list gets. -/
def fill : Nat → List CString → List CString × Nat
  | _, [] => ([], 0)
  | Limit, name :: names =>
      if packedSize name ≤ Limit then
        if Limit - packedSize name ≤ 1 then ([name], 0)
        else
          let r := fill (Limit - packedSize name) names
          (name :: r.1, r.2 + 1)
      else ([], 0)

/-- All names that are sent. -/
def sentNames : Nat → List CString → List CString
  | _, [] => []
  | Limit, name :: names =>
      if packedSize name ≤ Limit then
        if Limit - packedSize name ≤ 1 then
          name :: name :: sentNames (MAPLIST_LIMIT - packedSize name) names
        else name :: sentNames (Limit - packedSize name) names
      else name :: sentNames (MAPLIST_LIMIT - packedSize name) names

theorem fill_cons (Limit : Nat) (name : CString) (names : List CString) :
    fill Limit (name :: names) =
      if packedSize name ≤ Limit then
        if Limit - packedSize name ≤ 1 then ([name], 0)
        else
          (name :: (fill (Limit - packedSize name) names).1,
            (fill (Limit - packedSize name) names).2 + 1)
      else ([], 0) := rfl

theorem sentNames_cons (Limit : Nat) (name : CString) (names : List CString) :
    sentNames Limit (name :: names) =
      if packedSize name ≤ Limit then
        if Limit - packedSize name ≤ 1 then
          name :: name :: sentNames (MAPLIST_LIMIT - packedSize name) names
        else name :: sentNames (Limit - packedSize name) names
      else name :: sentNames (MAPLIST_LIMIT - packedSize name) names := rfl

/-- Names of the length the buffers of the entries allow. -/
def Short (names : List CString) : Prop := ∀ name ∈ names, 0 ∉ name ∧ name.length < 128

theorem packedSize_le {name : CString} (h : name.length < 128) : packedSize name ≤ 509 := by
  have hlength := length_packedText_le name
  unfold packedSize
  omega

theorem maplist_limit : MAPLIST_LIMIT = 1266 := rfl

theorem Short.tail {name : CString} {names : List CString} (h : Short (name :: names)) :
    Short names := fun n hn => h n (List.mem_cons_of_mem _ hn)

theorem Short.drop {names : List CString} (h : Short names) (k : Nat) : Short (names.drop k) :=
  fun n hn => h n (List.mem_of_mem_drop hn)

theorem sentNames_fill (names : List CString) (hshort : Short names) (Limit : Nat) :
    sentNames Limit names = (fill Limit names).1 ++
      sentNames MAPLIST_LIMIT (names.drop (fill Limit names).2) := by
  induction names generalizing Limit with
  | nil => rfl
  | cons name names ih =>
      have hsize := packedSize_le (hshort name (by simp)).2
      have hlimit := maplist_limit
      have hfresh : sentNames MAPLIST_LIMIT (name :: names) =
          name :: sentNames (MAPLIST_LIMIT - packedSize name) names := by
        rw [sentNames_cons, if_pos (by omega), if_neg (by omega)]
      by_cases hfits : packedSize name ≤ Limit
      · by_cases hfull : Limit - packedSize name ≤ 1
        · rw [sentNames_cons, if_pos hfits, if_pos hfull, fill_cons, if_pos hfits, if_pos hfull]
          simp only [List.drop_zero]
          rw [hfresh]
          rfl
        · rw [sentNames_cons, if_pos hfits, if_neg hfull, fill_cons, if_pos hfits, if_neg hfull,
            ih hshort.tail]
          rfl
      · rw [sentNames_cons, if_neg hfits, fill_cons, if_neg hfits]
        simp only [List.drop_zero]
        rw [hfresh]
        rfl

theorem length_le_sentNames (names : List CString) (Limit : Nat) :
    names.length ≤ (sentNames Limit names).length := by
  induction names generalizing Limit with
  | nil => exact Nat.le_refl _
  | cons name names ih =>
      rw [sentNames_cons]
      split
      · split
        · exact Nat.le_succ_of_le (Nat.succ_le_succ (ih _))
        · exact Nat.succ_le_succ (ih _)
      · exact Nat.succ_le_succ (ih _)

theorem sentNames_eq {names : List CString} (hshort : Short names) {Limit : Nat}
    (h : LeavesRoom Limit names) : sentNames Limit names = names := by
  induction names generalizing Limit with
  | nil => rfl
  | cons name names ih =>
      unfold LeavesRoom at h
      by_cases hfits : packedSize name ≤ Limit
      · rw [if_pos hfits] at h
        rw [sentNames_cons, if_pos hfits, if_neg (by omega), ih hshort.tail h.2]
      · rw [if_neg hfits] at h
        rw [sentNames_cons, if_neg hfits, ih hshort.tail h.2]

theorem leavesRoom_of_length {names : List CString} (hshort : Short names) {Limit : Nat}
    (h : (sentNames Limit names).length = names.length) : LeavesRoom Limit names := by
  induction names generalizing Limit with
  | nil => trivial
  | cons name names ih =>
      have hsize := packedSize_le (hshort name (by simp)).2
      have hlimit := maplist_limit
      unfold LeavesRoom
      rw [sentNames_cons] at h
      by_cases hfits : packedSize name ≤ Limit
      · rw [if_pos hfits] at h ⊢
        by_cases hfull : Limit - packedSize name ≤ 1
        · rw [if_pos hfull] at h
          have hle := length_le_sentNames names (MAPLIST_LIMIT - packedSize name)
          simp only [List.length_cons] at h
          omega
        · rw [if_neg hfull] at h
          exact ⟨by omega, ih hshort.tail (Nat.succ.inj h)⟩
      · rw [if_neg hfits] at h ⊢
        exact ⟨by omega, ih hshort.tail (Nat.succ.inj h)⟩

/-! ## One call -/

/-- The bytes of names in a message. -/
def packNames (names : List CString) : List UInt8 := names.flatMap fun s => packedText s ++ [0]

theorem fillMaplist_eq {names : List CString} (hshort : Short names) (Msg : CMsgPacker)
    (Limit : Nat) (EntryToSend : Int) (herror : Msg.packer.m_Error = false)
    (hbuffer : Msg.packer.m_BufferSize = PACKER_BUFFER_SIZE) (hlimit : 1 < Limit)
    (hroom : Msg.Size + Limit ≤ MAPLIST_LIMIT) (hint : EntryToSend + names.length ≤ intMax) :
    ∃ Msg', CServer.fillMaplist names Msg Limit EntryToSend =
        .ok (Msg', EntryToSend + (fill Limit names).2) ∧
      Msg'.m_MsgId = Msg.m_MsgId ∧ Msg'.m_System = Msg.m_System ∧
      Msg'.packer.m_pBuffer = Msg.packer.m_pBuffer ++ packNames (fill Limit names).1 ∧
      Msg'.Size ≤ MAPLIST_LIMIT := by
  induction names generalizing Msg Limit EntryToSend with
  | nil =>
      refine ⟨Msg, ?_, rfl, rfl, by simp [fill, packNames], by omega⟩
      simp [CServer.fillMaplist, fill]
  | cons name names ih =>
      have hmax := maplist_limit
      have hsizeof : PACKER_BUFFER_SIZE = 2048 := rfl
      have hadd := Msg.packer.addString_eq herror name
        (show (0 : Int) < (Limit : Int) - 1 by omega) (by
          unfold CMsgPacker.Size at hroom
          rw [hbuffer]
          omega)
      unfold CServer.fillMaplist CMsgPacker.AddString
      by_cases hfits : packedSize name ≤ Limit
      · have hlength : ((packedText name).length : Int) ≤ (Limit : Int) - 1 := by
          unfold packedSize at hfits
          omega
        rw [if_pos hlength] at hadd
        simp only [hadd, bind, Except.bind, pure, Except.pure]
        set Msg₁ : CMsgPacker := { Msg with packer := { Msg.packer with
          m_pBuffer := Msg.packer.m_pBuffer ++ (packedText name ++ [0]) } }
        have hsize : Msg₁.Size = Msg.Size + packedSize name := by
          show (Msg.packer.m_pBuffer ++ (packedText name ++ [0])).length = _
          rw [List.length_append, List.length_append]
          rfl
        have herror₁ : Msg₁.Error = false := herror
        rw [herror₁, if_neg (by decide)]
        have hleft : (Limit : Int) - ((Msg₁.Size : Int) - (Msg.Size : Int)) =
            (Limit - packedSize name : Nat) := by
          rw [hsize]
          omega
        rw [hleft]
        by_cases hfull : Limit - packedSize name ≤ 1
        · rw [if_pos (by omega), fill_cons, if_pos hfits, if_pos hfull]
          refine ⟨Msg₁, by simp, rfl, rfl, ?_, by omega⟩
          show Msg.packer.m_pBuffer ++ (packedText name ++ [0]) = _
          simp [packNames]
        · rw [List.length_cons] at hint
          have hnext : CServer.increment EntryToSend = .ok (EntryToSend + 1) := by
            unfold CServer.increment
            rw [if_pos (by omega)]
          rw [if_neg (by omega), fill_cons, if_pos hfits, if_neg hfull]
          simp only [hnext]
          obtain ⟨Msg', hrun, hid, hsystem, hdata, hle⟩ := ih hshort.tail Msg₁ _ _ herror hbuffer
            (show 1 < Limit - packedSize name by omega) (by omega)
            (show EntryToSend + 1 + names.length ≤ intMax by omega)
          refine ⟨Msg', ?_, hid, hsystem, ?_, hle⟩
          · rw [hrun]
            congr 2
            omega
          · rw [hdata]
            show Msg.packer.m_pBuffer ++ (packedText name ++ [0]) ++ _ = _
            rw [List.append_assoc]
            rfl
      · have hlength : ¬ ((packedText name).length : Int) ≤ (Limit : Int) - 1 := by
          unfold packedSize at hfits
          omega
        rw [if_neg hlength] at hadd
        simp only [hadd, bind, Except.bind, pure, Except.pure]
        rw [fill_cons, if_neg hfits]
        refine ⟨{ Msg with packer := { Msg.packer with m_Error := true } },
          by simp [CMsgPacker.Error], rfl, rfl, by simp [packNames], ?_⟩
        show Msg.Size ≤ MAPLIST_LIMIT
        omega

theorem fits_of_size {Msg : CMsgPacker} (hsystem : Msg.m_System = true)
    (hid : ¬ Msg.m_MsgId < Snapshot.OFFSET_UUID) (h : Msg.Size ≤ MAPLIST_LIMIT) : Fits Msg := by
  intro g_UuidManager Uuid huuid
  have hlimit := maplist_limit
  have hhead : (CPacker.AddInt 1).AddRaw Uuid.toList =
      { CPacker with m_pBuffer := 1 :: Uuid.toList } :=
    CAbstractPacker.addRaw_eq (CPacker.AddInt 1) rfl _ (by rw [Vector.length_toList]; decide)
  have hsize : CAbstractPacker.Size { CPacker with m_pBuffer := 1 :: Uuid.toList } = 17 := by
    show (1 :: Uuid.toList).length = 17
    rw [List.length_cons, Vector.length_toList]
  have hbuffer : CPacker.m_BufferSize = 2048 := rfl
  unfold CMsgPacker.Size CAbstractPacker.Size at h
  have hbody := CAbstractPacker.addRaw_eq { CPacker with m_pBuffer := 1 :: Uuid.toList } rfl
    Msg.packer.m_pBuffer (by rw [hsize, hbuffer]; omega)
  unfold RepackMsg
  rw [hsystem, if_neg hid]
  simp only [if_true, huuid, bind, Except.bind, pure, Except.pure, hhead, hbody]
  refine ⟨_, rfl, rfl, ?_⟩
  show (1 :: Uuid.toList ++ Msg.packer.m_pBuffer).length + 3 ≤ 1390
  rw [List.length_append, List.length_cons, Vector.length_toList]
  omega

theorem fill_le (names : List CString) (Limit : Nat) : (fill Limit names).2 ≤ names.length := by
  induction names generalizing Limit with
  | nil => exact Nat.le_refl _
  | cons name names ih =>
      rw [fill_cons]
      split
      · split
        · exact Nat.zero_le _
        · exact Nat.succ_le_succ (ih _)
      · exact Nat.zero_le _

/-- Every message takes a name for good. -/
theorem fill_pos {name : CString} {names : List CString} (hshort : Short (name :: names)) :
    0 < (fill MAPLIST_LIMIT (name :: names)).2 := by
  have hsize := packedSize_le (hshort name (by simp)).2
  have hlimit := maplist_limit
  rw [fill_cons, if_pos (by omega), if_neg (by omega)]
  exact Nat.succ_pos _

theorem mem_of_mem_fill {names : List CString} {Limit : Nat} {name : CString}
    (h : name ∈ (fill Limit names).1) : name ∈ names := by
  induction names generalizing Limit with
  | nil => cases h
  | cons first names ih =>
      rw [fill_cons] at h
      split at h
      · split at h
        · rw [List.mem_singleton.mp h]
          exact List.mem_cons_self
        · rcases List.mem_cons.mp h with h | h
          · rw [h]
            exact List.mem_cons_self
          · exact List.mem_cons_of_mem _ (ih h)
      · cases h

/-- A client that the entries are sent to, all messages are sent from `i` on. -/
def CClient.sending (Client : CClient) (i : Int) : CClient :=
  { Client with m_MaplistEntryToSend := i }

theorem size_t_of_nonneg {i : Int} (h₀ : 0 ≤ i) (h₁ : i ≤ intMax) : CServer.size_t i = i := by
  unfold CServer.size_t
  have hmax : intMax = 2147483647 := rfl
  omega

section

variable {s : CServer} {Client : CClient}

theorem sendMaplist_end (hint : (s.m_vMaplistEntries.length : Int) ≤ intMax) :
    s.sendMaplist (Client.sending s.m_vMaplistEntries.length) =
      .ok (Client.sending MAPLIST_DONE, [CServer.MaplistGroupEnd]) := by
  unfold CServer.sendMaplist CClient.sending
  simp only [size_t_of_nonneg (Int.natCast_nonneg _) hint]
  rw [if_neg (Int.lt_irrefl _)]
  simp only [bind, Except.bind, pure, Except.pure, size_t_of_nonneg (Int.natCast_nonneg _) hint]
  rw [if_pos (Int.le_refl _)]
  rfl

variable (Client) in
theorem sendMaplist_next (hshort : Short s.m_vMaplistEntries)
    (hint : (s.m_vMaplistEntries.length : Int) ≤ intMax) {i : Nat}
    (hi : i < s.m_vMaplistEntries.length) :
    ∃ Msg, messageNames Msg =
        (fill MAPLIST_LIMIT (s.m_vMaplistEntries.drop i)).1.map packedText ∧
      Msg.m_MsgId = NETMSG_MAPLIST_ADD ∧ Fits Msg ∧
      s.sendMaplist (Client.sending i) = .ok
        (if i + (fill MAPLIST_LIMIT (s.m_vMaplistEntries.drop i)).2 = s.m_vMaplistEntries.length then
          (Client.sending MAPLIST_DONE, [Msg, CServer.MaplistGroupEnd])
        else
          (Client.sending (i + (fill MAPLIST_LIMIT (s.m_vMaplistEntries.drop i)).2 : Nat), [Msg])) := by
  have hle := fill_le (s.m_vMaplistEntries.drop i) MAPLIST_LIMIT
  rw [List.length_drop] at hle
  set r := fill MAPLIST_LIMIT (s.m_vMaplistEntries.drop i) with hr
  obtain ⟨Msg, hrun, hid, hsystem, hdata, hsize⟩ := fillMaplist_eq (hshort.drop i)
    (CMsgPacker.new NETMSG_MAPLIST_ADD true) MAPLIST_LIMIT i rfl rfl (by decide) (by decide) (by rw [List.length_drop]; omega)
  have hadd : Msg.m_MsgId = NETMSG_MAPLIST_ADD := hid
  refine ⟨Msg, ?_, hadd, fits_of_size hsystem (by rw [hadd]; decide) hsize, ?_⟩
  · unfold messageNames
    rw [if_pos hadd, hdata]
    have hmem : ∀ p ∈ r.1.map packedText, 0 ∉ p := by
      intro p hp
      obtain ⟨name, hname, rfl⟩ := List.mem_map.mp hp
      exact zero_notMem_packedText (hshort.drop i name (mem_of_mem_fill hname)).1
    have hpack : packNames r.1 = (r.1.map packedText).flatMap fun s => s ++ [0] := by
      unfold packNames
      rw [List.flatMap_map]
    show readNames [] ([] ++ packNames _) = _
    rw [List.nil_append, ← hr, hpack]
    exact readNames_flatMap _ hmem
  · have hlimit : (NET_MAX_PAYLOAD : Int) - 128 = MAPLIST_LIMIT := rfl
    unfold CServer.sendMaplist CClient.sending
    simp only [size_t_of_nonneg (Int.natCast_nonneg _) (show (i : Int) ≤ intMax by omega)]
    rw [if_pos (Int.ofNat_lt.mpr hi), hlimit]
    simp only [Int.toNat_natCast, hrun, bind, Except.bind, pure, Except.pure]
    rw [← hr, size_t_of_nonneg (by omega) (by omega)]
    by_cases hend : i + r.2 = s.m_vMaplistEntries.length
    · rw [if_pos (by omega), if_pos hend]
      rfl
    · rw [if_neg (by omega), if_neg hend]
      rfl

end

/-! ## Repeated calls -/

/-- The client after `n` calls and what was sent to it. -/
def CServer.calls (s : CServer) : Nat → CClient → Exec (CClient × List CMsgPacker)
  | 0, Client => .ok (Client, [])
  | n + 1, Client => do
      let (Client, sent) ← s.UpdateClientMaplistEntries Client
      let (Client, later) ← s.calls n Client
      return (Client, sent ++ later)

/-- A client that is in the game, authenticated and has the list of its commands. -/
structure CClient.Receives (Client : CClient) : Prop where
  state : Client.m_State = .INGAME
  authed : Client.m_Authed ≠ .NO
  sixup : Client.m_Sixup = false
  commands : Client.m_pRconCmdToSend = none

section

variable {s : CServer} {Client Client' : CClient} {sent : List CMsgPacker}

theorem update_sending (hc : Client.Receives) (i : Nat) :
    s.UpdateClientMaplistEntries (Client.sending i) = s.sendMaplist (Client.sending i) := by
  unfold CServer.UpdateClientMaplistEntries
  have hdisabled : ¬ (i : Int) = MAPLIST_DISABLED := by
    unfold MAPLIST_DISABLED
    omega
  have hdone : ¬ (i : Int) = MAPLIST_DONE := by
    unfold MAPLIST_DONE
    omega
  have hinit : ¬ (Client.sending i).m_MaplistEntryToSend = MAPLIST_UNINITIALIZED := by
    show ¬ (i : Int) = -1
    omega
  rw [if_neg, if_neg hinit]
  rintro (h | h | h | h | h | h)
  · exact h hc.state
  · exact hc.authed h
  · rw [show (Client.sending i).m_Sixup = false from hc.sixup] at h
    cases h
  · exact h hc.commands
  · exact hdisabled h
  · exact hdone h

theorem update_done (hdone : Client.m_MaplistEntryToSend = MAPLIST_DONE) :
    s.UpdateClientMaplistEntries Client = .ok (Client, []) := by
  unfold CServer.UpdateClientMaplistEntries
  rw [if_pos (.inr (.inr (.inr (.inr (.inr hdone)))))]

theorem calls_done (hdone : Client.m_MaplistEntryToSend = MAPLIST_DONE) (n : Nat) :
    s.calls n Client = .ok (Client, []) := by
  induction n with
  | zero => rfl
  | succ n ih =>
      unfold CServer.calls
      simp only [update_done hdone, ih, bind, Except.bind, pure, Except.pure]
      rfl

/-- All calls that end with the list send the same. -/
theorem calls_unique {n m : Nat} {c d : CClient} {sent later : List CMsgPacker}
    (hn : s.calls n Client = .ok (c, sent)) (hc : c.m_MaplistEntryToSend = MAPLIST_DONE)
    (hm : s.calls m Client = .ok (d, later)) (hd : d.m_MaplistEntryToSend = MAPLIST_DONE) :
    sent = later := by
  induction n generalizing m Client sent later with
  | zero =>
      cases hn
      rw [calls_done hc] at hm
      cases hm
      rfl
  | succ n ih =>
      cases m with
      | zero =>
          cases hm
          rw [calls_done hd] at hn
          cases hn
          rfl
      | succ m =>
          unfold CServer.calls at hn hm
          cases hstep : s.UpdateClientMaplistEntries Client with
          | error e =>
              rw [hstep] at hn
              cases hn
          | ok r =>
              simp only [hstep, bind, Except.bind] at hn hm
              cases hrest : s.calls n r.1 with
              | error e =>
                  simp only [hrest] at hn
                  cases hn
              | ok x =>
                  cases hrest' : s.calls m r.1 with
                  | error e =>
                      simp only [hrest'] at hm
                      cases hm
                  | ok y =>
                      simp only [hrest, hrest', pure, Except.pure] at hn hm
                      cases hn
                      cases hm
                      rw [ih hrest hrest']

/-- From entry `i` on the calls send all names and the end of the list. -/
theorem calls_sending (hc : Client.Receives) (hshort : Short s.m_vMaplistEntries)
    (hint : (s.m_vMaplistEntries.length : Int) ≤ intMax) {i : Nat}
    (hi : i ≤ s.m_vMaplistEntries.length) :
    ∃ n adds, s.calls n (Client.sending i) =
        .ok (Client.sending MAPLIST_DONE, adds ++ [CServer.MaplistGroupEnd]) ∧
      (∀ m ∈ adds, m.m_MsgId = NETMSG_MAPLIST_ADD ∧ Fits m) ∧
      adds.flatMap messageNames =
        (sentNames MAPLIST_LIMIT (s.m_vMaplistEntries.drop i)).map packedText := by
  induction hk : s.m_vMaplistEntries.length - i using Nat.strongRecOn generalizing i with
  | ind k ih =>
      rcases Nat.eq_or_lt_of_le hi with heq | hlt
      · refine ⟨1, [], ?_, by simp, ?_⟩
        · unfold CServer.calls
          simp only [update_sending hc]
          rw [heq]
          simp only [sendMaplist_end hint, bind, Except.bind]
          rfl
        · rw [heq, List.drop_length]
          rfl
      · obtain ⟨Msg, hnames, hid, hfits, hrun⟩ :=
          sendMaplist_next Client hshort hint hlt
        have hsplit := sentNames_fill _ (hshort.drop i) MAPLIST_LIMIT
        rw [List.drop_drop] at hsplit
        set k' := (fill MAPLIST_LIMIT (s.m_vMaplistEntries.drop i)).2 with hk'
        have hle : k' ≤ s.m_vMaplistEntries.length - i := by
          have h := fill_le (s.m_vMaplistEntries.drop i) MAPLIST_LIMIT
          rw [List.length_drop] at h
          exact h
        have hpos : 0 < k' := by
          obtain ⟨name, names, hcons⟩ := List.exists_cons_of_ne_nil (l := s.m_vMaplistEntries.drop i)
            (by rw [← List.length_pos_iff, List.length_drop]; omega)
          rw [hk', hcons]
          apply fill_pos
          rw [← hcons]
          exact hshort.drop i
        by_cases hend : i + k' = s.m_vMaplistEntries.length
        · rw [if_pos hend] at hrun
          refine ⟨1, [Msg], ?_, ?_, ?_⟩
          · unfold CServer.calls
            simp only [update_sending hc, hrun, bind, Except.bind]
            rfl
          · intro m hm
            rw [List.mem_singleton.mp hm]
            exact ⟨hid, hfits⟩
          · rw [hsplit, hend, List.drop_length]
            simp [hnames, sentNames]
        · rw [if_neg hend] at hrun
          obtain ⟨n, adds, hcalls, hadds, hrest⟩ := ih _ (by omega) (by omega : i + k' ≤ _) rfl
          refine ⟨n + 1, Msg :: adds, ?_, ?_, ?_⟩
          · unfold CServer.calls
            simp only [update_sending hc, hrun, hcalls, bind, Except.bind]
            rfl
          · intro m hm
            rcases List.mem_cons.mp hm with rfl | hm
            · exact ⟨hid, hfits⟩
            · exact hadds m hm
          · rw [hsplit, List.flatMap_cons, hrest, hnames, List.map_append]

theorem update_start (hc : Client.Receives)
    (hallowed : s.anyMapCommand Client.ConsoleAccessLevel CServer.MAP_COMMANDS = .ok true) :
    s.UpdateClientMaplistEntries (Client.sending MAPLIST_UNINITIALIZED) = do
      let (Client, sent) ← s.sendMaplist (Client.sending 0)
      return (Client, s.MaplistGroupStart :: sent) := by
  unfold CServer.UpdateClientMaplistEntries
  have hinit : (Client.sending MAPLIST_UNINITIALIZED).m_MaplistEntryToSend =
      MAPLIST_UNINITIALIZED := rfl
  rw [if_neg, if_pos hinit]
  · have hlevel : (Client.sending MAPLIST_UNINITIALIZED).ConsoleAccessLevel =
        Client.ConsoleAccessLevel := rfl
    rw [hlevel, hallowed]
    rfl
  · rintro (h | h | h | h | h | h)
    · exact h hc.state
    · exact hc.authed h
    · rw [show (Client.sending MAPLIST_UNINITIALIZED).m_Sixup = false from hc.sixup] at h
      cases h
    · exact h hc.commands
    · exact absurd h (by decide : ¬ MAPLIST_UNINITIALIZED = MAPLIST_DISABLED)
    · exact absurd h (by decide : ¬ MAPLIST_UNINITIALIZED = MAPLIST_DONE)

/-- The state of the list at a client: not started, at an entry or done. -/
def Progressing (s : CServer) (Client Client' : CClient) : Prop :=
  Client' = Client.sending MAPLIST_UNINITIALIZED ∨
    (∃ i : Nat, i ≤ s.m_vMaplistEntries.length ∧ Client' = Client.sending i) ∨
    Client' = Client.sending MAPLIST_DONE

/-- A call that is not the last sends entries for good. -/
theorem Progressing.update (hc : Client.Receives)
    (hallowed : s.anyMapCommand Client.ConsoleAccessLevel CServer.MAP_COMMANDS = .ok true)
    (hshort : Short s.m_vMaplistEntries) (hint : (s.m_vMaplistEntries.length : Int) ≤ intMax)
    (h : Progressing s Client Client') :
    ∃ d sent, s.UpdateClientMaplistEntries Client' = .ok (d, sent) ∧ Progressing s Client d ∧
      (d.m_MaplistEntryToSend = MAPLIST_DONE ∨
        Client'.m_MaplistEntryToSend < d.m_MaplistEntryToSend) := by
  have hsend : ∀ i : Nat, i ≤ s.m_vMaplistEntries.length →
      ∃ d sent, s.sendMaplist (Client.sending i) = .ok (d, sent) ∧ Progressing s Client d ∧
        (d.m_MaplistEntryToSend = MAPLIST_DONE ∨ (i : Int) < d.m_MaplistEntryToSend) := by
    intro i hi
    rcases Nat.eq_or_lt_of_le hi with heq | hlt
    · refine ⟨_, [CServer.MaplistGroupEnd], ?_, .inr (.inr rfl), .inl rfl⟩
      rw [heq]
      exact sendMaplist_end hint
    · obtain ⟨Msg, -, -, -, hrun⟩ := sendMaplist_next Client hshort hint hlt
      have hle := fill_le (s.m_vMaplistEntries.drop i) MAPLIST_LIMIT
      obtain ⟨name, names, hcons⟩ := List.exists_cons_of_ne_nil (l := s.m_vMaplistEntries.drop i)
        (by rw [← List.length_pos_iff, List.length_drop]; omega)
      have hpos := fill_pos (hcons ▸ hshort.drop i)
      rw [← hcons] at hpos
      rw [List.length_drop] at hle
      by_cases hend :
          i + (fill MAPLIST_LIMIT (s.m_vMaplistEntries.drop i)).2 = s.m_vMaplistEntries.length
      · rw [if_pos hend] at hrun
        exact ⟨_, _, hrun, .inr (.inr rfl), .inl rfl⟩
      · rw [if_neg hend] at hrun
        refine ⟨_, _, hrun, .inr (.inl ⟨_, by omega, rfl⟩), .inr ?_⟩
        show (i : Int) < ((i + _ : Nat) : Int)
        omega
  rcases h with rfl | ⟨i, hi, rfl⟩ | rfl
  · obtain ⟨d, sent, hrun, hd, hprogress⟩ := hsend 0 (Nat.zero_le _)
    refine ⟨d, s.MaplistGroupStart :: sent, ?_, hd, ?_⟩
    · rw [update_start hc hallowed]
      simp only [show s.sendMaplist (Client.sending 0) = _ from hrun, bind, Except.bind]
      rfl
    · rcases hprogress with hdone | hlt
      · exact .inl hdone
      · exact .inr (Int.lt_trans (by decide : (-1 : Int) < (0 : Nat)) hlt)
  · rw [update_sending hc]
    exact hsend i hi
  · exact ⟨_, _, update_done rfl, .inr (.inr rfl), .inl rfl⟩

theorem calls_progressing (hc : Client.Receives)
    (hallowed : s.anyMapCommand Client.ConsoleAccessLevel CServer.MAP_COMMANDS = .ok true)
    (hshort : Short s.m_vMaplistEntries) (hint : (s.m_vMaplistEntries.length : Int) ≤ intMax)
    {n : Nat} {c d : CClient} {sent : List CMsgPacker} (h : Progressing s Client c)
    (hrun : s.calls n c = .ok (d, sent)) : Progressing s Client d := by
  induction n generalizing c sent with
  | zero =>
      cases hrun
      exact h
  | succ n ih =>
      obtain ⟨c', first, hstep, hc', -⟩ := h.update hc hallowed hshort hint
      unfold CServer.calls at hrun
      simp only [hstep, bind, Except.bind] at hrun
      cases hrest : s.calls n c' with
      | error e =>
          simp only [hrest] at hrun
          cases hrun
      | ok x =>
          simp only [hrest, pure, Except.pure] at hrun
          cases hrun
          exact ih hc' hrest

/-! ## The list is sent completely and once -/

/-- The end of the list is sent after the names of all entries in order, every message fits and
every call before the end makes progress. -/
structure ListArrives (s : CServer) (Client : CClient) : Prop where
  names : ∃ n Client' adds,
    s.calls n Client = .ok (Client', s.MaplistGroupStart :: adds ++ [CServer.MaplistGroupEnd]) ∧
    Client'.m_MaplistEntryToSend = MAPLIST_DONE ∧
    (∀ m ∈ adds, m.m_MsgId = NETMSG_MAPLIST_ADD ∧ Fits m) ∧
    adds.flatMap messageNames = s.m_vMaplistEntries
  progress : ∀ n Client' sent, s.calls n Client = .ok (Client', sent) →
    ∃ d later, s.UpdateClientMaplistEntries Client' = .ok (d, later) ∧
      (d.m_MaplistEntryToSend = MAPLIST_DONE ∨
        Client'.m_MaplistEntryToSend < d.m_MaplistEntryToSend)

/-- The calls from the start of the list. -/
theorem calls_start (hc : Client.Receives)
    (hallowed : s.anyMapCommand Client.ConsoleAccessLevel CServer.MAP_COMMANDS = .ok true)
    (hshort : Short s.m_vMaplistEntries) (hint : (s.m_vMaplistEntries.length : Int) ≤ intMax) :
    ∃ n adds, s.calls n (Client.sending MAPLIST_UNINITIALIZED) = .ok (Client.sending MAPLIST_DONE,
        s.MaplistGroupStart :: adds ++ [CServer.MaplistGroupEnd]) ∧
      (∀ m ∈ adds, m.m_MsgId = NETMSG_MAPLIST_ADD ∧ Fits m) ∧
      adds.flatMap messageNames =
        (sentNames MAPLIST_LIMIT s.m_vMaplistEntries).map packedText := by
  obtain ⟨n, adds, hcalls, hadds, hnames⟩ := calls_sending hc hshort hint (Nat.zero_le _)
  cases n with
  | zero =>
      have hlength := congrArg (fun r => r.toOption.map fun x => x.2.length) hcalls
      simp [CServer.calls, Except.toOption] at hlength
  | succ n =>
      refine ⟨n + 1, adds, ?_, hadds, hnames⟩
      unfold CServer.calls at hcalls ⊢
      rw [update_sending hc] at hcalls
      rw [update_start hc hallowed]
      cases hstep : s.sendMaplist (Client.sending (0 : Nat)) with
      | error e =>
          rw [hstep] at hcalls
          cases hcalls
      | ok r =>
          simp only [hstep, bind, Except.bind] at hcalls
          simp only [bind, Except.bind, pure, Except.pure]
          cases hrest : s.calls n r.1 with
          | error e =>
              simp only [hrest] at hcalls
              cases hcalls
          | ok x =>
              simp only [hrest, pure, Except.pure] at hcalls
              simp only
              injection hcalls with hpair
              rw [Prod.ext_iff] at hpair
              obtain ⟨hclient, hsent⟩ := hpair
              simp only at hclient hsent
              rw [hclient, List.cons_append, hsent]
              rfl

/-! ## More entries than an `int` counts -/

theorem fillMaplist_le {names : List CString} {Msg Msg' : CMsgPacker} {Limit i i' : Int}
    (h : CServer.fillMaplist names Msg Limit i = .ok (Msg', i')) (hi : i ≤ intMax) :
    i ≤ i' ∧ i' ≤ intMax := by
  induction names generalizing Msg Limit i with
  | nil =>
      cases h
      exact ⟨Int.le_refl _, hi⟩
  | cons name names ih =>
      unfold CServer.fillMaplist at h
      cases hadd : Msg.AddString name (Limit - 1) false with
      | error e =>
          rw [hadd] at h
          cases h
      | ok Msg₁ =>
          simp only [hadd, bind, Except.bind, pure, Except.pure] at h
          split at h
          · cases h
            exact ⟨Int.le_refl _, hi⟩
          split at h
          · cases h
            exact ⟨Int.le_refl _, hi⟩
          unfold CServer.increment at h
          by_cases hlt : i < intMax
          · rw [if_pos hlt] at h
            obtain ⟨hle, hmax⟩ := ih h (Int.add_one_le_of_lt hlt)
            exact ⟨by omega, hmax⟩
          · rw [if_neg hlt] at h
            cases h

/-- The list has not ended. -/
def Counting (Client : CClient) : Prop :=
  MAPLIST_DISABLED ≤ Client.m_MaplistEntryToSend ∧ Client.m_MaplistEntryToSend ≤ intMax

theorem Counting.send {d : CClient} (hlong : intMax < s.m_vMaplistEntries.length)
    (h₀ : 0 ≤ Client.m_MaplistEntryToSend) (h₁ : Client.m_MaplistEntryToSend ≤ intMax)
    (hrun : s.sendMaplist Client = .ok (d, sent)) : Counting d := by
  unfold CServer.sendMaplist at hrun
  simp only [size_t_of_nonneg h₀ h₁] at hrun
  rw [if_pos (by omega)] at hrun
  cases hfill : CServer.fillMaplist
      (s.m_vMaplistEntries.drop Client.m_MaplistEntryToSend.toNat)
      (CMsgPacker.new NETMSG_MAPLIST_ADD true) ((NET_MAX_PAYLOAD : Int) - 128)
      Client.m_MaplistEntryToSend with
  | error e =>
      rw [hfill] at hrun
      cases hrun
  | ok r =>
      obtain ⟨hle, hmax⟩ := fillMaplist_le hfill h₁
      simp only [hfill, bind, Except.bind, pure, Except.pure] at hrun
      rw [size_t_of_nonneg (Int.le_trans h₀ hle) hmax, if_neg (by omega)] at hrun
      cases hrun
      exact ⟨Int.le_trans (by decide) (Int.le_trans h₀ hle), hmax⟩

theorem Counting.update {d : CClient} (hlong : intMax < s.m_vMaplistEntries.length)
    (h : Counting Client) (hrun : s.UpdateClientMaplistEntries Client = .ok (d, sent)) :
    Counting d := by
  obtain ⟨hlow, hhigh⟩ := h
  have hdisabled : MAPLIST_DISABLED = -2 := rfl
  have huninit : MAPLIST_UNINITIALIZED = -1 := rfl
  unfold CServer.UpdateClientMaplistEntries at hrun
  split at hrun
  · cases hrun
    exact ⟨hlow, hhigh⟩
  · rename_i hguard
    split at hrun
    · cases hallowed : s.anyMapCommand Client.ConsoleAccessLevel CServer.MAP_COMMANDS with
      | error e =>
          rw [hallowed] at hrun
          cases hrun
      | ok b =>
          simp only [hallowed, bind, Except.bind, pure, Except.pure] at hrun
          cases b with
          | false =>
              cases hrun
              exact ⟨Int.le_refl _, (by decide : (-2 : Int) ≤ intMax)⟩
          | true =>
              simp only [if_true] at hrun
              cases hsend : s.sendMaplist { Client with m_MaplistEntryToSend := 0 } with
              | error e =>
                  rw [hsend] at hrun
                  cases hrun
              | ok r =>
                  simp only [hsend] at hrun
                  cases hrun
                  exact Counting.send hlong (Int.le_refl 0) (by decide : (0 : Int) ≤ intMax) hsend
    · have hne : Client.m_MaplistEntryToSend ≠ MAPLIST_DISABLED := fun heq =>
        hguard (.inr (.inr (.inr (.inr (.inl heq)))))
      exact Counting.send hlong (by omega) hhigh hrun

theorem Counting.calls {d : CClient} (hlong : intMax < s.m_vMaplistEntries.length)
    (h : Counting Client) {n : Nat} (hrun : s.calls n Client = .ok (d, sent)) : Counting d := by
  induction n generalizing Client sent with
  | zero =>
      cases hrun
      exact h
  | succ n ih =>
      unfold CServer.calls at hrun
      cases hstep : s.UpdateClientMaplistEntries Client with
      | error e =>
          rw [hstep] at hrun
          cases hrun
      | ok r =>
          simp only [hstep, bind, Except.bind] at hrun
          cases hrest : s.calls n r.1 with
          | error e =>
              simp only [hrest] at hrun
              cases hrun
          | ok x =>
              simp only [hrest, pure, Except.pure] at hrun
              cases hrun
              exact ih (h.update hlong hstep) hrest

/-! ## When the list arrives -/

theorem ListArrives.length_le (h : ListArrives s (Client.sending MAPLIST_UNINITIALIZED)) :
    (s.m_vMaplistEntries.length : Int) ≤ intMax := by
  by_contra hlong
  obtain ⟨n, d, adds, hrun, hdone, -⟩ := h.names
  have hcount : Counting (Client.sending MAPLIST_UNINITIALIZED) :=
    ⟨(by decide : (-2 : Int) ≤ -1), (by decide : (-1 : Int) ≤ intMax)⟩
  obtain ⟨hlow, -⟩ := hcount.calls (by omega) hrun
  rw [hdone] at hlow
  exact absurd hlow (by decide)

theorem ListArrives.sentNames (hc : Client.Receives)
    (hallowed : s.anyMapCommand Client.ConsoleAccessLevel CServer.MAP_COMMANDS = .ok true)
    (hshort : Short s.m_vMaplistEntries)
    (h : ListArrives s (Client.sending MAPLIST_UNINITIALIZED)) :
    (sentNames MAPLIST_LIMIT s.m_vMaplistEntries).map packedText = s.m_vMaplistEntries := by
  obtain ⟨n, d, adds, hrun, hdone, -, hnames⟩ := h.names
  obtain ⟨n', adds', hrun', -, hnames'⟩ := calls_start hc hallowed hshort h.length_le
  have hsame := calls_unique hrun hdone hrun' rfl
  have hadds : adds = adds' :=
    List.append_cancel_right (List.tail_eq_of_cons_eq hsame)
  rw [← hnames', ← hadds, hnames]

theorem ListArrives.leavesRoom (hc : Client.Receives)
    (hallowed : s.anyMapCommand Client.ConsoleAccessLevel CServer.MAP_COMMANDS = .ok true)
    (hshort : Short s.m_vMaplistEntries)
    (h : ListArrives s (Client.sending MAPLIST_UNINITIALIZED)) :
    LeavesRoom MAPLIST_LIMIT s.m_vMaplistEntries := by
  apply leavesRoom_of_length hshort
  have hlength := congrArg List.length (h.sentNames hc hallowed hshort)
  rw [List.length_map] at hlength
  exact hlength

/-- The list arrives exactly where no name is sent twice, names are UTF-8 and an `int` counts the
entries. -/
theorem maplist_arrives (hc : Client.Receives)
    (hallowed : s.anyMapCommand Client.ConsoleAccessLevel CServer.MAP_COMMANDS = .ok true)
    (hshort : Short s.m_vMaplistEntries) :
    ListArrives s (Client.sending MAPLIST_UNINITIALIZED) ↔
      LeavesRoom MAPLIST_LIMIT s.m_vMaplistEntries ∧
      (∀ name ∈ s.m_vMaplistEntries, str_utf8_check name = true) ∧
      (s.m_vMaplistEntries.length : Int) ≤ intMax := by
  constructor
  · intro h
    have hsent := h.sentNames hc hallowed hshort
    have hroom := h.leavesRoom hc hallowed hshort
    rw [sentNames_eq hshort hroom] at hsent
    refine ⟨hroom, fun name hname => ?_, h.length_le⟩
    rw [← packedText_eq_self name (hshort name hname).1]
    exact List.map_inj_left.mp (hsent.trans (List.map_id _).symm) name hname
  · rintro ⟨hroom, hutf8, hint⟩
    obtain ⟨n, adds, hrun, hadds, hnames⟩ := calls_start hc hallowed hshort hint
    refine ⟨⟨n, _, adds, hrun, rfl, hadds, ?_⟩, fun n d sent hcalls => ?_⟩
    · rw [hnames, sentNames_eq hshort hroom]
      calc s.m_vMaplistEntries.map packedText
          = s.m_vMaplistEntries.map id := List.map_inj_left.mpr fun name hname =>
            (packedText_eq_self name (hshort name hname).1).mpr (hutf8 name hname)
        _ = s.m_vMaplistEntries := List.map_id _
    · obtain ⟨c, later, hupdate, -, hprogress⟩ :=
        (calls_progressing hc hallowed hshort hint (.inl rfl) hcalls).update hc hallowed hshort hint
      exact ⟨c, later, hupdate, hprogress⟩

end

/-! ## Two lists -/

def exampleCommand (pName : CString) : CCommand where
  m_pName := pName
  m_pHelp := []
  m_pParams := []
  m_Flags := CFGFLAG_SERVER
  m_Temp := false
  m_AccessLevel := ACCESS_LEVEL_ADMIN

/-- A server with these maps. -/
def exampleServer (names : List CString) : CServer where
  Console := { commands := CServer.MAP_COMMANDS.map exampleCommand }
  m_vMaplistEntries := names

def exampleAdmin : CClient where
  m_State := .INGAME
  m_Authed := .ADMIN
  m_Sixup := false
  m_pRconCmdToSend := none
  m_MaplistEntryToSend := MAPLIST_UNINITIALIZED

theorem exampleAdmin_receives : exampleAdmin.Receives := ⟨rfl, by decide, rfl, rfl⟩

theorem exampleServer_allowed (names : List CString) :
    (exampleServer names).anyMapCommand exampleAdmin.ConsoleAccessLevel CServer.MAP_COMMANDS =
      .ok true := rfl

/-- A name of `n` letters. -/
def letters (n : Nat) : CString := List.replicate n 97

theorem packedSize_letters (n : Nat) : packedSize (letters n) = n + 1 := by
  unfold packedSize
  rw [packedText_ascii fun b hb => by rw [List.eq_of_mem_replicate hb]; decide]
  exact congrArg (· + 1) (List.length_replicate ..)

theorem short_letters {lengths : List Nat} (h : ∀ n ∈ lengths, n < 128) :
    Short (lengths.map letters) := by
  intro name hname
  obtain ⟨n, hn, rfl⟩ := List.mem_map.mp hname
  refine ⟨fun hzero => ?_, ?_⟩
  · exact absurd (List.eq_of_mem_replicate hzero) (by decide)
  · rw [letters, List.length_replicate]
    exact h n hn

/-- Ten names that fill a message to its last byte. -/
def fullNames : List CString := [126, 126, 126, 126, 126, 126, 126, 126, 126, 122].map letters

/-- The name that fills a message is sent again. -/
theorem maplist_repeats : ¬ ListArrives (exampleServer fullNames) exampleAdmin := by
  intro h
  have hshort : Short fullNames := short_letters (by decide)
  have hroom : LeavesRoom MAPLIST_LIMIT fullNames :=
    ListArrives.leavesRoom exampleAdmin_receives (exampleServer_allowed fullNames) hshort h
  simp [LeavesRoom, fullNames, packedSize_letters, maplist_limit] at hroom

/-- Two maps are listed. -/
theorem maplist_arrives_two : ListArrives (exampleServer ([3, 5].map letters)) exampleAdmin := by
  have harrives := maplist_arrives (s := exampleServer ([3, 5].map letters)) exampleAdmin_receives
    (exampleServer_allowed _) (short_letters (by decide))
  apply harrives.mpr
  refine ⟨?_, ?_, by decide⟩
  · show LeavesRoom MAPLIST_LIMIT ([3, 5].map letters)
    simp [LeavesRoom, packedSize_letters, maplist_limit]
  · intro name hname
    have hnames : name ∈ [3, 5].map letters := hname
    rw [← packedText_eq_self name (short_letters (by decide) name hnames).1]
    obtain ⟨n, -, rfl⟩ := List.mem_map.mp hnames
    exact packedText_ascii fun b hb => by rw [List.eq_of_mem_replicate hb]; decide

end Fex.Engine.Server
