import Fex.Engine.MapDownload.Transfer

/-!
# Where a transfer stands

A client that reads everything on its way waits for the chunk the server sends
ahead for the next request.
-/

namespace Fex.Engine.MapDownload

open Fex.Lib

structure World.Inv (w : World) : Prop where
  fits : w.server.map.Fits
  window : 0 ≤ w.server.m_SvMapWindow ∧ w.server.m_SvMapWindow + MAX_CHUNKS ≤ 2147483646
  next : 0 ≤ w.server.m_NextMapChunk ∧ w.server.m_NextMapChunk ≤ MAX_CHUNKS
  asked : Asked w.server.m_NextMapChunk w.toServer
  announces : Announces w.server.map w.announced w.toClient
  client : ∀ m, w.announced = some m → m.Fits ∧ Correct m w.client
  idle : w.announced = none →
    w.client.m_MapdownloadFileTemp = none ∧ w.client.m_pMapdownloadTask = false ∧
      w.client.outcome = none
  last : w.client.m_MapdownloadFileTemp ≠ none →
    (∀ r ∈ w.toServer.getLast?, r = w.client.m_MapdownloadChunk) ∧
      (w.toServer = [] → 1 ≤ w.server.m_NextMapChunk →
        w.client.m_MapdownloadChunk < w.server.m_NextMapChunk)
  ahead : w.server.m_SvFastDownload = true →
    ∀ c ∈ reading w.server.map.chunks w.client.position w.toClient, c = w.server.expected
  first : w.server.m_SvFastDownload = true → w.client.m_MapdownloadFileTemp ≠ none →
    ¬ Pending w.toClient → w.toServer = [] → 1 ≤ w.server.m_NextMapChunk
  slow : w.server.m_SvFastDownload = false → w.server.m_NextMapChunk = 0
  answer : w.server.m_SvFastDownload = false → w.client.m_MapdownloadFileTemp ≠ none →
    ¬ Pending w.toClient → w.toServer = [] →
      ∃ d, .MAP_DATA d ∈ w.toClient ∧ d.Chunk = w.client.m_MapdownloadChunk

namespace World.Inv

variable {w : World}

theorem downloading (h : w.Inv) (hopen : w.client.m_MapdownloadFileTemp ≠ none) :
    ∃ m file, w.announced = some m ∧ m.Fits ∧ w.client.m_MapdownloadFileTemp = some file ∧
      Downloading m w.client file := by
  obtain ⟨file, hfile⟩ := Option.ne_none_iff_exists'.mp hopen
  cases hannounced : w.announced with
  | none =>
      rw [(h.idle hannounced).1] at hfile
      cases hfile
  | some m =>
      obtain ⟨hm, hc⟩ := h.client m hannounced
      exact ⟨m, file, rfl, hm, hfile, hc.file file hfile⟩

/-- A client that is behind the server is not at its first chunk. -/
theorem not_first (h : w.Inv) (hfast : w.server.m_SvFastDownload = true)
    (hopen : w.client.m_MapdownloadFileTemp ≠ none) (hpending : ¬ Pending w.toClient)
    (hzero : w.server.m_NextMapChunk = 0) : w.client.m_MapdownloadChunk = 0 := by
  obtain ⟨m, file, -, -, hfile, hdown⟩ := h.downloading hopen
  obtain ⟨c, hc, hle⟩ := le_reading (N := w.server.map.chunks) hpending w.client.m_MapdownloadChunk
  have hahead := h.ahead hfast c (by rw [position_of_file hfile, hc]; rfl)
  unfold CServer.expected at hahead
  rw [if_pos hzero] at hahead
  have hnonneg := hdown.nonneg
  omega

theorem sendMap (h : w.Inv) {map : Map} (hmap : map.Fits) :
    World.Inv { w with
      server := { w.server with map := map, m_NextMapChunk := 0 }
      toClient := w.toClient ++ [.MAP_CHANGE map] } where
  fits := hmap
  window := h.window
  next := ⟨Int.le_refl 0, (by decide : (0 : Int) ≤ MAX_CHUNKS)⟩
  asked := h.asked.zero
  announces := h.announces.append_change hmap
  client := h.client
  idle := h.idle
  last := fun hopen => ⟨(h.last hopen).1, fun _ hn => absurd hn (by decide : ¬ (1 : Int) ≤ 0)⟩
  ahead := by
    intro _ c hc
    rw [reading_append] at hc
    cases hc
    rfl
  first := fun _ _ hpending => absurd ⟨map, List.mem_append_right _ List.mem_cons_self⟩ hpending
  slow := fun _ => rfl
  answer := fun _ _ hpending => absurd ⟨map, List.mem_append_right _ List.mem_cons_self⟩ hpending

/-- The server has no request left that the client waits for. -/
theorem last_tail (h : w.Inv) {k : Int} {rest : List Int} (hcons : w.toServer = k :: rest)
    (hopen : w.client.m_MapdownloadFileTemp ≠ none) :
    (∀ r ∈ rest.getLast?, r = w.client.m_MapdownloadChunk) ∧
      (rest = [] → k = w.client.m_MapdownloadChunk) := by
  have hlast := (h.last hopen).1
  rw [hcons] at hlast
  cases rest with
  | nil => exact ⟨fun r hr => (by cases hr), fun _ => hlast k rfl⟩
  | cons x rest =>
      refine ⟨fun r hr => hlast r ?_, fun hnil => by cases hnil⟩
      rw [List.getLast?_cons_cons]
      exact hr

/-- A request that the server does not expect. -/
theorem answered (h : w.Inv) {k : Int} {rest : List Int} (hcons : w.toServer = k :: rest)
    (hk : k ≠ w.server.m_NextMapChunk ∨ w.server.m_SvFastDownload = false) :
    World.Inv { w with
      server := w.server, toClient := w.toClient ++ w.server.SendMapData k, toServer := rest } := by
  have hasked := h.asked
  rw [hcons] at hasked
  have hsmall := hasked.small k List.mem_cons_self
  have hother : k ≠ w.server.m_NextMapChunk ∨ w.server.m_NextMapChunk = 0 := hk.imp_right h.slow
  have hdata : ∀ msg ∈ w.server.SendMapData k,
      ∃ d, msg = .MAP_DATA d ∧ FromMap w.server.map d := fun msg => fromMap_of_mem h.fits
  have hpending := pending_append_data (l := w.toClient) hdata
  exact {
    fits := h.fits
    window := h.window
    next := h.next
    asked := hasked.tail_other hother
    announces := h.announces.append_data hdata
    client := h.client
    idle := h.idle
    slow := h.slow
    last := by
      intro hopen
      obtain ⟨hlast, hnil⟩ := h.last_tail hcons hopen
      refine ⟨hlast, fun hrest hn => ?_⟩
      have hle := hasked.first hn k rfl
      have hn' : 1 ≤ w.server.m_NextMapChunk := hn
      show w.client.m_MapdownloadChunk < w.server.m_NextMapChunk
      rw [← hnil hrest]
      omega
    ahead := by
      intro hfast c hc
      have hne : k ≠ w.server.m_NextMapChunk := hk.resolve_right (by rw [hfast]; decide)
      rw [reading_append] at hc
      cases hread : reading w.server.map.chunks w.client.position w.toClient with
      | none =>
          rw [hread, reading_send_none] at hc
          cases hc
      | some x =>
          have hx := h.ahead hfast x hread
          have hpos := h.fits.chunks_pos
          have hle : x ≤ w.server.map.chunks := by
            rw [hx]
            unfold CServer.expected
            split <;> omega
          rw [hread, reading_send h.fits hsmall.1 hle] at hc
          cases hc
          show advance w.server.map.chunks k x = w.server.expected
          rw [← hx]
          unfold CServer.expected at hx
          have hstay : ¬ (k = x ∧ x < w.server.map.chunks) := by
            by_cases hn : w.server.m_NextMapChunk = 0
            · rw [if_pos hn] at hx
              omega
            · rw [if_neg hn] at hx
              have hn₁ := h.next.1
              have hwindow := h.window.1
              have hfirst := hasked.first (by omega) k rfl
              omega
          exact if_neg hstay
    first := by
      intro hfast hopen hnot hrest
      have hne : k ≠ w.server.m_NextMapChunk := hk.resolve_right (by rw [hfast]; decide)
      have hnot := mt hpending.mpr hnot
      have hn := h.next.1
      by_contra hlt
      have hzero : w.server.m_NextMapChunk = 0 := by
        have hlt' : ¬ 1 ≤ w.server.m_NextMapChunk := hlt
        omega
      have hchunk := h.not_first hfast hopen hnot hzero
      rw [hzero, (h.last_tail hcons hopen).2 hrest] at hne
      exact hne hchunk
    answer := by
      intro _ hopen hnot hrest
      have hnot := mt hpending.mpr hnot
      obtain ⟨m, file, hannounced, -, -, hdown⟩ := h.downloading hopen
      have hm : m = w.server.map := by
        have hcurrent := h.announces.current hnot
        rw [hannounced] at hcurrent
        exact Option.some.inj hcurrent
      have hchunk := (h.last_tail hcons hopen).2 hrest
      have hlt := hdown.lt
      rw [hm] at hlt
      refine ⟨w.server.map.message k, List.mem_append_right _ ?_, hchunk⟩
      rw [sendMapData_eq h.fits hsmall.1 (by rw [hchunk]; exact hlt)]
      exact List.mem_cons_self }

/-- The request that the server expects. -/
theorem expected (h : w.Inv) {rest : List Int} (hcons : w.toServer = w.server.m_NextMapChunk :: rest)
    (hfast : w.server.m_SvFastDownload = true) :
    World.Inv { w with
      server := { w.server with m_NextMapChunk := w.server.m_NextMapChunk + 1 }
      toClient := w.toClient ++ w.server.sendAhead
      toServer := rest } := by
  have hasked := h.asked
  rw [hcons] at hasked
  have hsmall := hasked.small _ List.mem_cons_self
  have hn := h.next.1
  have hslow : w.server.m_SvFastDownload ≠ false := by
    rw [hfast]
    decide
  exact {
    fits := h.fits
    window := h.window
    next := ⟨Int.le_add_one hn, hsmall.2⟩
    asked := hasked.tail_next
    announces := h.announces.append_data (sendAhead_fromMap h.fits)
    client := h.client
    idle := h.idle
    slow := fun h => absurd h hslow
    last := by
      intro hopen
      obtain ⟨hlast, hnil⟩ := h.last_tail hcons hopen
      refine ⟨hlast, fun hrest _ => ?_⟩
      have hchunk := hnil hrest
      show w.client.m_MapdownloadChunk < w.server.m_NextMapChunk + 1
      omega
    ahead := by
      intro _ c hc
      have hc' : c ∈ reading w.server.map.chunks
          (reading w.server.map.chunks w.client.position w.toClient) w.server.sendAhead := by
        rw [← reading_append]
        exact hc
      cases hread : reading w.server.map.chunks w.client.position w.toClient with
      | none =>
          rw [hread, reading_sendAhead_none] at hc'
          cases hc'
      | some x =>
          rw [hread, h.ahead hfast x hread, reading_sendAhead h.fits h.window.1 hn] at hc'
          cases hc'
          unfold CServer.expected
          exact (if_neg (by show ¬ w.server.m_NextMapChunk + 1 = 0; omega)).symm
    first := fun _ _ _ _ => Int.le_add_of_nonneg_left hn
    answer := fun h => absurd h hslow }

/-- The client reads of a new map. -/
theorem readChange (h : w.Inv) {m : Map} {rest : List ToClient}
    (hcons : w.toClient = .MAP_CHANGE m :: rest) (search : Search) :
    ∃ c sent, w.client.mapChange m search = .ok (c, sent) ∧
      World.Inv { w with
        client := c, toClient := rest, toServer := w.toServer ++ sent, announced := some m } := by
  have hannounces := h.announces
  rw [hcons] at hannounces
  obtain ⟨hm, hannounces⟩ := hannounces
  obtain ⟨c, sent, heq, hcorrect, hsent, hchunk⟩ := mapChange_cases hm w.client search
  refine ⟨c, sent, heq, ?_⟩
  have hposition : c.position = none ∨ c.position = some 0 := by
    unfold CClient.position
    rw [hchunk]
    split
    · exact .inr rfl
    · exact .inl rfl
  have hopen : c.m_MapdownloadFileTemp ≠ none → sent = [0] := by
    intro hne
    rcases hsent with ⟨-, hclosed, -⟩ | ⟨-, hclosed, -⟩ | ⟨hsent, -⟩
    · exact absurd hclosed hne
    · exact absurd hclosed hne
    · exact hsent
  have hbusy : c.m_MapdownloadFileTemp ≠ none → w.toServer ++ sent ≠ [] := by
    intro hne
    rw [hopen hne]
    exact List.append_ne_nil_of_right_ne_nil _ (List.cons_ne_nil 0 [])
  have hasked : Asked w.server.m_NextMapChunk (w.toServer ++ sent) := by
    rcases hsent with ⟨hsent, -⟩ | ⟨hsent, -⟩ | ⟨hsent, -⟩
    · rw [hsent, List.append_nil]
      exact h.asked
    · rw [hsent, List.append_nil]
      exact h.asked
    · rw [hsent]
      exact h.asked.append (by decide) (fun _ _ => .inl rfl) fun _ _ => h.next.1
  exact {
    fits := h.fits
    window := h.window
    next := h.next
    asked := hasked
    announces := hannounces
    client := fun m' hm' => by
      cases hm'
      exact ⟨hm, hcorrect⟩
    idle := fun hnone => by cases hnone
    slow := h.slow
    last := by
      intro hne
      refine ⟨fun r hr => ?_, fun hnil => absurd hnil (hbusy hne)⟩
      have hr' : r ∈ (w.toServer ++ [0]).getLast? := by
        rw [← hopen hne]
        exact hr
      rw [List.getLast?_concat] at hr'
      cases hr'
      exact hchunk.symm
    ahead := by
      intro hfast x hx
      have hread : reading w.server.map.chunks c.position rest =
            reading w.server.map.chunks (some 0) rest ∨
          reading w.server.map.chunks c.position rest = none := by
        rcases hposition with hnone | hzero
        · by_cases hpending : Pending rest
          · exact .inl (reading_pending hpending _ _)
          · rw [hnone]
            exact .inr (reading_none _ hpending)
        · rw [hzero]
          exact .inl rfl
      have hx' : x ∈ reading w.server.map.chunks c.position rest := hx
      rcases hread with hread | hread
      · refine h.ahead hfast x ?_
        rw [hcons]
        rw [hread] at hx'
        exact hx'
      · rw [hread] at hx'
        cases hx'
    first := fun _ hne _ hnil => absurd hnil (hbusy hne)
    answer := fun _ hne _ hnil => absurd hnil (hbusy hne) }

/-- What the client still has to read stays right when it reads a chunk. -/
theorem ahead_readChunk (h : w.Inv) (hfast : w.server.m_SvFastDownload = true) {d : MapData}
    {rest : List ToClient} (hcons : w.toClient = .MAP_DATA d :: rest)
    (hwait : w.client.m_pMapdownloadTask = true → d.Chunk ≠ w.client.m_MapdownloadChunk) :
    ∀ x ∈ reading w.server.map.chunks (w.client.mapData d).1.position rest,
      x = w.server.expected := by
  have hannounces := h.announces
  rw [hcons] at hannounces
  obtain ⟨⟨m, hannounced, hd⟩, hannounces⟩ := hannounces
  obtain ⟨-, hcorrect⟩ := h.client m hannounced
  intro x hx
  have hread := h.ahead hfast
  rw [hcons] at hread
  by_cases hrest : Pending rest
  · refine hread x ?_
    rw [reading_pending hrest _ (w.client.position.map (advance w.server.map.chunks d.Chunk))] at hx
    exact hx
  · have hmap : m = w.server.map := by
      have hcurrent := hannounces.current hrest
      rw [hannounced] at hcurrent
      exact Option.some.inj hcurrent
    rcases position_mapData hcorrect hd hwait with hposition | hposition
    · refine hread x ?_
      rw [hposition, hmap] at hx
      exact hx
    · rw [hposition, reading_none _ hrest] at hx
      cases hx

/-- The client reads a chunk. -/
theorem readChunk (h : w.Inv) {d : MapData} {rest : List ToClient}
    (hcons : w.toClient = .MAP_DATA d :: rest)
    (hwait : w.server.m_SvFastDownload = true → w.client.m_pMapdownloadTask = true →
      d.Chunk ≠ w.client.m_MapdownloadChunk) :
    World.Inv { w with
      client := (w.client.mapData d).1, toClient := rest
      toServer := w.toServer ++ (w.client.mapData d).2 } := by
  have hannounces := h.announces
  rw [hcons] at hannounces
  obtain ⟨⟨m, hannounced, hd⟩, hannounces⟩ := hannounces
  obtain ⟨hm, hcorrect⟩ := h.client m hannounced
  have hpending : Pending w.toClient → Pending rest := by
    rintro ⟨map, hmem⟩
    rw [hcons] at hmem
    rcases List.mem_cons.mp hmem with hmem | hmem
    · cases hmem
    · exact ⟨map, hmem⟩
  have hahead := fun hfast => h.ahead_readChunk hfast hcons (hwait hfast)
  have hclient := hcorrect.mapData hd
  have hidle : w.announced ≠ none := by
    rw [hannounced]
    exact fun hnone => by cases hnone
  rcases mapData_cases hcorrect hd with ⟨hne, heq⟩ | ⟨f, hf, -, -, heq⟩ |
    ⟨f, c, hf, -, hlt, hfile, hnext, -, -, -, heq⟩
  · rw [heq] at hahead hclient ⊢
    rw [List.append_nil]
    exact {
      fits := h.fits
      window := h.window
      next := h.next
      asked := h.asked
      announces := hannounces
      client := h.client
      idle := h.idle
      slow := h.slow
      last := h.last
      ahead := hahead
      first := fun hfast hopen hnot => h.first hfast hopen (mt hpending hnot)
      answer := by
        intro hslow hopen hnot hnil
        obtain ⟨d', hmem, hchunk⟩ := h.answer hslow hopen (mt hpending hnot) hnil
        rw [hcons] at hmem
        rcases List.mem_cons.mp hmem with hmem | hmem
        · injection hmem with hmem
          obtain ⟨f, hf⟩ := Option.ne_none_iff_exists'.mp hopen
          rw [hmem] at hchunk
          exact absurd hchunk (hne f hf)
        · exact ⟨d', hmem, hchunk⟩ }
  · rw [heq] at hahead hclient ⊢
    rw [List.append_nil]
    exact {
      fits := h.fits
      window := h.window
      next := h.next
      asked := h.asked
      announces := hannounces
      client := fun m' hm' => by
        have hsame : w.announced = some m' := hm'
        rw [hannounced] at hsame
        cases hsame
        exact ⟨hm, hclient⟩
      idle := fun hnone => absurd hnone hidle
      slow := h.slow
      last := fun hopen => absurd rfl hopen
      ahead := hahead
      first := fun _ hopen => absurd rfl hopen
      answer := fun _ hopen => absurd rfl hopen }
  · have hopen : w.client.m_MapdownloadFileTemp ≠ none := by
      rw [hf]
      exact fun hnone => by cases hnone
    have hnonneg := (hcorrect.file f hf).nonneg
    have hle := hm.chunks_le
    obtain ⟨hlast, hnil⟩ := h.last hopen
    have hbusy : w.toServer ++ [w.client.m_MapdownloadChunk + 1] ≠ [] :=
      List.append_ne_nil_of_right_ne_nil _ (List.cons_ne_nil _ [])
    rw [heq] at hahead hclient ⊢
    exact {
      fits := h.fits
      window := h.window
      next := h.next
      asked := by
        refine h.asked.append ⟨by omega, by omega⟩ (fun r hr => .inr ?_) fun hempty hn => ?_
        · rw [hlast r hr]
        · exact hnil hempty hn
      announces := hannounces
      client := fun m' hm' => by
        have hsame : w.announced = some m' := hm'
        rw [hannounced] at hsame
        cases hsame
        exact ⟨hm, hclient⟩
      idle := fun hnone => absurd hnone hidle
      slow := h.slow
      last := by
        refine fun _ => ⟨fun r hr => ?_, fun hempty => absurd hempty hbusy⟩
        have hr' : r ∈ (w.toServer ++ [w.client.m_MapdownloadChunk + 1]).getLast? := hr
        rw [List.getLast?_concat] at hr'
        cases hr'
        exact hnext.symm
      ahead := hahead
      first := fun _ _ _ hempty => absurd hempty hbusy
      answer := fun _ _ _ hempty => absurd hempty hbusy }

/-- The HTTP download of the client fails. -/
theorem fallback (h : w.Inv) (htask : w.client.m_pMapdownloadTask = true) :
    ∃ c, w.client.fallback = .ok (c, [0]) ∧
      World.Inv { w with client := c, toServer := w.toServer ++ [0] } := by
  obtain ⟨m, hannounced⟩ : ∃ m, w.announced = some m := by
    cases hannounced : w.announced with
    | none =>
        have hidle := (h.idle hannounced).2.1
        rw [htask] at hidle
        cases hidle
    | some m => exact ⟨m, rfl⟩
  obtain ⟨hm, hcorrect⟩ := h.client m hannounced
  obtain ⟨c, heq, hc, hfile, hchunk⟩ := fallback_cases hm hcorrect htask
  have hposition : c.position = w.client.position := by
    rw [position_of_file hfile, hchunk]
    unfold CClient.position
    rw [if_pos (.inr htask), (hcorrect.waiting htask).chunk]
  have hbusy : w.toServer ++ [0] ≠ [] :=
    List.append_ne_nil_of_right_ne_nil _ (List.cons_ne_nil 0 [])
  refine ⟨c, heq, ?_⟩
  exact {
    fits := h.fits
    window := h.window
    next := h.next
    asked := h.asked.append (by decide) (fun _ _ => .inl rfl) fun _ _ => h.next.1
    announces := h.announces
    client := fun m' hm' => by
      have hsame : w.announced = some m' := hm'
      rw [hannounced] at hsame
      cases hsame
      exact ⟨hm, hc⟩
    idle := fun hnone => by
      have hsame : w.announced = none := hnone
      rw [hannounced] at hsame
      cases hsame
    slow := h.slow
    last := by
      refine fun _ => ⟨fun r hr => ?_, fun hempty => absurd hempty hbusy⟩
      have hr' : r ∈ (w.toServer ++ [0]).getLast? := hr
      rw [List.getLast?_concat] at hr'
      cases hr'
      exact hchunk.symm
    ahead := by
      intro hfast x hx
      refine h.ahead hfast x ?_
      rw [← hposition]
      exact hx
    first := fun _ _ _ hempty => absurd hempty hbusy
    answer := fun _ _ _ hempty => absurd hempty hbusy }

end World.Inv

end Fex.Engine.MapDownload
