import Fex.Engine.MapDownload.Chunks
import Mathlib.Data.List.Chain

/-!
# One transfer

What holds of the requests and the messages on their way, and what a client does
with a chunk.
-/

namespace Fex.Engine.MapDownload

open Fex.Lib

/-! ## Requests -/

/-- The requests on their way to a server that expects the chunk `n` next. -/
structure Asked (n : Int) (requests : List Int) : Prop where
  small : ∀ r ∈ requests, 0 ≤ r ∧ r < MAX_CHUNKS
  chain : requests.IsChain fun r r' => r' = 0 ∨ r' = r + 1
  first : 1 ≤ n → ∀ r ∈ requests.head?, r ≤ n

namespace Asked

variable {n r : Int} {l : List Int}

theorem zero (h : Asked n l) : Asked 0 l where
  small := h.small
  chain := h.chain
  first := fun hn => absurd hn (by decide)

/-- The server answers a request and expects the next one. -/
theorem tail_next (h : Asked n (n :: l)) : Asked (n + 1) l where
  small := fun x hx => h.small x (List.mem_cons_of_mem n hx)
  chain := h.chain.tail
  first := fun _ r' hr' => by
    have hn := (h.small n List.mem_cons_self).1
    rcases h.chain.rel_head? hr' with h₀ | h₁ <;> omega

/-- The server answers a request it does not expect. -/
theorem tail_other (h : Asked n (r :: l)) (hr : r ≠ n ∨ n = 0) : Asked n l where
  small := fun x hx => h.small x (List.mem_cons_of_mem r hx)
  chain := h.chain.tail
  first := fun hn r' hr' => by
    have hle := h.first hn r rfl
    rcases h.chain.rel_head? hr' with h₀ | h₁ <;> omega

/-- The client asks for a chunk. -/
theorem append {k : Int} (h : Asked n l) (hk : 0 ≤ k ∧ k < MAX_CHUNKS)
    (hlast : ∀ r ∈ l.getLast?, k = 0 ∨ k = r + 1) (hnil : l = [] → 1 ≤ n → k ≤ n) :
    Asked n (l ++ [k]) where
  small := by
    intro x hx
    rcases List.mem_append.mp hx with hx | hx
    · exact h.small x hx
    · rw [List.mem_singleton.mp hx]
      exact hk
  chain := by
    refine List.isChain_append.mpr ⟨h.chain, List.isChain_singleton k, fun x hx y hy => ?_⟩
    cases hy
    exact hlast x hx
  first := by
    intro hn r hr
    cases l with
    | nil =>
        cases hr
        exact hnil rfl hn
    | cons x l =>
        cases hr
        exact h.first hn _ rfl

end Asked

/-! ## Messages -/

/-- The chunks on their way are of the map that was announced before, `latest` comes last. -/
def Announces (latest : Map) : Option Map → List ToClient → Prop
  | announced, [] => announced = some latest
  | announced, .MAP_DATA d :: l =>
      (∃ m, announced = some m ∧ FromMap m d) ∧ Announces latest announced l
  | _, .MAP_CHANGE m :: l => m.Fits ∧ Announces latest (some m) l

section

variable {latest m : Map} {announced : Option Map} {l l' : List ToClient}

theorem not_pending_tail {msg : ToClient} (h : ¬ Pending (msg :: l)) : ¬ Pending l :=
  fun ⟨map, hmem⟩ => h ⟨map, List.mem_cons_of_mem msg hmem⟩

theorem Announces.current (h : Announces latest announced l) (hl : ¬ Pending l) :
    announced = some latest := by
  induction l generalizing announced with
  | nil => exact h
  | cons msg l ih =>
      cases msg with
      | MAP_CHANGE map => exact absurd ⟨map, List.mem_cons_self⟩ hl
      | MAP_DATA d => exact ih h.2 (not_pending_tail hl)

theorem Announces.append_data (h : Announces latest announced l)
    (hl' : ∀ msg ∈ l', ∃ d, msg = .MAP_DATA d ∧ FromMap latest d) :
    Announces latest announced (l ++ l') := by
  induction l generalizing announced with
  | nil =>
      induction l' with
      | nil => exact h
      | cons msg l' ih =>
          obtain ⟨d, rfl, hd⟩ := hl' msg List.mem_cons_self
          exact ⟨⟨latest, h, hd⟩, ih fun msg hmsg => hl' msg (List.mem_cons_of_mem _ hmsg)⟩
  | cons msg l ih =>
      cases msg with
      | MAP_CHANGE map => exact ⟨h.1, ih h.2⟩
      | MAP_DATA d => exact ⟨h.1, ih h.2⟩

theorem Announces.append_change (h : Announces latest announced l) (hm : m.Fits) :
    Announces m announced (l ++ [.MAP_CHANGE m]) := by
  induction l generalizing announced with
  | nil => exact ⟨hm, rfl⟩
  | cons msg l ih =>
      cases msg with
      | MAP_CHANGE map => exact ⟨h.1, ih h.2⟩
      | MAP_DATA d => exact ⟨h.1, ih h.2⟩

theorem pending_append_data (hl' : ∀ msg ∈ l', ∃ d, msg = .MAP_DATA d ∧ FromMap latest d) :
    Pending (l ++ l') ↔ Pending l := by
  constructor
  · rintro ⟨map, hmem⟩
    rcases List.mem_append.mp hmem with hmem | hmem
    · exact ⟨map, hmem⟩
    · obtain ⟨d, hd, -⟩ := hl' _ hmem
      cases hd
  · exact fun ⟨map, hmem⟩ => ⟨map, List.mem_append_left l' hmem⟩

theorem reading_none (N : Int) (hl : ¬ Pending l) : reading N none l = none := by
  induction l with
  | nil => rfl
  | cons msg l ih =>
      cases msg with
      | MAP_CHANGE map => exact absurd ⟨map, List.mem_cons_self⟩ hl
      | MAP_DATA d => exact ih (not_pending_tail hl)

end

/-! ## Answers -/

/-- What the server sends for the request it expects. -/
def CServer.sendAhead (s : CServer) : List ToClient :=
  (if s.m_NextMapChunk = 0 then
    (List.range s.m_SvMapWindow.toNat).flatMap fun i : Nat => s.SendMapData i
  else []) ++ s.SendMapData (s.m_SvMapWindow + s.m_NextMapChunk)

/-- A request is answered as it is, or the window moves on. -/
theorem requestMapData_cases {s : CServer} (k : Int)
    (hwindow : 0 ≤ s.m_SvMapWindow ∧ s.m_SvMapWindow + MAX_CHUNKS ≤ 2147483646)
    (hnext : 0 ≤ s.m_NextMapChunk ∧ s.m_NextMapChunk ≤ MAX_CHUNKS) :
    ((k ≠ s.m_NextMapChunk ∨ s.m_SvFastDownload = false) ∧
      s.requestMapData k = .ok (s, s.SendMapData k)) ∨
    (k = s.m_NextMapChunk ∧ s.m_SvFastDownload = true ∧
      s.requestMapData k =
        .ok ({ s with m_NextMapChunk := s.m_NextMapChunk + 1 }, s.sendAhead)) := by
  have hadd : ∀ {x y : Int}, 0 ≤ x + y → x + y ≤ 2147483647 → CServer.add x y = .ok (x + y) := by
    intro x y h₀ h₁
    exact if_pos ⟨by omega, by omega⟩
  have hmax : (0 : Int) ≤ MAX_CHUNKS := by decide
  by_cases hslow : k ≠ s.m_NextMapChunk ∨ ¬ s.m_SvFastDownload
  · refine .inl ⟨?_, if_pos hslow⟩
    simpa using hslow
  · have hk : k = s.m_NextMapChunk := by
      by_contra hne
      exact hslow (.inl hne)
    have hfast : s.m_SvFastDownload = true := by
      by_contra hne
      exact hslow (.inr hne)
    refine .inr ⟨hk, hfast, ?_⟩
    unfold CServer.requestMapData
    rw [if_neg hslow, hadd (by omega) (by omega), hadd (by omega) (by omega), hk]
    rfl

/-- What is sent ahead consists of chunks of the map. -/
theorem sendAhead_fromMap {s : CServer} (hs : s.map.Fits) :
    ∀ msg ∈ s.sendAhead, ∃ d, msg = .MAP_DATA d ∧ FromMap s.map d := by
  intro msg hmsg
  rcases List.mem_append.mp hmsg with hmsg | hmsg
  · split at hmsg
    · obtain ⟨i, -, hi⟩ := List.mem_flatMap.mp hmsg
      exact fromMap_of_mem hs hi
    · cases hmsg
  · exact fromMap_of_mem hs hmsg

theorem reading_sendAhead_none (s : CServer) (N : Int) : reading N none s.sendAhead = none := by
  have hburst : reading N none (if s.m_NextMapChunk = 0 then
      (List.range s.m_SvMapWindow.toNat).flatMap fun i : Nat => s.SendMapData i else []) = none := by
    split
    · exact reading_first_none s N _
    · rfl
  unfold CServer.sendAhead
  rw [reading_append, hburst, reading_send_none]

/-- The chunk a client of the fast download waits for when it has read everything. -/
def CServer.expected (s : CServer) : Int :=
  if s.m_NextMapChunk = 0 then 0 else min s.map.chunks (s.m_SvMapWindow + s.m_NextMapChunk)

theorem reading_sendAhead {s : CServer} (hs : s.map.Fits) (hwindow : 0 ≤ s.m_SvMapWindow)
    (hnext : 0 ≤ s.m_NextMapChunk) :
    reading s.map.chunks (some s.expected) s.sendAhead =
      some (min s.map.chunks (s.m_SvMapWindow + (s.m_NextMapChunk + 1))) := by
  have hpos := hs.chunks_pos
  have hburst : reading s.map.chunks (some s.expected) (if s.m_NextMapChunk = 0 then
      (List.range s.m_SvMapWindow.toNat).flatMap fun i : Nat => s.SendMapData i else []) =
      some (min s.map.chunks (s.m_SvMapWindow + s.m_NextMapChunk)) := by
    unfold CServer.expected
    by_cases hzero : s.m_NextMapChunk = 0
    · rw [if_pos hzero, if_pos hzero, reading_first hs, hzero, Int.toNat_of_nonneg hwindow,
        Int.add_zero]
    · rw [if_neg hzero, if_neg hzero]
      rfl
  unfold CServer.sendAhead
  rw [reading_append, hburst, reading_send hs (by omega) (Int.min_le_left _ _)]
  congr 1
  unfold advance
  split <;> omega

/-! ## The client -/

/-- The client has written a part of the map. -/
structure Downloading (m : Map) (c : CClient) (file : List UInt8) : Prop where
  crc : c.m_MapdownloadCrc = m.crc
  nonneg : 0 ≤ c.m_MapdownloadChunk
  lt : c.m_MapdownloadChunk < m.chunks
  written : file = m.data.take (c.m_MapdownloadChunk * 896).toNat
  idle : c.m_pMapdownloadTask = false

/-- The client waits for its HTTP download. -/
structure Waiting (m : Map) (c : CClient) : Prop where
  crc : c.m_MapdownloadCrc = m.crc
  chunk : c.m_MapdownloadChunk = 0
  closed : c.m_MapdownloadFileTemp = none

/-- What a client has of the map that was announced last. -/
structure Correct (m : Map) (c : CClient) : Prop where
  file : ∀ f, c.m_MapdownloadFileTemp = some f → Downloading m c f
  waiting : c.m_pMapdownloadTask = true → Waiting m c
  done : ∀ f, c.outcome = some (.downloaded f) → f = m.data
  ended : c.m_MapdownloadFileTemp ≠ none ∨ c.m_pMapdownloadTask = true ∨ c.outcome ≠ none

/-- The chunk a client needs next. -/
def CClient.position (c : CClient) : Option Int :=
  if c.m_MapdownloadFileTemp.isSome ∨ c.m_pMapdownloadTask then some c.m_MapdownloadChunk else none

section

variable {m : Map} {c : CClient} {file : List UInt8}

theorem position_of_file (h : c.m_MapdownloadFileTemp = some file) :
    c.position = some c.m_MapdownloadChunk :=
  if_pos (.inl (by rw [h]; rfl))

theorem Downloading.write (h : Downloading m c file) :
    file ++ m.chunk c.m_MapdownloadChunk =
      m.data.take ((c.m_MapdownloadChunk + 1) * 896).toNat := by
  rw [h.written]
  exact take_chunk h.nonneg

/-- A file that is not finished is not the whole map. -/
theorem Downloading.length_lt (h : Downloading m c file) : file.length < m.data.length := by
  have hlt := offset_lt h.nonneg h.lt
  have hnonneg := h.nonneg
  unfold Map.size at hlt
  rw [h.written, List.length_take]
  omega

/-- What is left of `mapData` when the chunk is written to the file. -/
def CClient.accept (c : CClient) (file : List UInt8) (d : MapData) : CClient × List Int :=
  let c := { c with
    m_MapdownloadFileTemp := some file
    m_MapdownloadAmount := c.m_MapdownloadAmount + d.data.length }
  if d.Last then ({ c.ResetMapDownload with outcome := some (.downloaded file) }, [])
  else
    let Chunk := c.m_MapdownloadChunk + 1
    ({ c with m_MapdownloadChunk := Chunk }, [Chunk])

/-- A chunk is ignored, is written or ends the download. -/
theorem mapData_cases (hc : Correct m c) {d : MapData} (hd : FromMap m d) :
    ((∀ f, c.m_MapdownloadFileTemp = some f → d.Chunk ≠ c.m_MapdownloadChunk) ∧
      c.mapData d = (c, [])) ∨
    (∃ f, c.m_MapdownloadFileTemp = some f ∧ d.Chunk = c.m_MapdownloadChunk ∧
      c.m_MapdownloadChunk + 1 = m.chunks ∧
      c.mapData d = ({ c.ResetMapDownload with outcome := some (.downloaded m.data) }, [])) ∨
    (∃ f c', c.m_MapdownloadFileTemp = some f ∧ d.Chunk = c.m_MapdownloadChunk ∧
      c.m_MapdownloadChunk + 1 < m.chunks ∧
      c'.m_MapdownloadFileTemp = some (f ++ m.chunk c.m_MapdownloadChunk) ∧
      c'.m_MapdownloadChunk = c.m_MapdownloadChunk + 1 ∧
      c'.m_MapdownloadCrc = c.m_MapdownloadCrc ∧
      c'.m_pMapdownloadTask = c.m_pMapdownloadTask ∧ c'.outcome = c.outcome ∧
      c.mapData d = (c', [c.m_MapdownloadChunk + 1])) := by
  cases hfile : c.m_MapdownloadFileTemp with
  | none =>
      refine .inl ⟨fun f hf => (by cases hf), ?_⟩
      unfold CClient.mapData
      rw [hfile]
  | some f =>
      have hdown := hc.file f hfile
      have hunfold : c.mapData d =
          if d.data.length ≤ 0 ∨ d.MapCrc ≠ c.m_MapdownloadCrc ∨ d.Chunk ≠ c.m_MapdownloadChunk then
            (c, [])
          else c.accept (f ++ d.data) d := by
        unfold CClient.mapData
        rw [hfile]
        rfl
      by_cases hchunk : d.Chunk = c.m_MapdownloadChunk
      · have hmessage := hd.2 (by rw [hchunk]; exact hdown.nonneg) (by rw [hchunk]; exact hdown.lt)
        have hdata : d.data = m.chunk c.m_MapdownloadChunk := by
          rw [hmessage, hchunk]
          rfl
        have hlast : d.Last = decide (c.m_MapdownloadChunk + 1 = m.chunks) := by
          rw [hmessage, hchunk]
          rfl
        have hpos := length_chunk_pos hdown.nonneg hdown.lt
        have haccept : ¬ (d.data.length ≤ 0 ∨ d.MapCrc ≠ c.m_MapdownloadCrc ∨
            d.Chunk ≠ c.m_MapdownloadChunk) := by
          rw [hdata, hd.1, hdown.crc, hchunk]
          simp only [ne_eq, not_true_eq_false, or_false]
          omega
        rw [hunfold, if_neg haccept, hdata]
        unfold CClient.accept
        rw [hlast]
        by_cases hend : c.m_MapdownloadChunk + 1 = m.chunks
        · refine .inr (.inl ⟨f, rfl, hchunk, hend, ?_⟩)
          rw [if_pos (decide_eq_true hend), hdown.write, take_last hend]
          rfl
        · have hlt : c.m_MapdownloadChunk + 1 < m.chunks := by
            have := hdown.lt
            omega
          rw [if_neg (by simpa using hend)]
          let next : CClient := { c with
            m_MapdownloadFileTemp := some (f ++ m.chunk c.m_MapdownloadChunk)
            m_MapdownloadAmount := c.m_MapdownloadAmount + d.data.length
            m_MapdownloadChunk := c.m_MapdownloadChunk + 1 }
          exact .inr (.inr ⟨f, next, rfl, hchunk, hlt, rfl, rfl, rfl, rfl, rfl, rfl⟩)
      · refine .inl ⟨fun f' hf' => hchunk, ?_⟩
        rw [hunfold]
        exact if_pos (.inr (.inr hchunk))

/-- What the client has stays correct when it reads a chunk. -/
theorem Correct.mapData (hc : Correct m c) {d : MapData} (hd : FromMap m d) :
    Correct m (c.mapData d).1 := by
  rcases mapData_cases hc hd with ⟨-, heq⟩ | ⟨f, hf, -, -, heq⟩ |
    ⟨f, c', hf, -, hlt, hfile, hchunk, hcrc, htask, houtcome, heq⟩
  · rw [heq]
    exact hc
  · rw [heq]
    exact {
      file := fun f hf => by cases hf
      waiting := fun h => by cases h
      done := fun f hf => by cases hf; rfl
      ended := .inr (.inr fun h => by cases h) }
  · have hdown := hc.file f hf
    rw [heq]
    refine ⟨?_, ?_, ?_, .inl fun h => by rw [hfile] at h; cases h⟩
    · intro f' hf'
      rw [hfile] at hf'
      cases hf'
      refine ⟨hcrc.trans hdown.crc, ?_, ?_, ?_, htask.trans hdown.idle⟩
      · rw [hchunk]
        have := hdown.nonneg
        omega
      · rw [hchunk]
        exact hlt
      · rw [hchunk]
        exact hdown.write
    · intro htrue
      rw [htask, hdown.idle] at htrue
      cases htrue
    · rw [houtcome]
      exact hc.done

/-- A chunk moves the client on if it waits for this one, or it ends the download. -/
theorem position_mapData (hc : Correct m c) {d : MapData} (hd : FromMap m d)
    (hwait : c.m_pMapdownloadTask = true → d.Chunk ≠ c.m_MapdownloadChunk) :
    (c.mapData d).1.position = c.position.map (advance m.chunks d.Chunk) ∨
      (c.mapData d).1.position = none := by
  rcases mapData_cases hc hd with ⟨hne, heq⟩ | ⟨f, hf, -, -, heq⟩ |
    ⟨f, c', hf, hchunk, hlt, hfile, hnext, -, -, -, heq⟩
  · rw [heq]
    left
    unfold CClient.position
    split
    next h =>
      have hchunk : d.Chunk ≠ c.m_MapdownloadChunk := by
        rcases h with h | h
        · obtain ⟨f, hf⟩ := Option.isSome_iff_exists.mp h
          exact hne f hf
        · exact hwait h
      show some _ = some (advance _ _ _)
      unfold advance
      rw [if_neg fun h => hchunk h.1]
    next => rfl
  · rw [heq]
    exact .inr rfl
  · rw [heq, position_of_file hf, position_of_file hfile]
    left
    show some _ = some (advance _ _ _)
    unfold advance
    rw [if_pos ⟨hchunk, (hc.file f hf).lt⟩, hnext]

/-- A client that reads of a new map has it, waits for it or asks for its first chunk. -/
theorem mapChange_cases (hm : m.Fits) (c : CClient) (search : Search) :
    ∃ c' sent, c.mapChange m search = .ok (c', sent) ∧ Correct m c' ∧
      ((sent = [] ∧ c'.m_MapdownloadFileTemp = none ∧ c'.m_pMapdownloadTask = false) ∨
        (sent = [] ∧ c'.m_MapdownloadFileTemp = none ∧ c'.m_pMapdownloadTask = true) ∨
        (sent = [0] ∧ c'.m_MapdownloadFileTemp = some [])) ∧ c'.m_MapdownloadChunk = 0 := by
  have hsize : ¬ (m.size < 0 ∨ m.size > 1024 * 1024 * 1024) := by
    have h₀ := hm.1
    have h₁ := hm.2
    omega
  unfold CClient.mapChange
  rw [if_neg hsize]
  cases search with
  | found =>
      refine ⟨_, [], rfl, ⟨fun f hf => ?_, fun h => ?_, fun f hf => ?_, ?_⟩, .inl ⟨rfl, rfl, rfl⟩, rfl⟩
      · cases hf
      · cases h
      · cases hf
      · exact .inr (.inr fun h => by cases h)
  | http =>
      refine ⟨_, [], rfl, ⟨fun f hf => ?_, fun _ => ⟨rfl, rfl, rfl⟩, fun f hf => ?_, ?_⟩,
        .inr (.inl ⟨rfl, rfl, rfl⟩), rfl⟩
      · cases hf
      · cases hf
      · exact .inr (.inl rfl)
  | request =>
      refine ⟨_, [0], rfl, ⟨fun f hf => ?_, fun h => ?_, fun f hf => ?_, ?_⟩,
        .inr (.inr ⟨rfl, rfl⟩), rfl⟩
      · cases hf
        exact ⟨rfl, Int.le_refl 0, hm.chunks_pos, rfl, rfl⟩
      · cases h
      · cases hf
      · exact .inl fun h => by cases h

/-- A client whose HTTP download failed asks for the first chunk. -/
theorem fallback_cases (hm : m.Fits) (hc : Correct m c) (htask : c.m_pMapdownloadTask = true) :
    ∃ c', c.fallback = .ok (c', [0]) ∧ Correct m c' ∧ c'.m_MapdownloadFileTemp = some [] ∧
      c'.m_MapdownloadChunk = 0 := by
  have hwait := hc.waiting htask
  refine ⟨{ c with m_pMapdownloadTask := false, m_MapdownloadFileTemp := some [] }, ?_,
    ⟨fun f hf => ?_, fun h => ?_, hc.done, ?_⟩, rfl, hwait.chunk⟩
  · unfold CClient.fallback CClient.SendMapRequest
    simp only [Option.isSome_none, Bool.false_eq_true, if_false, hwait.chunk]
  · cases hf
    refine ⟨hwait.crc, ?_, ?_, ?_, rfl⟩
    · exact Int.le_of_eq hwait.chunk.symm
    · show c.m_MapdownloadChunk < _
      rw [hwait.chunk]
      exact hm.chunks_pos
    · show [] = m.data.take (c.m_MapdownloadChunk * 896).toNat
      rw [hwait.chunk]
      rfl
  · cases h
  · exact .inl fun h => by cases h

end

end Fex.Engine.MapDownload
