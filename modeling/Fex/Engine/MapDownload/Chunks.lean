import Fex.Engine.MapDownload

/-!
# The chunks of a map

What the server answers to a request, and where a client stands after it has read
the messages that are on their way.
-/

namespace Fex.Engine.MapDownload

open Fex.Lib

/-- The maps a client accepts. -/
def Map.Fits (m : Map) : Prop := 0 < m.size ∧ m.size ≤ 1024 * 1024 * 1024

/-- The number of the chunks. -/
def Map.chunks (m : Map) : Int := (m.size + 895) / 896

def Map.chunk (m : Map) (k : Int) : List UInt8 := (m.data.drop (k * 896).toNat).take 896

theorem Map.Fits.chunks_pos {m : Map} (h : m.Fits) : 0 < m.chunks := by
  unfold Map.chunks
  have hpos := h.1
  omega

/-- More chunks no map has. -/
def MAX_CHUNKS : Int := 1198373

theorem Map.Fits.chunks_le {m : Map} (h : m.Fits) : m.chunks ≤ MAX_CHUNKS := by
  unfold Map.chunks MAX_CHUNKS
  have hmax := h.2
  omega

section

variable {m : Map} {k : Int}

theorem offset_lt (h₀ : 0 ≤ k) (h₁ : k < m.chunks) : k * 896 < m.size := by
  unfold Map.chunks at h₁
  omega

theorem length_chunk_pos (h₀ : 0 ≤ k) (h₁ : k < m.chunks) : 0 < (m.chunk k).length := by
  have hlt := offset_lt h₀ h₁
  unfold Map.size at hlt
  unfold Map.chunk
  rw [List.length_take, List.length_drop]
  omega

theorem take_chunk (h₀ : 0 ≤ k) :
    m.data.take (k * 896).toNat ++ m.chunk k = m.data.take ((k + 1) * 896).toNat := by
  unfold Map.chunk
  rw [← List.take_add]
  congr 1
  omega

theorem take_last (h : k + 1 = m.chunks) : m.data.take ((k + 1) * 896).toNat = m.data := by
  apply List.take_of_length_le
  unfold Map.chunks Map.size at h
  omega

end

/-! ## Answers -/

/-- The chunk as it is sent. -/
def Map.message (m : Map) (k : Int) : MapData :=
  { Last := decide (k + 1 = m.chunks), MapCrc := m.crc, Chunk := k, data := m.chunk k }

/-- A message with a chunk of the map. -/
def FromMap (m : Map) (d : MapData) : Prop :=
  d.MapCrc = m.crc ∧ (0 ≤ d.Chunk → d.Chunk < m.chunks → d = m.message d.Chunk)

variable {s : CServer} {k : Int}

theorem sendMapData_eq (hs : s.map.Fits) (h₀ : 0 ≤ k) (h₁ : k < s.map.chunks) :
    s.SendMapData k = [.MAP_DATA (s.map.message k)] := by
  have hlt := offset_lt h₀ h₁
  have hmax := hs.2
  have hoffset : k * CHUNK_SIZE % 4294967296 = k * 896 := by
    unfold CHUNK_SIZE
    omega
  have hsum : (k * 896 + CHUNK_SIZE) % 4294967296 = k * 896 + 896 := by
    unfold CHUNK_SIZE
    omega
  unfold CServer.SendMapData
  simp only [hoffset, hsum]
  rw [if_neg (by omega)]
  by_cases hlast : k * 896 + 896 ≥ s.map.size
  · have hend : k + 1 = s.map.chunks := by
      unfold Map.chunks at h₁ ⊢
      omega
    have hdata : (s.map.data.drop (k * 896).toNat).take (s.map.size - k * 896).toNat =
        s.map.chunk k := by
      unfold Map.chunk
      rw [List.take_of_length_le, List.take_of_length_le]
      · rw [List.length_drop]
        unfold Map.size at hlast
        omega
      · rw [List.length_drop]
        unfold Map.size
        omega
    rw [if_pos hlast, hdata]
    unfold Map.message
    rw [decide_eq_true hend]
  · have hend : ¬ k + 1 = s.map.chunks := by
      unfold Map.chunks at h₁ ⊢
      omega
    rw [if_neg hlast]
    unfold Map.message Map.chunk
    rw [decide_eq_false hend]
    rfl

/-- Every answer to a request is one message at most with the number that was asked for. -/
theorem sendMapData_cases (s : CServer) (k : Int) :
    s.SendMapData k = [] ∨
      ∃ d, s.SendMapData k = [.MAP_DATA d] ∧ d.MapCrc = s.map.crc ∧ d.Chunk = k := by
  unfold CServer.SendMapData
  simp only
  split
  · exact .inl rfl
  split
  · exact .inr ⟨_, rfl, rfl, rfl⟩
  · exact .inr ⟨_, rfl, rfl, rfl⟩

theorem fromMap_of_mem (hs : s.map.Fits) {msg : ToClient} (h : msg ∈ s.SendMapData k) :
    ∃ d, msg = .MAP_DATA d ∧ FromMap s.map d := by
  rcases sendMapData_cases s k with hnil | ⟨d, hsend, hcrc, hchunk⟩
  · rw [hnil] at h
    cases h
  · have hmsg := h
    rw [hsend] at hmsg
    refine ⟨d, List.mem_singleton.mp hmsg, hcrc, fun h₀ h₁ => ?_⟩
    rw [hchunk] at h₀ h₁ ⊢
    rw [sendMapData_eq hs h₀ h₁] at hsend
    injection hsend with hdata
    injection hdata with hd
    exact hd.symm

/-! ## Reading ahead -/

/-- The chunk a client waits for after it read a chunk. -/
def advance (N k c : Int) : Int := if k = c ∧ c < N then c + 1 else c

/-- The chunk a client waits for after it read the messages, `none` is no download. -/
def reading (N : Int) : Option Int → List ToClient → Option Int
  | p, [] => p
  | p, .MAP_DATA d :: l => reading N (p.map (advance N d.Chunk)) l
  | _, .MAP_CHANGE _ :: l => reading N (some 0) l

def Pending (l : List ToClient) : Prop := ∃ map, .MAP_CHANGE map ∈ l

theorem reading_append (N : Int) (p : Option Int) (l l' : List ToClient) :
    reading N p (l ++ l') = reading N (reading N p l) l' := by
  induction l generalizing p with
  | nil => rfl
  | cons msg l ih =>
      cases msg with
      | MAP_CHANGE map => exact ih _
      | MAP_DATA d => exact ih _

theorem reading_pending {N : Int} {l : List ToClient} (h : Pending l) (p q : Option Int) :
    reading N p l = reading N q l := by
  obtain ⟨map, hmem⟩ := h
  induction l generalizing p q with
  | nil => cases hmem
  | cons msg l ih =>
      cases msg with
      | MAP_CHANGE map => rfl
      | MAP_DATA d =>
          rcases List.mem_cons.mp hmem with h | h
          · cases h
          · exact ih _ _ h

/-- What is read moves a client forward. -/
theorem le_reading {N : Int} {l : List ToClient} (h : ¬ Pending l) (c : Int) :
    ∃ c', reading N (some c) l = some c' ∧ c ≤ c' := by
  induction l generalizing c with
  | nil => exact ⟨c, rfl, Int.le_refl c⟩
  | cons msg l ih =>
      cases msg with
      | MAP_CHANGE map => exact absurd ⟨map, List.mem_cons_self⟩ h
      | MAP_DATA d =>
          have hl : ¬ Pending l := fun ⟨map, hmem⟩ => h ⟨map, List.mem_cons_of_mem _ hmem⟩
          obtain ⟨c', hc', hle⟩ := ih hl (advance N d.Chunk c)
          refine ⟨c', hc', Int.le_trans ?_ hle⟩
          unfold advance
          split <;> omega

theorem reading_send_none (s : CServer) (N k : Int) : reading N none (s.SendMapData k) = none := by
  rcases sendMapData_cases s k with hnil | ⟨d, hsend, -⟩
  · rw [hnil]
    rfl
  · rw [hsend]
    rfl

theorem reading_send (hs : s.map.Fits) {c : Int} (hk : 0 ≤ k) (hc : c ≤ s.map.chunks) :
    reading s.map.chunks (some c) (s.SendMapData k) = some (advance s.map.chunks k c) := by
  by_cases hlt : k < s.map.chunks
  · rw [sendMapData_eq hs hk hlt]
    rfl
  · have hstay : advance s.map.chunks k c = c := by
      unfold advance
      rw [if_neg]
      omega
    rcases sendMapData_cases s k with hnil | ⟨d, hsend, -, hchunk⟩
    · rw [hnil, hstay]
      rfl
    · rw [hsend]
      show some (advance _ d.Chunk c) = _
      rw [hchunk]

theorem reading_first (hs : s.map.Fits) (W : Nat) :
    reading s.map.chunks (some 0) ((List.range W).flatMap fun i : Nat => s.SendMapData i) =
      some (min s.map.chunks W) := by
  have hpos := hs.chunks_pos
  induction W with
  | zero =>
      show some 0 = _
      congr 1
      omega
  | succ W ih =>
      rw [List.range_succ, List.flatMap_append, reading_append, ih]
      simp only [List.flatMap_cons, List.flatMap_nil, List.append_nil]
      rw [reading_send hs (Int.natCast_nonneg W) (Int.min_le_left _ _)]
      congr 1
      unfold advance
      split <;> omega

theorem reading_first_none (s : CServer) (N : Int) (W : Nat) :
    reading N none ((List.range W).flatMap fun i : Nat => s.SendMapData i) = none := by
  induction W with
  | zero => rfl
  | succ W ih =>
      rw [List.range_succ, List.flatMap_append, reading_append, ih]
      simp only [List.flatMap_cons, List.flatMap_nil, List.append_nil]
      exact reading_send_none s N W

end Fex.Engine.MapDownload
