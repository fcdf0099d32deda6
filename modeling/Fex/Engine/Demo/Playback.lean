import Fex.Engine.Demo

/-!
# The base of a delta

`m_aLastSnapshotData` starts with a snapshot of the file that was accepted exactly when
`m_LastSnapshotDataSize` is not -1.  `Load` sets the size to -1 and keeps the buffer, the
replay of the last snapshot asks for the size, and unpacking a delta does not.
-/

namespace Fex.Engine.Demo

/-- The buffer starts with one of the accepted snapshots. -/
def Holds (base : List UInt8) (accepted : List (List UInt8)) : Prop :=
  ∃ snap ∈ accepted, IsValid snap ∧ snap <+: base

/-- A delta is unpacked on a snapshot of this file. -/
def Event.Based : Event → Prop
  | .UnpackDelta base _ accepted => Holds base accepted
  | _ => True

/-- A delta is unpacked where there is a last snapshot. -/
def Event.Guarded : Event → Prop
  | .UnpackDelta _ m_LastSnapshotDataSize _ => m_LastSnapshotDataSize ≠ -1
  | _ => True

structure Inv (p : CDemoPlayer) : Prop where
  base : Holds p.m_aLastSnapshotData p.accepted ↔ p.m_LastSnapshotDataSize ≠ -1
  events : ∀ e ∈ p.events, e.Based ↔ e.Guarded

namespace Inv

/-! ## The buffer -/

theorem emit {p : CDemoPlayer} {e : Event} (h : Inv p) (he : e.Based ↔ e.Guarded) :
    Inv (p.emit e) := by
  constructor
  · exact h.base
  · intro e' hmem
    rcases List.mem_append.mp hmem with hmem | hmem
    · exact h.events e' hmem
    · rw [List.mem_singleton.mp hmem]
      exact he

theorem keep {p : CDemoPlayer} {data : List UInt8} (h : Inv p) (hvalid : IsValid data) :
    Inv (p.keep data) := by
  constructor
  · have hholds : Holds (p.keep data).m_aLastSnapshotData (p.keep data).accepted :=
      ⟨data, List.mem_cons_self, hvalid, List.prefix_append _ _⟩
    have hsize : (p.keep data).m_LastSnapshotDataSize ≠ -1 := by
      show (data.length : Int) ≠ -1
      omega
    exact iff_of_true hholds hsize
  · exact h.events

theorem ite {c : Prop} [Decidable c] {p p' : CDemoPlayer} (h : Inv p) (h' : Inv p') :
    Inv (if c then p' else p) := by
  split
  · exact h'
  · exact h

theorem stop {p : CDemoPlayer} (h : Inv p) : Inv p.Stop := ⟨h.base, h.events⟩

theorem chunkData {p : CDemoPlayer} (h : Inv p) (m_aChunkData : List Int) :
    Inv { p with m_aChunkData } :=
  ⟨h.base, h.events⟩

theorem nextTick {p : CDemoPlayer} (h : Inv p) (m_NextTick : Int) (m_File : Option Nat) :
    Inv { p with m_NextTick, m_File } :=
  ⟨h.base, h.events⟩

section

variable {UnpackDelta : List UInt8 → List Int → Int → Bool → Option (List UInt8)}
variable {video : Bool} {d : DemoFile} {p : CDemoPlayer}

theorem processDelta (h : Inv p) (DataSize : Int) :
    Inv (Demo.processDelta UnpackDelta d p DataSize).1 := by
  have hdelta : Inv
      (p.emit (.UnpackDelta p.m_aLastSnapshotData p.m_LastSnapshotDataSize p.accepted)) :=
    h.emit h.base
  unfold Demo.processDelta
  split
  · exact hdelta
  · next m_aSnapshot _ =>
      by_cases hvalid : IsValid m_aSnapshot
      · rw [if_neg (not_not_intro hvalid)]
        exact (hdelta.emit Iff.rfl).keep hvalid
      · rw [if_pos hvalid]
        exact hdelta

theorem processSnapshot (h : Inv p) (DataSize : Int) :
    Inv (Demo.processSnapshot p DataSize).1 := by
  unfold Demo.processSnapshot
  by_cases hvalid : IsValid (chunkBytes p.m_aChunkData DataSize)
  · rw [if_neg (not_not_intro hvalid)]
    exact (h.keep hvalid).emit Iff.rfl
  · rw [if_pos hvalid]
    exact h

theorem replayLast (h : Inv p) (GotSnapshot : Bool) : Inv (Demo.replayLast p GotSnapshot).1 := by
  unfold Demo.replayLast
  split
  · exact h.emit Iff.rfl
  · exact h

/-! ## Ticks -/

/-- By the chunks that are read: only snapshots and deltas touch the buffer. -/
theorem tickLoop {pos : Nat} {ChunkTick : Int} {GotSnapshot : Bool} (h : Inv p) :
    Inv (Demo.tickLoop UnpackDelta video d p pos ChunkTick GotSnapshot) := by
  fun_induction Demo.tickLoop UnpackDelta video d p pos ChunkTick GotSnapshot with
  | case1 => exact h.stop
  | case2 => exact stop ⟨h.base, h.events⟩
  | case3 => exact ⟨h.base, h.events⟩
  | case4 => exact h.stop
  | case5 => exact ⟨h.base, h.events⟩
  | case6 => exact h.stop
  | case7 =>
      next ih =>
      exact ih ((h.chunkData _).processDelta _)
  | case8 =>
      next ih =>
      exact ih ((h.chunkData _).processSnapshot _)
  | case9 =>
      -- the tick is over
      exact ((h.chunkData _).replayLast _).nextTick _ _
  | case10 =>
      next ih =>
      exact ih (((h.chunkData _).replayLast _).emit Iff.rfl)
  | case11 =>
      next ih =>
      exact ih ((h.chunkData _).replayLast _)

theorem DoTick (h : Inv p) : Inv (Demo.DoTick UnpackDelta video d p) := by
  unfold Demo.DoTick
  split
  · exact ⟨h.base, h.events⟩
  · exact tickLoop ⟨h.base, h.events⟩

theorem ticksWhile (cond : CDemoPlayer → Bool) (n : Nat) (h : Inv p) :
    Inv (Demo.ticksWhile UnpackDelta video d cond n p) := by
  induction n generalizing p with
  | zero => exact h
  | succ n ih =>
      unfold Demo.ticksWhile
      split
      · exact ih h.DoTick
      · exact h

/-! ## Calls -/

theorem Play (n : Nat) (h : Inv p) : Inv (Demo.Play UnpackDelta video d n p) := by
  unfold Demo.Play
  split
  · exact ⟨h.base, h.events⟩
  · have hticks : Inv (Demo.ticksWhile UnpackDelta video d
        (fun p => p.m_PreviousTick = -1 ∧ p.IsPlaying) n (Demo.DoTick UnpackDelta video d p)) :=
      h.DoTick.ticksWhile _ n
    simp only
    split
    · exact hticks
    · exact ⟨hticks.base, hticks.events⟩

theorem SetPos (guess n : Nat) (WantedTick : Int) (h : Inv p) :
    Inv (Demo.SetPos UnpackDelta video d guess n WantedTick p) := by
  unfold Demo.SetPos
  split
  · exact h
  · simp only
    split
    · exact ⟨h.base, h.events⟩
    · next k _ =>
        have hsought : Inv
            { p with
              m_File := some k.m_Filepos, m_NextTick := -1, m_CurrentTick := -1
              m_PreviousTick := -1 } :=
          ⟨h.base, h.events⟩
        split
        · exact (hsought.ticksWhile _ n).Play n
        · exact hsought.ticksWhile _ n

theorem Update (RealTime : Bool) (CurrentTime : Int) (n : Nat) (h : Inv p) :
    Inv (Demo.Update UnpackDelta video d RealTime CurrentTime n p) := by
  unfold Demo.Update
  split
  · exact h
  · apply ticksWhile
    exact ⟨h.base, h.events⟩

theorem step (h : Inv p) (c : Call) : Inv (Demo.step UnpackDelta video d p c) := by
  cases c with
  | DoTick => exact h.ite h.DoTick
  | SetPos WantedTick guess n => exact h.ite (h.SetPos guess n WantedTick)
  | Update RealTime CurrentTime n => exact h.ite (h.Update RealTime CurrentTime n)

theorem run (h : Inv p) (calls : List Call) :
    Inv (calls.foldl (Demo.step UnpackDelta video d) p) := by
  induction calls generalizing p with
  | nil => exact h
  | cons c calls ih => exact ih (h.step c)

end

/-- No snapshot of the file is accepted yet. -/
theorem load {d : DemoFile} {m_aChunkData : List Int} {m_aLastSnapshotData : List UInt8}
    {p : CDemoPlayer} (h : Load d m_aChunkData m_aLastSnapshotData = some p) : Inv p := by
  unfold Load at h
  split at h
  · cases h
  · rw [← Option.some.inj h]
    constructor
    · apply iff_of_false
      · rintro ⟨snap, hmem, -⟩
        cases hmem
      · exact fun hsize => hsize rfl
    · intro e hmem
      cases hmem

end Inv

/-- Whatever a file holds and in whatever order it is played, a delta is unpacked on an accepted
snapshot of the file exactly where the size is not -1. -/
theorem delta_bases (UnpackDelta : List UInt8 → List Int → Int → Bool → Option (List UInt8))
    (video : Bool) {d : DemoFile} {m_aChunkData : List Int} {m_aLastSnapshotData : List UInt8}
    {p : CDemoPlayer} (h : Load d m_aChunkData m_aLastSnapshotData = some p) (calls : List Call) :
    ∀ e ∈ (calls.foldl (step UnpackDelta video d) p).events, e.Based ↔ e.Guarded := by
  have hrun : Inv (calls.foldl (step UnpackDelta video d) p) := (Inv.load h).run calls
  exact hrun.events

/-- A key frame, a delta without data and the next tick. -/
def unbasedDemo : DemoFile :=
  { bytes := [0xc0, 0, 0, 0, 10, 0x60, 0xa1], m_Version := 6, m_Sixup := false, StartPos := 0 }

/-- The buffers of a player that was just made. -/
def loadUnbased : Option CDemoPlayer :=
  Load unbasedDemo (List.replicate (Snapshot.MAX_SIZE / 4) 0) (List.replicate Snapshot.MAX_SIZE 0)

/-- Two ticks are played; a delta without data is an error of `UnpackDelta`. -/
def playUnbased (p : CDemoPlayer) : CDemoPlayer :=
  [.DoTick, .DoTick].foldl (step (fun _ _ _ _ => none) false unbasedDemo) p

theorem delta_bases_unbased :
    ∃ p, loadUnbased = some p ∧ ∀ e ∈ (playUnbased p).events, e.Based ↔ e.Guarded := by
  have hload : loadUnbased.isSome = true := by decide +kernel
  obtain ⟨p, hp⟩ := Option.isSome_iff_exists.mp hload
  exact ⟨p, hp, delta_bases _ false hp _⟩

def Event.unbased : Event → Bool
  | .UnpackDelta _ _ [] => true
  | _ => false

/-- Before any snapshot the delta is unpacked on the zeros of the buffer. -/
theorem delta_before_snapshot :
    ∃ p, loadUnbased = some p ∧ ∃ base size accepted,
      Event.UnpackDelta base size accepted ∈ (playUnbased p).events ∧ ¬ Holds base accepted := by
  have hload : loadUnbased.any (fun p => (playUnbased p).events.any Event.unbased) = true := by
    decide +kernel
  obtain ⟨p, hp, hany⟩ := (Option.any_eq_true _ _).mp hload
  obtain ⟨e, hmem, hunbased⟩ := List.any_eq_true.mp hany
  refine ⟨p, hp, ?_⟩
  unfold Event.unbased at hunbased
  split at hunbased
  · next base size =>
      refine ⟨base, size, [], hmem, ?_⟩
      rintro ⟨snap, hsnap, -⟩
      cases hsnap
  · cases hunbased

end Fex.Engine.Demo
