import Fex.Engine.Demo.Recorded

/-!
# Playing recorded demos

A player that takes the chunks from a list is refined by `DoTick` on the recorded file.
-/

namespace Fex.Engine.Demo

open Fex.Lib

section

variable (UnpackDelta : List UInt8 → List Int → Int → Bool → Option (List UInt8)) (video : Bool)
  (d : DemoFile)

/-! ## The player of chunks -/

/-- A tick of chunks, with what is left of them. -/
def playTick (last : Int) : List Chunk → CDemoPlayer → Bool → CDemoPlayer × List Chunk
  | [], p, _ =>
      (if p.m_PreviousTick = -1 then p.Stop
        else if video then CDemoPlayer.Stop { p with m_Paused := true }
        else { p with m_Paused := true, m_File := some d.bytes.length }, [])
  | .tick Tick _ :: cs, p, GotSnapshot =>
      ({ (replayLast p GotSnapshot).1 with
          m_NextTick := Tick, m_File := some (d.bytes.length - (encode Tick cs).length) }, cs)
  | .data ChunkType content :: cs, p, GotSnapshot =>
      let p := { p with m_aChunkData := content ++ p.m_aChunkData.drop content.length }
      let DataSize : Int := 4 * content.length
      if ChunkType = CHUNKTYPE_DELTA then
        let r := processDelta UnpackDelta d p DataSize
        playTick last cs r.1 (GotSnapshot || r.2)
      else if ChunkType = CHUNKTYPE_SNAPSHOT then
        let r := processSnapshot p DataSize
        playTick last cs r.1 (GotSnapshot || r.2)
      else
        let r := replayLast p GotSnapshot
        if ChunkType = CHUNKTYPE_MESSAGE then
          playTick last cs (r.1.emit (.OnDemoPlayerMessage (content.flatMap intBytes))) r.2
        else playTick last cs r.1 r.2

/-- `DoTick` with the chunks that are left. -/
def tapeTick (s : CDemoPlayer × List Chunk) : CDemoPlayer × List Chunk :=
  match s.1.m_File with
  | none => ({ s.1 with fault := some .nullDeref }, s.2)
  | some _ =>
      let p := { s.1 with m_PreviousTick := s.1.m_CurrentTick, m_CurrentTick := s.1.m_NextTick }
      playTick UnpackDelta video d p.m_CurrentTick s.2 p false

end

/-! ## The ticks of the file -/

variable {UnpackDelta : List UInt8 → List Int → Int → Bool → Option (List UInt8)} {video : Bool}
  {d : DemoFile} {pos : Nat} {p : CDemoPlayer}

/-- The player stands in front of the chunks. -/
structure Stands (d : DemoFile) (p : CDemoPlayer) (cs : List Chunk) : Prop where
  buffer : p.m_aChunkData.length = Snapshot.MAX_SIZE / 4
  place : ∀ pos, p.m_File = some pos →
    Rest d pos (encode p.m_NextTick cs) ∧ Ordered p.m_NextTick cs

theorem stands_of_none {cs : List Chunk}
    (hbuffer : p.m_aChunkData.length = Snapshot.MAX_SIZE / 4) (hnone : p.m_File = none) :
    Stands d p cs := by
  refine ⟨hbuffer, fun pos hpos => ?_⟩
  rw [hnone] at hpos
  cases hpos

@[simp] theorem processDelta_m_aChunkData (DataSize : Int) :
    (processDelta UnpackDelta d p DataSize).1.m_aChunkData = p.m_aChunkData := by
  unfold processDelta
  dsimp only
  split
  · rfl
  · split <;> rfl

@[simp] theorem processSnapshot_m_aChunkData (DataSize : Int) :
    (processSnapshot p DataSize).1.m_aChunkData = p.m_aChunkData := by
  unfold processSnapshot
  dsimp only
  split <;> rfl

@[simp] theorem replayLast_m_aChunkData (GotSnapshot : Bool) :
    (replayLast p GotSnapshot).1.m_aChunkData = p.m_aChunkData := by
  unfold replayLast
  split <;> rfl

theorem chunkBytes_append (content rest : List Int) :
    chunkBytes (content ++ rest) (4 * (content.length : Int)) = content.flatMap intBytes := by
  have hcount : (4 * (content.length : Int)).toNat / 4 = content.length := by omega
  rw [chunkBytes, hcount, List.take_left]

theorem length_overwrite {content m : List Int} {n : Nat} (hm : m.length = n)
    (hcontent : content.length ≤ n) : (content ++ m.drop content.length).length = n := by
  rw [List.length_append, List.length_drop]
  omega

/-- A chunk that is read. -/
theorem tickLoop_success {ChunkType ChunkSize pos' : Nat} {last Tick DataSize : Int}
    {m_aChunkData : List Int} {GotSnapshot : Bool}
    (hread : ReadChunkHeader d pos last = .SUCCESS ChunkType ChunkSize Tick pos')
    (hdata : readData d pos' ChunkSize p.m_aChunkData = .ok (some (DataSize, m_aChunkData))) :
    tickLoop UnpackDelta video d p pos last GotSnapshot =
      let p := { p with m_aChunkData }
      if ChunkType = CHUNKTYPE_DELTA then
        let r := processDelta UnpackDelta d p DataSize
        tickLoop UnpackDelta video d r.1 (pos' + ChunkSize) Tick (GotSnapshot || r.2)
      else if ChunkType = CHUNKTYPE_SNAPSHOT then
        let r := processSnapshot p DataSize
        tickLoop UnpackDelta video d r.1 (pos' + ChunkSize) Tick (GotSnapshot || r.2)
      else
        let r := replayLast p GotSnapshot
        if ChunkType &&& CHUNKTYPEFLAG_TICKMARKER ≠ 0 then
          { r.1 with m_NextTick := Tick, m_File := some (pos' + ChunkSize) }
        else if ChunkType = CHUNKTYPE_MESSAGE then
          tickLoop UnpackDelta video d
            (r.1.emit (.OnDemoPlayerMessage (chunkBytes m_aChunkData DataSize)))
            (pos' + ChunkSize) Tick r.2
        else tickLoop UnpackDelta video d r.1 (pos' + ChunkSize) Tick r.2 := by
  rw [tickLoop]
  split
  next heof => rw [hread] at heof; cases heof
  next herror => rw [hread] at herror; cases herror
  next hsuccess =>
    rw [hread] at hsuccess
    cases hsuccess
    rw [hdata]

theorem data_not_marker : ∀ ChunkType < 4, ChunkType &&& CHUNKTYPEFLAG_TICKMARKER = 0 := by
  decide

/-- A marker in front of chunks. -/
theorem Rest.tick (hversion : gs_VersionTickCompression ≤ d.m_Version) {last Tick : Int}
    {Keyframe : Bool} {cs : List Chunk} (h : Rest d pos (encode last (.tick Tick Keyframe :: cs)))
    (hordered : Ordered last (.tick Tick Keyframe :: cs)) :
    ∃ pos', ReadChunkHeader d pos last = .SUCCESS (markerFlags Keyframe) 0 Tick pos' ∧
      Rest d pos' (encode Tick cs) ∧ pos' = d.bytes.length - (encode Tick cs).length := by
  have hnext : Rest d _ (encode Tick cs) := h.advance
  exact ⟨_, readChunkHeader_tick hversion h hordered.1 hordered.2.1, hnext, hnext.pos_eq⟩

/-- Data in front of chunks. -/
theorem Rest.data {last : Int} {ChunkType : Nat} {content : List Int} {cs : List Chunk}
    (h : Rest d pos (encode last (.data ChunkType content :: cs)))
    (hordered : Ordered last (.data ChunkType content :: cs)) :
    ∃ ChunkSize pos', ReadChunkHeader d pos last = .SUCCESS ChunkType ChunkSize last pos' ∧
      Rest d (pos' + ChunkSize) (encode last cs) ∧
      ∀ m_aChunkData : List Int, m_aChunkData.length = Snapshot.MAX_SIZE / 4 →
        readData d pos' ChunkSize m_aChunkData =
          .ok (some (4 * (content.length : Int), content ++ m_aChunkData.drop content.length)) := by
  obtain ⟨hstored, -⟩ := hordered
  obtain ⟨body, hbody, hshort⟩ := hstored.size
  rw [encode, hbody, Option.getD_some, List.append_assoc] at h
  exact ⟨_, _, readChunkHeader_data h hstored.type hshort, h.advance.advance,
    fun _ hbuffer => readData_data hstored hbody h.advance hbuffer⟩

theorem Rest.eof {last : Int} (h : Rest d pos (encode last [])) :
    pos = d.bytes.length ∧ ReadChunkHeader d pos last = .EOF := by
  have hpos := h.pos_eq
  rw [encode, List.length_nil, Nat.sub_zero] at hpos
  exact ⟨hpos, by rw [ReadChunkHeader, List.getElem?_eq_none (Nat.le_of_eq hpos.symm)]⟩

/-- A tick of the file is a tick of the chunks, and the player stands in front of the next one. -/
theorem tickLoop_encode (hversion : gs_VersionTickCompression ≤ d.m_Version) {last : Int}
    {cs : List Chunk} (h : Rest d pos (encode last cs)) (hordered : Ordered last cs)
    (hbuffer : p.m_aChunkData.length = Snapshot.MAX_SIZE / 4) (GotSnapshot : Bool) :
    tickLoop UnpackDelta video d p pos last GotSnapshot =
        (playTick UnpackDelta video d last cs p GotSnapshot).1 ∧
      Stands d (playTick UnpackDelta video d last cs p GotSnapshot).1
        (playTick UnpackDelta video d last cs p GotSnapshot).2 := by
  induction cs generalizing p pos GotSnapshot with
  | nil =>
      obtain ⟨hpos, hread⟩ := h.eof
      constructor
      · rw [tickLoop]
        split <;> simp_all [playTick]
      · subst hpos
        unfold playTick
        dsimp only
        split
        · exact stands_of_none hbuffer rfl
        · split
          · exact stands_of_none hbuffer rfl
          · refine ⟨hbuffer, fun pos hpos => ?_⟩
            rw [← Option.some.inj hpos]
            exact ⟨h, trivial⟩
  | cons c cs ih =>
      cases c with
      | tick Tick Keyframe =>
          obtain ⟨pos', hread, hnext, hpos⟩ := h.tick hversion hordered
          have hflags : markerFlags Keyframe ≠ CHUNKTYPE_DELTA ∧
              markerFlags Keyframe ≠ CHUNKTYPE_SNAPSHOT ∧
              markerFlags Keyframe &&& CHUNKTYPEFLAG_TICKMARKER ≠ 0 := by
            cases Keyframe <;> decide
          rw [tickLoop_success hread (if_pos rfl)]
          dsimp only
          rw [if_neg hflags.1, if_neg hflags.2.1, if_pos hflags.2.2, Nat.add_zero, hpos]
          refine ⟨rfl, ?_, fun place hplace => ?_⟩
          · exact (congrArg List.length (replayLast_m_aChunkData GotSnapshot)).trans hbuffer
          · rw [← Option.some.inj hplace, ← hpos]
            exact ⟨hnext, hordered.2.2⟩
      | data ChunkType content =>
          obtain ⟨⟨htype, -, hfits, -⟩, hrest⟩ := id hordered
          have hquarter : Snapshot.MAX_SIZE / 4 * 4 = Snapshot.MAX_SIZE := by decide
          have hlength := length_overwrite hbuffer (show content.length ≤ _ by omega)
          obtain ⟨ChunkSize, pos', hread, hnext, hdata⟩ := h.data hordered
          rw [tickLoop_success hread (hdata _ hbuffer), data_not_marker ChunkType htype,
            chunkBytes_append]
          unfold playTick
          dsimp only
          rw [if_neg (not_not_intro rfl)]
          split
          · exact ih hnext hrest (by rwa [processDelta_m_aChunkData]) _
          · split
            · exact ih hnext hrest (by rwa [processSnapshot_m_aChunkData]) _
            · split
              · refine ih hnext hrest ?_ _
                rw [CDemoPlayer.emit, replayLast_m_aChunkData]
                exact hlength
              · exact ih hnext hrest (by rwa [replayLast_m_aChunkData]) _

/-- A call of `DoTick`. -/
theorem Stands.doTick (hversion : gs_VersionTickCompression ≤ d.m_Version) {cs : List Chunk}
    (h : Stands d p cs) :
    DoTick UnpackDelta video d p = (tapeTick UnpackDelta video d (p, cs)).1 ∧
      Stands d (tapeTick UnpackDelta video d (p, cs)).1
        (tapeTick UnpackDelta video d (p, cs)).2 := by
  unfold DoTick tapeTick
  dsimp only
  cases hfile : p.m_File with
  | none => exact ⟨rfl, stands_of_none h.buffer rfl⟩
  | some pos =>
      obtain ⟨hrest, hordered⟩ := h.place pos hfile
      exact @tickLoop_encode UnpackDelta video d pos
        { p with m_File := some pos, m_PreviousTick := p.m_CurrentTick, m_CurrentTick := p.m_NextTick }
        hversion p.m_NextTick cs hrest hordered h.buffer false

theorem Stands.ticks (hversion : gs_VersionTickCompression ≤ d.m_Version) {cs : List Chunk}
    (h : Stands d p cs) (n : Nat) :
    (DoTick UnpackDelta video d)^[n] p = ((tapeTick UnpackDelta video d)^[n] (p, cs)).1 := by
  induction n generalizing p cs with
  | zero => rfl
  | succ n ih =>
      obtain ⟨htick, hstands⟩ := h.doTick hversion
      rw [Function.iterate_succ_apply, Function.iterate_succ_apply, htick]
      exact ih hstands

/-! ## Scanning -/

/-- The key frames of chunks at the end of a file. -/
def keyFrames (size : Nat) (last : Int) : List Chunk → List CKeyFrame
  | [] => []
  | .tick Tick Keyframe :: cs =>
      (if Keyframe then [⟨size - (encode last (.tick Tick Keyframe :: cs)).length, Tick⟩] else []) ++
        keyFrames size Tick cs
  | .data _ _ :: cs => keyFrames size last cs

/-- What `ScanFile` finds of the chunks. -/
def scanned (size : Nat) (cs : List Chunk) : List CKeyFrame × Int × Int :=
  (keyFrames size (-1) cs, (markers cs).headD (-1), (markers cs).getLastD (-1))

theorem markers_tick (Tick : Int) (Keyframe : Bool) (cs : List Chunk) :
    markers (.tick Tick Keyframe :: cs) = Tick :: markers cs := rfl

/-- The key frames, the first and the last tick are those of the chunks. -/
theorem scanLoop_encode (hversion : gs_VersionTickCompression ≤ d.m_Version) {last : Int}
    {cs : List Chunk} (h : Rest d pos (encode last cs)) (hordered : Ordered last cs)
    (m_vKeyFrames : List CKeyFrame) (m_FirstTick m_LastTick : Int) :
    scanLoop d pos last m_vKeyFrames m_FirstTick m_LastTick =
      some (m_vKeyFrames ++ keyFrames d.bytes.length last cs,
        if m_FirstTick = -1 then (markers cs).headD (-1) else m_FirstTick,
        (markers cs).getLastD m_LastTick) := by
  induction cs generalizing pos last m_vKeyFrames m_FirstTick m_LastTick with
  | nil =>
      obtain ⟨hpos, hread⟩ := h.eof
      rw [scanLoop]
      split <;> simp_all [keyFrames, markers]
  | cons c cs ih =>
      cases c with
      | tick Tick Keyframe =>
          obtain ⟨pos', hread, hnext, -⟩ := h.tick hversion hordered
          obtain ⟨hTick, -, hrest⟩ := hordered
          have hflags : markerFlags Keyframe &&& CHUNKTYPEFLAG_TICKMARKER ≠ 0 ∧
              (markerFlags Keyframe &&& CHUNKTICKFLAG_KEYFRAME ≠ 0 ↔ Keyframe = true) := by
            cases Keyframe <;> decide
          rw [scanLoop]
          split
          next heof => rw [hread] at heof; cases heof
          next herror => rw [hread] at herror; cases herror
          next hsuccess =>
            rw [hread] at hsuccess
            cases hsuccess
            have hfirst : (if m_FirstTick = -1 then Tick else m_FirstTick) ≠ -1 := by
              split <;> omega
            rw [if_pos hflags.1, ih hnext hrest, if_neg hfirst, keyFrames, ← h.pos_eq,
              markers_tick, List.headD_cons, List.getLastD_cons]
            cases Keyframe with
            | false => rw [if_neg fun hne => Bool.false_ne_true (hflags.2.mp hne)]; rfl
            | true => rw [if_pos (hflags.2.mpr rfl), List.append_assoc]; rfl
      | data ChunkType content =>
          obtain ⟨ChunkSize, pos', hread, hnext, -⟩ := h.data hordered
          obtain ⟨⟨htype, -⟩, hrest⟩ := hordered
          rw [scanLoop]
          split
          next heof => rw [hread] at heof; cases heof
          next herror => rw [hread] at herror; cases herror
          next hsuccess =>
            rw [hread] at hsuccess
            cases hsuccess
            rw [if_neg (not_not_intro (data_not_marker ChunkType htype))]
            exact ih hnext hrest m_vKeyFrames m_FirstTick m_LastTick

/-! ## Recordings -/

/-- A file that a run of the recorder has written. -/
structure IsRecording (CreateDelta : List UInt8 → List UInt8 → List UInt8)
    (m_pfnFilter : List UInt8 → Bool) (m_aLastSnapshotData : List UInt8) (r : CDemoRecorder)
    (d : DemoFile) : Prop where
  run : Reachable (fun r c => .ok (r.step CreateDelta m_pfnFilter c))
    (CDemoRecorder.Allowed CreateDelta) (.Start m_aLastSnapshotData) r
  version : gs_VersionTickCompression ≤ d.m_Version
  file : d.StartPos ≤ d.bytes.length ∧ d.bytes.drop d.StartPos = r.m_File

variable {CreateDelta : List UInt8 → List UInt8 → List UInt8} {m_pfnFilter : List UInt8 → Bool}
  {m_aLastSnapshotData : List UInt8} {r : CDemoRecorder}

theorem IsRecording.rest (h : IsRecording CreateDelta m_pfnFilter m_aLastSnapshotData r d) :
    Rest d d.StartPos (encode (-1) r.chunks) ∧ Ordered (-1) r.chunks := by
  obtain ⟨hfile, -, -, hordered⟩ := CDemoRecorder.recorded_of_reachable h.run
  exact ⟨⟨h.file.1, h.file.2.trans hfile⟩, hordered⟩

theorem IsRecording.scanLoop (h : IsRecording CreateDelta m_pfnFilter m_aLastSnapshotData r d) :
    scanLoop d d.StartPos (-1) [] (-1) (-1) = some (scanned d.bytes.length r.chunks) := by
  have hloop := scanLoop_encode h.version h.rest.1 h.rest.2 [] (-1) (-1)
  rwa [if_pos rfl, List.nil_append] at hloop

/-- Playing a recorded file is playing the chunks that were recorded. -/
theorem recording_played (h : IsRecording CreateDelta m_pfnFilter m_aLastSnapshotData r d)
    {m_aChunkData : List Int} (hbuffer : m_aChunkData.length = Snapshot.MAX_SIZE / 4)
    {m_aLastPlayed : List UInt8} (hload : Load d m_aChunkData m_aLastPlayed = some p) (n : Nat) :
    (DoTick UnpackDelta video d)^[n] p =
      ((tapeTick UnpackDelta video d)^[n] (p, r.chunks)).1 := by
  apply Stands.ticks h.version
  unfold Load at hload
  split at hload
  · cases hload
  · obtain rfl := Option.some.inj hload
    refine ⟨hbuffer, fun pos hpos => ?_⟩
    rw [← Option.some.inj hpos]
    exact h.rest

/-- The chunks of a first snapshot begin with a key frame. -/
theorem chunks_recordSnapshot (Tick : Int) (pData : List UInt8) : ∃ cs,
    ((CDemoRecorder.Start m_aLastSnapshotData).RecordSnapshot CreateDelta Tick pData).chunks =
      .tick Tick true :: cs := by
  rw [CDemoRecorder.RecordSnapshot, if_pos (.inl rfl)]
  dsimp only [CDemoRecorder.keep]
  unfold CDemoRecorder.Write
  split
  · exact ⟨_, rfl⟩
  · split <;> exact ⟨_, rfl⟩

/-- A file without a header. -/
def demoOf (r : CDemoRecorder) : DemoFile where
  bytes := r.m_File
  m_Version := 6
  m_Sixup := false
  StartPos := 0

theorem isRecording_demoOf
    (h : Reachable (fun r c => .ok (r.step CreateDelta m_pfnFilter c))
      (CDemoRecorder.Allowed CreateDelta) (.Start m_aLastSnapshotData) r) :
    IsRecording CreateDelta m_pfnFilter m_aLastSnapshotData r (demoOf r) where
  run := h
  version := show gs_VersionTickCompression ≤ 6 by decide
  file := ⟨Nat.zero_le _, rfl⟩

/-- A snapshot without items is recorded at tick 10. -/
def exampleRecorder : CDemoRecorder :=
  (CDemoRecorder.Start []).step (fun _ _ => []) (fun _ => false)
    (.RecordSnapshot 10 (List.replicate 8 0))

def exampleDemo : DemoFile := demoOf exampleRecorder

theorem isRecording_example :
    IsRecording (fun _ _ => []) (fun _ => false) [] exampleRecorder exampleDemo :=
  isRecording_demoOf (.next (.RecordSnapshot 10 (List.replicate 8 0)) .init ⟨by decide, by decide,
    short_of_packedAll (by decide), short_of_packedAll (by decide)⟩ rfl)

theorem load_example : ∃ p, Load exampleDemo (List.replicate (Snapshot.MAX_SIZE / 4) 0)
    (List.replicate Snapshot.MAX_SIZE 0) = some p := by
  obtain ⟨cs, hcs⟩ : ∃ cs, exampleRecorder.chunks = .tick 10 true :: cs :=
    @chunks_recordSnapshot (fun _ _ => []) [] 10 (List.replicate 8 0)
  rw [Load, ScanFile, isRecording_example.scanLoop, hcs]
  exact ⟨_, rfl⟩

theorem recording_played_exampleDemo : ∃ p,
    Load exampleDemo (List.replicate (Snapshot.MAX_SIZE / 4) 0)
      (List.replicate Snapshot.MAX_SIZE 0) = some p ∧
    (DoTick (fun _ _ _ _ => none) false exampleDemo)^[2] p =
      ((tapeTick (fun _ _ _ _ => none) false exampleDemo)^[2] (p, exampleRecorder.chunks)).1 := by
  obtain ⟨p, hp⟩ := load_example
  exact ⟨p, hp, recording_played isRecording_example List.length_replicate hp 2⟩

end Fex.Engine.Demo
