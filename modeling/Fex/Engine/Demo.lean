import Fex.Engine.Compression
import Fex.Engine.Network
import Fex.Engine.Snapshot

/-!
# Playing demos

Model of `CDemoPlayer`: the chunks of a file, `ScanFile`, `DoTick` and what calls it.
`m_pSnapshotDelta->UnpackDelta` is an argument and a listener is set.  A loop over ticks takes the number of
its rounds, so that the runs of the model are the runs of the code up to any point.
-/

namespace Fex.Engine.Demo

open Fex.Lib

def CHUNKTYPEFLAG_TICKMARKER : Nat := 0x80
def CHUNKTICKFLAG_KEYFRAME : Nat := 0x40
def CHUNKTICKFLAG_TICK_COMPRESSED : Nat := 0x20
def CHUNKMASK_TICK : Nat := 0x1f
def CHUNKMASK_TICK_LEGACY : Nat := 0x3f
def CHUNKMASK_TYPE : Nat := 0x60
def CHUNKMASK_SIZE : Nat := 0x1f
def CHUNKTYPE_SNAPSHOT : Nat := 1
def CHUNKTYPE_MESSAGE : Nat := 2
def CHUNKTYPE_DELTA : Nat := 3
def gs_VersionTickCompression : Nat := 5
def MIN_TICK : Int := 0
def MAX_TICK : Int := 0x6FFFFFFF
def SERVER_TICK_SPEED : Int := 50

/-- `time_freq`, in nanoseconds. -/
def time_freq : Int := 1000000000

/-- A file whose header was accepted: `StartPos` is behind the map. -/
structure DemoFile where
  bytes : List UInt8
  m_Version : Nat
  m_Sixup : Bool
  StartPos : Nat

/-! ## Snapshots in memory -/

/-- `CSnapshot::IsValid` for the bytes of a snapshot, as many as `ActualSize`. -/
def IsValid (data : List UInt8) : Bool :=
  let m_DataSize := readInt data
  let m_NumItems := readInt (data.drop 4)
  let Offset (Index : Nat) : Int := readInt (data.drop (8 + 4 * Index))
  -- validate total size
  if data.length < 8 ∨ data.length > Snapshot.MAX_SIZE ∨ m_NumItems < 0 ∨
      m_NumItems > Snapshot.MAX_ITEMS ∨ m_DataSize < 0 ∨
      (data.length : Int) ≠ 8 + 4 * m_NumItems + m_DataSize then
    false
  else
    -- validate item offsets and item sizes
    (List.range m_NumItems.toNat).all (fun Index => 0 ≤ Offset Index ∧ Offset Index ≤ m_DataSize) &&
      (List.range m_NumItems.toNat).all fun Index =>
        if (Index : Int) = m_NumItems - 1 then 0 ≤ m_DataSize - Offset Index - 4
        else 0 ≤ Offset (Index + 1) - Offset Index - 4

/-! ## Chunks -/

inductive EReadChunkHeaderResult
  | SUCCESS (ChunkType ChunkSize : Nat) (Tick : Int) (pos : Nat)
  | ERROR
  | EOF

/-- The tick of a marker and the position behind it. -/
def readTick (d : DemoFile) (pos Chunk : Nat) (Tick : Int) : Option (Int × Nat) :=
  let TickdeltaLegacy := Chunk &&& CHUNKMASK_TICK_LEGACY
  if d.m_Version < gs_VersionTickCompression ∧ TickdeltaLegacy ≠ 0 then
    -- initial tick not initialized before a tick delta
    if Tick < 0 then none else some (Tick + TickdeltaLegacy, pos)
  else if Chunk &&& CHUNKTICKFLAG_TICK_COMPRESSED ≠ 0 then
    if Tick < 0 then none else some (Tick + (Chunk &&& CHUNKMASK_TICK : Nat), pos)
  else
    match (d.bytes.drop pos).take 4 with
    | [b₀, b₁, b₂, b₃] =>
        some (wrap32 (16777216 * b₀.toNat + 65536 * b₁.toNat + 256 * b₂.toNat + b₃.toNat), pos + 4)
    | _ => none

/-- The size of a normal chunk and the position behind it. -/
def readSize (d : DemoFile) (pos Size : Nat) : Option (Nat × Nat) :=
  if Size = 30 then
    match (d.bytes.drop pos).take 1 with
    | [b₀] => some (b₀.toNat, pos + 1)
    | _ => none
  else if Size = 31 then
    match (d.bytes.drop pos).take 2 with
    | [b₀, b₁] => some (256 * b₁.toNat + b₀.toNat, pos + 2)
    | _ => none
  else some (Size, pos)

def ReadChunkHeader (d : DemoFile) (pos : Nat) (Tick : Int) : EReadChunkHeaderResult :=
  match d.bytes[pos]? with
  | none => .EOF
  | some byte =>
      let Chunk := byte.toNat
      if Chunk &&& CHUNKTYPEFLAG_TICKMARKER ≠ 0 then
        match readTick d (pos + 1) Chunk Tick with
        | none => .ERROR
        | some (NewTick, pos) =>
            if NewTick < MIN_TICK ∨ NewTick ≥ MAX_TICK then .ERROR
            else
              .SUCCESS (Chunk &&& (CHUNKTYPEFLAG_TICKMARKER ||| CHUNKTICKFLAG_KEYFRAME)) 0 NewTick pos
      else
        match readSize d (pos + 1) (Chunk &&& CHUNKMASK_SIZE) with
        | none => .ERROR
        | some (Size, pos) => .SUCCESS ((Chunk &&& CHUNKMASK_TYPE) >>> 5) Size Tick pos

theorem readTick_pos {d : DemoFile} {pos Chunk : Nat} {Tick NewTick : Int} {pos' : Nat}
    (h : readTick d pos Chunk Tick = some (NewTick, pos')) : pos ≤ pos' := by
  unfold readTick at h
  simp only at h
  split at h
  · split at h
    · cases h
    · exact Nat.le_of_eq (Prod.mk.inj (Option.some.inj h)).2
  split at h
  · split at h
    · cases h
    · exact Nat.le_of_eq (Prod.mk.inj (Option.some.inj h)).2
  · split at h
    · have hpos := (Prod.mk.inj (Option.some.inj h)).2
      omega
    · cases h

theorem readSize_pos {d : DemoFile} {pos Size NewSize pos' : Nat}
    (h : readSize d pos Size = some (NewSize, pos')) : pos ≤ pos' := by
  unfold readSize at h
  split at h
  · split at h
    · have hpos := (Prod.mk.inj (Option.some.inj h)).2
      omega
    · cases h
  split at h
  · split at h
    · have hpos := (Prod.mk.inj (Option.some.inj h)).2
      omega
    · cases h
  · exact Nat.le_of_eq (Prod.mk.inj (Option.some.inj h)).2

/-- A header takes at least one byte of the file. -/
theorem ReadChunkHeader_pos {d : DemoFile} {pos ChunkType ChunkSize pos' : Nat}
    {Tick NewTick : Int}
    (h : ReadChunkHeader d pos Tick = .SUCCESS ChunkType ChunkSize NewTick pos') :
    pos < pos' ∧ pos < d.bytes.length := by
  unfold ReadChunkHeader at h
  cases hbyte : d.bytes[pos]? with
  | none =>
      rw [hbyte] at h
      cases h
  | some byte =>
      obtain ⟨hlt, -⟩ := List.getElem?_eq_some_iff.mp hbyte
      rw [hbyte] at h
      simp only at h
      split at h
      · split at h
        · cases h
        next hread =>
          split at h
          · cases h
          · cases h
            exact ⟨readTick_pos hread, hlt⟩
      · split at h
        · cases h
        next hread =>
          cases h
          exact ⟨readSize_pos hread, hlt⟩

structure CKeyFrame where
  m_Filepos : Nat
  m_Tick : Int

/-- The loop of `ScanFile`: the key frames, the first and the last tick. -/
def scanLoop (d : DemoFile) (CurrentPos : Nat) (ChunkTick : Int) (m_vKeyFrames : List CKeyFrame)
    (m_FirstTick m_LastTick : Int) : Option (List CKeyFrame × Int × Int) :=
  match _h : ReadChunkHeader d CurrentPos ChunkTick with
  | .EOF => some (m_vKeyFrames, m_FirstTick, m_LastTick)
  | .ERROR => none
  | .SUCCESS ChunkType ChunkSize ChunkTick pos =>
      if ChunkType &&& CHUNKTYPEFLAG_TICKMARKER ≠ 0 then
        scanLoop d pos ChunkTick
          (if ChunkType &&& CHUNKTICKFLAG_KEYFRAME ≠ 0 then m_vKeyFrames ++ [⟨CurrentPos, ChunkTick⟩]
          else m_vKeyFrames)
          (if m_FirstTick = -1 then ChunkTick else m_FirstTick) ChunkTick
      else
        -- `io_skip` may leave the file
        scanLoop d (pos + ChunkSize) ChunkTick m_vKeyFrames m_FirstTick m_LastTick
termination_by d.bytes.length - CurrentPos
decreasing_by
  all_goals
    have := ReadChunkHeader_pos _h
    omega

/-- Playback needs a key frame. -/
def ScanFile (d : DemoFile) : Option (List CKeyFrame × Int × Int) :=
  match scanLoop d d.StartPos (-1) [] (-1) (-1) with
  | none => none
  | some (m_vKeyFrames, m_FirstTick, m_LastTick) =>
      if m_vKeyFrames = [] then none else some (m_vKeyFrames, m_FirstTick, m_LastTick)

/-! ## The player -/

/-- What the listener is told, and the base of every delta that is unpacked: `m_aLastSnapshotData`
and its size, and the snapshots of the file that passed `IsValid` before. -/
inductive Event
  | OnDemoPlayerSnapshot (data : List UInt8)
  | OnDemoPlayerMessage (data : List UInt8)
  | UnpackDelta (m_aLastSnapshotData : List UInt8) (m_LastSnapshotDataSize : Int)
      (accepted : List (List UInt8))

/-- `m_File` is the position in the file that is played, `accepted` and `events` are the record
of the run. -/
structure CDemoPlayer where
  m_File : Option Nat
  m_vKeyFrames : List CKeyFrame
  m_FirstTick : Int
  m_LastTick : Int
  m_CurrentTick : Int
  m_PreviousTick : Int
  m_NextTick : Int
  m_Paused : Bool
  m_CurrentTime : Int
  m_aChunkData : List Int
  m_aLastSnapshotData : List UInt8
  m_LastSnapshotDataSize : Int
  fault : Option Fault
  accepted : List (List UInt8)
  events : List Event

/-- The buffers hold what the last demo has left in them. -/
def Load (d : DemoFile) (m_aChunkData : List Int) (m_aLastSnapshotData : List UInt8) :
    Option CDemoPlayer :=
  match ScanFile d with
  | none => none
  | some (m_vKeyFrames, m_FirstTick, m_LastTick) =>
      some
        { m_File := some d.StartPos, m_vKeyFrames, m_FirstTick, m_LastTick
          m_CurrentTick := -1, m_PreviousTick := -1, m_NextTick := -1, m_Paused := false
          m_CurrentTime := 0, m_aChunkData, m_aLastSnapshotData, m_LastSnapshotDataSize := -1
          fault := none, accepted := [], events := [] }

namespace CDemoPlayer

def IsPlaying (p : CDemoPlayer) : Bool := p.m_File.isSome

def Stop (p : CDemoPlayer) : CDemoPlayer := { p with m_File := none, m_vKeyFrames := [] }

def emit (p : CDemoPlayer) (e : Event) : CDemoPlayer := { p with events := p.events ++ [e] }

/-- A valid snapshot is copied to `m_aLastSnapshotData`. -/
def keep (p : CDemoPlayer) (data : List UInt8) : CDemoPlayer :=
  { p with
    m_LastSnapshotDataSize := data.length
    m_aLastSnapshotData := data ++ p.m_aLastSnapshotData.drop data.length
    accepted := data :: p.accepted }

end CDemoPlayer

/-- `DataSize` and what it says of `m_aChunkData`, `none` is an error of one of the steps.  A chunk
without data leaves the buffer as it is. -/
def readData (d : DemoFile) (pos ChunkSize : Nat) (m_aChunkData : List Int) :
    Exec (Option (Int × List Int)) :=
  if ChunkSize = 0 then .ok (some (0, m_aChunkData))
  else
    let m_aCompressedSnapshotData := (d.bytes.drop pos).take ChunkSize
    if m_aCompressedSnapshotData.length ≠ ChunkSize then .ok none
    else
      match Network.ms_Huffman.Decompress m_aCompressedSnapshotData Snapshot.MAX_SIZE with
      | .error _ => .ok none
      | .ok m_aDecompressedSnapshotData => do
          let (DataSize, m_aChunkData) ←
            Compression.Decompress m_aDecompressedSnapshotData m_aChunkData Snapshot.MAX_SIZE
          if DataSize < 0 then return none
          else return some (DataSize, m_aChunkData)

/-- The first `DataSize` bytes of `m_aChunkData`. -/
def chunkBytes (m_aChunkData : List Int) (DataSize : Int) : List UInt8 :=
  (m_aChunkData.take (DataSize.toNat / 4)).flatMap intBytes

section

-- the snapshot that is unpacked from the last one and a delta, `none` is an error
variable (UnpackDelta : List UInt8 → List Int → Int → Bool → Option (List UInt8))
-- whether a video is recorded
variable (video : Bool) (d : DemoFile)

def processDelta (p : CDemoPlayer) (DataSize : Int) : CDemoPlayer × Bool :=
  let p' := p.emit (.UnpackDelta p.m_aLastSnapshotData p.m_LastSnapshotDataSize p.accepted)
  match UnpackDelta p.m_aLastSnapshotData p.m_aChunkData DataSize d.m_Sixup with
  | none => (p', false)
  | some m_aSnapshot =>
      if ¬ IsValid m_aSnapshot then (p', false)
      else ((p'.emit (.OnDemoPlayerSnapshot m_aSnapshot)).keep m_aSnapshot, true)

def processSnapshot (p : CDemoPlayer) (DataSize : Int) : CDemoPlayer × Bool :=
  let pSnap := chunkBytes p.m_aChunkData DataSize
  if ¬ IsValid pSnap then (p, false)
  else ((p.keep pSnap).emit (.OnDemoPlayerSnapshot pSnap), true)

/-- If there were no snapshots in this tick, the last one is replayed. -/
def replayLast (p : CDemoPlayer) (GotSnapshot : Bool) : CDemoPlayer × Bool :=
  if ¬ GotSnapshot ∧ p.m_LastSnapshotDataSize ≠ -1 then
    (p.emit (.OnDemoPlayerSnapshot (p.m_aLastSnapshotData.take p.m_LastSnapshotDataSize.toNat)), true)
  else (p, GotSnapshot)

/-- The loop of `DoTick` at a position of the file. -/
def tickLoop (p : CDemoPlayer) (pos : Nat) (ChunkTick : Int) (GotSnapshot : Bool) : CDemoPlayer :=
  match _h : ReadChunkHeader d pos ChunkTick with
  | .EOF =>
      if p.m_PreviousTick = -1 then p.Stop
      else if video then CDemoPlayer.Stop { p with m_Paused := true }
      else { p with m_Paused := true, m_File := some pos }
  | .ERROR => p.Stop
  | .SUCCESS ChunkType ChunkSize ChunkTick pos' =>
      match readData d pos' ChunkSize p.m_aChunkData with
      | .error e => { p with fault := some e }
      | .ok none => p.Stop
      | .ok (some (DataSize, m_aChunkData)) =>
          let p := { p with m_aChunkData }
          if ChunkType = CHUNKTYPE_DELTA then
            let r := processDelta UnpackDelta d p DataSize
            tickLoop r.1 (pos' + ChunkSize) ChunkTick (GotSnapshot || r.2)
          else if ChunkType = CHUNKTYPE_SNAPSHOT then
            let r := processSnapshot p DataSize
            tickLoop r.1 (pos' + ChunkSize) ChunkTick (GotSnapshot || r.2)
          else
            let r := replayLast p GotSnapshot
            if ChunkType &&& CHUNKTYPEFLAG_TICKMARKER ≠ 0 then
              { r.1 with m_NextTick := ChunkTick, m_File := some (pos' + ChunkSize) }
            else if ChunkType = CHUNKTYPE_MESSAGE then
              tickLoop (r.1.emit (.OnDemoPlayerMessage (chunkBytes m_aChunkData DataSize)))
                (pos' + ChunkSize) ChunkTick r.2
            else tickLoop r.1 (pos' + ChunkSize) ChunkTick r.2
termination_by d.bytes.length - pos
decreasing_by
  all_goals
    have := ReadChunkHeader_pos _h
    omega

def DoTick (p : CDemoPlayer) : CDemoPlayer :=
  match p.m_File with
  | none => { p with fault := some .nullDeref }
  | some pos =>
      -- update ticks
      let p := { p with m_PreviousTick := p.m_CurrentTick, m_CurrentTick := p.m_NextTick }
      tickLoop UnpackDelta video d p pos p.m_CurrentTick false

/-- `DoTick` as long as a condition holds, at most `n` times. -/
def ticksWhile (cond : CDemoPlayer → Bool) : Nat → CDemoPlayer → CDemoPlayer
  | 0, p => p
  | n + 1, p =>
      if p.fault = none ∧ cond p then ticksWhile cond n (DoTick UnpackDelta video d p) else p

def initTime (p : CDemoPlayer) : CDemoPlayer :=
  { p with m_CurrentTime := p.m_PreviousTick * time_freq / SERVER_TICK_SPEED }

/-- The first tick is played whether or not there is a file, the others where there is one. -/
def Play (n : Nat) (p : CDemoPlayer) : CDemoPlayer :=
  if p.m_PreviousTick ≠ -1 then initTime p
  else
    let p :=
      ticksWhile UnpackDelta video d (fun p => p.m_PreviousTick = -1 ∧ p.IsPlaying) n
        (DoTick UnpackDelta video d p)
    if p.m_PreviousTick = -1 ∨ ¬ p.IsPlaying then p else initTime p

/-- The key frame that is sought, from a first guess on. -/
def seekForward (m_vKeyFrames : List CKeyFrame) (KeyFrameWantedTick : Int) : Nat → Nat → Nat
  | 0, KeyFrame => KeyFrame
  | n + 1, KeyFrame =>
      match m_vKeyFrames[KeyFrame]? with
      | none => KeyFrame
      | some k =>
          if KeyFrame + 1 < m_vKeyFrames.length ∧ k.m_Tick < KeyFrameWantedTick then
            seekForward m_vKeyFrames KeyFrameWantedTick n (KeyFrame + 1)
          else KeyFrame

def seekBackward (m_vKeyFrames : List CKeyFrame) (KeyFrameWantedTick : Int) : Nat → Nat
  | 0 => 0
  | KeyFrame + 1 =>
      match m_vKeyFrames[KeyFrame + 1]? with
      | none => KeyFrame + 1
      | some k =>
          if k.m_Tick > KeyFrameWantedTick then seekBackward m_vKeyFrames KeyFrameWantedTick KeyFrame
          else KeyFrame + 1

/-- `std::clamp` -/
def clamp (v lo hi : Int) : Int := if v < lo then lo else if hi < v then hi else v

/-- The first guess of the key frame is made in floating point and is an argument. -/
def SetPos (guess n : Nat) (WantedTick : Int) (p : CDemoPlayer) : CDemoPlayer :=
  if ¬ p.IsPlaying then p
  else
    let WantedTick := clamp WantedTick p.m_FirstTick p.m_LastTick
    let KeyFrameWantedTick := WantedTick - 5
    let KeyFrame := min guess (p.m_vKeyFrames.length - 1)
    let KeyFrame := seekForward p.m_vKeyFrames KeyFrameWantedTick p.m_vKeyFrames.length KeyFrame
    let KeyFrame := seekBackward p.m_vKeyFrames KeyFrameWantedTick KeyFrame
    match p.m_vKeyFrames[KeyFrame]? with
    | none => { p with fault := some .outOfBounds }
    | some k =>
        let p :=
          { p with
            m_File := some k.m_Filepos, m_NextTick := -1, m_CurrentTick := -1, m_PreviousTick := -1 }
        let p := ticksWhile UnpackDelta video d
          (fun p => p.m_NextTick < WantedTick ∧ p.IsPlaying) n p
        if p.fault = none then Play UnpackDelta video d n p else p

/-- `CurrentTime` is the time that has passed, which depends on the clock and on the speed. -/
def Update (RealTime : Bool) (CurrentTime : Int) (n : Nat) (p : CDemoPlayer) : CDemoPlayer :=
  if ¬ p.IsPlaying ∨ p.m_Paused then p
  else
    ticksWhile UnpackDelta video d
      (fun p => ¬ p.m_Paused ∧ p.IsPlaying ∧
        ¬ (RealTime ∧ p.m_CurrentTick * time_freq / SERVER_TICK_SPEED > p.m_CurrentTime)) n
      { p with m_CurrentTime := CurrentTime }

/-- The calls of a run. -/
inductive Call
  | DoTick
  | SetPos (WantedTick : Int) (guess n : Nat)
  | Update (RealTime : Bool) (CurrentTime : Int) (n : Nat)

/-- Nothing follows a fault. -/
def step (p : CDemoPlayer) : Call → CDemoPlayer
  | .DoTick => if p.fault = none then DoTick UnpackDelta video d p else p
  | .SetPos WantedTick guess n =>
      if p.fault = none then SetPos UnpackDelta video d guess n WantedTick p else p
  | .Update RealTime CurrentTime n =>
      if p.fault = none then Update UnpackDelta video d RealTime CurrentTime n p else p

end

end Fex.Engine.Demo
