import Fex.Engine.Demo.KeyFrames
import Fex.Engine.Ghost
import Fex.Engine.Huffman.Codec
import Fex.Lib.Run

/-!
# Recording demos

Model of `CDemoRecorder`.  A recorded file is read back as the chunks that were written.
-/

namespace Fex.Engine.Demo

open Fex.Lib

/-! ## The recorder -/

/-- A tick marker, or a chunk of integers with its type. -/
inductive Chunk
  | tick (Tick : Int) (Keyframe : Bool)
  | data (ChunkType : Nat) (content : List Int)

/-- `m_File` is what was written behind the map, `chunks` the record of it. -/
structure CDemoRecorder where
  m_File : List UInt8
  m_LastTickMarker : Int
  m_LastKeyFrame : Int
  m_aLastSnapshotData : List UInt8
  chunks : List Chunk

/-- The flags of a marker. -/
def markerFlags (Keyframe : Bool) : Nat :=
  CHUNKTYPEFLAG_TICKMARKER ||| if Keyframe then CHUNKTICKFLAG_KEYFRAME else 0

/-- The marker of a tick behind the last one. -/
def tickMarker (m_LastTickMarker Tick : Int) (Keyframe : Bool) : List UInt8 :=
  if m_LastTickMarker = -1 ∨ Tick - m_LastTickMarker > CHUNKMASK_TICK ∨ Keyframe then
    UInt8.ofNat (markerFlags Keyframe) :: Ghost.uint_to_bytes_be Tick
  else
    [UInt8.ofNat (CHUNKTYPEFLAG_TICKMARKER ||| CHUNKTICKFLAG_TICK_COMPRESSED |||
      ((Tick - m_LastTickMarker) % 256).toNat)]

/-- Zeros for an alignment of 4. -/
def padded (pData : List UInt8) : List UInt8 :=
  pData ++ List.replicate ((4 - pData.length % 4) % 4) 0

/-- The two compressions of `Write`. -/
def compressed (content : List Int) : Option (List UInt8) :=
  match Compression.Compress content (List.replicate (64 * 1024) 0) (64 * 1024) with
  | .error _ => none
  | .ok (Size, aBuffer) =>
      if Size < 0 then none
      else Network.ms_Huffman.Compress (aBuffer.take Size.toNat) (64 * 1024 : Nat)

def chunkHeader (ChunkType Size : Nat) : List UInt8 :=
  let aChunk := (ChunkType &&& 0x3) <<< 5
  if Size < 30 then [UInt8.ofNat (aChunk ||| Size)]
  else if Size < 256 then [UInt8.ofNat (aChunk ||| 30), UInt8.ofNat (Size &&& 0xff)]
  else [UInt8.ofNat (aChunk ||| 31), UInt8.ofNat (Size &&& 0xff), UInt8.ofNat (Size >>> 8)]

namespace CDemoRecorder

/-- `Start` once the header and the map are written. -/
def Start (m_aLastSnapshotData : List UInt8) : CDemoRecorder where
  m_File := []
  m_LastTickMarker := -1
  m_LastKeyFrame := -1
  m_aLastSnapshotData := m_aLastSnapshotData
  chunks := []

def WriteTickMarker (r : CDemoRecorder) (Tick : Int) (Keyframe : Bool) : CDemoRecorder :=
  { r with
    m_File := r.m_File ++ tickMarker r.m_LastTickMarker Tick Keyframe
    m_LastTickMarker := Tick
    chunks := r.chunks ++ [.tick Tick Keyframe] }

def Write (r : CDemoRecorder) (ChunkType : Nat) (pData : List UInt8) : CDemoRecorder :=
  if pData.length > 64 * 1024 then r
  else
    match compressed (ints (padded pData)) with
    | none => r
    | some aBuffer2 =>
        { r with
          m_File := r.m_File ++ (chunkHeader ChunkType aBuffer2.length ++ aBuffer2)
          chunks := r.chunks ++ [.data ChunkType (ints (padded pData))] }

/-- The buffer of the last snapshot. -/
def keep (r : CDemoRecorder) (pData : List UInt8) : CDemoRecorder :=
  { r with m_aLastSnapshotData := pData ++ r.m_aLastSnapshotData.drop pData.length }

-- the delta of a snapshot to the last one, empty where nothing changed
variable (CreateDelta : List UInt8 → List UInt8 → List UInt8)
-- the messages that are not recorded
variable (m_pfnFilter : List UInt8 → Bool)

def RecordSnapshot (r : CDemoRecorder) (Tick : Int) (pData : List UInt8) : CDemoRecorder :=
  if r.m_LastKeyFrame = -1 ∨ Tick - r.m_LastKeyFrame > SERVER_TICK_SPEED * 5 then
    let r := (r.WriteTickMarker Tick true).Write CHUNKTYPE_SNAPSHOT pData
    { r with m_LastKeyFrame := Tick }.keep pData
  else
    let r := r.WriteTickMarker Tick false
    let aDeltaData := CreateDelta r.m_aLastSnapshotData pData
    if aDeltaData = [] then r else (r.Write CHUNKTYPE_DELTA aDeltaData).keep pData

def RecordMessage (r : CDemoRecorder) (pData : List UInt8) : CDemoRecorder :=
  if m_pfnFilter pData then r else r.Write CHUNKTYPE_MESSAGE pData

/-- The calls of a recording. -/
inductive Call
  | RecordSnapshot (Tick : Int) (pData : List UInt8)
  | RecordMessage (pData : List UInt8)

def step (r : CDemoRecorder) : Call → CDemoRecorder
  | .RecordSnapshot Tick pData => r.RecordSnapshot CreateDelta Tick pData
  | .RecordMessage pData => r.RecordMessage m_pfnFilter pData

end CDemoRecorder

/-! ## What is written -/

/-- The bytes of chunks behind a tick. -/
def encode (last : Int) : List Chunk → List UInt8
  | [] => []
  | .tick Tick Keyframe :: cs => tickMarker last Tick Keyframe ++ encode Tick cs
  | .data ChunkType content :: cs =>
      chunkHeader ChunkType ((compressed content).getD []).length ++ (compressed content).getD [] ++
        encode last cs

/-- The last tick. -/
def lastTick (last : Int) : List Chunk → Int
  | [] => last
  | .tick Tick _ :: cs => lastTick Tick cs
  | .data _ _ :: cs => lastTick last cs

/-- The ticks of the markers. -/
def markers (cs : List Chunk) : List Int :=
  cs.filterMap fun
    | .tick Tick _ => some Tick
    | .data _ _ => none

/-- Integers that were compressed to a size of 16 bits. -/
structure Stored (ChunkType : Nat) (content : List Int) : Prop where
  type : ChunkType < 4
  ints : ∀ i ∈ content, IsInt32 i
  length : 4 * content.length ≤ Snapshot.MAX_SIZE
  size : ∃ aBuffer2, compressed content = some aBuffer2 ∧ aBuffer2.length < 65536

/-- The chunks are stored and their ticks increase. -/
def Ordered (last : Int) : List Chunk → Prop
  | [] => True
  | .tick Tick _ :: cs =>
      (0 ≤ Tick ∧ Tick < MAX_TICK) ∧ (last = -1 ∨ 0 ≤ last ∧ last < Tick) ∧ Ordered Tick cs
  | .data ChunkType content :: cs => Stored ChunkType content ∧ Ordered last cs

theorem encode_append (last : Int) (cs cs' : List Chunk) :
    encode last (cs ++ cs') = encode last cs ++ encode (lastTick last cs) cs' := by
  induction cs generalizing last with
  | nil => rfl
  | cons c cs ih =>
      cases c with
      | tick Tick Keyframe =>
          rw [List.cons_append, encode, ih, encode, lastTick, List.append_assoc]
      | data ChunkType content =>
          rw [List.cons_append, encode, ih, encode, lastTick, List.append_assoc _ (encode last cs)]

theorem lastTick_append (last : Int) (cs cs' : List Chunk) :
    lastTick last (cs ++ cs') = lastTick (lastTick last cs) cs' := by
  induction cs generalizing last with
  | nil => rfl
  | cons c cs ih =>
      cases c with
      | tick Tick Keyframe => exact ih Tick
      | data ChunkType content => exact ih last

theorem Ordered.append {last : Int} {cs cs' : List Chunk} (h : Ordered last cs)
    (h' : Ordered (lastTick last cs) cs') : Ordered last (cs ++ cs') := by
  induction cs generalizing last with
  | nil => exact h'
  | cons c cs ih =>
      cases c with
      | tick Tick Keyframe => exact ⟨h.1, h.2.1, ih h.2.2 h'⟩
      | data ChunkType content => exact ⟨h.1, ih h.2 h'⟩

namespace CDemoRecorder

variable {CreateDelta : List UInt8 → List UInt8 → List UInt8} {m_pfnFilter : List UInt8 → Bool}
  {r : CDemoRecorder}

/-- The compressed data of a chunk has a size of 16 bits. -/
def Short (pData : List UInt8) : Prop :=
  ∀ aBuffer2, compressed (ints (padded pData)) = some aBuffer2 → aBuffer2.length < 65536

/-- The tick of a snapshot is behind the last one, and what is written is short. -/
def Allowed (CreateDelta : List UInt8 → List UInt8 → List UInt8) (r : CDemoRecorder) : Call → Prop
  | .RecordSnapshot Tick pData =>
      r.m_LastTickMarker < Tick ∧ Tick < MAX_TICK ∧ Short pData ∧
        Short (CreateDelta r.m_aLastSnapshotData pData)
  | .RecordMessage pData => Short pData

/-- The file is what the chunks say, the last tick included. -/
structure Recorded (r : CDemoRecorder) : Prop where
  file : r.m_File = encode (-1) r.chunks
  last : r.m_LastTickMarker = lastTick (-1) r.chunks
  bound : -1 ≤ r.m_LastTickMarker
  ordered : Ordered (-1) r.chunks

theorem recorded_start (m_aLastSnapshotData : List UInt8) :
    (Start m_aLastSnapshotData).Recorded where
  file := rfl
  last := rfl
  bound := Int.le_refl _
  ordered := trivial

theorem Recorded.writeTickMarker (h : r.Recorded) {Tick : Int}
    (hTick : r.m_LastTickMarker < Tick ∧ Tick < MAX_TICK) (Keyframe : Bool) :
    (r.WriteTickMarker Tick Keyframe).Recorded where
  file := by
    show r.m_File ++ _ = encode (-1) (r.chunks ++ _)
    rw [encode_append, h.file, h.last, encode, encode, List.append_nil]
  last := by
    show Tick = lastTick (-1) (r.chunks ++ _)
    rw [lastTick_append]
    rfl
  bound := h.bound.trans (Int.le_of_lt hTick.1)
  ordered := by
    have hbound := h.bound
    refine h.ordered.append ⟨⟨by omega, hTick.2⟩, ?_, trivial⟩
    rw [← h.last]
    omega

theorem Recorded.write (h : r.Recorded) {ChunkType : Nat} (hType : ChunkType < 4)
    {pData : List UInt8} (hshort : Short pData) : (r.Write ChunkType pData).Recorded := by
  unfold Write
  split
  · exact h
  next hsize =>
    split
    · exact h
    next aBuffer2 hbuffer =>
      have hlength : 4 * (ints (padded pData)).length ≤ Snapshot.MAX_SIZE := by
        have hmax : Snapshot.MAX_SIZE = 65536 := by decide
        rw [length_ints, padded, List.length_append, List.length_replicate]
        omega
      refine ⟨?_, ?_, h.bound, h.ordered.append ⟨⟨hType, fun i hi => isInt32_of_mem_ints hi, hlength,
        aBuffer2, hbuffer, hshort aBuffer2 hbuffer⟩, trivial⟩⟩
      · show r.m_File ++ _ = encode (-1) (r.chunks ++ _)
        rw [encode_append, h.file, encode, encode, hbuffer, List.append_nil, Option.getD_some]
      · show r.m_LastTickMarker = lastTick (-1) (r.chunks ++ _)
        rw [lastTick_append]
        exact h.last

theorem Recorded.step (h : r.Recorded) {c : Call} (hc : r.Allowed CreateDelta c) :
    (r.step CreateDelta m_pfnFilter c).Recorded := by
  cases c with
  | RecordSnapshot Tick pData =>
      obtain ⟨hlt, hmax, hshort, hdelta⟩ := hc
      show (r.RecordSnapshot CreateDelta Tick pData).Recorded
      unfold RecordSnapshot
      split
      · obtain ⟨hfile, hlast, hbound, hordered⟩ := (h.writeTickMarker ⟨hlt, hmax⟩ true).write
          (show CHUNKTYPE_SNAPSHOT < 4 by decide) hshort
        exact ⟨hfile, hlast, hbound, hordered⟩
      · dsimp only
        split
        · exact h.writeTickMarker ⟨hlt, hmax⟩ false
        · obtain ⟨hfile, hlast, hbound, hordered⟩ := (h.writeTickMarker ⟨hlt, hmax⟩ false).write
            (show CHUNKTYPE_DELTA < 4 by decide) hdelta
          exact ⟨hfile, hlast, hbound, hordered⟩
  | RecordMessage pData =>
      show (r.RecordMessage m_pfnFilter pData).Recorded
      unfold RecordMessage
      split
      · exact h
      · exact h.write (by decide) hc

/-- In every run of the recorder. -/
theorem recorded_of_reachable {m_aLastSnapshotData : List UInt8}
    (h : Reachable (fun r c => .ok (r.step CreateDelta m_pfnFilter c)) (Allowed CreateDelta)
      (Start m_aLastSnapshotData) r) : r.Recorded := by
  refine h.invariant (recorded_start m_aLastSnapshotData) fun r r' c hr hc hstep => ?_
  cases hstep
  exact hr.step hc

end CDemoRecorder

end Fex.Engine.Demo
