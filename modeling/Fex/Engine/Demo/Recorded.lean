import Fex.Engine.Demo.Recorder

/-!
# Reading recorded demos

The chunks of a recorded file are read back one after the other, by `ScanFile` and by `DoTick`.
-/

namespace Fex.Engine.Demo

open Fex.Lib

variable {d : DemoFile} {pos : Nat}

/-- What is left of the file at a position. -/
def Rest (d : DemoFile) (pos : Nat) (bytes : List UInt8) : Prop :=
  pos ≤ d.bytes.length ∧ d.bytes.drop pos = bytes

theorem Rest.advance {a b : List UInt8} (h : Rest d pos (a ++ b)) : Rest d (pos + a.length) b := by
  constructor
  · have hlength := congrArg List.length h.2
    rw [List.length_drop, List.length_append] at hlength
    have hle := h.1
    omega
  · rw [← List.drop_drop, h.2, List.drop_left]

theorem Rest.head {b : UInt8} {l : List UInt8} (h : Rest d pos (b :: l)) :
    d.bytes[pos]? = some b := by
  rw [← List.head?_drop, h.2]
  rfl

theorem Rest.pos_eq {bytes : List UInt8} (h : Rest d pos bytes) :
    pos = d.bytes.length - bytes.length := by
  have hlength := congrArg List.length h.2
  rw [List.length_drop] at hlength
  have hle := h.1
  omega

/-! ## Headers -/

theorem toNat_markerFlags (Keyframe : Bool) :
    (UInt8.ofNat (markerFlags Keyframe)).toNat &&& CHUNKTYPEFLAG_TICKMARKER ≠ 0 ∧
      (UInt8.ofNat (markerFlags Keyframe)).toNat &&& CHUNKTICKFLAG_TICK_COMPRESSED = 0 ∧
      (UInt8.ofNat (markerFlags Keyframe)).toNat &&&
        (CHUNKTYPEFLAG_TICKMARKER ||| CHUNKTICKFLAG_KEYFRAME) = markerFlags Keyframe := by
  cases Keyframe <;> decide

theorem toNat_tickDelta : ∀ delta < 32,
    let Chunk := (UInt8.ofNat (CHUNKTYPEFLAG_TICKMARKER ||| CHUNKTICKFLAG_TICK_COMPRESSED |||
      delta)).toNat
    Chunk &&& CHUNKTYPEFLAG_TICKMARKER ≠ 0 ∧ Chunk &&& CHUNKTICKFLAG_TICK_COMPRESSED ≠ 0 ∧
      Chunk &&& CHUNKMASK_TICK = delta ∧
      Chunk &&& (CHUNKTYPEFLAG_TICKMARKER ||| CHUNKTICKFLAG_KEYFRAME) = markerFlags false := by
  decide

theorem toNat_chunkHeader : ∀ ChunkType < 4, ∀ Size < 32,
    let Chunk := (UInt8.ofNat ((ChunkType &&& 0x3) <<< 5 ||| Size)).toNat
    Chunk &&& CHUNKTYPEFLAG_TICKMARKER = 0 ∧ Chunk &&& CHUNKMASK_SIZE = Size ∧
      (Chunk &&& CHUNKMASK_TYPE) >>> 5 = ChunkType := by
  decide

/-- The four bytes of a tick. -/
theorem uint_to_bytes_be_value {Tick : Int} (hTick : 0 ≤ Tick ∧ Tick < MAX_TICK) :
    ∃ b₀ b₁ b₂ b₃, Ghost.uint_to_bytes_be Tick = [b₀, b₁, b₂, b₃] ∧
      wrap32 (16777216 * b₀.toNat + 65536 * b₁.toNat + 256 * b₂.toNat + b₃.toNat) = Tick := by
  have hmax : MAX_TICK = 1879048191 := rfl
  refine ⟨_, _, _, _, rfl, ?_⟩
  simp only [UInt8.toNat_ofNat']
  unfold wrap32
  omega

theorem readChunkHeader_marker {byte : UInt8} {last Tick : Int} {pos' : Nat}
    (hbyte : d.bytes[pos]? = some byte) (hmarker : byte.toNat &&& CHUNKTYPEFLAG_TICKMARKER ≠ 0)
    (hread : readTick d (pos + 1) byte.toNat last = some (Tick, pos'))
    (hTick : 0 ≤ Tick ∧ Tick < MAX_TICK) :
    ReadChunkHeader d pos last =
      .SUCCESS (byte.toNat &&& (CHUNKTYPEFLAG_TICKMARKER ||| CHUNKTICKFLAG_KEYFRAME)) 0 Tick
        pos' := by
  have hmin : MIN_TICK = 0 := rfl
  unfold ReadChunkHeader
  rw [hbyte]
  dsimp only
  rw [if_pos hmarker, hread]
  dsimp only
  rw [if_neg (by omega)]

/-- A marker is read behind the tick it was written behind. -/
theorem readChunkHeader_tick (hversion : gs_VersionTickCompression ≤ d.m_Version) {last Tick : Int}
    {Keyframe : Bool} {rest : List UInt8} (h : Rest d pos (tickMarker last Tick Keyframe ++ rest))
    (hTick : 0 ≤ Tick ∧ Tick < MAX_TICK) (hlast : last = -1 ∨ 0 ≤ last ∧ last < Tick) :
    ReadChunkHeader d pos last =
      .SUCCESS (markerFlags Keyframe) 0 Tick (pos + (tickMarker last Tick Keyframe).length) := by
  unfold tickMarker at h ⊢
  split at h
  next hfull =>
    rw [if_pos hfull]
    obtain ⟨b₀, b₁, b₂, b₃, hbytes, hvalue⟩ := uint_to_bytes_be_value hTick
    rw [hbytes] at h ⊢
    obtain ⟨hmarker, hcompressed, hflags⟩ := toNat_markerFlags Keyframe
    have hdrop : (d.bytes.drop (pos + 1)).take 4 = [b₀, b₁, b₂, b₃] := by
      rw [← List.drop_drop, h.2]
      rfl
    have hread : readTick d (pos + 1) (UInt8.ofNat (markerFlags Keyframe)).toNat last =
        some (Tick, pos + 1 + 4) := by
      unfold readTick
      rw [if_neg (by omega), if_neg (not_not_intro hcompressed), hdrop]
      exact congrArg some (Prod.ext hvalue rfl)
    rw [readChunkHeader_marker h.head hmarker hread hTick, hflags]
    rfl
  next hdelta =>
    rw [if_neg hdelta]
    obtain ⟨hfirst, hle, hkey⟩ := not_or.mp hdelta |>.imp_right not_or.mp
    obtain rfl := Bool.eq_false_iff.mpr hkey
    have hmask : (CHUNKMASK_TICK : Int) = 31 := rfl
    have hbyte : (Tick - last) % 256 = Tick - last := by omega
    rw [hbyte] at h ⊢
    obtain ⟨hmarker, hcompressed, hmasked, hflags⟩ :=
      toNat_tickDelta (Tick - last).toNat (by omega)
    have hread : readTick d (pos + 1) (UInt8.ofNat (CHUNKTYPEFLAG_TICKMARKER |||
        CHUNKTICKFLAG_TICK_COMPRESSED ||| (Tick - last).toNat)).toNat last =
        some (Tick, pos + 1) := by
      unfold readTick
      rw [if_neg (by omega), if_pos hcompressed, if_neg (by omega), hmasked]
      exact congrArg some (Prod.ext (by omega) rfl)
    rw [readChunkHeader_marker h.head hmarker hread hTick, hflags]
    rfl

theorem readChunkHeader_size {byte : UInt8} {ChunkSize pos' : Nat} {Tick : Int}
    (hbyte : d.bytes[pos]? = some byte) (hdata : byte.toNat &&& CHUNKTYPEFLAG_TICKMARKER = 0)
    (hread : readSize d (pos + 1) (byte.toNat &&& CHUNKMASK_SIZE) = some (ChunkSize, pos')) :
    ReadChunkHeader d pos Tick =
      .SUCCESS ((byte.toNat &&& CHUNKMASK_TYPE) >>> 5) ChunkSize Tick pos' := by
  unfold ReadChunkHeader
  rw [hbyte]
  dsimp only
  rw [if_neg (not_not_intro hdata), hread]

theorem readChunkHeader_data {ChunkType ChunkSize : Nat} {Tick : Int} {rest : List UInt8}
    (h : Rest d pos (chunkHeader ChunkType ChunkSize ++ rest)) (hType : ChunkType < 4)
    (hSize : ChunkSize < 65536) :
    ReadChunkHeader d pos Tick =
      .SUCCESS ChunkType ChunkSize Tick (pos + (chunkHeader ChunkType ChunkSize).length) := by
  have hlow : ChunkSize &&& 0xff = ChunkSize % 256 := Nat.and_two_pow_sub_one_eq_mod ChunkSize 8
  have hhigh : ChunkSize >>> 8 = ChunkSize / 256 := Nat.shiftRight_eq_div_pow ChunkSize 8
  unfold chunkHeader at h ⊢
  dsimp only at h ⊢
  split at h
  next hsmall =>
    rw [if_pos hsmall]
    obtain ⟨hdata, hsize, htype⟩ := toNat_chunkHeader ChunkType hType ChunkSize (by omega)
    rw [readChunkHeader_size h.head hdata (by
      rw [hsize, readSize, if_neg (by omega), if_neg (by omega)]), htype]
    rfl
  next hsmall =>
    rw [if_neg hsmall]
    split at h
    next hbyte =>
      rw [if_pos hbyte, hlow] at *
      obtain ⟨hdata, hsize, htype⟩ := toNat_chunkHeader ChunkType hType 30 (by decide)
      have hdrop : (d.bytes.drop (pos + 1)).take 1 = [UInt8.ofNat (ChunkSize % 256)] := by
        rw [← List.drop_drop, h.2]
        rfl
      rw [readChunkHeader_size h.head hdata (by
        rw [hsize, readSize, if_pos rfl, hdrop]), htype, UInt8.toNat_ofNat']
      congr 1
      omega
    next hbyte =>
      rw [if_neg hbyte, hlow, hhigh] at *
      obtain ⟨hdata, hsize, htype⟩ := toNat_chunkHeader ChunkType hType 31 (by decide)
      have hdrop : (d.bytes.drop (pos + 1)).take 2 =
          [UInt8.ofNat (ChunkSize % 256), UInt8.ofNat (ChunkSize / 256)] := by
        rw [← List.drop_drop, h.2]
        rfl
      rw [readChunkHeader_size h.head hdata (by
        rw [hsize, readSize, if_neg (by decide), if_pos rfl, hdrop]), htype]
      simp only [UInt8.toNat_ofNat']
      congr 1
      omega

/-! ## Data -/

/-- The integers are written at the front, the rest of the buffer stays. -/
theorem decompressLoop_decodes {src s : List UInt8} {content pre post : List Int} {pSrc n : Nat}
    (h : Compression.Decodes s content) (hdrop : src.drop pSrc = s) (hn : n ≤ post.length)
    (hfits : content.length ≤ n) :
    Compression.decompressLoop src (pre.length + n) (pre ++ post) pSrc pre.length =
      .ok (4 * ((pre.length + content.length : Nat) : Int),
        pre ++ (content ++ post.drop content.length)) := by
  induction h generalizing pre post pSrc n with
  | nil =>
      have hend : src.length ≤ pSrc := List.drop_eq_nil_iff.mp hdrop
      rw [Compression.decompressLoop, if_neg (by omega)]
      rfl
  | @cons bytes rest i content hunpack hrest ih =>
      cases bytes with
      | nil => cases hunpack
      | cons byte tail =>
          have hlength := congrArg List.length hdrop
          rw [List.length_drop, List.length_cons] at hlength
          rw [List.length_cons] at hfits
          cases post with
          | nil => exact absurd (hfits.trans hn) (Nat.not_succ_le_zero _)
          | cons v post =>
              obtain ⟨p, hrun, hp, -, -⟩ := (Compression.Unpack_spec v hdrop).1 i rest hunpack
              have hloop := @ih (pre ++ [i]) post p (n - 1) hp (by
                rw [List.length_cons] at hn
                omega) (by omega)
              rw [List.length_append, List.length_singleton, List.append_assoc,
                List.append_assoc] at hloop
              rw [Compression.decompressLoop, if_pos (by omega), if_neg (by omega),
                load_append, hlength]
              show (Compression.Unpack src pSrc v (tail.length + 1) >>= _) = _
              rw [hrun]
              show (store (pre ++ v :: post) pre.length i >>= _) = _
              rw [store_append, List.length_cons]
              have hend : pre.length + 1 + (n - 1) = pre.length + n := by omega
              rw [hend] at hloop
              refine hloop.trans ?_
              rw [Nat.add_right_comm, Nat.add_assoc]
              rfl

/-- Compressing succeeds where the encodings fit the first buffer and their words the second. -/
theorem compressed_eq {content : List Int} (hcontent : ∀ i ∈ content, IsInt32 i) :
    compressed content =
      if (Compression.packedAll content).length ≤ 64 * 1024 then
        Network.ms_Huffman.Compress (Compression.packedAll content) (64 * 1024 : Nat)
      else none := by
  have hsize : 64 * 1024 = ([] : List UInt8).length + (List.replicate (64 * 1024) (0 : UInt8)).length :=
    by rw [List.length_replicate, List.length_nil]
  obtain ⟨rest, hrun, -, hcopied⟩ := @Compression.compressLoop_spec []
    (List.replicate (64 * 1024) 0) content (64 * 1024) hcontent hsize
  rw [List.length_replicate] at hrun hcopied
  rw [List.length_nil, Nat.zero_add, List.nil_append, List.nil_append] at hrun
  unfold compressed Compression.Compress
  rw [hrun]
  dsimp only
  by_cases hfits : (Compression.packedAll content).length ≤ 64 * 1024
  · rw [if_pos hfits, if_neg (by omega), if_pos hfits, Int.toNat_natCast,
      ← List.prefix_iff_eq_take.mp (hcopied hfits)]
  · rw [if_neg hfits, if_pos (by decide), if_neg hfits]

/-- What is compressed is not empty and is decompressed to the encodings. -/
theorem decompress_compressed {content : List Int} (hcontent : ∀ i ∈ content, IsInt32 i)
    {body : List UInt8} (hbody : compressed content = some body) :
    body ≠ [] ∧
      Network.ms_Huffman.Decompress body Snapshot.MAX_SIZE = .ok (Compression.packedAll content) := by
  rw [compressed_eq hcontent] at hbody
  split at hbody
  next hfits =>
    obtain ⟨t, hc, hdepth⟩ := Huffman.codes_default
    obtain ⟨⟨k, hbits⟩, -⟩ := Huffman.compress_spec hc hdepth hbody
    refine ⟨?_, Huffman.decompress_compress hc hdepth hbody hfits⟩
    rintro rfl
    have hnil := (List.append_eq_nil_iff.mp hbits.symm).1
    exact hc.code_ne_nil (by decide) (List.append_eq_nil_iff.mp hnil).2
  · cases hbody

/-- Every byte has a word of three bytes at most. -/
theorem length_codes_le {h : Huffman.CHuffman} {t : PrefixTree Nat} (hc : Huffman.Codes h t)
    (hdepth : t.depth ≤ 24) (x : List UInt8) : (Huffman.codes h x).length ≤ 24 * x.length := by
  induction x with
  | nil => exact Nat.le_refl _
  | cons b x ih =>
      have hword := (hc.word_code (Huffman.byte_lt_max b)).length_le_depth
      unfold Huffman.codes at ih ⊢
      rw [List.flatMap_cons, List.length_append, List.length_cons]
      omega

theorem length_compress_le {x out : List UInt8} {OutputSize : Int}
    (hrun : Network.ms_Huffman.Compress x OutputSize = some out) :
    out.length ≤ 3 * x.length + 4 := by
  obtain ⟨t, hc, hdepth⟩ := Huffman.codes_default
  have hcodes := length_codes_le hc hdepth x
  have heof := (hc.word_code (s := Huffman.HUFFMAN_EOF_SYMBOL) (by decide)).length_le_depth
  unfold Huffman.CHuffman.Compress at hrun
  simp only [Option.bind_eq_bind, Option.bind_eq_some_iff] at hrun
  obtain ⟨e, he, e', he', hout⟩ := hrun
  obtain ⟨reg, hreg, hlt⟩ := Huffman.compressInput_spec hc hdepth he
  obtain ⟨reg', hreg', -⟩ := Huffman.writeSymbol_spec hc hdepth hreg hlt (by decide) he'
  have hlength := congrArg List.length hreg'.stored
  simp only [List.length_append, BitStream.length_bits] at hlength
  rw [← Option.some.inj hout, List.length_append, List.length_singleton]
  omega

/-- Short encodings are compressed to a size of 16 bits. -/
theorem short_of_packedAll {pData : List UInt8}
    (hpacked : (Compression.packedAll (ints (padded pData))).length ≤ 20000) :
    CDemoRecorder.Short pData := by
  intro body hbody
  rw [compressed_eq fun i hi => isInt32_of_mem_ints hi, if_pos (by omega)] at hbody
  have hlength := length_compress_le hbody
  omega

/-- The chunk is read to the front of the buffer. -/
theorem readData_data {content : List Int} {ChunkType : Nat}
    (hstored : Stored ChunkType content) {body rest : List UInt8}
    (hbody : compressed content = some body) (h : Rest d pos (body ++ rest))
    {m_aChunkData : List Int} (hsize : m_aChunkData.length = Snapshot.MAX_SIZE / 4) :
    readData d pos body.length m_aChunkData =
      .ok (some (4 * (content.length : Int),
        content ++ m_aChunkData.drop content.length)) := by
  obtain ⟨-, hcontent, hfits, -⟩ := hstored
  obtain ⟨hne, hdecompress⟩ := decompress_compressed hcontent hbody
  have htake : (d.bytes.drop pos).take body.length = body := by
    rw [h.2, List.take_left]
  have hquarter : Snapshot.MAX_SIZE / 4 * 4 = Snapshot.MAX_SIZE := by decide
  have hloop := @decompressLoop_decodes (Compression.packedAll content) _ content [] m_aChunkData 0
    (Snapshot.MAX_SIZE / 4) (Compression.decodes_packedAll hcontent) rfl (Nat.le_of_eq hsize.symm)
    (by omega)
  rw [List.length_nil, Nat.zero_add, Nat.zero_add, List.nil_append, List.nil_append] at hloop
  unfold readData Compression.Decompress
  rw [if_neg (by rwa [List.length_eq_zero_iff])]
  dsimp only
  rw [htake, if_neg (not_not_intro rfl), hdecompress]
  dsimp only
  rw [if_neg (by decide), hloop]
  dsimp only [bind, Except.bind]
  rw [if_neg (by omega)]
  rfl

end Fex.Engine.Demo
