import Fex.Engine.Huffman.Tree

/-!
# Compression and decompression

The compressor stores the words of its input and of the end symbol, padded with
zeros to whole bytes.  The decompressor keeps the unread part of that stream
split between its register and its input, and reads one word a round.
-/

namespace Fex.Engine.Huffman

open Fex.Lib Fex.Lib.BitStream Fex.Lib.PrefixTree

/-- The word of a symbol. -/
def code (h : CHuffman) (s : Nat) : List Bool :=
  digits (h.m_aNodes s).m_NumBits (h.m_aNodes s).m_Bits

/-- The words of some bytes. -/
def codes (h : CHuffman) (x : List UInt8) : List Bool := x.flatMap fun b => code h b.toNat

theorem Codes.word_code {h : CHuffman} {t : PrefixTree Nat} (hc : Codes h t) {s : Nat}
    (hs : s < HUFFMAN_MAX_SYMBOLS) : Word t (code h s) s := by
  obtain ⟨p, hp⟩ := exists_word (hc.complete s hs)
  obtain ⟨hbits, hnum⟩ := hc.word s p hp
  unfold code
  rw [hbits, hnum, digits_value]
  exact hp

theorem Codes.bits_code {h : CHuffman} {t : PrefixTree Nat} (hc : Codes h t) {s : Nat}
    (hs : s < HUFFMAN_MAX_SYMBOLS) : (h.m_aNodes s).m_Bits = value (code h s) :=
  (hc.word s _ (hc.word_code hs)).1

theorem Codes.numBits_code {h : CHuffman} {t : PrefixTree Nat} (hc : Codes h t) {s : Nat}
    (hs : s < HUFFMAN_MAX_SYMBOLS) : (h.m_aNodes s).m_NumBits = (code h s).length :=
  (hc.word s _ (hc.word_code hs)).2

theorem Codes.code_ne_nil {h : CHuffman} {t : PrefixTree Nat} (hc : Codes h t) {s : Nat}
    (hs : s < HUFFMAN_MAX_SYMBOLS) : code h s ≠ [] := by
  intro hnil
  have hword := hc.word_code hs
  obtain ⟨l, r, rfl⟩ := hc.inner
  rw [hnil] at hword
  cases hword

theorem byte_lt_max (b : UInt8) : b.toNat < HUFFMAN_MAX_SYMBOLS :=
  Nat.lt_trans b.toNat_lt (by decide)

/-! ## The encoder -/

/-- The encoder has stored all of `stream` but `reg`, which waits in its register. -/
structure Encodes (OutputSize : Int) (e : Encoder) (reg stream : List Bool) : Prop where
  value : e.Bits = value reg
  count : e.Bitcount = reg.length
  stored : bits e.pDst ++ reg = stream
  room : 1 ≤ OutputSize → (e.pDst.length : Int) < OutputSize

/-- One round of the write loop. -/
theorem Encodes.writeByte {OutputSize : Int} {e : Encoder} {reg stream : List Bool}
    (he : Encodes OutputSize e reg stream) (hfull : 8 ≤ e.Bitcount)
    (hroom : (e.pDst ++ [UInt8.ofNat (e.Bits &&& 0xff)]).length ≠ OutputSize) :
    Encodes OutputSize
      { Bits := e.Bits >>> 8, Bitcount := e.Bitcount - 8
        pDst := e.pDst ++ [UInt8.ofNat (e.Bits &&& 0xff)] } (reg.drop 8) stream := by
  rw [he.count] at hfull
  have htake : (reg.take 8).length = 8 := by
    rw [List.length_take]
    omega
  have hlow : e.Bits &&& 0xff = BitStream.value (reg.take 8) := by
    have := value_append_mod (reg.take 8) (reg.drop 8)
    rw [List.take_append_drop, htake, ← he.value] at this
    rw [← this]
    exact Nat.and_two_pow_sub_one_eq_mod e.Bits 8
  have hhigh : e.Bits >>> 8 = BitStream.value (reg.drop 8) := by
    have := value_append_shift (reg.take 8) (reg.drop 8)
    rwa [List.take_append_drop, htake, ← he.value] at this
  refine ⟨hhigh, ?_, ?_, ?_⟩
  · simp only [List.length_drop, he.count]
  · rw [← he.stored, hlow, bits_append, bits_cons, bits_nil, byteBits_ofNat htake,
      List.append_nil, List.append_assoc, List.take_append_drop]
  · intro hpos
    have := he.room hpos
    simp only [List.length_append, List.length_singleton] at hroom ⊢
    omega

theorem writeBytes_spec {OutputSize : Int} {n : Nat} {e e' : Encoder} {reg stream : List Bool}
    (he : Encodes OutputSize e reg stream) (hn : reg.length ≤ n)
    (hrun : WriteBytes OutputSize n e = some e') :
    ∃ reg', Encodes OutputSize e' reg' stream ∧ reg'.length < 8 := by
  induction n generalizing e reg with
  | zero =>
      cases hrun
      exact ⟨reg, he, by omega⟩
  | succ n ih =>
      unfold WriteBytes at hrun
      by_cases hfull : 8 ≤ e.Bitcount
      · rw [if_pos hfull] at hrun
        simp only at hrun
        split at hrun
        · cases hrun
        · rename_i hroom
          exact ih (he.writeByte hfull hroom) (by rw [List.length_drop]; omega) hrun
      · rw [if_neg hfull] at hrun
        cases hrun
        exact ⟨reg, he, by rw [← he.count]; omega⟩

section Compress

variable {h : CHuffman} {t : PrefixTree Nat} {OutputSize : Int}

theorem loadSymbol_spec (hc : Codes h t) (hdepth : t.depth ≤ 24) {e : Encoder}
    {reg stream : List Bool} {s : Nat} (he : Encodes OutputSize e reg stream)
    (hreg : reg.length < 8) (hs : s < HUFFMAN_MAX_SYMBOLS) :
    Encodes OutputSize (LoadSymbol h s e) (reg ++ code h s) (stream ++ code h s) := by
  have hlen := (hc.word_code hs).length_le_depth
  refine ⟨?_, ?_, ?_, he.room⟩
  · have hlt : value (reg ++ code h s) < 2 ^ 32 := by
      refine Nat.lt_of_lt_of_le (value_lt _) (Nat.pow_le_pow_right (by decide) ?_)
      rw [List.length_append]
      omega
    simp only [LoadSymbol]
    rw [he.value, he.count, hc.bits_code hs, value_or_shift, Nat.mod_eq_of_lt hlt]
  · simp only [LoadSymbol]
    rw [he.count, hc.numBits_code hs, List.length_append]
  · simp only [LoadSymbol]
    rw [← he.stored, List.append_assoc]

theorem writeSymbol_spec (hc : Codes h t) (hdepth : t.depth ≤ 24) {e e' : Encoder}
    {reg stream : List Bool} {s : Nat} (he : Encodes OutputSize e reg stream)
    (hreg : reg.length < 8) (hs : s < HUFFMAN_MAX_SYMBOLS)
    (hrun : Write OutputSize (LoadSymbol h s e) = some e') :
    ∃ reg', Encodes OutputSize e' reg' (stream ++ code h s) ∧ reg'.length < 8 := by
  have hload := loadSymbol_spec hc hdepth he hreg hs
  exact writeBytes_spec hload (Nat.le_of_eq hload.count.symm) hrun

theorem compressSymbols_spec (hc : Codes h t) (hdepth : t.depth ≤ 24) {pSrc : List UInt8}
    {e e' : Encoder} {reg stream : List Bool} {s : Nat} (he : Encodes OutputSize e reg stream)
    (hreg : reg.length < 8) (hs : s < HUFFMAN_MAX_SYMBOLS)
    (hrun : CompressSymbols h OutputSize s pSrc e = some e') :
    ∃ reg', Encodes OutputSize e' reg' (stream ++ code h s ++ codes h pSrc) ∧
      reg'.length < 8 := by
  induction pSrc generalizing s e reg stream with
  | nil =>
      obtain ⟨reg', he', hreg'⟩ := writeSymbol_spec hc hdepth he hreg hs hrun
      exact ⟨reg', by simpa [codes] using he', hreg'⟩
  | cons b pSrc ih =>
      cases hwrite : Write OutputSize (LoadSymbol h s e) with
      | none =>
          simp only [CompressSymbols, hwrite] at hrun
          cases hrun
      | some e₁ =>
          simp only [CompressSymbols, hwrite] at hrun
          obtain ⟨reg₁, he₁, hreg₁⟩ := writeSymbol_spec hc hdepth he hreg hs hwrite
          obtain ⟨reg', he', hreg'⟩ := ih he₁ hreg₁ (byte_lt_max b) hrun
          exact ⟨reg', by simpa [codes] using he', hreg'⟩

theorem encodes_start (OutputSize : Int) :
    Encodes OutputSize { Bits := 0, Bitcount := 0, pDst := [] } [] [] :=
  ⟨rfl, rfl, rfl, fun hpos => Int.lt_of_lt_of_le Int.zero_lt_one hpos⟩

theorem compressInput_spec (hc : Codes h t) (hdepth : t.depth ≤ 24) {x : List UInt8}
    {e : Encoder} (hrun : CompressInput h OutputSize x = some e) :
    ∃ reg, Encodes OutputSize e reg (codes h x) ∧ reg.length < 8 := by
  cases x with
  | nil =>
      cases hrun
      exact ⟨[], encodes_start OutputSize, by decide⟩
  | cons b pSrc =>
      obtain ⟨reg, hreg, hlt⟩ :=
        compressSymbols_spec hc hdepth (encodes_start OutputSize) (by decide) (byte_lt_max b) hrun
      exact ⟨reg, by simpa [codes] using hreg, hlt⟩

/-- The bytes of a successful `Compress` are the words of the input and of the end symbol,
padded with zeros, and they fit the output buffer. -/
theorem compress_spec (hc : Codes h t) (hdepth : t.depth ≤ 24) {x out : List UInt8}
    (hrun : h.Compress x OutputSize = some out) :
    (∃ k, bits out = codes h x ++ code h HUFFMAN_EOF_SYMBOL ++ List.replicate k false) ∧
      (1 ≤ OutputSize → (out.length : Int) ≤ OutputSize) := by
  unfold CHuffman.Compress at hrun
  simp only [Option.bind_eq_bind, Option.bind_eq_some_iff] at hrun
  obtain ⟨e, he, e', he', hout⟩ := hrun
  obtain ⟨reg, hreg, hlt⟩ := compressInput_spec hc hdepth he
  obtain ⟨reg', hreg', hlt'⟩ := writeSymbol_spec hc hdepth hreg hlt (by decide) he'
  obtain rfl := Option.some.inj hout
  constructor
  · refine ⟨8 - reg'.length, ?_⟩
    have hpad : (reg' ++ List.replicate (8 - reg'.length) false).length = 8 := by
      rw [List.length_append, List.length_replicate]
      omega
    have hlast := byteBits_ofNat hpad
    rw [value_append_zeros, ← hreg'.value] at hlast
    rw [bits_append, bits_cons, bits_nil, List.append_nil, hlast, ← hreg'.stored,
      List.append_assoc]
  · intro hpos
    have := hreg'.room hpos
    rw [List.length_append, List.length_singleton]
    omega

/-- Writing goes through while the whole stream stays short of the output buffer. -/
theorem writeBytes_succeeds {n : Nat} {e : Encoder} {reg stream : List Bool}
    (he : Encodes OutputSize e reg stream) (hfit : (stream.length : Int) < 8 * OutputSize) :
    ∃ e', WriteBytes OutputSize n e = some e' := by
  induction n generalizing e reg with
  | zero => exact ⟨e, rfl⟩
  | succ n ih =>
      unfold WriteBytes
      by_cases hfull : 8 ≤ e.Bitcount
      · have hlen := congrArg List.length he.stored
        rw [List.length_append, length_bits, ← he.count] at hlen
        have hroom : (e.pDst ++ [UInt8.ofNat (e.Bits &&& 0xff)]).length ≠ OutputSize := by
          rw [List.length_append, List.length_singleton]
          omega
        simp only [if_pos hfull, if_neg hroom]
        exact ih (he.writeByte hfull hroom)
      · exact ⟨e, if_neg hfull⟩

theorem compressSymbols_succeeds (hc : Codes h t) (hdepth : t.depth ≤ 24) {pSrc : List UInt8}
    {e : Encoder} {reg stream : List Bool} {s : Nat} (he : Encodes OutputSize e reg stream)
    (hreg : reg.length < 8) (hs : s < HUFFMAN_MAX_SYMBOLS)
    (hfit : ((stream ++ code h s ++ codes h pSrc).length : Int) < 8 * OutputSize) :
    ∃ e', CompressSymbols h OutputSize s pSrc e = some e' := by
  have hload := loadSymbol_spec hc hdepth he hreg hs
  induction pSrc generalizing s e reg stream with
  | nil => exact writeBytes_succeeds hload (by simpa [codes] using hfit)
  | cons b pSrc ih =>
      obtain ⟨e₁, hwrite⟩ := writeBytes_succeeds (n := (LoadSymbol h s e).Bitcount) hload (by
        simp only [List.length_append] at hfit ⊢
        omega)
      obtain ⟨reg₁, he₁, hreg₁⟩ := writeSymbol_spec hc hdepth he hreg hs hwrite
      obtain ⟨e', hrun⟩ := ih he₁ hreg₁ (byte_lt_max b) (by simpa [codes] using hfit)
        (loadSymbol_spec hc hdepth he₁ hreg₁ (byte_lt_max b))
      refine ⟨e', ?_⟩
      show (do CompressSymbols h OutputSize b.toNat pSrc (← Write OutputSize _)) = some e'
      rw [Write, hwrite]
      exact hrun

/-- `Compress` succeeds when the words fit the output buffer with a bit to spare. -/
theorem compress_succeeds (hc : Codes h t) (hdepth : t.depth ≤ 24) {x : List UInt8}
    (hfit : ((codes h x ++ code h HUFFMAN_EOF_SYMBOL).length : Int) < 8 * OutputSize) :
    ∃ out, h.Compress x OutputSize = some out := by
  have hinput : ∃ e, CompressInput h OutputSize x = some e := by
    cases x with
    | nil => exact ⟨_, rfl⟩
    | cons b pSrc =>
        apply compressSymbols_succeeds hc hdepth (encodes_start OutputSize) (by decide)
          (byte_lt_max b)
        simp only [codes, List.flatMap_cons, List.length_append, List.nil_append] at hfit ⊢
        omega
  obtain ⟨e, he⟩ := hinput
  obtain ⟨reg, hreg, hlt⟩ := compressInput_spec hc hdepth he
  have hload := loadSymbol_spec hc hdepth hreg hlt (s := HUFFMAN_EOF_SYMBOL) (by decide)
  obtain ⟨e', he'⟩ := writeBytes_succeeds (n := (LoadSymbol h HUFFMAN_EOF_SYMBOL e).Bitcount)
    hload hfit
  refine ⟨e'.pDst ++ [UInt8.ofNat e'.Bits], ?_⟩
  unfold CHuffman.Compress
  rw [he, Option.bind_eq_bind, Option.bind_some, Write, he']
  rfl

end Compress

/-! ## The decoder -/

/-- The decoder has yet to read `stream`, of which `reg` is in its register. -/
structure Decodes (d : Decoder) (reg stream : List Bool) : Prop where
  value : d.Bits = value reg
  count : d.Bitcount = reg.length
  unread : reg ++ bits d.pSrc = stream
  small : reg.length < 32

theorem decrease_of_le {a b : Nat} (hle : b ≤ a) (ha : a < 2 ^ 32) : decrease a b = a - b := by
  unfold decrease
  omega

/-- Filling leaves at least 24 bits in the register, or all that are left. -/
theorem fill_spec {pSrc : List UInt8} {Bits Bitcount : Nat} {reg : List Bool}
    (hbits : Bits = value reg) (hcount : Bitcount = reg.length) (hreg : reg.length < 32) :
    ∃ reg', Decodes (Fill pSrc Bits Bitcount) reg' (reg ++ bits pSrc) ∧
      (24 ≤ reg'.length ∨ (Fill pSrc Bits Bitcount).pSrc = []) := by
  induction pSrc generalizing Bits Bitcount reg with
  | nil => exact ⟨reg, ⟨hbits, hcount, rfl, hreg⟩, .inr rfl⟩
  | cons b pSrc ih =>
      unfold Fill
      by_cases hroom : Bitcount < 24
      · rw [if_pos hroom]
        have hbits' : Bits ||| b.toNat <<< Bitcount = value (reg ++ byteBits b) := by
          rw [hbits, hcount, ← value_byteBits b, value_or_shift]
        have hlen : (reg ++ byteBits b).length = reg.length + 8 := by
          rw [List.length_append, length_byteBits]
        have hcount' : Bitcount + 8 = (reg ++ byteBits b).length := by omega
        obtain ⟨reg', hd, hfull⟩ := ih hbits' hcount' (by omega)
        refine ⟨reg', ?_, hfull⟩
        rwa [List.append_assoc, ← bits_cons] at hd
      · rw [if_neg hroom]
        exact ⟨reg, ⟨hbits, hcount, rfl, hreg⟩, .inl (by omega)⟩

/-- Walking bit by bit follows the rest of a word. -/
theorem walkTree_spec {h : CHuffman} {bound i n : Nat} {l r : PrefixTree Nat} {p reg : List Bool}
    {s : Nat} (hs : Shape h bound i (.node l r)) (hp : Word (.node l r) p s) (hn : p.length ≤ n)
    (hlen : (p ++ reg).length < 2 ^ 32) :
    WalkTree h n i (value (p ++ reg)) (p ++ reg).length = some (s, value reg, reg.length) := by
  induction p generalizing n i l r with
  | nil => cases hp
  | cons b p ih =>
      obtain ⟨n, rfl⟩ : ∃ m, n = m + 1 := ⟨n - 1, by rw [List.length_cons] at hn; omega⟩
      have hlow : (value (b :: (p ++ reg))).testBit 0 = b := by
        cases b <;> simp [value]
      have hchild : Shape h bound ((h.m_aNodes i).m_aLeafs b) (if b then r else l) := by
        cases b
        · exact hs.2.2.2.1
        · exact hs.2.2.2.2
      have hword : Word (if b then r else l) p s := by
        cases hp with
        | left hp => exact hp
        | right hp => exact hp
      have hcount : decrease (b :: (p ++ reg)).length 1 = (p ++ reg).length := by
        rw [List.cons_append, List.length_cons] at hlen
        rw [List.length_cons, decrease_of_le (by omega) hlen, Nat.add_sub_cancel]
      unfold WalkTree
      simp only [List.cons_append, hlow, value_cons_shift, hcount]
      cases hc : (if b then r else l) with
      | leaf s' =>
          rw [hc] at hchild hword
          cases hword
          have hbits := hchild.2.2.1
          rw [← hchild.1] at hbits
          rw [if_pos hbits, hchild.1]
          rfl
      | node l' r' =>
          rw [hc] at hchild hword
          have hp' : p ≠ [] := by
            rintro rfl
            cases hword
          have hne : (p ++ reg).length ≠ 0 := by simpa using fun h => absurd h hp'
          rw [if_neg (not_not.mpr hchild.2.2.1), if_neg hne]
          apply ih hchild hword
          · rw [List.length_cons] at hn
            omega
          · rw [List.cons_append, List.length_cons] at hlen
            omega

section Decompress

variable {h : CHuffman} {t : PrefixTree Nat}

/-- The LUT leads to the node ten bits ahead, or to the leaf before that; past the end of the
input the register reads as zeros. -/
theorem lut_spec (hc : Codes h t) {reg rest : List Bool} {d : Decoder}
    (hd : d.Bits = value reg) (hreg : HUFFMAN_LUTBITS ≤ reg.length ∨ rest = []) :
    ∃ i, h.m_apDecodeLut (d.Bits &&& HUFFMAN_LUTMASK) = some i ∧
      Shape h HUFFMAN_MAX_NODES i (t.descend
        ((reg ++ rest ++ List.replicate HUFFMAN_LUTBITS false).take HUFFMAN_LUTBITS)) := by
  set ahead := (reg ++ rest ++ List.replicate HUFFMAN_LUTBITS false).take HUFFMAN_LUTBITS
    with hahead
  have hlen : ahead.length = HUFFMAN_LUTBITS := by
    rw [hahead, List.length_take, List.length_append, List.length_replicate]
    omega
  have hindex : d.Bits &&& HUFFMAN_LUTMASK = value ahead := by
    have hzeros : value (reg ++ List.replicate HUFFMAN_LUTBITS false) = d.Bits := by
      rw [value_append_zeros, hd]
    have hsplit : (reg ++ List.replicate HUFFMAN_LUTBITS false).take HUFFMAN_LUTBITS = ahead := by
      rcases hreg with hreg | rfl
      · rw [hahead, List.append_assoc, List.take_append_of_le_length hreg,
          List.take_append_of_le_length hreg]
      · rw [hahead, List.append_nil]
    have := value_append_mod ahead
      ((reg ++ List.replicate HUFFMAN_LUTBITS false).drop HUFFMAN_LUTBITS)
    rw [← hsplit, List.take_append_drop, hsplit, hlen, hzeros] at this
    rw [← this]
    exact Nat.and_two_pow_sub_one_eq_mod d.Bits 10
  have hlt : value ahead < HUFFMAN_LUTSIZE := by
    have := value_lt ahead
    rwa [hlen] at this
  obtain ⟨l, r, rfl⟩ := hc.inner
  refine ⟨_, by rw [hindex]; exact hc.lut _ hlt, ?_⟩
  have := lutWalk_spec hc.shape ahead
  rwa [hlen] at this

/-- Before and after filling the LUT looks at the same ten bits of the stream. -/
theorem lookup_spec (hc : Codes h t) {d : Decoder} {reg stream : List Bool}
    (hd : Decodes d reg stream) :
    ∃ i, ((if HUFFMAN_LUTBITS ≤ d.Bitcount then h.m_apDecodeLut (d.Bits &&& HUFFMAN_LUTMASK)
        else none).or
          (h.m_apDecodeLut ((Fill d.pSrc d.Bits d.Bitcount).Bits &&& HUFFMAN_LUTMASK))) = some i ∧
      Shape h HUFFMAN_MAX_NODES i (t.descend
        ((stream ++ List.replicate HUFFMAN_LUTBITS false).take HUFFMAN_LUTBITS)) := by
  obtain ⟨reg₁, hd₁, hfull⟩ := @fill_spec d.pSrc _ _ _ hd.value hd.count hd.small
  rw [hd.unread] at hd₁
  by_cases hearly : HUFFMAN_LUTBITS ≤ d.Bitcount
  · obtain ⟨i, hlut, hi⟩ := @lut_spec _ _ hc _ (bits d.pSrc) _ hd.value
      (.inl (hd.count ▸ hearly))
    rw [hd.unread] at hi
    exact ⟨i, by rw [if_pos hearly, hlut]; rfl, hi⟩
  · have hreg : HUFFMAN_LUTBITS ≤ reg₁.length ∨
        bits (Fill d.pSrc d.Bits d.Bitcount).pSrc = [] := by
      rcases hfull with hfull | hfull
      · exact .inl (Nat.le_trans (by decide) hfull)
      · exact .inr (by rw [hfull]; rfl)
    obtain ⟨i, hlut, hi⟩ := lut_spec hc hd₁.value hreg
    rw [hd₁.unread] at hi
    exact ⟨i, by rw [if_neg hearly, hlut]; rfl, hi⟩

/-- A round reads the word at the head of the stream. -/
theorem readSymbol_spec (hc : Codes h t) (hdepth : t.depth ≤ 24) {d : Decoder}
    {reg rest : List Bool} {s : Nat} (hs : s < HUFFMAN_MAX_SYMBOLS)
    (hd : Decodes d reg (code h s ++ rest)) :
    ∃ d' reg', ReadSymbol h d = some (s, d') ∧ Decodes d' reg' rest := by
  obtain ⟨reg₁, hd₁, hfull⟩ := @fill_spec d.pSrc _ _ _ hd.value hd.count hd.small
  rw [hd.unread] at hd₁
  set d₁ := Fill d.pSrc d.Bits d.Bitcount with hd₁def
  have hword := hc.word_code hs
  have hlen := hword.length_le_depth
  -- either lookup reads the same ten bits of the stream
  set ahead := (code h s ++ rest ++ List.replicate HUFFMAN_LUTBITS false).take HUFFMAN_LUTBITS
    with hahead
  obtain ⟨i, hlook, hi⟩ := lookup_spec hc hd
  rw [← hd₁def] at hlook
  rw [← hahead] at hi
  -- the whole word is in the register
  obtain ⟨reg₂, hreg₂⟩ : ∃ reg₂, reg₁ = code h s ++ reg₂ := by
    have hle : (code h s).length ≤ reg₁.length := by
      rcases hfull with hfull | hfull
      · omega
      · have hun := congrArg List.length hd₁.unread
        rw [hfull, bits_nil, List.append_nil, List.length_append] at hun
        omega
    have htake := congrArg (List.take (code h s).length) hd₁.unread
    rw [List.take_append_of_le_length hle, List.take_left] at htake
    exact ⟨reg₁.drop (code h s).length, by
      nth_rewrite 1 [← List.take_append_drop (code h s).length reg₁]
      rw [htake]⟩
  have hrest : reg₂ ++ bits d₁.pSrc = rest := by
    have hun := hd₁.unread
    rw [hreg₂, List.append_assoc] at hun
    exact List.append_cancel_left hun
  have hsmall := hd₁.small
  rw [hreg₂, List.length_append] at hsmall
  by_cases hshort : (code h s).length ≤ HUFFMAN_LUTBITS
  · -- the LUT has the leaf
    have hleaf : t.descend ahead = .leaf s := by
      have : ahead = code h s ++ (rest ++ List.replicate HUFFMAN_LUTBITS false).take
          (HUFFMAN_LUTBITS - (code h s).length) := by
        rw [hahead, List.append_assoc, List.take_append, List.take_of_length_le hshort]
      rw [this]
      exact hword.descend _
    rw [hleaf] at hi
    obtain rfl : i = s := hi.1
    refine ⟨{ d₁ with Bits := value reg₂, Bitcount := reg₂.length }, reg₂, ?_,
      ⟨rfl, rfl, hrest, by omega⟩⟩
    have hnum := hc.numBits_code hs
    have hshift : d₁.Bits >>> (code h i).length = value reg₂ := by
      rw [hd₁.value, hreg₂, value_append_shift]
    have hcount : decrease d₁.Bitcount (code h i).length = reg₂.length := by
      rw [hd₁.count, hreg₂, List.length_append, decrease_of_le (by omega) (by omega)]
      omega
    simp only [ReadSymbol, ← hd₁def, hlook, Option.bind_eq_bind, Option.bind_some]
    rw [if_pos hi.2.2.1, hnum, hshift, hcount]
    rfl
  · -- the LUT leads to an inner node
    rw [Nat.not_le] at hshort
    have hsplit : code h s = ahead ++ (code h s).drop HUFFMAN_LUTBITS := by
      rw [hahead, List.append_assoc, List.take_append_of_le_length (Nat.le_of_lt hshort),
        List.take_append_drop]
    set q := (code h s).drop HUFFMAN_LUTBITS with hq
    have hqlen : q.length = (code h s).length - HUFFMAN_LUTBITS := List.length_drop
    have hahead10 : ahead.length = HUFFMAN_LUTBITS := by
      have := congrArg List.length hsplit
      rw [List.length_append, hqlen] at this
      omega
    rw [hsplit] at hword
    obtain ⟨⟨l, r, hinner⟩, hword'⟩ := hword.descend_take (by
      intro hnil
      rw [hnil, List.length_nil] at hqlen
      omega)
    rw [hinner] at hi hword'
    have hwalk := @walkTree_spec _ _ _ HUFFMAN_MAX_NODES _ _ _ reg₂ _ hi hword'
      (by rw [hqlen]; exact Nat.le_trans (Nat.sub_le _ _) (Nat.le_trans hlen
        (Nat.le_trans hdepth (by decide))))
      (by rw [List.length_append, hqlen]; omega)
    refine ⟨{ d₁ with Bits := value reg₂, Bitcount := reg₂.length }, reg₂, ?_,
      ⟨rfl, rfl, hrest, by omega⟩⟩
    have hreg : reg₁ = ahead ++ (q ++ reg₂) := by
      rw [hreg₂, ← List.append_assoc, ← hsplit]
    have hshift : d₁.Bits >>> HUFFMAN_LUTBITS = value (q ++ reg₂) := by
      rw [hd₁.value, hreg, ← hahead10, value_append_shift]
    have hcount : decrease d₁.Bitcount HUFFMAN_LUTBITS = (q ++ reg₂).length := by
      rw [hd₁.count, hreg, List.length_append, hahead10, decrease_of_le (by omega)
        (by rw [List.length_append, hqlen]; omega)]
      omega
    simp only [ReadSymbol, ← hd₁def, hlook, Option.bind_eq_bind, Option.bind_some]
    rw [if_neg (not_not.mpr hi.2.2.1), hshift, hcount, hwalk]
    rfl

theorem decompressSymbols_spec (hc : Codes h t) (hdepth : t.depth ≤ 24) {OutputSize n : Nat}
    {x pDst : List UInt8} {d : Decoder} {reg pad : List Bool}
    (hd : Decodes d reg (codes h x ++ code h HUFFMAN_EOF_SYMBOL ++ pad)) (hn : x.length < n)
    (hroom : pDst.length + x.length ≤ OutputSize) :
    DecompressSymbols h OutputSize n d pDst = .ok (pDst ++ x) := by
  induction x generalizing n d reg pDst with
  | nil =>
      obtain ⟨n, rfl⟩ : ∃ m, n = m + 1 := ⟨n - 1, by omega⟩
      obtain ⟨d', reg', hread, -⟩ := readSymbol_spec hc hdepth (s := HUFFMAN_EOF_SYMBOL)
        (by decide) hd
      simp [DecompressSymbols, hread]
  | cons b x ih =>
      obtain ⟨n, rfl⟩ : ∃ m, n = m + 1 := ⟨n - 1, by rw [List.length_cons] at hn; omega⟩
      have hb := byte_lt_max b
      have hnext : Decodes d reg (code h b.toNat ++
          (codes h x ++ code h HUFFMAN_EOF_SYMBOL ++ pad)) := by simpa [codes] using hd
      obtain ⟨d', reg', hread, hd'⟩ := readSymbol_spec hc hdepth hb hnext
      have hne : b.toNat ≠ HUFFMAN_EOF_SYMBOL := Nat.ne_of_lt b.toNat_lt
      rw [List.length_cons] at hroom hn
      have hsym : (h.m_aNodes b.toNat).m_Symbol = b := by
        rw [hc.shape.symbol (hc.complete _ hb), UInt8.ofNat_toNat]
      have := @ih n (pDst ++ [b]) _ _ hd' (by omega) (by
        rw [List.length_append, List.length_singleton]
        omega)
      simp only [DecompressSymbols, hread]
      rw [if_neg hne, if_neg (by omega), hsym, this]
      simp

/-- Decompressing what `Compress` returned gives the input back. -/
theorem decompress_compress (hc : Codes h t) (hdepth : t.depth ≤ 24) {x out : List UInt8}
    {OutputSize : Int} (hrun : h.Compress x OutputSize = some out) {n : Nat}
    (hn : x.length ≤ n) : h.Decompress out n = .ok x := by
  obtain ⟨⟨k, hbits⟩, -⟩ := compress_spec hc hdepth hrun
  have hd : Decodes { Bits := 0, Bitcount := 0, pSrc := out } []
      (codes h x ++ code h HUFFMAN_EOF_SYMBOL ++ List.replicate k false) :=
    ⟨rfl, rfl, hbits, by decide⟩
  exact decompressSymbols_spec hc hdepth hd (by omega) (by simpa using hn)

/-- Whatever the input, no more than `OutputSize` bytes are stored. -/
theorem decompressSymbols_length {OutputSize n : Nat} {d : Decoder} {pDst : List UInt8}
    (hroom : pDst.length ≤ OutputSize) :
    (∀ y, DecompressSymbols h OutputSize n d pDst = .ok y → y.length ≤ OutputSize) ∧
      ∀ y, DecompressSymbols h OutputSize n d pDst = .error y → y.length ≤ OutputSize := by
  induction n generalizing d pDst with
  | zero =>
      constructor <;> intro y hy
      · cases hy
      · cases hy
        exact hroom
  | succ n ih =>
      unfold DecompressSymbols
      cases ReadSymbol h d with
      | none =>
          constructor <;> intro y hy
          · cases hy
          · cases hy
            exact hroom
      | some r =>
          obtain ⟨pNode, d'⟩ := r
          simp only
          split
          · constructor <;> intro y hy
            · cases hy
              exact hroom
            · cases hy
          · split
            · constructor <;> intro y hy
              · cases hy
              · cases hy
                exact hroom
            · apply ih
              rw [List.length_append, List.length_singleton]
              omega

end Decompress

/-! ## The default tables -/

/-- The longest code has fifteen bits, and so has that of the end symbol. -/
theorem codeValues_default : MergeValues
    (fun i => (0, if i = HUFFMAN_EOF_SYMBOL then some [] else none)) joinDepthWord
    (fun i => ms_aFreqTable.getD i 0) =
      [(15, some [false, true, false, true, false, false, false, true, true, true, false, true,
        true, false, false])] := by
  apply mergeValues_eq
  rw [leaves_eq (fun i hi => congrArg (Prod.mk 0) (if_neg (Nat.ne_of_lt hi))) (by decide +kernel)]
  decide +kernel

theorem codes_default : ∃ t, Codes Default t ∧ t.depth ≤ 24 := by
  obtain ⟨t, hc, hdepth, -⟩ := codes_init codeValues_default (by decide)
  exact ⟨t, hc, by rw [hdepth]; decide⟩

/-- Decompressing undoes compressing with the default tables, and a compressed buffer fits the
output buffer. -/
theorem huffman_roundtrip {x out : List UInt8} {OutputSize : Int} {n : Nat}
    (hrun : Default.Compress x OutputSize = some out) (hn : x.length ≤ n) :
    Default.Decompress out n = .ok x ∧ (1 ≤ OutputSize → (out.length : Int) ≤ OutputSize) := by
  obtain ⟨t, hc, hdepth⟩ := codes_default
  exact ⟨decompress_compress hc hdepth hrun hn, (compress_spec hc hdepth hrun).2⟩

/-- One zero byte through a buffer of eight bytes. -/
theorem huffman_roundtrip_zero : ∃ out, Default.Compress [0] 8 = some out ∧
    Default.Decompress out 1 = .ok [0] ∧ (1 ≤ (8 : Int) → (out.length : Int) ≤ 8) := by
  obtain ⟨t, hc, hdepth⟩ := codes_default
  have hzero := (hc.word_code (s := (0 : UInt8).toNat) (by decide)).length_le_depth
  have heof := (hc.word_code (s := HUFFMAN_EOF_SYMBOL) (by decide)).length_le_depth
  obtain ⟨out, hout⟩ := @compress_succeeds _ _ 8 hc hdepth [0] (by
    simp only [codes, List.flatMap_cons, List.flatMap_nil, List.append_nil, List.length_append]
    omega)
  exact ⟨out, hout, huffman_roundtrip hout (by decide)⟩

end Fex.Engine.Huffman
