import Fex.Engine.Huffman.Codec

/-!
# Truncated input

Past the end of its input the register of the decompressor reads as zeros, and
its counter wraps around.  A word may then be completed by zeros that are not in
the input.  The word of the end symbol has a one behind the bits that the LUT
takes, so it is never completed so.
-/

namespace Fex.Engine.Huffman

open Fex.Lib Fex.Lib.BitStream Fex.Lib.PrefixTree

theorem value_cons_testBit (b : Bool) (bs : List Bool) : (value (b :: bs)).testBit 0 = b := by
  cases b <;> simp [value]

/-- A number of zeros. -/
def IsZeros (bs : List Bool) : Prop := ∀ b ∈ bs, b = false

section Walk

variable {h : CHuffman} {bound i : Nat} {l r : PrefixTree Nat}

theorem Shape.child (hs : Shape h bound i (.node l r)) (b : Bool) :
    Shape h bound ((h.m_aNodes i).m_aLeafs b) (if b then r else l) := by
  cases b
  · exact hs.2.2.2.1
  · exact hs.2.2.2.2

theorem word_child {b : Bool} {p : List Bool} {s : Nat} (hp : Word (if b then r else l) p s) :
    Word (.node l r) (b :: p) s := by
  cases b
  · exact .left hp
  · exact .right hp

/-- A walk that succeeds has read a word from the register. -/
theorem walkTree_live {n : Nat} {reg : List Bool} {x : Nat × Nat × Nat}
    (hs : Shape h bound i (.node l r)) (hne : reg ≠ []) (hlen : reg.length < 2 ^ 32)
    (hrun : WalkTree h n i (value reg) reg.length = some x) :
    ∃ p rest, reg = p ++ rest ∧ Word (.node l r) p x.1 ∧
      x.2 = (value rest, rest.length) := by
  induction n generalizing reg i l r with
  | zero => cases hrun
  | succ n ih =>
      obtain ⟨b, reg, rfl⟩ := List.exists_cons_of_ne_nil hne
      rw [List.length_cons] at hlen
      have hcount : decrease (b :: reg).length 1 = reg.length := by
        rw [List.length_cons, decrease_of_le (by omega) hlen, Nat.add_sub_cancel]
      have hchild := hs.child b
      unfold WalkTree at hrun
      simp only [value_cons_testBit, value_cons_shift, hcount] at hrun
      cases hc : (if b then r else l) with
      | leaf s =>
          rw [hc] at hchild
          have hbits := hchild.2.2.1
          rw [← hchild.1] at hbits
          rw [if_pos hbits, hchild.1] at hrun
          obtain rfl := Option.some.inj hrun
          exact ⟨[b], reg, rfl, word_child (hc ▸ .leaf s), rfl⟩
      | node l' r' =>
          rw [hc] at hchild
          rw [if_neg (not_not.mpr hchild.2.2.1)] at hrun
          by_cases hreg : reg.length = 0
          · rw [if_pos hreg] at hrun
            cases hrun
          · rw [if_neg hreg] at hrun
            obtain ⟨p, rest, rfl, hp, hx⟩ := ih hchild
              (fun hnil => hreg (by rw [hnil]; rfl)) (by omega) hrun
            exact ⟨b :: p, rest, rfl, word_child (hc ▸ hp), hx⟩

/-- A walk over an empty register reads zeros, whatever the counter. -/
theorem walkTree_dead {n Bitcount : Nat} {x : Nat × Nat × Nat}
    (hs : Shape h bound i (.node l r)) (hrun : WalkTree h n i 0 Bitcount = some x) :
    ∃ p, IsZeros p ∧ Word (.node l r) p x.1 ∧ x.2.1 = 0 := by
  induction n generalizing Bitcount i l r with
  | zero => cases hrun
  | succ n ih =>
      have hchild := hs.child false
      unfold WalkTree at hrun
      simp only [Nat.zero_testBit, Nat.zero_shiftRight] at hrun
      cases l with
      | leaf s =>
          have hbits := hchild.2.2.1
          rw [← hchild.1] at hbits
          rw [if_pos hbits] at hrun
          obtain rfl := Option.some.inj hrun
          rw [hchild.1]
          exact ⟨[false], by simp [IsZeros], .left (.leaf s), rfl⟩
      | node l' r' =>
          rw [if_neg (not_not.mpr hchild.2.2.1)] at hrun
          by_cases hzero : decrease Bitcount 1 = 0
          · rw [if_pos hzero] at hrun
            cases hrun
          · rw [if_neg hzero] at hrun
            obtain ⟨p, hp, hword, hx⟩ := ih hchild hrun
            exact ⟨false :: p, by simpa [IsZeros] using hp, .left hword, hx⟩

/-- The walk ends at a leaf: its fuel is never used up. -/
theorem walkTree_fuel {n Bits Bitcount : Nat} (hs : Shape h bound i (.node l r))
    (hn : (node l r).depth ≤ n) (k : Nat) :
    WalkTree h (n + k) i Bits Bitcount = WalkTree h n i Bits Bitcount := by
  induction n generalizing Bits Bitcount i l r with
  | zero => simp [depth] at hn
  | succ n ih =>
      rw [Nat.add_right_comm]
      unfold WalkTree
      have hchild := hs.child (Bits.testBit 0)
      have hdepth : (if Bits.testBit 0 then r else l).depth ≤ n := by
        simp only [depth] at hn
        split <;> omega
      cases hc : (if Bits.testBit 0 then r else l) with
      | leaf s =>
          rw [hc] at hchild
          have hbits := hchild.2.2.1
          rw [← hchild.1] at hbits
          simp only [if_pos hbits]
      | node l' r' =>
          rw [hc] at hchild hdepth
          simp only [ih hchild hdepth]

end Walk

/-! ## One round -/

/-- The rest of a round once the LUT was looked up. -/
def Consume (h : CHuffman) (pNode : Nat) (d : Decoder) : Option (Nat × Decoder) :=
  let NumBits := (h.m_aNodes pNode).m_NumBits
  if NumBits ≠ 0 then
    some (pNode, { d with Bits := d.Bits >>> NumBits, Bitcount := decrease d.Bitcount NumBits })
  else
    (WalkTree h HUFFMAN_MAX_NODES pNode (d.Bits >>> HUFFMAN_LUTBITS)
      (decrease d.Bitcount HUFFMAN_LUTBITS)).map fun x =>
        (x.1, { d with Bits := x.2.1, Bitcount := x.2.2 })

theorem readSymbol_eq (h : CHuffman) (d : Decoder) : ReadSymbol h d =
    ((if HUFFMAN_LUTBITS ≤ d.Bitcount then h.m_apDecodeLut (d.Bits &&& HUFFMAN_LUTMASK)
      else none).or
        (h.m_apDecodeLut ((Fill d.pSrc d.Bits d.Bitcount).Bits &&& HUFFMAN_LUTMASK))).bind
      fun i => Consume h i (Fill d.pSrc d.Bits d.Bitcount) := by
  unfold ReadSymbol Consume
  simp only [Option.bind_eq_bind]
  congr 1
  funext i
  split
  · rfl
  · cases WalkTree h HUFFMAN_MAX_NODES i _ _ <;> rfl

/-- Nothing is left to read; the counter may have wrapped around. -/
structure Exhausted (d : Decoder) : Prop where
  bits : d.Bits = 0
  unread : d.pSrc = []

section Rounds

variable {h : CHuffman} {t : PrefixTree Nat}

theorem Codes.code_eq (hc : Codes h t) {p : List Bool} {s : Nat} (hp : Word t p s) :
    code h s = p := by
  obtain ⟨hbits, hnum⟩ := hc.word s p hp
  unfold code
  rw [hbits, hnum, digits_value]

/-- Zeros do not complete the word of the end symbol behind the bits of the LUT. -/
def EndsLate (h : CHuffman) : Prop :=
  HUFFMAN_LUTBITS < (code h HUFFMAN_EOF_SYMBOL).length ∧
    ¬ IsZeros ((code h HUFFMAN_EOF_SYMBOL).drop HUFFMAN_LUTBITS)

/-- The ten bits the LUT looks at, zeros behind the end of the stream. -/
def lookahead (stream : List Bool) : List Bool :=
  (stream ++ List.replicate HUFFMAN_LUTBITS false).take HUFFMAN_LUTBITS

theorem length_lookahead (stream : List Bool) : (lookahead stream).length = HUFFMAN_LUTBITS := by
  rw [lookahead, List.length_take, List.length_append, List.length_replicate]
  omega

/-- The stream starts with a word. -/
def HasWord (h : CHuffman) (stream : List Bool) : Prop :=
  ∃ s < HUFFMAN_MAX_SYMBOLS, ∃ rest, stream = code h s ++ rest

theorem Codes.hasWord (hc : Codes h t) {p rest : List Bool} {s : Nat} (hp : Word t p s) :
    HasWord h (p ++ rest) :=
  ⟨s, hc.shape.symbols_lt hp.mem_symbols, rest, by rw [hc.code_eq hp]⟩

theorem Codes.not_hasWord_nil (hc : Codes h t) : ¬ HasWord h [] := by
  rintro ⟨s, hs, rest, hnil⟩
  exact hc.code_ne_nil hs (List.append_eq_nil_iff.mp hnil.symm).1

/-- A register that is too short for the LUT and holds no word is empty after the round. -/
theorem consume_short (hc : Codes h t) (hlate : EndsLate h) {d d' : Decoder} {reg : List Bool}
    {i s : Nat} (hbits : d.Bits = value reg) (hpSrc : d.pSrc = [])
    (hreg : reg.length ≤ HUFFMAN_LUTBITS) (hnone : ¬ HasWord h reg)
    (hi : Shape h HUFFMAN_MAX_NODES i (t.descend (lookahead reg)))
    (hrun : Consume h i d = some (s, d')) : Exhausted d' ∧ s ≠ HUFFMAN_EOF_SYMBOL := by
  have hempty : ∀ k, reg.length ≤ k → d.Bits >>> k = 0 := by
    intro k hk
    rw [hbits, Nat.shiftRight_eq_div_pow]
    exact Nat.div_eq_of_lt (Nat.lt_of_lt_of_le (value_lt reg)
      (Nat.pow_le_pow_right (by decide) hk))
  unfold Consume at hrun
  rcases t.descend_cases (lookahead reg) with
    ⟨s', p, rest, hsplit, hp, hleaf⟩ | ⟨⟨l, r, hnode⟩, hwords⟩
  · -- the word is longer than the register, but not longer than the LUT's bits
    rw [hleaf] at hi
    obtain rfl : i = s' := hi.1
    rw [if_pos hi.2.2.1] at hrun
    obtain ⟨rfl, rfl⟩ := Prod.mk.inj (Option.some.inj hrun)
    have hplen : p.length ≤ HUFFMAN_LUTBITS := by
      rw [← length_lookahead reg, hsplit, List.length_append]
      omega
    have hlong : reg.length < p.length := by
      by_contra hfit
      apply hnone
      have htake := congrArg (List.take p.length) hsplit
      rw [lookahead, List.take_take, Nat.min_eq_left hplen,
        List.take_append_of_le_length (by omega), List.take_left] at htake
      rw [← List.take_append_drop p.length reg, htake]
      exact hc.hasWord hp
    refine ⟨⟨hempty _ ?_, hpSrc⟩, fun heof => ?_⟩
    · rw [(hc.word i p hp).2]
      omega
    · have hlen := hlate.1
      rw [← heof, hc.code_eq hp] at hlen
      omega
  · -- zeros lead from the inner node to a leaf
    rw [hnode] at hi hwords
    rw [if_neg (not_not.mpr hi.2.2.1), hempty _ hreg] at hrun
    obtain ⟨x, hwalk, hx⟩ := Option.map_eq_some_iff.mp hrun
    obtain ⟨p, hp, hword, hx0⟩ := walkTree_dead hi hwalk
    obtain ⟨rfl, rfl⟩ := Prod.mk.inj hx
    refine ⟨⟨hx0, hpSrc⟩, fun heof => hlate.2 ?_⟩
    rw [← heof, hc.code_eq (hwords p _ hword), ← length_lookahead reg, List.drop_left]
    exact hp

/-- A register that is long enough for the LUT and holds no word fails. -/
theorem consume_long (hc : Codes h t) {d : Decoder} {reg stream : List Bool} {i : Nat}
    (hd : Decodes d reg stream) (hreg : HUFFMAN_LUTBITS < reg.length)
    (hnone : ¬ HasWord h stream)
    (hi : Shape h HUFFMAN_MAX_NODES i (t.descend (lookahead stream))) : Consume h i d = none := by
  have hahead : lookahead stream = reg.take HUFFMAN_LUTBITS := by
    rw [lookahead, ← hd.unread, List.append_assoc, List.take_append_of_le_length (by omega)]
  have hsmall := hd.small
  have hstream : stream = reg.take HUFFMAN_LUTBITS ++
      (reg.drop HUFFMAN_LUTBITS ++ bits d.pSrc) := by
    rw [← List.append_assoc, List.take_append_drop, hd.unread]
  rw [hahead] at hi
  have hlen : (reg.take HUFFMAN_LUTBITS).length = HUFFMAN_LUTBITS := by
    rw [List.length_take]
    omega
  rcases t.descend_cases (reg.take HUFFMAN_LUTBITS) with
    ⟨s', p, rest, hsplit, hp, -⟩ | ⟨⟨l, r, hnode⟩, hwords⟩
  · refine absurd ?_ hnone
    rw [hstream, hsplit, List.append_assoc]
    exact hc.hasWord hp
  · rw [hnode] at hi hwords
    have hshift : d.Bits >>> HUFFMAN_LUTBITS = value (reg.drop HUFFMAN_LUTBITS) := by
      have hsplit := value_append_shift (reg.take HUFFMAN_LUTBITS) (reg.drop HUFFMAN_LUTBITS)
      rwa [List.take_append_drop, hlen, ← hd.value] at hsplit
    have hcount : decrease d.Bitcount HUFFMAN_LUTBITS = (reg.drop HUFFMAN_LUTBITS).length := by
      rw [hd.count, decrease_of_le (by omega) (by omega), List.length_drop]
    unfold Consume
    rw [if_neg (not_not.mpr hi.2.2.1), hshift, hcount]
    cases hwalk : WalkTree h HUFFMAN_MAX_NODES i (value (reg.drop HUFFMAN_LUTBITS))
      (reg.drop HUFFMAN_LUTBITS).length with
    | none => rfl
    | some x =>
        have hne : reg.drop HUFFMAN_LUTBITS ≠ [] := by
          intro hnil
          have := congrArg List.length hnil
          rw [List.length_drop, List.length_nil] at this
          omega
        have hlt : (reg.drop HUFFMAN_LUTBITS).length < 2 ^ 32 := by
          rw [List.length_drop]
          omega
        obtain ⟨p, rest, hdrop, hword, -⟩ := walkTree_live hi hne hlt hwalk
        refine absurd ?_ hnone
        rw [hstream, hdrop, List.append_assoc, ← List.append_assoc]
        exact hc.hasWord (hwords p _ hword)

/-- A round on an unread stream. -/
theorem readSymbol_live (hc : Codes h t) (hdepth : t.depth ≤ 24) (hlate : EndsLate h)
    {d d' : Decoder} {reg stream : List Bool} {s : Nat} (hd : Decodes d reg stream)
    (hrun : ReadSymbol h d = some (s, d')) :
    (s < HUFFMAN_MAX_SYMBOLS ∧ ∃ rest reg', stream = code h s ++ rest ∧ Decodes d' reg' rest) ∨
      Exhausted d' ∧ s ≠ HUFFMAN_EOF_SYMBOL := by
  by_cases hword : HasWord h stream
  · obtain ⟨s', hs', rest, rfl⟩ := hword
    obtain ⟨d₂, reg₂, hread, hd₂⟩ := readSymbol_spec hc hdepth hs' hd
    rw [hrun] at hread
    obtain ⟨rfl, rfl⟩ := Prod.mk.inj (Option.some.inj hread)
    exact .inl ⟨hs', rest, reg₂, rfl, hd₂⟩
  · obtain ⟨i, hlook, hi⟩ := lookup_spec hc hd
    obtain ⟨reg₁, hd₁, hfull⟩ := @fill_spec d.pSrc _ _ _ hd.value hd.count hd.small
    rw [hd.unread] at hd₁
    rw [readSymbol_eq, hlook, Option.bind_some] at hrun
    rcases Nat.lt_or_ge HUFFMAN_LUTBITS reg₁.length with hlong | hshort
    · rw [consume_long hc hd₁ hlong hword hi] at hrun
      cases hrun
    · have hpSrc : (Fill d.pSrc d.Bits d.Bitcount).pSrc = [] := by
        rcases hfull with hfull | hfull
        · exact absurd (Nat.le_trans hfull hshort) (by decide)
        · exact hfull
      have hstream : reg₁ = stream := by
        have := hd₁.unread
        rwa [hpSrc, bits_nil, List.append_nil] at this
      rw [← hstream] at hword hi
      exact .inr (consume_short hc hlate hd₁.value hpSrc hshort hword hi hrun)

/-- Once nothing is left to read the end symbol is not met any more. -/
theorem readSymbol_dead (hc : Codes h t) (hlate : EndsLate h) {d d' : Decoder} {s : Nat}
    (hd : Exhausted d) (hrun : ReadSymbol h d = some (s, d')) :
    Exhausted d' ∧ s ≠ HUFFMAN_EOF_SYMBOL := by
  obtain ⟨i, hlut, hi⟩ := @lut_spec _ _ hc [] [] d hd.bits (.inr rfl)
  have hfill : Fill d.pSrc d.Bits d.Bitcount = d := by
    obtain ⟨Bits, Bitcount, pSrc⟩ := d
    obtain ⟨rfl, rfl⟩ := hd
    rfl
  have hlook : (if HUFFMAN_LUTBITS ≤ d.Bitcount then some i else none).or (some i) = some i := by
    split <;> rfl
  rw [readSymbol_eq, hfill, hlut, hlook, Option.bind_some] at hrun
  exact consume_short hc hlate hd.bits hd.unread (Nat.zero_le _) hc.not_hasWord_nil hi hrun

/-! ## The whole run -/

theorem decompressSymbols_dead (hc : Codes h t) (hlate : EndsLate h) {OutputSize n : Nat}
    {d : Decoder} {pDst : List UInt8} (hd : Exhausted d) (y : List UInt8) :
    DecompressSymbols h OutputSize n d pDst ≠ .ok y := by
  induction n generalizing d pDst with
  | zero =>
      intro hrun
      cases hrun
  | succ n ih =>
      unfold DecompressSymbols
      cases hread : ReadSymbol h d with
      | none =>
          intro hrun
          cases hrun
      | some x =>
          obtain ⟨s, d'⟩ := x
          obtain ⟨hd', hs⟩ := readSymbol_dead hc hlate hd hread
          simp only [if_neg hs]
          split
          · intro hrun
            cases hrun
          · exact ih hd'

/-- What is returned was encoded in the stream, up to the end symbol. -/
theorem decompressSymbols_encoded (hc : Codes h t) (hdepth : t.depth ≤ 24) (hlate : EndsLate h)
    {OutputSize n : Nat} {d : Decoder} {reg stream : List Bool} {pDst y : List UInt8}
    (hd : Decodes d reg stream) (hrun : DecompressSymbols h OutputSize n d pDst = .ok y) :
    ∃ x, y = pDst ++ x ∧ codes h x ++ code h HUFFMAN_EOF_SYMBOL <+: stream := by
  induction n generalizing d reg stream pDst with
  | zero => cases hrun
  | succ n ih =>
      unfold DecompressSymbols at hrun
      cases hread : ReadSymbol h d with
      | none =>
          rw [hread] at hrun
          cases hrun
      | some r =>
          obtain ⟨s, d'⟩ := r
          rw [hread] at hrun
          simp only at hrun
          rcases readSymbol_live hc hdepth hlate hd hread with
            ⟨hlt, rest, reg', rfl, hd'⟩ | ⟨hd', hs⟩
          · by_cases heof : s = HUFFMAN_EOF_SYMBOL
            · rw [if_pos heof] at hrun
              cases hrun
              refine ⟨[], by simp, ?_⟩
              rw [heof]
              exact ⟨rest, rfl⟩
            · rw [if_neg heof] at hrun
              by_cases hfull : pDst.length = OutputSize
              · rw [if_pos hfull] at hrun
                cases hrun
              · rw [if_neg hfull] at hrun
                obtain ⟨x, rfl, hx⟩ := ih hd' hrun
                have hsym : (h.m_aNodes s).m_Symbol = .ofNat s := hc.shape.symbol (hc.complete s hlt)
                have hbyte : (UInt8.ofNat s).toNat = s := by
                  apply UInt8.toNat_ofNat_of_lt'
                  simp only [HUFFMAN_MAX_SYMBOLS, HUFFMAN_EOF_SYMBOL, UInt8.size] at *
                  omega
                refine ⟨.ofNat s :: x, by rw [hsym, List.append_assoc]; rfl, ?_⟩
                have hcodes : codes h (.ofNat s :: x) = code h s ++ codes h x := by
                  rw [codes, List.flatMap_cons, hbyte]
                  rfl
                rw [hcodes, List.append_assoc]
                exact (List.prefix_append_right_inj _).mpr hx
          · rw [if_neg hs] at hrun
            split at hrun
            · cases hrun
            · exact absurd hrun (decompressSymbols_dead hc hlate hd' y)

/-- Every round but the last stores a byte, so more rounds than the output buffer has room for
change nothing. -/
theorem decompressSymbols_fuel {OutputSize n : Nat} {d : Decoder} {pDst : List UInt8}
    (hroom : pDst.length ≤ OutputSize) (hn : OutputSize < n + pDst.length) (k : Nat) :
    DecompressSymbols h OutputSize (n + k) d pDst = DecompressSymbols h OutputSize n d pDst := by
  induction n generalizing d pDst with
  | zero => omega
  | succ n ih =>
      rw [Nat.add_right_comm]
      unfold DecompressSymbols
      cases ReadSymbol h d with
      | none => rfl
      | some x =>
          simp only
          split
          · rfl
          · split
            · rfl
            · apply ih
              · rw [List.length_append, List.length_singleton]
                omega
              · rw [List.length_append, List.length_singleton]
                omega

/-- A walk from an entry of the LUT never uses up its fuel. -/
theorem Codes.walk_fuel (hc : Codes h t) (hdepth : t.depth ≤ HUFFMAN_MAX_NODES) {Bits pNode : Nat}
    (hlut : h.m_apDecodeLut (Bits &&& HUFFMAN_LUTMASK) = some pNode)
    (hinner : (h.m_aNodes pNode).m_NumBits = 0) (k Bits' Bitcount : Nat) :
    WalkTree h (HUFFMAN_MAX_NODES + k) pNode Bits' Bitcount =
      WalkTree h HUFFMAN_MAX_NODES pNode Bits' Bitcount := by
  have hlt : Bits &&& HUFFMAN_LUTMASK < 2 ^ HUFFMAN_LUTBITS := Nat.and_lt_two_pow _ (by decide)
  have hdigits := value_digits hlt
  obtain ⟨l, r, rfl⟩ := hc.inner
  have hi := lutWalk_spec hc.shape (digits HUFFMAN_LUTBITS (Bits &&& HUFFMAN_LUTMASK))
  rw [length_digits, hdigits] at hi
  rw [hc.lut _ hlt] at hlut
  rw [Option.some.inj hlut] at hi
  have hle := depth_descend_le (.node l r) (digits HUFFMAN_LUTBITS (Bits &&& HUFFMAN_LUTMASK))
  cases hnode : descend (.node l r) (digits HUFFMAN_LUTBITS (Bits &&& HUFFMAN_LUTMASK)) with
  | leaf s =>
      rw [hnode] at hi
      exact absurd hinner (hi.1 ▸ hi.2.2.1)
  | node l' r' =>
      rw [hnode] at hi hle
      exact walkTree_fuel hi (hle.trans hdepth) k

end Rounds

theorem codes_default_late : ∃ t, Codes Default t ∧ t.depth = 15 ∧ EndsLate Default := by
  obtain ⟨t, hc, hdepth, hword⟩ := codes_init codeValues_default (by decide)
  refine ⟨t, hc, hdepth, ?_⟩
  have hcode := hc.code_eq (word_of_wordOf hword)
  unfold Default EndsLate IsZeros
  rw [hcode]
  decide

/-- `Decompress` ends for every input: neither a walk in the tree nor the loop over the symbols
uses up its rounds.  It returns the bytes whose words, followed by the whole word of the end
symbol, are at the head of the input, where they fit the output buffer, and fails on every other
input. -/
theorem decompress_rejects_truncated (pInput : List UInt8) (OutputSize : Nat) :
    (∀ Bits pNode, Default.m_apDecodeLut (Bits &&& HUFFMAN_LUTMASK) = some pNode →
      (Default.m_aNodes pNode).m_NumBits = 0 → ∀ k Bits Bitcount,
        WalkTree Default (HUFFMAN_MAX_NODES + k) pNode Bits Bitcount =
          WalkTree Default HUFFMAN_MAX_NODES pNode Bits Bitcount) ∧
    (∀ k, DecompressSymbols Default OutputSize (OutputSize + 1 + k)
        { Bits := 0, Bitcount := 0, pSrc := pInput } [] =
      Default.Decompress pInput OutputSize) ∧
    (∀ y, Default.Decompress pInput OutputSize = .ok y ↔ y.length ≤ OutputSize ∧
      codes Default y ++ code Default HUFFMAN_EOF_SYMBOL <+: bits pInput) ∧
    ((¬ ∃ y : List UInt8, y.length ≤ OutputSize ∧
        codes Default y ++ code Default HUFFMAN_EOF_SYMBOL <+: bits pInput) →
      ∃ stored, Default.Decompress pInput OutputSize = .error stored) := by
  obtain ⟨t, hc, hdepth, hlate⟩ := codes_default_late
  have hd : Decodes { Bits := 0, Bitcount := 0, pSrc := pInput } [] (bits pInput) :=
    ⟨rfl, rfl, rfl, by decide⟩
  have hiff : ∀ y, Default.Decompress pInput OutputSize = .ok y ↔ y.length ≤ OutputSize ∧
      codes Default y ++ code Default HUFFMAN_EOF_SYMBOL <+: bits pInput := by
    intro y
    constructor
    · intro hrun
      obtain ⟨x, rfl, hx⟩ :=
        decompressSymbols_encoded hc (by rw [hdepth]; decide) hlate hd hrun
      exact ⟨(decompressSymbols_length (Nat.zero_le _)).1 _ hrun, hx⟩
    · rintro ⟨hroom, pad, hpad⟩
      rw [← hpad] at hd
      exact decompressSymbols_spec hc (by rw [hdepth]; decide) hd (by omega)
        (by simpa using hroom)
  refine ⟨?_, ?_, hiff, ?_⟩
  · intro Bits pNode hlut hinner k Bits' Bitcount
    exact hc.walk_fuel (by rw [hdepth]; decide) hlut hinner k Bits' Bitcount
  · intro k
    exact decompressSymbols_fuel (Nat.zero_le _) (by simp) k
  · intro hnone
    cases hrun : Default.Decompress pInput OutputSize with
    | error stored => exact ⟨stored, rfl⟩
    | ok y => exact absurd ⟨y, (hiff y).mp hrun⟩ hnone

end Fex.Engine.Huffman
