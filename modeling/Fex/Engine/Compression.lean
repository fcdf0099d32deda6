import Fex.Engine.Packer.Fields
import Fex.Lib.Cells

/-!
# Packed arrays of integers

Model of `CVariableInt` on memory: `Pack` and `Unpack` at a position of a buffer, and
`Compress` and `Decompress`, which repeat them.  What they write and read is what the
functions on lists of bytes return.
-/

namespace Fex.Engine.Compression

open Fex.Lib Fex.Engine.Packer

/-! ## Functions -/

/-- The loop of `Pack`: `i` is left, the byte at `pDst` is written. -/
def packLoop (mem : List UInt8) (pDst i : Nat) : Nat → Exec (List UInt8 × Option Nat)
  | 0 => if i = 0 then .ok (mem, some (pDst + 1)) else .ok (mem, none)
  | DstSize + 1 =>
      if i = 0 then .ok (mem, some (pDst + 1))
      else do
        let mem ← store mem pDst ((← load mem pDst) ||| 0x80)
        let mem ← store mem (pDst + 1) (.ofNat (i &&& 0x7F))
        packLoop mem (pDst + 1) (i >>> 7) DstSize

/-- The memory and the new pointer, `none` is the null pointer. -/
def Pack (mem : List UInt8) (pDst : Nat) (i : Int) : Nat → Exec (List UInt8 × Option Nat)
  | 0 => .ok (mem, none)
  | DstSize + 1 => do
      let mem ← store mem pDst 0
      let mem ← if i < 0 then store mem pDst ((← load mem pDst) ||| 0x40) else .ok mem
      let i := if i < 0 then (-i - 1).toNat else i.toNat
      let mem ← store mem pDst ((← load mem pDst) ||| .ofNat (i &&& 0x3F))
      packLoop mem pDst (i >>> 6) DstSize

/-- The loop of `Unpack`: the new pointer to the byte read last, and the value. -/
def unpackLoop (src : List UInt8) : List (Nat × Nat) → Nat → Nat → Nat → Exec (Option Nat × Nat)
  | [], pSrc, pInOut, _ => .ok (some pSrc, pInOut)
  | (mask, shift) :: masks, pSrc, pInOut, SrcSize => do
      if (← load src pSrc) &&& 0x80 = 0 then return (some pSrc, pInOut)
      else
        match SrcSize with
        | 0 => return (none, pInOut)
        | SrcSize + 1 =>
            let byte ← load src (pSrc + 1)
            unpackLoop src masks (pSrc + 1) (pInOut ||| (byte.toNat &&& mask) <<< shift) SrcSize

/-- The new pointer and `*pInOut`. -/
def Unpack (src : List UInt8) (pSrc : Nat) (pInOut : Int) : Nat → Exec (Option Nat × Int)
  | 0 => .ok (none, pInOut)
  | SrcSize + 1 => do
      let byte ← load src pSrc
      let Sign := (byte.toNat >>> 6) &&& 1
      match ← unpackLoop src CVariableInt.masks pSrc (byte.toNat &&& 0x3F) SrcSize with
      | (none, value) => return (none, value)
      | (some pSrc, value) =>
          -- if(sign) *i = ~(*i)
          return (some (pSrc + 1), if Sign = 1 then -(value : Int) - 1 else value)

/-- `-1` or the bytes written, and the destination. -/
def decompressLoop (src : List UInt8) (pDstEnd : Nat) (dst : List Int) (pSrc pDst : Nat) :
    Exec (Int × List Int) :=
  if pSrc < src.length then
    if pDstEnd ≤ pDst then .ok (-1, dst)
    else do
      let (pSrc, value) ← Unpack src pSrc (← load dst pDst) (src.length - pSrc)
      let dst ← store dst pDst value
      match pSrc with
      | none => return (-1, dst)
      | some pSrc => decompressLoop src pDstEnd dst pSrc (pDst + 1)
  else .ok (4 * pDst, dst)
termination_by pDstEnd - pDst

def Decompress (src : List UInt8) (dst : List Int) (DstSize : Nat) : Exec (Int × List Int) :=
  if DstSize % 4 ≠ 0 then .error .assertion
  else decompressLoop src (DstSize / 4) dst 0 0

/-- `-1` or the bytes written, and the destination. -/
def compressLoop (DstSize : Nat) (dst : List UInt8) (pDst : Nat) :
    List Int → Exec (Int × List UInt8)
  | [] => .ok (pDst, dst)
  | i :: src => do
      let (dst, pDst) ← Pack dst pDst i (DstSize - pDst)
      match pDst with
      | none => return (-1, dst)
      | some pDst => compressLoop DstSize dst pDst src

def Compress (src : List Int) (dst : List UInt8) (DstSize : Nat) : Exec (Int × List UInt8) :=
  compressLoop DstSize dst 0 src

/-! ## Packing -/

/-- The loop writes what the one on lists returns and nothing before. -/
theorem packLoop_spec {pre post : List UInt8} {byte i D : Nat} (hD : D ≤ post.length) :
    ∃ rest, packLoop (pre ++ .ofNat byte :: post) pre.length i D =
        .ok (pre ++ rest,
          (CVariableInt.packLoop byte i D).map fun bytes => pre.length + bytes.length) ∧
      rest.length = post.length + 1 ∧
      ∀ bytes, CVariableInt.packLoop byte i D = some bytes → bytes <+: rest := by
  induction D generalizing pre post byte i with
  | zero =>
      refine ⟨.ofNat byte :: post, ?_, List.length_cons, ?_⟩
      · unfold packLoop CVariableInt.packLoop
        split <;> rfl
      · intro bytes hbytes
        unfold CVariableInt.packLoop at hbytes
        split at hbytes
        · cases hbytes
          exact ⟨post, rfl⟩
        · cases hbytes
  | succ D ih =>
      unfold packLoop CVariableInt.packLoop
      by_cases hi : i = 0
      · refine ⟨.ofNat byte :: post, ?_, List.length_cons, ?_⟩
        · rw [if_pos hi, if_pos hi]
          rfl
        · rw [if_pos hi]
          intro bytes hbytes
          cases hbytes
          exact ⟨post, rfl⟩
      · cases post with
        | nil => cases hD
        | cons next post =>
            have hnext : store (pre ++ (UInt8.ofNat byte ||| 0x80) :: next :: post) (pre.length + 1)
                (.ofNat (i &&& 0x7F)) =
                .ok ((pre ++ [UInt8.ofNat byte ||| 0x80]) ++ .ofNat (i &&& 0x7F) :: post) := by
              have hstore := store_append (pre ++ [UInt8.ofNat byte ||| 0x80]) next post
                (.ofNat (i &&& 0x7F))
              rw [List.length_append, List.append_assoc] at hstore
              exact hstore
            obtain ⟨rest, hrun, hlength, hprefix⟩ :=
              @ih (pre ++ [UInt8.ofNat byte ||| 0x80]) post (i &&& 0x7F) (i >>> 7)
                (Nat.le_of_succ_le_succ hD)
            rw [if_neg hi, if_neg hi, load_append]
            refine ⟨(UInt8.ofNat byte ||| 0x80) :: rest, ?_, ?_, ?_⟩
            · show (store _ _ (UInt8.ofNat byte ||| 0x80) >>= fun mem =>
                store mem (pre.length + 1) (.ofNat (i &&& 0x7F)) >>= fun mem =>
                packLoop mem (pre.length + 1) (i >>> 7) D) = _
              rw [store_append]
              show (store (pre ++ (UInt8.ofNat byte ||| 0x80) :: next :: post) (pre.length + 1)
                (.ofNat (i &&& 0x7F)) >>= fun mem =>
                packLoop mem (pre.length + 1) (i >>> 7) D) = _
              rw [hnext]
              rw [List.length_append] at hrun
              refine hrun.trans ?_
              rw [Option.map_map, List.append_assoc]
              apply congrArg (fun f => Except.ok (pre ++ (UInt8.ofNat byte ||| 0x80) :: rest,
                Option.map f (CVariableInt.packLoop (i &&& 0x7F) (i >>> 7) D)))
              funext bytes
              show pre.length + 1 + bytes.length = pre.length + (bytes.length + 1)
              omega
            · rw [List.length_cons, List.length_cons, hlength]
            · intro bytes hbytes
              obtain ⟨bytes', hbytes', rfl⟩ := Option.map_eq_some_iff.mp hbytes
              rw [UInt8.ofNat_or]
              exact List.cons_prefix_cons.mpr ⟨rfl, hprefix bytes' hbytes'⟩

/-- `Pack` writes what the one on lists returns. -/
theorem Pack_spec {pre post : List UInt8} {D : Nat} (i : Int) (hD : D ≤ post.length) :
    ∃ rest, Pack (pre ++ post) pre.length i D =
        .ok (pre ++ rest, (CVariableInt.Pack i D).map fun bytes => pre.length + bytes.length) ∧
      rest.length = post.length ∧
      ∀ bytes, CVariableInt.Pack i D = some bytes → bytes <+: rest := by
  cases D with
  | zero => exact ⟨post, rfl, rfl, fun bytes h => by cases h⟩
  | succ D =>
      cases post with
      | nil => cases hD
      | cons first post =>
          obtain ⟨rest, hrun, hlength, hprefix⟩ := @packLoop_spec pre post
            ((if i < 0 then 0x40 else 0) ||| (if i < 0 then (-i - 1).toNat else i.toNat) &&& 0x3F)
            ((if i < 0 then (-i - 1).toNat else i.toNat) >>> 6) D (Nat.le_of_succ_le_succ hD)
          refine ⟨rest, ?_, hlength, hprefix⟩
          refine Eq.trans ?_ hrun
          unfold Pack
          rw [store_append]
          by_cases hi : i < 0
          · simp only [bind, Except.bind, if_pos hi, load_append, store_append, UInt8.ofNat_or]
            rfl
          · simp only [bind, Except.bind, if_neg hi, load_append, store_append, UInt8.ofNat_or]
            rfl

/-! ## Encodings -/

/-- The length of what the loop writes does not depend on the space it has. -/
theorem packLoop_space {byte i D D' : Nat} {bytes : List UInt8}
    (h : CVariableInt.packLoop byte i D = some bytes) :
    CVariableInt.packLoop byte i D' = if bytes.length ≤ D' + 1 then some bytes else none := by
  have hstop : ∀ (byte D : Nat), CVariableInt.packLoop byte 0 D = some [.ofNat byte] := by
    intro byte D
    cases D <;> exact if_pos rfl
  induction D generalizing byte i D' bytes with
  | zero =>
      unfold CVariableInt.packLoop at h
      split at h
      next hi =>
        cases h
        rw [hi, hstop, if_pos (by simp)]
      next => cases h
  | succ D ih =>
      by_cases hi : i = 0
      · rw [hi, hstop] at h
        cases h
        rw [hi, hstop, if_pos (by simp)]
      · unfold CVariableInt.packLoop at h
        rw [if_neg hi] at h
        obtain ⟨bytes', hbytes', rfl⟩ := Option.map_eq_some_iff.mp h
        cases D' with
        | zero =>
            have hne : bytes'.length ≠ 0 := by
              obtain ⟨tail, rfl⟩ := packLoop_head hbytes'
              exact Nat.succ_ne_zero _
            unfold CVariableInt.packLoop
            rw [if_neg hi, if_neg (by rw [List.length_cons]; omega)]
        | succ D' =>
            unfold CVariableInt.packLoop
            rw [if_neg hi, @ih _ _ D' _ hbytes', List.length_cons]
            by_cases hle : bytes'.length ≤ D' + 1
            · rw [if_pos hle, if_pos (Nat.succ_le_succ hle)]
              rfl
            · rw [if_neg hle, if_neg (fun h => hle (Nat.le_of_succ_le_succ h))]
              rfl

/-- Every seven bits take one more byte. -/
theorem packLoop_fits {byte i D : Nat} (hi : i < 2 ^ (7 * D)) :
    ∃ bytes, CVariableInt.packLoop byte i D = some bytes := by
  induction D generalizing byte i with
  | zero =>
      have hzero : i = 0 := by
        rw [Nat.mul_zero, Nat.pow_zero] at hi
        omega
      exact ⟨_, if_pos hzero⟩
  | succ D ih =>
      unfold CVariableInt.packLoop
      split
      · exact ⟨_, rfl⟩
      · have hshift : i >>> 7 < 2 ^ (7 * D) := by
          rw [Nat.shiftRight_eq_div_pow]
          apply Nat.div_lt_of_lt_mul
          rw [← Nat.pow_add, Nat.add_comm 7]
          exact hi
        obtain ⟨bytes, hbytes⟩ := @ih (i &&& 0x7F) _ hshift
        rw [hbytes]
        exact ⟨_, rfl⟩

def MAX_BYTES_PACKED : Nat := 5

/-- The encoding of an integer. -/
def packed (i : Int) : List UInt8 := (CVariableInt.Pack i MAX_BYTES_PACKED).getD []

/-- An integer is packed where its encoding fits. -/
theorem Pack_eq {i : Int} (hi : IsInt32 i) (D : Nat) :
    CVariableInt.Pack i D = if (packed i).length ≤ D then some (packed i) else none := by
  have hsmall : (if i < 0 then (-i - 1).toNat else i.toNat) >>> 6 < 2 ^ (7 * 4) := by
    unfold IsInt32 at hi
    rw [Nat.shiftRight_eq_div_pow]
    split <;> omega
  obtain ⟨bytes, hbytes⟩ := @packLoop_fits ((if i < 0 then 0x40 else 0) |||
    (if i < 0 then (-i - 1).toNat else i.toNat) &&& 0x3F) _ 4 hsmall
  have hpacked : packed i = bytes := congrArg (fun o : Option (List UInt8) => o.getD []) hbytes
  rw [hpacked]
  cases D with
  | zero =>
      have hne : bytes.length ≠ 0 := by
        obtain ⟨tail, rfl⟩ := packLoop_head hbytes
        exact Nat.succ_ne_zero _
      rw [if_neg (by omega)]
      rfl
  | succ D => exact packLoop_space hbytes

/-- The encodings one after the other. -/
def packedAll (src : List Int) : List UInt8 := src.flatMap packed

theorem packedAll_cons (i : Int) (src : List Int) :
    packedAll (i :: src) = packed i ++ packedAll src := List.flatMap_cons

/-- The loop fails where the encodings do not fit, else they are written. -/
theorem compressLoop_spec {pre post : List UInt8} {src : List Int} {DstSize : Nat}
    (hsrc : ∀ i ∈ src, IsInt32 i) (hsize : DstSize = pre.length + post.length) :
    ∃ rest, compressLoop DstSize (pre ++ post) pre.length src =
        .ok (if (packedAll src).length ≤ post.length then
            ((pre.length + (packedAll src).length : Nat) : Int)
          else -1, pre ++ rest) ∧
      rest.length = post.length ∧ ((packedAll src).length ≤ post.length → packedAll src <+: rest) := by
  induction src generalizing pre post with
  | nil => exact ⟨post, rfl, rfl, fun _ => List.nil_prefix⟩
  | cons i src ih =>
      have hi := hsrc i List.mem_cons_self
      obtain ⟨rest, hrun, hlength, hprefix⟩ := @Pack_spec pre post post.length i (Nat.le_refl _)
      rw [Pack_eq hi] at hrun hprefix
      unfold compressLoop
      rw [packedAll_cons, List.length_append, hsize, Nat.add_sub_cancel_left, hrun]
      by_cases hfits : (packed i).length ≤ post.length
      · rw [if_pos hfits] at hprefix ⊢
        obtain ⟨tail, htail⟩ := hprefix _ rfl
        rw [← htail, List.length_append] at hlength
        obtain ⟨rest', hrun', hlength', hprefix'⟩ := @ih (pre ++ packed i) tail
          (fun j hj => hsrc j (List.mem_cons_of_mem i hj))
          (by rw [List.length_append]; omega)
        refine ⟨packed i ++ rest', ?_, ?_, ?_⟩
        · have hiff : (packedAll src).length ≤ tail.length ↔
              (packed i).length + (packedAll src).length ≤ post.length := by omega
          rw [List.length_append, List.append_assoc, List.append_assoc, htail, hsize] at hrun'
          simp only [hiff, Nat.add_assoc] at hrun'
          exact hrun'
        · rw [List.length_append]
          omega
        · intro hle
          obtain ⟨tail', htail'⟩ := hprefix' (by omega)
          exact ⟨tail', by rw [List.append_assoc, htail']⟩
      · refine ⟨rest, ?_, hlength, fun hle => by omega⟩
        rw [if_neg hfits, if_neg (by omega)]
        rfl

/-! ## Unpacking -/

/-- The loop reads what the one on lists returns. -/
theorem unpackLoop_spec {src tail : List UInt8} {masks : List (Nat × Nat)} {pSrc pInOut : Nat}
    {byte : UInt8} (hdrop : src.drop pSrc = byte :: tail) :
    (∀ value rest, CVariableInt.unpackLoop masks byte pInOut tail = some (value, rest) →
        ∃ p, unpackLoop src masks pSrc pInOut tail.length = .ok (some p, value) ∧
          src.drop (p + 1) = rest ∧ pSrc ≤ p ∧ p < src.length) ∧
      (CVariableInt.unpackLoop masks byte pInOut tail = none →
        ∃ value, unpackLoop src masks pSrc pInOut tail.length = .ok (none, value)) := by
  have hlt : pSrc < src.length := by
    apply Nat.lt_of_not_le
    intro hle
    rw [List.drop_eq_nil_of_le hle] at hdrop
    cases hdrop
  have hload : load src pSrc = .ok byte := by
    apply load_eq
    rw [← List.head?_drop, hdrop]
    rfl
  have hrest : src.drop (pSrc + 1) = tail := by
    rw [← List.tail_drop, hdrop]
    rfl
  induction masks generalizing pSrc pInOut byte tail with
  | nil =>
      refine ⟨fun value rest h => ?_, fun h => by cases h⟩
      cases h
      exact ⟨pSrc, rfl, hrest, Nat.le_refl _, hlt⟩
  | cons group masks ih =>
      obtain ⟨mask, shift⟩ := group
      unfold unpackLoop CVariableInt.unpackLoop
      rw [hload]
      by_cases hlast : byte &&& 0x80 = 0
      · rw [if_pos hlast]
        refine ⟨fun value rest h => ?_, fun h => by cases h⟩
        cases h
        refine ⟨pSrc, ?_, hrest, Nat.le_refl _, hlt⟩
        exact if_pos hlast
      · rw [if_neg hlast]
        cases tail with
        | nil =>
            refine ⟨fun value rest h => (by cases h), fun _ => ⟨pInOut, ?_⟩⟩
            exact if_neg hlast
        | cons next tail =>
            have hlt' : pSrc + 1 < src.length := by
              apply Nat.lt_of_not_le
              intro hle
              rw [List.drop_eq_nil_of_le hle] at hrest
              cases hrest
            have hload' : load src (pSrc + 1) = .ok next := by
              apply load_eq
              rw [← List.head?_drop, hrest]
              rfl
            have hrest' : src.drop (pSrc + 1 + 1) = tail := by
              rw [← List.tail_drop, hrest]
              rfl
            obtain ⟨hsome, hnone⟩ :=
              @ih tail (pSrc + 1) (pInOut ||| (next.toNat &&& mask) <<< shift) next hrest hlt' hload'
                hrest'
            have hgo : (if byte &&& 0x80 = 0 then (.ok (some pSrc, pInOut) : Exec _) else
                load src (pSrc + 1) >>= fun byte => unpackLoop src masks (pSrc + 1)
                  (pInOut ||| (byte.toNat &&& mask) <<< shift) tail.length) =
                unpackLoop src masks (pSrc + 1) (pInOut ||| (next.toNat &&& mask) <<< shift)
                  tail.length := by
              rw [if_neg hlast, hload']
              rfl
            constructor
            · intro value rest h
              obtain ⟨p, hrun, hp, hle, hplt⟩ := hsome value rest h
              exact ⟨p, hgo.trans hrun, hp, by omega, hplt⟩
            · intro h
              obtain ⟨value, hrun⟩ := hnone h
              exact ⟨value, hgo.trans hrun⟩

/-- `Unpack` reads what the one on lists returns. -/
theorem Unpack_spec {src tail : List UInt8} {pSrc : Nat} {byte : UInt8} (pInOut : Int)
    (hdrop : src.drop pSrc = byte :: tail) :
    (∀ i rest, CVariableInt.Unpack (byte :: tail) = some (i, rest) →
        ∃ p, Unpack src pSrc pInOut (tail.length + 1) = .ok (some p, i) ∧ src.drop p = rest ∧
          pSrc < p ∧ p ≤ src.length) ∧
      (CVariableInt.Unpack (byte :: tail) = none →
        ∃ i, Unpack src pSrc pInOut (tail.length + 1) = .ok (none, i)) := by
  have hload : load src pSrc = .ok byte := by
    apply load_eq
    rw [← List.head?_drop, hdrop]
    rfl
  obtain ⟨hsome, hnone⟩ := @unpackLoop_spec src tail CVariableInt.masks pSrc
    (byte.toNat &&& 0x3F) byte hdrop
  unfold Unpack CVariableInt.Unpack
  rw [hload]
  constructor
  · intro i rest h
    obtain ⟨⟨value, rest'⟩, hvalue, heq⟩ := Option.map_eq_some_iff.mp h
    cases heq
    obtain ⟨p, hrun, hp, hle, hlt⟩ := hsome value rest' hvalue
    refine ⟨p + 1, ?_, hp, by omega, hlt⟩
    show (unpackLoop src CVariableInt.masks pSrc (byte.toNat &&& 0x3F) tail.length >>= _) = _
    rw [hrun]
    rfl
  · intro h
    obtain ⟨value, hrun⟩ := hnone (Option.map_eq_none_iff.mp h)
    refine ⟨value, ?_⟩
    show (unpackLoop src CVariableInt.masks pSrc (byte.toNat &&& 0x3F) tail.length >>= _) = _
    rw [hrun]
    rfl

/-- The integers that the bytes hold one after the other. -/
inductive Decodes : List UInt8 → List Int → Prop
  | nil : Decodes [] []
  | cons {bytes rest : List UInt8} {i : Int} {src : List Int} :
      CVariableInt.Unpack bytes = some (i, rest) → Decodes rest src → Decodes bytes (i :: src)

theorem Decodes.unique {bytes : List UInt8} {src src' : List Int} (h : Decodes bytes src)
    (h' : Decodes bytes src') : src = src' := by
  induction h generalizing src' with
  | nil =>
      cases h' with
      | nil => rfl
      | cons hunpack _ => cases hunpack
  | cons hunpack _ ih =>
      cases h' with
      | nil => cases hunpack
      | cons hunpack' hrest =>
          rw [hunpack] at hunpack'
          cases hunpack'
          rw [ih hrest]

theorem decodes_packedAll {src : List Int} (hsrc : ∀ i ∈ src, IsInt32 i) :
    Decodes (packedAll src) src := by
  induction src with
  | nil => exact .nil
  | cons i src ih =>
      have hi := hsrc i List.mem_cons_self
      have hpack := Pack_eq hi (packed i).length
      rw [if_pos (Nat.le_refl _)] at hpack
      rw [packedAll_cons]
      exact .cons (unpack_pack hi hpack _) (ih fun j hj => hsrc j (List.mem_cons_of_mem i hj))

/-- The loop reads all integers where they fit, else it fails. -/
theorem decompressLoop_spec {src s : List UInt8} {pre post : List Int} {pSrc n : Nat}
    (hdrop : src.drop pSrc = s) (hn : n ≤ post.length) :
    ∃ r dst, decompressLoop src (pre.length + n) (pre ++ post) pSrc pre.length = .ok (r, dst) ∧
      ((r = -1 ∧ ∀ is, Decodes s is → n < is.length) ∨
        ∃ is, Decodes s is ∧ r = 4 * ((pre.length + is.length : Nat) : Int) ∧ pre ++ is <+: dst) := by
  induction n generalizing s pre post pSrc with
  | zero =>
      rw [decompressLoop]
      cases s with
      | nil =>
          have hend : src.length ≤ pSrc := List.drop_eq_nil_iff.mp hdrop
          rw [if_neg (by omega)]
          refine ⟨_, _, rfl, .inr ⟨[], .nil, rfl, ?_⟩⟩
          rw [List.append_nil]
          exact List.prefix_append pre post
      | cons byte tail =>
          have hlt : pSrc < src.length := by
            apply Nat.lt_of_not_le
            intro hle
            rw [List.drop_eq_nil_of_le hle] at hdrop
            cases hdrop
          rw [if_pos hlt, if_pos (Nat.le_of_eq (Nat.add_zero _))]
          refine ⟨_, _, rfl, .inl ⟨rfl, fun is his => ?_⟩⟩
          cases his with
          | cons _ _ => exact Nat.succ_pos _
  | succ n ih =>
      rw [decompressLoop]
      cases s with
      | nil =>
          have hend : src.length ≤ pSrc := List.drop_eq_nil_iff.mp hdrop
          rw [if_neg (by omega)]
          refine ⟨_, _, rfl, .inr ⟨[], .nil, rfl, ?_⟩⟩
          rw [List.append_nil]
          exact List.prefix_append pre post
      | cons byte tail =>
          have hlt : pSrc < src.length := by
            apply Nat.lt_of_not_le
            intro hle
            rw [List.drop_eq_nil_of_le hle] at hdrop
            cases hdrop
          have hleft : src.length - pSrc = tail.length + 1 := by
            rw [← List.length_drop, hdrop, List.length_cons]
          cases post with
          | nil => cases hn
          | cons v post =>
              rw [if_pos hlt, if_neg (by omega), load_append, hleft]
              obtain ⟨hsome, hnone⟩ := Unpack_spec v hdrop
              cases hunpack : CVariableInt.Unpack (byte :: tail) with
              | none =>
                  obtain ⟨i, hrun⟩ := hnone hunpack
                  refine ⟨-1, pre ++ i :: post, ?_, .inl ⟨rfl, fun is his => ?_⟩⟩
                  · show (Unpack src pSrc v (tail.length + 1) >>= _) = _
                    rw [hrun]
                    show (store (pre ++ v :: post) pre.length i >>= _) = _
                    rw [store_append]
                    rfl
                  · cases his with
                    | cons hsomeUnpack _ =>
                        rw [hunpack] at hsomeUnpack
                        cases hsomeUnpack
              | some r =>
                  obtain ⟨i, rest⟩ := r
                  obtain ⟨p, hrun, hp, -, -⟩ := hsome i rest hunpack
                  obtain ⟨r, dst, hloop, hr⟩ := @ih rest (pre ++ [i]) post p hp
                    (Nat.le_of_succ_le_succ hn)
                  refine ⟨r, dst, ?_, ?_⟩
                  · show (Unpack src pSrc v (tail.length + 1) >>= _) = _
                    rw [hrun]
                    show (store (pre ++ v :: post) pre.length i >>= _) = _
                    rw [store_append]
                    rw [List.length_append, List.length_singleton, List.append_assoc,
                      Nat.add_assoc, Nat.add_comm 1 n] at hloop
                    exact hloop
                  · rcases hr with ⟨hfail, hall⟩ | ⟨is, his, hr, hprefix⟩
                    · refine .inl ⟨hfail, fun is his => ?_⟩
                      cases his with
                      | cons hunpack' hrest =>
                          rw [hunpack] at hunpack'
                          cases hunpack'
                          exact Nat.succ_lt_succ (hall _ hrest)
                    · refine .inr ⟨i :: is, .cons hunpack his, ?_, ?_⟩
                      · rw [hr, List.length_append, List.length_singleton, List.length_cons]
                        omega
                      · rw [List.append_assoc] at hprefix
                        exact hprefix

theorem Decompress_spec (src : List UInt8) {dst : List Int} {DstSize : Nat}
    (haligned : DstSize % 4 = 0) (hsize : DstSize ≤ 4 * dst.length) :
    ∃ r dst', Decompress src dst DstSize = .ok (r, dst') ∧
      ((r = -1 ∧ ∀ is, Decodes src is → DstSize < 4 * is.length) ∨
        ∃ is, Decodes src is ∧ r = 4 * (is.length : Int) ∧ is <+: dst') := by
  obtain ⟨r, dst', hrun, hr⟩ := @decompressLoop_spec src src [] dst 0 (DstSize / 4) rfl (by omega)
  rw [List.length_nil, Nat.zero_add] at hrun
  refine ⟨r, dst', ?_, ?_⟩
  · unfold Decompress
    rw [if_neg (not_not_intro haligned)]
    exact hrun
  · rcases hr with ⟨hfail, hall⟩ | ⟨is, his, hr, hprefix⟩
    · refine .inl ⟨hfail, fun is his => ?_⟩
      have := hall is his
      omega
    · rw [List.length_nil, Nat.zero_add] at hr
      exact .inr ⟨is, his, hr, hprefix⟩

/-- An array is compressed where its encodings fit and decompressed to itself; any bytes are
decompressed to the integers they hold, or fail. -/
theorem array_codec :
    (∀ (src : List Int) (dst : List UInt8), (∀ i ∈ src, IsInt32 i) →
      ∃ size dst', Compress src dst dst.length = .ok (size, dst') ∧
        (size = -1 ↔ dst.length < (src.map fun i => (packed i).length).sum) ∧
        (size ≠ -1 → ∀ (out : List Int) (DstSize : Nat), DstSize % 4 = 0 →
          4 * src.length ≤ DstSize → DstSize ≤ 4 * out.length →
          ∃ out', Decompress (dst'.take size.toNat) out DstSize = .ok (4 * src.length, out') ∧
            out'.take src.length = src)) ∧
    ∀ (src : List UInt8) (dst : List Int) (DstSize : Nat), DstSize % 4 = 0 →
      DstSize ≤ 4 * dst.length →
      ∃ r dst', Decompress src dst DstSize = .ok (r, dst') ∧
        (r = -1 ∨ ∃ is, Decodes src is ∧ r = 4 * (is.length : Int) ∧ dst'.take is.length = is) := by
  constructor
  · intro src dst hsrc
    obtain ⟨rest, hrun, hlength, hprefix⟩ := @compressLoop_spec [] dst src dst.length hsrc
      (Nat.zero_add _).symm
    have htotal : (src.map fun i => (packed i).length).sum = (packedAll src).length :=
      List.length_flatMap.symm
    rw [List.length_nil, Nat.zero_add, List.nil_append, List.nil_append] at hrun
    refine ⟨_, rest, hrun, ?_, ?_⟩
    · rw [htotal]
      split <;> omega
    · intro hsize out DstSize haligned hspace hout
      have hfits : (packedAll src).length ≤ dst.length := by
        by_contra hnot
        rw [if_neg hnot] at hsize
        exact hsize rfl
      have htake := List.prefix_iff_eq_take.mp <| hprefix hfits
      rw [if_pos hfits, Int.toNat_natCast, ← htake]
      obtain ⟨r, out', hdecompress, hr⟩ := Decompress_spec (packedAll src) haligned hout
      have hdecodes := decodes_packedAll hsrc
      rcases hr with ⟨-, hall⟩ | ⟨is, his, rfl, hprefix'⟩
      · have := hall src hdecodes
        omega
      · rw [his.unique hdecodes] at hprefix' hdecompress
        exact ⟨out', hdecompress, (List.prefix_iff_eq_take.mp hprefix').symm⟩
  · intro src dst DstSize haligned hsize
    obtain ⟨r, dst', hrun, hr⟩ := Decompress_spec src haligned hsize
    refine ⟨r, dst', hrun, ?_⟩
    rcases hr with ⟨hfail, -⟩ | ⟨is, his, hr, hprefix⟩
    · exact .inl hfail
    · exact .inr ⟨is, his, hr, (List.prefix_iff_eq_take.mp hprefix).symm⟩

/-- `1` and `-65` take three bytes, one byte with the extend bit is no integer. -/
theorem array_codec_example :
    (∃ size dst', Compress [1, -65] [0, 0, 0] 3 = .ok (size, dst') ∧ size ≠ -1 ∧
      ∃ out', Decompress (dst'.take size.toNat) [0, 0] 8 = .ok (8, out') ∧
        out'.take 2 = [1, -65]) ∧
      ∃ r dst', Decompress [0x80] [0] 4 = .ok (r, dst') ∧
        (r = -1 ∨ ∃ is, Decodes [0x80] is ∧ r = 4 * (is.length : Int) ∧
          dst'.take is.length = is) := by
  constructor
  · obtain ⟨size, dst', hrun, hsize, hback⟩ := array_codec.1 [1, -65] [0, 0, 0] (by decide)
    have hne : size ≠ -1 := fun h => absurd (hsize.mp h) (by decide)
    exact ⟨size, dst', hrun, hne, hback hne [0, 0] 8 (by decide) (by decide) (by decide)⟩
  · exact array_codec.2 [0x80] [0] 4 (by decide) (by decide)

end Fex.Engine.Compression
