import Fex.Engine.Huffman
import Fex.Lib.BitStream
import Fex.Lib.PrefixTree
import Mathlib.Data.List.Induction

/-!
# The tree behind the tables

`Shape` says that the nodes below an index form a code tree.  The construction
merges a forest of such trees into one, `Setbits_r` writes the word of every
symbol into its node, and the LUT holds the nodes ten bits below the root.
-/

namespace Fex.Engine.Huffman

open Fex.Lib Fex.Lib.BitStream Fex.Lib.PrefixTree

/-- The nodes below `i` form the tree `t`; inner nodes lie below `bound`. -/
def Shape (h : CHuffman) (bound : Nat) : Nat → PrefixTree Nat → Prop
  | i, .leaf s =>
      i = s ∧ s < HUFFMAN_MAX_SYMBOLS ∧ (h.m_aNodes s).m_NumBits ≠ 0 ∧
        (∀ b, (h.m_aNodes s).m_aLeafs b = 0xffff) ∧ (h.m_aNodes s).m_Symbol = .ofNat s
  | i, .node l r =>
      HUFFMAN_MAX_SYMBOLS ≤ i ∧ i < bound ∧ (h.m_aNodes i).m_NumBits = 0 ∧
        Shape h bound ((h.m_aNodes i).m_aLeafs false) l ∧
        Shape h bound ((h.m_aNodes i).m_aLeafs true) r

section Shape

variable {h h' : CHuffman} {bound i : Nat} {t : PrefixTree Nat}

/-- The node of a symbol is its leaf. -/
theorem Shape.leaf (hs : Shape h bound i t) : ∀ s ∈ t.symbols, Shape h bound s (.leaf s) := by
  induction t generalizing i with
  | leaf s' =>
      intro s hmem
      obtain rfl : s = s' := by simpa [symbols] using hmem
      exact hs.1 ▸ hs
  | node l r ihl ihr =>
      intro s hmem
      rcases List.mem_append.mp hmem with hmem | hmem
      · exact ihl hs.2.2.2.1 s hmem
      · exact ihr hs.2.2.2.2 s hmem

theorem Shape.symbols_lt (hs : Shape h bound i t) {s : Nat} (hmem : s ∈ t.symbols) :
    s < HUFFMAN_MAX_SYMBOLS := (hs.leaf s hmem).2.1

theorem Shape.numBits_ne_zero (hs : Shape h bound i t) {s : Nat} (hmem : s ∈ t.symbols) :
    (h.m_aNodes s).m_NumBits ≠ 0 := (hs.leaf s hmem).2.2.1

theorem Shape.symbol (hs : Shape h bound i t) {s : Nat} (hmem : s ∈ t.symbols) :
    (h.m_aNodes s).m_Symbol = .ofNat s := (hs.leaf s hmem).2.2.2.2

theorem Shape.index_lt (hs : Shape h bound i t) : i < max HUFFMAN_MAX_SYMBOLS bound := by
  cases t with
  | leaf s =>
      rw [hs.1]
      exact lt_max_of_lt_left hs.2.1
  | node l r => exact lt_max_of_lt_right hs.2.1

/-- A shape survives when nodes are added behind it. -/
theorem Shape.grow {bound' : Nat} (hbound : HUFFMAN_MAX_SYMBOLS ≤ bound) (hle : bound ≤ bound')
    (heq : ∀ j < bound, h'.m_aNodes j = h.m_aNodes j) (hs : Shape h bound i t) :
    Shape h' bound' i t := by
  induction t generalizing i with
  | leaf s =>
      have hlt := hs.2.1
      unfold Shape at hs ⊢
      rwa [heq s (by omega)]
  | node l r ihl ihr =>
      obtain ⟨hlow, hlt, hbits, hl, hr⟩ := hs
      refine ⟨hlow, by omega, ?_⟩
      rw [heq i hlt]
      exact ⟨hbits, ihl hl, ihr hr⟩

/-- A shape survives when only the codes of its symbols change. -/
theorem Shape.relabel (hinner : ∀ j, HUFFMAN_MAX_SYMBOLS ≤ j → h'.m_aNodes j = h.m_aNodes j)
    (hleaf : ∀ s ∈ t.symbols, (h'.m_aNodes s).m_NumBits ≠ 0 ∧
      (h'.m_aNodes s).m_aLeafs = (h.m_aNodes s).m_aLeafs ∧
      (h'.m_aNodes s).m_Symbol = (h.m_aNodes s).m_Symbol)
    (hs : Shape h bound i t) : Shape h' bound i t := by
  induction t generalizing i with
  | leaf s =>
      obtain ⟨hi, hlt, -, hleafs, hsym⟩ := hs
      obtain ⟨hbits, hleafs', hsym'⟩ := hleaf s (by simp [symbols])
      exact ⟨hi, hlt, hbits, by rwa [hleafs'], by rwa [hsym']⟩
  | node l r ihl ihr =>
      obtain ⟨hlow, hlt, hbits, hl, hr⟩ := hs
      refine ⟨hlow, hlt, ?_⟩
      rw [hinner i hlow]
      exact ⟨hbits, ihl (fun s h => hleaf s (by simp [symbols, h])) hl,
        ihr (fun s h => hleaf s (by simp [symbols, h])) hr⟩

end Shape

/-! ## The forest of the construction -/

/-- A node left to merge and the tree below it. -/
structure Entry where
  node : CHuffmanConstructNode
  tree : PrefixTree Nat

structure Forest (c : CHuffman × List CHuffmanConstructNode) (F : List Entry) : Prop where
  left : c.2 = F.map Entry.node
  shape : ∀ e ∈ F, Shape c.1 c.1.m_NumNodes e.node.m_NodeId e.tree
  symbols : (F.flatMap fun e => e.tree.symbols).Perm (List.range HUFFMAN_MAX_SYMBOLS)
  count : c.1.m_NumNodes + F.length = HUFFMAN_MAX_NODES + 1
  bound : HUFFMAN_MAX_SYMBOLS ≤ c.1.m_NumNodes

/-- The construction seen from one value of each tree and its frequency; `join` is the value of
a tree from those of its children. -/
def MergeWith {α : Type} (join : α → α → α) (ds : List (α × Nat)) : List (α × Nat) :=
  match (ds.insertionSort fun a b => b.2 ≤ a.2).reverse with
  | least :: second :: rest => rest.reverse ++ [(join least.1 second.1, least.2 + second.2)]
  | _ => ds

/-- What is left after all rounds when a symbol has the value `leaf` of its index. -/
def MergeValues {α : Type} (leaf : Nat → α) (join : α → α → α) (pFrequencies : Nat → Nat) :
    List α :=
  ((MergeWith join)^[HUFFMAN_MAX_SYMBOLS - 1]
    ((AddSymbols pFrequencies).2.map fun n => (leaf n.m_NodeId, n.m_Frequency))).map Prod.fst

/-- A merge when the trees are already in order, the least first. -/
def MergeSorted {α : Type} (join : α → α → α) : List (α × Nat) → List (α × Nat)
  | least :: second :: rest =>
      rest.orderedInsert (fun a b => a.2 ≤ b.2) (join least.1 second.1, least.2 + second.2)
  | ds => ds

section Sorted

variable {α : Type} {a x : α × Nat} {l : List (α × Nat)}

theorem orderedInsert_last (hl : ∀ y ∈ l, y.2 < x.2) :
    l.orderedInsert (fun a b => a.2 ≤ b.2) x = l ++ [x] := by
  induction l with
  | nil => rfl
  | cons y l ih =>
      have hy := hl y List.mem_cons_self
      rw [List.orderedInsert_cons, if_neg (by omega),
        ih fun z hz => hl z (List.mem_cons_of_mem y hz)]
      rfl

theorem orderedInsert_concat (hxa : x.2 ≤ a.2) : ∀ l : List (α × Nat),
    (l ++ [a]).orderedInsert (fun a b => a.2 ≤ b.2) x =
      l.orderedInsert (fun a b => a.2 ≤ b.2) x ++ [a]
  | [] => if_pos hxa
  | y :: l => by
      rw [List.cons_append, List.orderedInsert_cons, List.orderedInsert_cons,
        orderedInsert_concat hxa l]
      split <;> rfl

theorem orderedInsert_greatest (hl : ∀ y ∈ l, y.2 ≤ a.2) :
    l.orderedInsert (fun a b => b.2 ≤ a.2) a = a :: l := by
  cases l with
  | nil => rfl
  | cons y l => exact if_pos (hl y List.mem_cons_self)

/-- Sorting a sorted list with one more entry inserts that entry before its equals. -/
theorem sort_concat (hl : l.Pairwise fun a b => a.2 ≤ b.2) :
    ((l.reverse ++ [x]).insertionSort fun a b => b.2 ≤ a.2).reverse =
      l.orderedInsert (fun a b => a.2 ≤ b.2) x := by
  induction l using List.reverseRecOn with
  | nil => rfl
  | append_singleton l a ih =>
      obtain ⟨hl, -, hla⟩ := List.pairwise_append.mp hl
      replace hla : ∀ y ∈ l, y.2 ≤ a.2 := fun y hy => hla y hy a List.mem_cons_self
      have hsort := List.reverse_eq_iff.mp (ih hl)
      rw [List.reverse_concat, List.cons_append, List.insertionSort_cons, hsort]
      by_cases hxa : x.2 ≤ a.2
      · rw [orderedInsert_greatest, List.reverse_cons, List.reverse_reverse,
          orderedInsert_concat hxa]
        intro y hy
        rw [List.mem_reverse, List.mem_orderedInsert] at hy
        rcases hy with rfl | hy
        · exact hxa
        · exact hla y hy
      · rw [orderedInsert_last fun y hy => by have := hla y hy; omega, List.reverse_concat,
          List.orderedInsert_cons, if_neg hxa, orderedInsert_greatest, orderedInsert_last]
        · simp
        · intro y hy
          rcases List.mem_append.mp hy with hy | hy
          · have := hla y hy
            omega
          · rw [List.mem_singleton.mp hy]
            omega
        · exact fun y hy => hla y (List.mem_reverse.mp hy)

/-- A merge and the sorting before it are the insertion into the sorted list. -/
theorem sort_mergeWith (join : α → α → α) (ds : List (α × Nat)) :
    ((MergeWith join ds).insertionSort fun a b => b.2 ≤ a.2).reverse =
      MergeSorted join (ds.insertionSort fun a b => b.2 ≤ a.2).reverse := by
  have : Std.Total fun a b : α × Nat => b.2 ≤ a.2 := ⟨fun a b => Nat.le_total b.2 a.2⟩
  have : IsTrans (α × Nat) fun a b => b.2 ≤ a.2 := ⟨fun _ _ _ hab hbc => Nat.le_trans hbc hab⟩
  have hsorted := List.pairwise_reverse.mpr
    (List.pairwise_insertionSort (fun a b : α × Nat => b.2 ≤ a.2) ds)
  unfold MergeWith
  split
  · rename_i hds
    rw [hds] at hsorted ⊢
    exact sort_concat hsorted.of_cons.of_cons
  · rename_i hfew
    unfold MergeSorted
    split
    · rename_i hds
      exact absurd hds (hfew _ _ _)
    · rfl

theorem mergeValues_eq {leaf : Nat → α} {join : α → α → α} {pFrequencies : Nat → Nat} {v : α}
    (hv : ((MergeSorted join)^[HUFFMAN_MAX_SYMBOLS - 1]
      (((AddSymbols pFrequencies).2.map fun n => (leaf n.m_NodeId, n.m_Frequency)).insertionSort
        fun a b => b.2 ≤ a.2).reverse).map Prod.fst = [v]) :
    MergeValues leaf join pFrequencies = [v] := by
  have hsemi : Function.Semiconj
      (fun ds : List (α × Nat) => (ds.insertionSort fun a b => b.2 ≤ a.2).reverse)
      (MergeWith join) (MergeSorted join) := sort_mergeWith join
  rw [← hsemi.iterate_right _ _] at hv
  exact List.perm_singleton.mp
    (((List.perm_insertionSort _ _).symm.trans (List.reverse_perm _).symm).map Prod.fst |>.trans
      (.of_eq hv))

end Sorted

/-- The leaves with their frequencies, when all but the end symbol have one value. -/
theorem leaves_eq {α : Type} {leaf : Nat → α} {a : α} {freqs : List Nat}
    (hleaf : ∀ i < HUFFMAN_EOF_SYMBOL, leaf i = a) (hlen : HUFFMAN_EOF_SYMBOL ≤ freqs.length) :
    ((AddSymbols fun i => freqs.getD i 0).2.map fun n => (leaf n.m_NodeId, n.m_Frequency)) =
      (freqs.take HUFFMAN_EOF_SYMBOL).map (a, ·) ++ [(leaf HUFFMAN_EOF_SYMBOL, 1)] := by
  have hsymbols : (AddSymbols fun i => freqs.getD i 0).2.map
      (fun n => (leaf n.m_NodeId, n.m_Frequency)) =
      (List.range HUFFMAN_EOF_SYMBOL).map (fun i => (leaf i, if i = HUFFMAN_EOF_SYMBOL then 1
        else freqs.getD i 0)) ++ [(leaf HUFFMAN_EOF_SYMBOL, 1)] := by
    simp [AddSymbols, HUFFMAN_MAX_SYMBOLS, List.range_succ]
  rw [hsymbols]
  refine congrArg (· ++ _) (List.ext_getElem ?_ ?_)
  · simp [hlen]
  · intro i hi _
    rw [List.length_map, List.length_range] at hi
    simp [hleaf i hi, Nat.ne_of_lt hi, Nat.lt_of_lt_of_le hi hlen]

def Entry.measure {α : Type} (f : PrefixTree Nat → α) (e : Entry) : α × Nat :=
  (f e.tree, e.node.m_Frequency)

theorem forest_addSymbols (pFrequencies : Nat → Nat) :
    ∃ F, Forest (AddSymbols pFrequencies) F ∧ F.length = HUFFMAN_MAX_SYMBOLS ∧
      ∀ {α : Type} (f : PrefixTree Nat → α), F.map (Entry.measure f) =
        (AddSymbols pFrequencies).2.map fun n => (f (.leaf n.m_NodeId), n.m_Frequency) := by
  refine ⟨(AddSymbols pFrequencies).2.map fun n => ⟨n, .leaf n.m_NodeId⟩, ⟨?_, ?_, ?_, ?_, ?_⟩,
    ?_, ?_⟩
  · simp [List.map_map, Function.comp_def]
  · intro e he
    simp only [AddSymbols, List.map_map, List.mem_map, List.mem_range] at he
    obtain ⟨s, hs, rfl⟩ := he
    exact ⟨rfl, hs, by simp [AddSymbols, hs], by simp [AddSymbols, hs], by simp [AddSymbols, hs]⟩
  · simp [AddSymbols, symbols, List.flatMap_map, List.flatMap_singleton']
  · simp [AddSymbols, HUFFMAN_MAX_NODES, HUFFMAN_MAX_SYMBOLS, HUFFMAN_EOF_SYMBOL]
  · exact Nat.le_refl _
  · simp [AddSymbols]
  · simp [Entry.measure, Function.comp_def]

/-- One merge joins two trees under a new last node. -/
theorem forest_mergeNodes {c : CHuffman × List CHuffmanConstructNode} {F : List Entry}
    (hF : Forest c F) (hlen : 2 ≤ F.length) :
    ∃ F' e, Forest (MergeNodes c) (F' ++ [e]) ∧ F'.length + 2 = F.length ∧
      e.node.m_NodeId = c.1.m_NumNodes ∧ (∃ l r, e.tree = .node l r) ∧
      ∀ {α : Type} (f : PrefixTree Nat → α) (join : α → α → α),
        (∀ l r, f (.node l r) = join (f l) (f r)) →
          (F' ++ [e]).map (Entry.measure f) = MergeWith join (F.map (Entry.measure f)) := by
  obtain ⟨h, left⟩ := c
  have hleft : left = F.map Entry.node := hF.left
  set sorted := F.insertionSort fun a b => b.node.m_Frequency ≤ a.node.m_Frequency with hsorted
  have hperm : sorted.Perm F := List.perm_insertionSort _ _
  have hnodes : sorted.map Entry.node =
      left.insertionSort fun a b => b.m_Frequency ≤ a.m_Frequency := by
    rw [hleft]
    exact List.map_insertionSort _ _ _ _ fun _ _ _ _ => Iff.rfl
  have hvalues : ∀ {α : Type} (f : PrefixTree Nat → α), sorted.map (Entry.measure f) =
      (F.map (Entry.measure f)).insertionSort fun a b => b.2 ≤ a.2 :=
    fun f => List.map_insertionSort _ _ _ _ fun _ _ _ _ => Iff.rfl
  obtain ⟨least, second, rest, hrev⟩ : ∃ least second rest,
      sorted.reverse = least :: second :: rest := by
    have hlen' : 2 ≤ sorted.reverse.length := by
      rw [List.length_reverse, hperm.length_eq]
      exact hlen
    match hm : sorted.reverse with
    | [] => simp [hm] at hlen'
    | [_] => simp [hm] at hlen'
    | least :: second :: rest => exact ⟨least, second, rest, rfl⟩
  have hFperm : F.Perm (rest.reverse ++ [second, least]) := by
    have : sorted = rest.reverse ++ [second, least] := by
      rw [← List.reverse_reverse sorted, hrev]
      simp
    rw [← this]
    exact hperm.symm
  have hmem : ∀ e ∈ rest.reverse ++ [second, least], Shape h h.m_NumNodes e.node.m_NodeId e.tree :=
    fun e he => hF.shape e (hFperm.mem_iff.mpr he)
  have hmerge : MergeNodes (h, left) =
      ({ h.setNode h.m_NumNodes
          { h.m_aNodes h.m_NumNodes with
            m_NumBits := 0
            m_aLeafs := fun b => if b then second.node.m_NodeId else least.node.m_NodeId } with
          m_NumNodes := h.m_NumNodes + 1 },
        rest.reverse.map Entry.node ++
          [{ m_NodeId := h.m_NumNodes
             m_Frequency := least.node.m_Frequency + second.node.m_Frequency }]) := by
    unfold MergeNodes
    simp only
    rw [← hnodes, ← List.map_reverse, hrev]
    simp
  have hgrow : ∀ {i t}, Shape h h.m_NumNodes i t → Shape (MergeNodes (h, left)).1
      (MergeNodes (h, left)).1.m_NumNodes i t := by
    intro i t hs
    rw [hmerge]
    refine hs.grow hF.bound (Nat.le_succ _) fun j hj => ?_
    exact Function.update_of_ne (Nat.ne_of_lt hj) _ _
  have hlength := hFperm.length_eq
  simp only [List.length_append, List.length_cons, List.length_nil] at hlength
  have hcount := hF.count
  have hbound := hF.bound
  simp only at hcount hbound
  refine ⟨rest.reverse, ⟨⟨h.m_NumNodes, least.node.m_Frequency + second.node.m_Frequency⟩,
    .node least.tree second.tree⟩, ⟨?_, ?_, ?_, ?_, ?_⟩, ?_, rfl, ⟨_, _, rfl⟩, ?_⟩
  · rw [hmerge]
    simp
  · intro e he
    rcases List.mem_append.mp he with he | he
    · exact hgrow (hmem e (by simp [List.mem_reverse.mp he]))
    · obtain rfl := List.mem_singleton.mp he
      refine ⟨hbound, ?_, ?_, ?_, ?_⟩
      · simp [hmerge]
      · simp [hmerge, CHuffman.setNode]
      · have := hgrow (hmem least (by simp))
        simpa [hmerge, CHuffman.setNode] using this
      · have := hgrow (hmem second (by simp))
        simpa [hmerge, CHuffman.setNode] using this
  · refine .trans ?_ hF.symbols
    refine .trans ?_ (hFperm.flatMap_right _).symm
    simp only [List.flatMap_append, List.flatMap_cons, List.flatMap_nil, List.append_nil, symbols]
    exact List.perm_append_comm.append_left _
  · simp only [hmerge, List.length_append, List.length_cons, List.length_nil]
    omega
  · simp only [hmerge]
    omega
  · omega
  · intro α f join hjoin
    unfold MergeWith
    rw [← hvalues, ← List.map_reverse, hrev]
    simp [Entry.measure, hjoin]

theorem forest_rounds (pFrequencies : Nat → Nat) (k : Nat) (hk : k < HUFFMAN_MAX_SYMBOLS) :
    ∃ F, Forest (MergeNodes^[k] (AddSymbols pFrequencies)) F ∧
      F.length + k = HUFFMAN_MAX_SYMBOLS ∧
      ∀ {α : Type} (f : PrefixTree Nat → α) (join : α → α → α),
        (∀ l r, f (.node l r) = join (f l) (f r)) →
          F.map (Entry.measure f) = (MergeWith join)^[k]
            ((AddSymbols pFrequencies).2.map fun n => (f (.leaf n.m_NodeId), n.m_Frequency)) := by
  induction k with
  | zero =>
      obtain ⟨F, hF, hlen, hvalues⟩ := forest_addSymbols pFrequencies
      exact ⟨F, hF, hlen, fun f _ _ => hvalues f⟩
  | succ k ih =>
      obtain ⟨F, hF, hlen, hvalues⟩ := ih (by omega)
      obtain ⟨F', e, hF', hlen', -, -, hvalues'⟩ := forest_mergeNodes hF (by omega)
      refine ⟨F' ++ [e], ?_, ?_, ?_⟩
      · rwa [Function.iterate_succ_apply']
      · rw [List.length_append, List.length_singleton]
        omega
      · intro α f join hjoin
        rw [Function.iterate_succ_apply', ← hvalues f join hjoin, hvalues' f join hjoin]

/-- The construction ends with one tree over all symbols; its root is the last node.  A value
of the tree comes from those of the symbols by the same merges. -/
theorem mergeAll_spec (pFrequencies : Nat → Nat) :
    ∃ l r, (MergeAll pFrequencies).m_NumNodes = HUFFMAN_MAX_NODES ∧
      Shape (MergeAll pFrequencies) HUFFMAN_MAX_NODES (HUFFMAN_MAX_NODES - 1) (.node l r) ∧
      (symbols (.node l r)).Perm (List.range HUFFMAN_MAX_SYMBOLS) ∧
      ∀ {α : Type} (f : PrefixTree Nat → α) (join : α → α → α),
        (∀ l r, f (.node l r) = join (f l) (f r)) →
          MergeValues (fun i => f (.leaf i)) join pFrequencies = [f (.node l r)] := by
  obtain ⟨F, hF, hlen, hvalues⟩ :=
    forest_rounds pFrequencies (HUFFMAN_MAX_SYMBOLS - 2) (by decide)
  have hlen' : F.length = 2 := by
    simp only [HUFFMAN_MAX_SYMBOLS, HUFFMAN_EOF_SYMBOL] at hlen
    omega
  obtain ⟨F', e, hF', hlen'', hid, ⟨l, r, htree⟩, hvalues'⟩ :=
    forest_mergeNodes hF (Nat.le_of_eq hlen'.symm)
  obtain rfl : F' = [] := List.eq_nil_of_length_eq_zero (by omega)
  have hrounds : (HUFFMAN_MAX_SYMBOLS - 2).succ = HUFFMAN_MAX_SYMBOLS - 1 := rfl
  rw [← Function.iterate_succ_apply' MergeNodes, hrounds] at hF'
  have hall : MergeAll pFrequencies =
    (MergeNodes^[HUFFMAN_MAX_SYMBOLS - 1] (AddSymbols pFrequencies)).1 := by rw [MergeAll]
  rw [hall]
  generalize MergeNodes^[HUFFMAN_MAX_SYMBOLS - 1] (AddSymbols pFrequencies) = c at hF'
  have hnum : c.1.m_NumNodes = HUFFMAN_MAX_NODES := by
    have := hF'.count
    simp only [List.nil_append, List.length_singleton] at this
    exact Nat.succ.inj this
  have hroot : e.node.m_NodeId = HUFFMAN_MAX_NODES - 1 := by
    have := hF.count
    rw [hid]
    omega
  have hshape := hF'.shape e (by simp)
  refine ⟨l, r, hnum, ?_, ?_, ?_⟩
  · rw [← htree, ← hroot, ← hnum]
    exact hshape
  · have := hF'.symbols
    simpa [htree] using this
  · intro α f join hjoin
    have hmerged := hvalues' f join hjoin
    rw [hvalues f join hjoin, ← Function.iterate_succ_apply' (MergeWith join), hrounds] at hmerged
    unfold MergeValues
    rw [← hmerged]
    simp [Entry.measure, htree]

/-! ## The codes -/

/-- `Setbits_r` writes the words below `i`, prefixed by the path to `i`, and nothing else. -/
theorem setbits_spec {n : Nat} {h : CHuffman} {bound i : Nat} {t : PrefixTree Nat}
    (hs : Shape h bound i t) (hbound : bound ≤ HUFFMAN_MAX_NODES) (hnodup : t.symbols.Nodup)
    (hn : t.depth < n) (pre : List Bool) :
    ∃ h', Setbits_r n h i (value pre) pre.length = h' ∧
      (∀ j, j ∉ t.symbols → h'.m_aNodes j = h.m_aNodes j) ∧
      (∀ s p, Word t p s → h'.m_aNodes s =
        { h.m_aNodes s with m_Bits := value (pre ++ p), m_NumBits := (pre ++ p).length }) ∧
      h'.m_pStartNode = h.m_pStartNode := by
  induction t generalizing n h i pre with
  | leaf s =>
      obtain ⟨rfl, -, hbits, hleafs, -⟩ := hs
      obtain ⟨n, rfl⟩ := Nat.exists_eq_add_of_lt hn
      refine ⟨h.setNode i { h.m_aNodes i with m_Bits := value pre, m_NumBits := pre.length }, ?_,
        ?_, ?_, rfl⟩
      · simp [Setbits_r, hleafs, hbits]
      · intro j hj
        exact Function.update_of_ne (by simpa [symbols] using hj) _ _
      · intro s p hp
        cases hp
        simp [CHuffman.setNode]
  | node l r ihl ihr =>
      obtain ⟨hlow, hlt, hbits, hl, hr⟩ := hs
      obtain ⟨n, rfl⟩ : ∃ m, n = m + 1 := ⟨n - 1, by omega⟩
      simp only [symbols, List.nodup_append] at hnodup
      obtain ⟨hnl, hnr, hdisj⟩ := hnodup
      simp only [depth] at hn
      have hsmall : ∀ {j t}, Shape h bound j t → j ≠ 0xffff := by
        intro j t hj heq
        have := hj.index_lt
        simp only [HUFFMAN_MAX_NODES, HUFFMAN_MAX_SYMBOLS, HUFFMAN_EOF_SYMBOL] at this hbound
        omega
      have hinner : ∀ j, HUFFMAN_MAX_SYMBOLS ≤ j → j ∉ l.symbols ∧ j ∉ r.symbols :=
        fun j hj => ⟨fun hmem => absurd (hl.symbols_lt hmem) (by omega),
          fun hmem => absurd (hr.symbols_lt hmem) (by omega)⟩
      -- the right subtree first
      have hbitr : value pre ||| 1 <<< pre.length = value (pre ++ [true]) :=
        value_or_shift pre [true]
      obtain ⟨hR, hrunR, hframeR, hwordR, hstartR⟩ := ihr hr hnr (n := n) (by omega) (pre ++ [true])
      -- the left subtree is as before
      have hl' : Shape hR bound ((h.m_aNodes i).m_aLeafs false) l := by
        refine hl.relabel (fun j hj => hframeR j (hinner j hj).2) fun s hmem => ?_
        rw [hframeR s fun hmem' => hdisj s hmem s hmem' rfl]
        exact ⟨hl.numBits_ne_zero hmem, rfl, rfl⟩
      have hbitl : value pre = value (pre ++ [false]) := by
        rw [value_append]
        simp [value]
      obtain ⟨hL, hrunL, hframeL, hwordL, hstartL⟩ := ihl hl' hnl (n := n) (by omega) (pre ++ [false])
      have hnode : hR.m_aNodes i = h.m_aNodes i := hframeR i (hinner i hlow).2
      have hnode' : hL.m_aNodes i = h.m_aNodes i := (hframeL i (hinner i hlow).1).trans hnode
      refine ⟨hL, ?_, ?_, ?_, hstartL.trans hstartR⟩
      · rw [List.length_append, List.length_singleton] at hrunR hrunL
        unfold Setbits_r
        rw [if_pos (hsmall hr), hbitr, hrunR]
        simp only [hnode]
        rw [if_pos (hsmall hl), hbitl, hrunL, hnode', hbits]
        simp
      · intro j hj
        simp only [symbols, List.mem_append, not_or] at hj
        rw [hframeL j hj.1, hframeR j hj.2]
      · intro s p hp
        cases hp with
        | left hp =>
            have hmem := hp.mem_symbols
            rw [hwordL s _ hp, hframeR s fun hmem' => hdisj s hmem s hmem' rfl]
            simp
        | right hp =>
            have hmem := hp.mem_symbols
            rw [hframeL s fun hmem' => hdisj s hmem' s hmem rfl, hwordR s _ hp]
            simp

/-- The tables hold the code of the tree `t`. -/
structure Codes (h : CHuffman) (t : PrefixTree Nat) : Prop where
  shape : Shape h HUFFMAN_MAX_NODES h.m_pStartNode t
  inner : ∃ l r, t = .node l r
  word : ∀ s p, Word t p s →
    (h.m_aNodes s).m_Bits = value p ∧ (h.m_aNodes s).m_NumBits = p.length
  complete : ∀ s < HUFFMAN_MAX_SYMBOLS, s ∈ t.symbols
  lut : ∀ i < HUFFMAN_LUTSIZE,
    h.m_apDecodeLut i = some (LutWalk h HUFFMAN_LUTBITS i h.m_pStartNode)

theorem lutWalk_congr {h h' : CHuffman} (heq : h'.m_aNodes = h.m_aNodes) (k Bits pNode : Nat) :
    LutWalk h' k Bits pNode = LutWalk h k Bits pNode := by
  induction k generalizing Bits pNode with
  | zero => rfl
  | succ k ih => simp only [LutWalk, heq, ih]

theorem Shape.congr {h h' : CHuffman} (heq : h'.m_aNodes = h.m_aNodes) {bound i : Nat}
    {t : PrefixTree Nat} (hs : Shape h bound i t) : Shape h' bound i t := by
  refine hs.relabel (fun j _ => by rw [heq]) fun s hmem => ?_
  rw [heq]
  exact ⟨hs.numBits_ne_zero hmem, rfl, rfl⟩

/-- The depth of a tree and the word of a symbol in it, from those of its children. -/
def joinDepthWord (l r : Nat × Option (List Bool)) : Nat × Option (List Bool) :=
  (max l.1 r.1 + 1, (l.2.map (false :: ·)).or (r.2.map (true :: ·)))

/-- `Init` builds the tables of a code, unless a word would not fit the recursion.  Its depth and
the word of `s` are those that the merges compute. -/
theorem codes_init {pFrequencies : Nat → Nat} {s depth : Nat} {word : Option (List Bool)}
    (hvalues : MergeValues (fun i => (0, if i = s then some [] else none)) joinDepthWord
      pFrequencies = [(depth, word)]) (hdepth : depth < HUFFMAN_MAX_NODES) :
    ∃ t, Codes (Init pFrequencies) t ∧ t.depth = depth ∧ t.wordOf s = word := by
  obtain ⟨l, r, hnum, hshape, hperm, hmeasure⟩ := mergeAll_spec pFrequencies
  have htree := hmeasure (fun t => (t.depth, t.wordOf s)) joinDepthWord fun _ _ => rfl
  obtain ⟨hlen, hword⟩ : (node l r).depth = depth ∧ (node l r).wordOf s = word := by
    have heq := htree.symm.trans hvalues
    simpa using heq
  have hnodup : (symbols (.node l r)).Nodup := hperm.nodup_iff.mpr List.nodup_range
  obtain ⟨h, hh⟩ : ∃ h, h = { MergeAll pFrequencies with
    m_pStartNode := (MergeAll pFrequencies).m_NumNodes - 1 } := ⟨_, rfl⟩
  have hshape' : Shape h HUFFMAN_MAX_NODES h.m_pStartNode (.node l r) := by
    have hroot : h.m_pStartNode = HUFFMAN_MAX_NODES - 1 := by rw [hh, hnum]
    rw [hroot]
    exact hshape.congr (by rw [hh])
  obtain ⟨h', hrun, hframe, hcodes, hstart⟩ :=
    setbits_spec hshape' (Nat.le_refl _) hnodup (hlen ▸ hdepth) []
  have hbuilt : ConstructTree pFrequencies = h' := by
    rw [← hrun]
    unfold ConstructTree
    rw [hh]
    rfl
  have hnodes : (Init pFrequencies).m_aNodes = h'.m_aNodes := by
    unfold Init
    rw [hbuilt]
  have hcode : ∀ s p, Word (.node l r) p s → (h'.m_aNodes s).m_Bits = value p ∧
      (h'.m_aNodes s).m_NumBits = p.length := by
    intro s p hp
    rw [hcodes s p hp]
    exact ⟨rfl, rfl⟩
  refine ⟨.node l r, ⟨?_, ⟨l, r, rfl⟩, ?_, ?_, ?_⟩, hlen, hword⟩
  · have hroot : (Init pFrequencies).m_pStartNode = h.m_pStartNode := by
      unfold Init
      rw [hbuilt, ← hstart]
    rw [hroot]
    apply Shape.congr hnodes
    refine hshape'.relabel (fun j hj => hframe j fun hmem => ?_) fun s hmem => ?_
    · exact absurd (hshape'.symbols_lt hmem) (by omega)
    · obtain ⟨p, hp⟩ := exists_word hmem
      have hp' : p ≠ [] := by
        rintro rfl
        cases hp
      rw [hcodes s p hp]
      exact ⟨by simpa using hp', rfl, rfl⟩
  · intro s p hp
    rw [hnodes]
    exact hcode s p hp
  · intro s hs
    exact hperm.mem_iff.mpr (List.mem_range.mpr hs)
  · intro i hi
    rw [lutWalk_congr hnodes]
    unfold Init
    rw [hbuilt]
    exact if_pos hi

/-- Walking the nodes is descending in the tree. -/
theorem lutWalk_spec {h : CHuffman} {bound i : Nat} {l r : PrefixTree Nat}
    (hs : Shape h bound i (.node l r)) (bs : List Bool) :
    Shape h bound (LutWalk h bs.length (value bs) i) (descend (.node l r) bs) := by
  induction bs generalizing i l r with
  | nil => exact hs
  | cons b bs ih =>
      have hlow : (value (b :: bs)).testBit 0 = b := by
        cases b <;> simp [value]
      have hchild : Shape h bound ((h.m_aNodes i).m_aLeafs b) (if b then r else l) := by
        cases b
        · exact hs.2.2.2.1
        · exact hs.2.2.2.2
      have hdesc : descend (.node l r) (b :: bs) = descend (if b then r else l) bs := by
        cases b <;> rfl
      rw [List.length_cons, LutWalk, hlow, value_cons_shift, hdesc]
      cases hc : (if b then r else l) with
      | leaf s =>
          rw [hc] at hchild
          have hbits := hchild.2.2.1
          rw [← hchild.1] at hbits
          simp only [if_pos hbits]
          exact hchild
      | node l' r' =>
          rw [hc] at hchild
          have hbits := hchild.2.2.1
          simp only [hbits]
          exact ih hchild

end Fex.Engine.Huffman
