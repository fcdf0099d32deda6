import Fex.Engine.Packer
import Fex.Engine.Snapshot.RoundTrip

/-!
# Sending a snapshot

Model of what `DoSnapshot` does with a delta.  The buffers of the delta and of the packed delta
have `MAX_SIZE` bytes, and a client takes at most `MAX_PARTS` parts.  A delta may be larger than
the snapshot it leads to, so it is told exactly when it fits.
-/

namespace Fex.Engine.Snapshot

open Fex.Lib Fex.Engine.Packer CSnapshotDelta

/-! ## What `CreateDelta` writes for any two snapshots -/

section Created

variable {d : CSnapshotDelta} {s From To : CSnapshot} {items fromItems toItems : List CSnapshotItem}

theorem Reads.deletedKeys (h : Reads s items) {Hashlist : Nat → CItemList} {gone : Int → Bool}
    (hgone : ∀ Key, (GetItemIndexHashed Key Hashlist).isNone = gone Key) {n i : Nat}
    (hn : n + i = items.length) (Deleted : List Int) :
    DeletedLoop s Hashlist n i Deleted =
      .ok (Deleted ++ ((items.drop i).map CSnapshotItem.Key).filter gone) := by
  induction n generalizing i Deleted with
  | zero =>
      rw [List.drop_eq_nil_of_le (by omega), List.map_nil, List.filter_nil, List.append_nil]
      rfl
  | succ n ih =>
      have hi : i < items.length := by omega
      rw [← List.getElem_cons_drop hi, List.map_cons]
      unfold DeletedLoop
      rw [h.item i hi]
      simp only [bind, Except.bind]
      rw [hgone]
      by_cases hkey : gone items[i].Key = true
      · rw [if_pos hkey, ih (by omega), List.filter_cons_of_pos hkey, List.append_assoc]
        rfl
      · rw [if_neg hkey, ih (by omega), List.filter_cons_of_neg hkey]

end Created

/-! ## The size of a delta -/

section Size

variable (d : CSnapshotDelta) (From : CSnapshot) (t : CSnapshotItem)

end Size

section Sizes

variable (d : CSnapshotDelta) (From To : CSnapshot)

end Sizes

section Fold

variable {d : CSnapshotDelta} {From To : CSnapshot} {t : CSnapshotItem}

end Fold

/-! ## Sending the delta -/

def MAX_SNAPSHOT_PACKSIZE : Nat := 900

/-- A part of a packed delta. -/
structure CSnapPart where
  NumParts : Nat
  Part : Nat
  pData : List UInt8

/-- The test of a client. -/
def CSnapPart.Accepted (p : CSnapPart) : Prop :=
  1 ≤ p.NumParts ∧ p.NumParts ≤ MAX_PARTS ∧ p.Part < p.NumParts ∧
    p.pData.length ≤ MAX_SNAPSHOT_PACKSIZE

def NumPackets (SnapshotSize : Nat) : Nat :=
  (SnapshotSize + MAX_SNAPSHOT_PACKSIZE - 1) / MAX_SNAPSHOT_PACKSIZE

/-- The loop over the data that is left. -/
def sendLoop (NumParts n : Nat) (aCompData : List UInt8) : List CSnapPart :=
  if h : aCompData = [] then []
  else
    { NumParts := NumParts, Part := n, pData := aCompData.take MAX_SNAPSHOT_PACKSIZE } ::
      sendLoop NumParts (n + 1) (aCompData.drop MAX_SNAPSHOT_PACKSIZE)
termination_by aCompData.length
decreasing_by
  have hpos := List.length_pos_iff.mpr h
  rw [List.length_drop]
  unfold MAX_SNAPSHOT_PACKSIZE
  omega

/-- The ints of a delta. -/
def CSnapshotDelta.Output.words (Out : Output) : List Int :=
  (Out.m_NumDeletedItems : Int) :: (Out.m_NumUpdateItems : Int) :: 0 :: Out.m_aData

/-- What is sent of a delta with data. -/
def sendDelta (Out : Output) (DeltaSize : Int) : List CSnapPart :=
  if DeltaSize = 0 then []
  else
    match CVariableInt.Compress Out.words MAX_SIZE with
    -- the size is -1
    | none => []
    | some aCompData => sendLoop (NumPackets aCompData.length) 0 aCompData

section Delivery

variable (d : CSnapshotDelta) (From To : CSnapshot)

/-- `CreateDelta` stays within its buffer, and a client takes all parts that are sent. -/
def Delivered : Prop :=
  ∃ Out DeltaSize, d.CreateDelta From To = .ok (Out, DeltaSize) ∧ 4 * Out.Written ≤ MAX_SIZE ∧
    (sendDelta Out DeltaSize).length ≤ MAX_PARTS ∧ ∀ p ∈ sendDelta Out DeltaSize, p.Accepted

end Delivery

section Delivers

variable {d : CSnapshotDelta} {From To : CSnapshot} {fromItems toItems : List CSnapshotItem}

end Delivers

/-! ## Snapshots that leave room -/

section Room

variable {d : CSnapshotDelta} {From : CSnapshot} {fromItems toItems : List CSnapshotItem}

end Room

/-! ## Examples -/

section Single

variable {d : CSnapshotDelta} {t : CSnapshotItem}

end Single

section Examples

variable {Data : List UInt8}

end Examples

end Fex.Engine.Snapshot
