import Fex.Lib.Csv

/-!
# Lines of comma separated values

Model of `csv.cpp`: the bytes that `CsvWrite` writes.  A column is the bytes before its
terminator.
-/

namespace Fex.Engine.Csv

open Fex.Lib

/-! ## Writing -/

/-- `io_write` of the bytes from `Start` to `j`, skipped where there are none. -/
def writeSlice (pColumn : List UInt8) (Start j : Nat) : List UInt8 :=
  if Start ≠ j then (pColumn.drop Start).take (j - Start) else []

/-- The loop over the bytes of a column in quotes; the last argument is the part from `j` on. -/
def writeEscaped (pColumn : List UInt8) : (Start j : Nat) → List UInt8 → List UInt8
  | Start, j, [] => writeSlice pColumn Start j
  | Start, j, c :: rest =>
      if c = 34 then
        writeSlice pColumn Start j ++ [34, 34] ++ writeEscaped pColumn (j + 1) (j + 1) rest
      else writeEscaped pColumn Start (j + 1) rest

def writeColumn (pColumn : List UInt8) : List UInt8 :=
  if 34 ∉ pColumn ∧ 44 ∉ pColumn then pColumn
  else 34 :: writeEscaped pColumn 0 0 pColumn ++ [34]

/-- The loop over the columns, `i` is the index of the first one. -/
def writeColumns : Nat → List (List UInt8) → List UInt8
  | _, [] => []
  | i, pColumn :: ppColumns =>
      (if i ≠ 0 then [44] else []) ++ writeColumn pColumn ++ writeColumns (i + 1) ppColumns

def CsvWrite (ppColumns : List (List UInt8)) : List UInt8 := writeColumns 0 ppColumns ++ [10]

/-! ## The written line -/

def dialect : Csv.Dialect UInt8 where
  comma := 44
  quote := 34
  newline := 10
  comma_ne_quote := by decide
  comma_ne_newline := by decide
  quote_ne_newline := by decide

/-- A column with a quote or a comma is put into quotes. -/
def needsQuotes (pColumn : List UInt8) : Bool := decide (34 ∈ pColumn ∨ 44 ∈ pColumn)

/-- The bytes between two positions. -/
theorem writeSlice_eq (pre mid rest : List UInt8) :
    writeSlice (pre ++ mid ++ rest) pre.length (pre ++ mid).length = mid := by
  unfold writeSlice
  rw [List.length_append]
  by_cases hmid : mid = []
  · rw [if_neg (by rw [hmid]; simp), hmid]
  · have hpos := List.length_pos_iff.mpr hmid
    rw [if_pos (by omega), List.append_assoc, List.drop_left, Nat.add_sub_cancel_left,
      List.take_left]

/-- The bytes from `Start` to `j` have no quote and are written before the next one. -/
theorem writeEscaped_eq (pre mid rest : List UInt8) :
    writeEscaped (pre ++ mid ++ rest) pre.length (pre ++ mid).length rest =
      mid ++ Csv.escape dialect rest := by
  induction rest generalizing pre mid with
  | nil =>
      rw [writeEscaped, writeSlice_eq]
      exact (List.append_nil mid).symm
  | cons c rest ih =>
      rw [writeEscaped, writeSlice_eq, Csv.escape_cons]
      by_cases hc : c = 34
      · have hnext := ih (pre ++ mid ++ [c]) []
        rw [List.append_nil, List.append_assoc (pre ++ mid), @List.length_append _ (pre ++ mid)]
          at hnext
        have hquote : c = dialect.quote := hc
        rw [if_pos hc, if_pos hquote, List.append_assoc]
        exact congrArg _ (congrArg _ hnext)
      · have hnext := ih pre (mid ++ [c])
        rw [← List.append_assoc, List.append_assoc (pre ++ mid), @List.length_append _ (pre ++ mid),
          List.append_assoc mid] at hnext
        have hquote : c ≠ dialect.quote := hc
        rw [if_neg hc, if_neg hquote]
        exact hnext

theorem writeColumn_eq (pColumn : List UInt8) :
    writeColumn pColumn = Csv.fieldText dialect needsQuotes pColumn := by
  have hescape : writeEscaped pColumn 0 0 pColumn = Csv.escape dialect pColumn :=
    writeEscaped_eq [] [] pColumn
  unfold writeColumn Csv.fieldText needsQuotes
  rw [hescape]
  by_cases h : 34 ∈ pColumn ∨ 44 ∈ pColumn
  · rw [if_neg (fun hnot => h.elim hnot.1 hnot.2), if_pos (decide_eq_true h)]
    rfl
  · rw [if_pos (not_or.mp h), if_neg (by rw [decide_eq_false h]; exact Bool.false_ne_true)]

/-- Behind the first column each one has a comma before it. -/
theorem writeColumns_succ (i : Nat) (pColumn : List UInt8) (ppColumns : List (List UInt8)) :
    writeColumns (i + 1) (pColumn :: ppColumns) ++ [10] =
      44 :: Csv.recordText dialect needsQuotes (pColumn :: ppColumns) := by
  induction ppColumns generalizing i pColumn with
  | nil =>
      rw [writeColumns, if_pos (Nat.succ_ne_zero i), writeColumn_eq, writeColumns, List.append_nil]
      rfl
  | cons next ppColumns ih =>
      rw [writeColumns, if_pos (Nat.succ_ne_zero i), writeColumn_eq, List.append_assoc, ih (i + 1),
        Csv.recordText]
      rfl

theorem CsvWrite_eq (ppColumns : List (List UInt8)) :
    CsvWrite ppColumns = Csv.recordText dialect needsQuotes ppColumns := by
  unfold CsvWrite
  match ppColumns with
  | [] => rfl
  | [pColumn] =>
      rw [writeColumns, writeColumn_eq, writeColumns, List.append_nil]
      rfl
  | pColumn :: next :: ppColumns =>
      rw [writeColumns, writeColumn_eq, List.append_assoc, writeColumns_succ]
      rfl

/-- The columns are read back exactly if there is one and each one with a line break has a quote
or a comma. -/
theorem readRecord_CsvWrite (ppColumns : List (List UInt8)) :
    Csv.readRecord dialect (CsvWrite ppColumns) = some (ppColumns, []) ↔
      ppColumns ≠ [] ∧ ∀ pColumn ∈ ppColumns, 10 ∈ pColumn → 34 ∈ pColumn ∨ 44 ∈ pColumn := by
  have hquoted : ∀ s, needsQuotes s = false → dialect.comma ∉ s ∧ dialect.quote ∉ s := by
    intro s hs
    obtain ⟨hquote, hcomma⟩ := not_or.mp (of_decide_eq_false hs)
    exact ⟨hcomma, hquote⟩
  rw [CsvWrite_eq, Csv.readRecord_recordText hquoted]
  apply and_congr_right
  intro _
  apply forall₂_congr
  intro pColumn _
  constructor
  · intro h hnewline
    by_contra hnot
    exact h (decide_eq_false hnot) hnewline
  · intro h hq hnewline
    exact of_decide_eq_false hq (h hnewline)

/-- A line break in a column without quotes and commas ends the record. -/
theorem readRecord_CsvWrite_newline :
    Csv.readRecord dialect (CsvWrite [[97, 10, 98]]) ≠ some ([[97, 10, 98]], []) := by
  decide

end Fex.Engine.Csv
