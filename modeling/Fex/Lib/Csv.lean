import Mathlib.Data.List.Basic

/-!
# Records of comma separated fields

A reader of one record: a comma separates two fields, a field that starts with a quote runs to
the matching quote and has its doubled quotes unescaped, and a newline outside quotes ends the
record.  A writer that puts some fields into quotes is read back exactly if no field without
quotes has a newline.
-/

namespace Fex.Lib.Csv

variable {α : Type} [DecidableEq α]

/-- The characters with a meaning. -/
structure Dialect (α : Type) where
  comma : α
  quote : α
  newline : α
  comma_ne_quote : comma ≠ quote
  comma_ne_newline : comma ≠ newline
  quote_ne_newline : quote ≠ newline

variable (D : Dialect α)

/-! ## Reading -/

/-- Where the reader is in a field; `closing` is behind a quote in a quoted field. -/
inductive Place
  | start
  | bare
  | quoted
  | closing
  deriving DecidableEq

/-- The reader with the field and the record so far.  A record and the text behind it are
returned, nothing if quotes do not match. -/
def readFrom : Place → List α → List (List α) → List α → Option (List (List α) × List α)
  | .quoted, _, _, [] => none
  | _, field, record, [] => some (record ++ [field], [])
  | .start, field, record, c :: text =>
      if c = D.quote then readFrom .quoted field record text
      else if c = D.comma then readFrom .start [] (record ++ [field]) text
      else if c = D.newline then some (record ++ [field], text)
      else readFrom .bare (field ++ [c]) record text
  | .bare, field, record, c :: text =>
      if c = D.comma then readFrom .start [] (record ++ [field]) text
      else if c = D.newline then some (record ++ [field], text)
      else readFrom .bare (field ++ [c]) record text
  | .quoted, field, record, c :: text =>
      if c = D.quote then readFrom .closing field record text
      else readFrom .quoted (field ++ [c]) record text
  | .closing, field, record, c :: text =>
      if c = D.quote then readFrom .quoted (field ++ [c]) record text
      else if c = D.comma then readFrom .start [] (record ++ [field]) text
      else if c = D.newline then some (record ++ [field], text)
      else none

def readRecord (text : List α) : Option (List (List α) × List α) := readFrom D .start [] [] text

/-! ## Writing -/

/-- Quotes are doubled. -/
def escape (field : List α) : List α :=
  field.flatMap fun c => if c = D.quote then [D.quote, D.quote] else [c]

/-- A field, in quotes if `quoted` says so. -/
def fieldText (quoted : List α → Bool) (field : List α) : List α :=
  if quoted field then D.quote :: escape D field ++ [D.quote] else field

/-- Fields with commas between them and a newline behind the last one. -/
def recordText (quoted : List α → Bool) : List (List α) → List α
  | [] => [D.newline]
  | [field] => fieldText D quoted field ++ [D.newline]
  | field :: next :: fields =>
      fieldText D quoted field ++ D.comma :: recordText quoted (next :: fields)

/-! ## Fields are read -/

variable {D}

theorem readFrom_start (field : List α) (record : List (List α)) (c : α) (text : List α) :
    readFrom D .start field record (c :: text) =
      if c = D.quote then readFrom D .quoted field record text
      else if c = D.comma then readFrom D .start [] (record ++ [field]) text
      else if c = D.newline then some (record ++ [field], text)
      else readFrom D .bare (field ++ [c]) record text := rfl

theorem readFrom_inside (field : List α) (record : List (List α)) (c : α) (text : List α) :
    readFrom D .bare field record (c :: text) =
      if c = D.comma then readFrom D .start [] (record ++ [field]) text
      else if c = D.newline then some (record ++ [field], text)
      else readFrom D .bare (field ++ [c]) record text := rfl

theorem readFrom_quoted (field : List α) (record : List (List α)) (c : α) (text : List α) :
    readFrom D .quoted field record (c :: text) =
      if c = D.quote then readFrom D .closing field record text
      else readFrom D .quoted (field ++ [c]) record text := rfl

theorem readFrom_closing (field : List α) (record : List (List α)) (c : α) (text : List α) :
    readFrom D .closing field record (c :: text) =
      if c = D.quote then readFrom D .quoted (field ++ [c]) record text
      else if c = D.comma then readFrom D .start [] (record ++ [field]) text
      else if c = D.newline then some (record ++ [field], text)
      else none := rfl

theorem escape_cons (c : α) (field : List α) :
    escape D (c :: field) = (if c = D.quote then [D.quote, D.quote] else [c]) ++ escape D field :=
  List.flatMap_cons

theorem readFrom_escape (s field : List α) (record : List (List α)) (text : List α) :
    readFrom D .quoted field record (escape D s ++ D.quote :: text) =
      readFrom D .closing (field ++ s) record text := by
  induction s generalizing field with
  | nil =>
      show readFrom D .quoted field record (D.quote :: text) = _
      rw [readFrom_quoted, if_pos rfl, List.append_nil]
  | cons c s ih =>
      rw [escape_cons]
      by_cases hc : c = D.quote
      · rw [if_pos hc, hc]
        show readFrom D .quoted field record (D.quote :: D.quote :: (escape D s ++ _)) = _
        rw [readFrom_quoted, if_pos rfl, readFrom_closing, if_pos rfl, ih, List.append_assoc]
        rfl
      · rw [if_neg hc]
        show readFrom D .quoted field record (c :: (escape D s ++ _)) = _
        rw [readFrom_quoted, if_neg hc, ih, List.append_assoc]
        rfl

/-- A field without a character that has a meaning. -/
def Plain (D : Dialect α) (s : List α) : Prop :=
  ∀ c ∈ s, c ≠ D.comma ∧ c ≠ D.quote ∧ c ≠ D.newline

theorem readFrom_bare {s : List α} (hs : Plain D s) (field : List α) (record : List (List α))
    (text : List α) :
    readFrom D .bare field record (s ++ text) = readFrom D .bare (field ++ s) record text := by
  induction s generalizing field with
  | nil => rw [List.nil_append, List.append_nil]
  | cons c s ih =>
      obtain ⟨hcomma, -, hnewline⟩ := hs c List.mem_cons_self
      have hrest : Plain D s := fun d hd => hs d (List.mem_cons_of_mem _ hd)
      rw [List.cons_append, readFrom_inside, if_neg hcomma, if_neg hnewline, ih hrest,
        List.append_assoc]
      rfl

/-- A comma or a newline ends a field at each place outside quotes. -/
theorem readFrom_comma {p : Place} (hp : p ≠ .quoted) (field : List α) (record : List (List α))
    (text : List α) :
    readFrom D p field record (D.comma :: text) = readFrom D .start [] (record ++ [field]) text := by
  cases p with
  | start => rw [readFrom_start, if_neg D.comma_ne_quote, if_pos rfl]
  | bare => rw [readFrom_inside, if_pos rfl]
  | quoted => exact absurd rfl hp
  | closing => rw [readFrom_closing, if_neg D.comma_ne_quote, if_pos rfl]

theorem readFrom_newline {p : Place} (hp : p ≠ .quoted) (field : List α) (record : List (List α))
    (text : List α) :
    readFrom D p field record (D.newline :: text) = some (record ++ [field], text) := by
  have hquote := D.quote_ne_newline.symm
  have hcomma := D.comma_ne_newline.symm
  cases p with
  | start => rw [readFrom_start, if_neg hquote, if_neg hcomma, if_pos rfl]
  | bare => rw [readFrom_inside, if_neg hcomma, if_pos rfl]
  | quoted => exact absurd rfl hp
  | closing => rw [readFrom_closing, if_neg hquote, if_neg hcomma, if_pos rfl]

theorem readFrom_plain {s : List α} (hs : Plain D s) (record : List (List α)) (text : List α) :
    ∃ p : Place, p ≠ .quoted ∧
      readFrom D .start [] record (s ++ text) = readFrom D p s record text := by
  cases s with
  | nil => exact ⟨.start, by decide, rfl⟩
  | cons c s =>
      obtain ⟨hcomma, hquote, hnewline⟩ := hs c List.mem_cons_self
      have hrest : Plain D s := fun d hd => hs d (List.mem_cons_of_mem _ hd)
      refine ⟨.bare, by decide, ?_⟩
      rw [List.cons_append, readFrom_start, if_neg hquote, if_neg hcomma, if_neg hnewline,
        readFrom_bare hrest]
      rfl

/-! ## Records are read -/

section

variable {quoted : List α → Bool}

/-- A field in quotes or a plain one is read up to what is behind it. -/
theorem readFrom_fieldText {s : List α} (hs : quoted s = false → Plain D s)
    (record : List (List α)) (text : List α) :
    ∃ p : Place, p ≠ .quoted ∧
      readFrom D .start [] record (fieldText D quoted s ++ text) = readFrom D p s record text := by
  unfold fieldText
  cases hq : quoted s with
  | false =>
      rw [if_neg Bool.false_ne_true]
      exact readFrom_plain (hs hq) record text
  | true =>
      refine ⟨.closing, by decide, ?_⟩
      rw [if_pos rfl, List.append_assoc, List.cons_append, readFrom_start, if_pos rfl]
      exact readFrom_escape s [] record text

/-- A newline in a field without quotes ends the record, and the rest is left. -/
theorem readFrom_newline_mem {s : List α} (hq : quoted s = false) (hcomma : D.comma ∉ s)
    (hquote : D.quote ∉ s) (hnewline : D.newline ∈ s) (record : List (List α)) {text : List α}
    (htext : text ≠ []) (r : List (List α)) :
    readFrom D .start [] record (fieldText D quoted s ++ text) ≠ some (r, []) := by
  obtain ⟨a, b, rfl, ha⟩ := List.eq_append_cons_of_mem hnewline
  have hplain : Plain D a := by
    intro c hc
    refine ⟨fun h => hcomma ?_, fun h => hquote ?_, fun h => ha (h ▸ hc)⟩
    · exact List.mem_append_left _ (h ▸ hc)
    · exact List.mem_append_left _ (h ▸ hc)
  obtain ⟨p, hp, hread⟩ := readFrom_plain hplain record (D.newline :: (b ++ text))
  unfold fieldText
  rw [hq, if_neg Bool.false_ne_true, List.append_assoc, List.cons_append, hread,
    readFrom_newline hp]
  intro h
  rw [Option.some.injEq, Prod.mk.injEq] at h
  exact htext (List.append_eq_nil_iff.mp h.2).2

variable (hquoted : ∀ s, quoted s = false → D.comma ∉ s ∧ D.quote ∉ s)

include hquoted

omit [DecidableEq α] in
theorem plain_of_not_quoted {s : List α} (hs : quoted s = false → D.newline ∉ s)
    (hq : quoted s = false) : Plain D s := by
  obtain ⟨hcomma, hquote⟩ := hquoted s hq
  have hnewline := hs hq
  exact fun c hc => ⟨fun h => hcomma (h ▸ hc), fun h => hquote (h ▸ hc),
    fun h => hnewline (h ▸ hc)⟩

/-- The fields are read back exactly if there is one and no field without quotes has a newline. -/
theorem readFrom_recordText (record : List (List α)) (fields : List (List α)) :
    readFrom D .start [] record (recordText D quoted fields) = some (record ++ fields, []) ↔
      fields ≠ [] ∧ ∀ s ∈ fields, quoted s = false → D.newline ∉ s := by
  induction fields generalizing record with
  | nil =>
      rw [recordText, readFrom_newline (by decide)]
      simp
  | cons s fields ih =>
      by_cases hs : quoted s = false → D.newline ∉ s
      · have hplain := plain_of_not_quoted hquoted hs
        cases fields with
        | nil =>
            obtain ⟨p, hp, hread⟩ := readFrom_fieldText hplain record [D.newline]
            rw [recordText, hread, readFrom_newline hp]
            simp only [List.mem_singleton, forall_eq, true_iff]
            exact ⟨List.cons_ne_nil _ _, hs⟩
        | cons next fields =>
            obtain ⟨p, hp, hread⟩ := readFrom_fieldText hplain record
              (D.comma :: recordText D quoted (next :: fields))
            have hrest := ih (record ++ [s])
            rw [List.append_assoc, List.singleton_append] at hrest
            rw [recordText, hread, readFrom_comma hp, hrest]
            constructor
            · exact fun h => ⟨List.cons_ne_nil _ _, List.forall_mem_cons.mpr ⟨hs, h.2⟩⟩
            · exact fun h => ⟨List.cons_ne_nil _ _, (List.forall_mem_cons.mp h.2).2⟩
      · have hnot : ¬ (s :: fields ≠ [] ∧ ∀ t ∈ s :: fields, quoted t = false → D.newline ∉ t) :=
          fun h => hs (h.2 s List.mem_cons_self)
        simp only [Classical.not_imp, not_not] at hs
        obtain ⟨hq, hnewline⟩ := hs
        obtain ⟨hcomma, hquote⟩ := hquoted s hq
        apply iff_of_false _ hnot
        cases fields with
        | nil =>
            exact readFrom_newline_mem hq hcomma hquote hnewline record (List.cons_ne_nil _ _) _
        | cons next fields =>
            exact readFrom_newline_mem hq hcomma hquote hnewline record (List.cons_ne_nil _ _) _

/-- A written record is read back exactly if it has a field and no field without quotes has a
newline. -/
theorem readRecord_recordText (fields : List (List α)) :
    readRecord D (recordText D quoted fields) = some (fields, []) ↔
      fields ≠ [] ∧ ∀ s ∈ fields, quoted s = false → D.newline ∉ s :=
  readFrom_recordText hquoted [] fields

end

end Fex.Lib.Csv
