import Proofreader.Proofs.Text.Breaks
import Proofreader.Report.Filing

/-!
# Reading comma-separated values

A reader goes through a text character by character.  A field that begins with a quote goes on
over commas and line breaks up to a quote that no other one follows; any other field goes on up
to a comma or a line break.  A carriage return with a line feed behind it is one line break.
What was encoded is read back, so different rows have different texts.
-/

namespace Proofreader.Csv

open Text (isBreak)

/-! ## The reader -/

inductive Phase where
  | rowStart
  /-- After a carriage return that ended a row. -/
  | returned
  | fieldStart
  | bare
  | quoted
  /-- After a quote inside quotes. -/
  | quote
  deriving DecidableEq, Repr

/-- The rows that were read, the fields of the row at hand, and what was read of the next. -/
structure Reader where
  rows : List (List Text)
  row : List Text
  field : Text
  phase : Phase
  deriving DecidableEq, Repr

namespace Reader

def start : Reader := ⟨[], [], [], .rowStart⟩

def take (r : Reader) (c : Char) (p : Phase) : Reader :=
  { r with field := r.field ++ [c], phase := p }

def endField (r : Reader) : Reader := ⟨r.rows, r.row ++ [r.field], [], .fieldStart⟩

def endRow (r : Reader) (c : Char) : Reader :=
  ⟨r.rows ++ [r.row], [], [], if c = '\r' then .returned else .rowStart⟩

def readBare (r : Reader) (c : Char) : Reader :=
  if c = ',' then r.endField
  else if isBreak c then r.endField.endRow c
  else r.take c .bare

def readFirst (r : Reader) (c : Char) : Reader :=
  if c = '"' then { r with phase := .quoted } else r.readBare c

def readRow (r : Reader) (c : Char) : Reader :=
  if isBreak c then r.endRow c else r.readFirst c

def step (r : Reader) (c : Char) : Reader :=
  match r.phase with
  | .rowStart => r.readRow c
  | .returned => if c = '\n' then { r with phase := .rowStart } else r.readRow c
  | .fieldStart => r.readFirst c
  | .bare => r.readBare c
  | .quoted => if c = '"' then { r with phase := .quote } else r.take c .quoted
  | .quote => if c = '"' then r.take c .quoted else r.readBare c

def finish (r : Reader) : List (List Text) :=
  match r.phase with
  | .rowStart | .returned => r.rows
  | _ => r.rows ++ [r.row ++ [r.field]]

end Reader

def decode (t : Text) : List (List Text) := (t.foldl Reader.step .start).finish

/-! ## Fields -/

theorem needsQuotes_eq_false_iff {c : Char} :
    needsQuotes c = false ↔ c ≠ ',' ∧ c ≠ '"' ∧ isBreak c = false := by
  simp only [needsQuotes, isBreak, Bool.or_eq_false_iff, beq_eq_false_iff_ne]
  tauto

theorem exists_encodeField {t : Text} (h : t ≠ []) :
    ∃ c rest, encodeField t = c :: rest ∧ isBreak c = false := by
  unfold encodeField
  split
  · exact ⟨'"', _, rfl, rfl⟩
  · rename_i hnone
    have hbare : ∀ c ∈ t, needsQuotes c = false := by simpa using hnone
    obtain ⟨c, rest, rfl⟩ := List.exists_cons_of_ne_nil h
    exact ⟨c, rest, rfl, (needsQuotes_eq_false_iff.1 (hbare c (List.mem_cons_self ..))).2.2⟩

theorem exists_encodeFields {row : List Text} (h : row ≠ []) :
    ∃ c rest, encodeFields row = c :: rest ∧ isBreak c = false := by
  unfold encodeFields
  split
  · exact ⟨'"', ['"'], rfl, rfl⟩
  · rename_i hfull
    obtain ⟨t, ts, rfl⟩ := List.exists_cons_of_ne_nil h
    cases ts with
    | nil =>
        have ht : t ≠ [] := by
          rintro rfl
          exact hfull rfl
        exact exists_encodeField ht
    | cons u ts =>
        rw [List.map_cons, Text.joinWith.eq_3 _ _ _ (by simp)]
        cases t with
        | nil => exact ⟨',', _, rfl, rfl⟩
        | cons d t =>
            obtain ⟨c, rest, hfield, hc⟩ := exists_encodeField (List.cons_ne_nil d t)
            rw [hfield]
            exact ⟨c, _, rfl, hc⟩

def Phase.AwaitsEnd (p : Phase) : Prop := p = .fieldStart ∨ p = .bare ∨ p = .quote

namespace Reader

theorem foldl_replaceChar (rows : List (List Text)) (row : List Text) (field t : Text) :
    (Text.replaceChar '"' ['"', '"'] t).foldl step ⟨rows, row, field, .quoted⟩ =
      ⟨rows, row, field ++ t, .quoted⟩ := by
  induction t generalizing field with
  | nil => simp [Text.replaceChar]
  | cons c t ih =>
      cases hc : c == '"' with
      | true =>
          obtain rfl : c = '"' := by simpa using hc
          have htwo : step (step ⟨rows, row, field, .quoted⟩ '"') '"' =
              ⟨rows, row, field ++ ['"'], .quoted⟩ := rfl
          simp [Text.replaceChar, htwo, ih]
      | false =>
          have hone : step ⟨rows, row, field, .quoted⟩ c = ⟨rows, row, field ++ [c], .quoted⟩ := by
            simp [step, take, (by simpa using hc : c ≠ '"')]
          simp [Text.replaceChar, hc, hone, ih]

theorem foldl_bare {t : Text} (h : ∀ c ∈ t, needsQuotes c = false) (rows : List (List Text))
    (row : List Text) (field : Text) :
    t.foldl step ⟨rows, row, field, .bare⟩ = ⟨rows, row, field ++ t, .bare⟩ := by
  induction t generalizing field with
  | nil => simp
  | cons c t ih =>
      obtain ⟨hc, ht⟩ := List.forall_mem_cons.1 h
      obtain ⟨hcomma, -, hbreak⟩ := needsQuotes_eq_false_iff.1 hc
      have hone : step ⟨rows, row, field, .bare⟩ c = ⟨rows, row, field ++ [c], .bare⟩ := by
        simp [step, readBare, take, hcomma, hbreak]
      rw [List.foldl_cons, hone, ih ht]
      simp

theorem step_comma {p : Phase} (h : p.AwaitsEnd) (rows : List (List Text))
    (row : List Text) (t : Text) :
    step ⟨rows, row, t, p⟩ ',' = ⟨rows, row ++ [t], [], .fieldStart⟩ := by
  rcases h with rfl | rfl | rfl <;> rfl

theorem foldl_rowEnd {p : Phase} (h : p.AwaitsEnd) (rows : List (List Text))
    (row : List Text) (t : Text) :
    rowEnd.foldl step ⟨rows, row, t, p⟩ = ⟨rows ++ [row ++ [t]], [], [], .rowStart⟩ := by
  rcases h with rfl | rfl | rfl <;> rfl

theorem foldl_quoteField (rows : List (List Text)) (row : List Text) (t : Text) :
    (quoteField t).foldl step ⟨rows, row, [], .fieldStart⟩ = ⟨rows, row, t, .quote⟩ := by
  have hopen : step ⟨rows, row, [], .fieldStart⟩ '"' = ⟨rows, row, [], .quoted⟩ := rfl
  rw [quoteField, List.cons_append, List.foldl_cons, hopen, List.foldl_append, foldl_replaceChar]
  rfl

theorem exists_foldl_encodeField (rows : List (List Text)) (row : List Text) (t : Text) :
    ∃ p : Phase, p.AwaitsEnd ∧
      (encodeField t).foldl step ⟨rows, row, [], .fieldStart⟩ = ⟨rows, row, t, p⟩ := by
  unfold encodeField
  split
  · exact ⟨.quote, .inr (.inr rfl), foldl_quoteField rows row t⟩
  · rename_i hnone
    have hbare : ∀ c ∈ t, needsQuotes c = false := by simpa using hnone
    cases t with
    | nil => exact ⟨.fieldStart, .inl rfl, rfl⟩
    | cons c t =>
        obtain ⟨hc, ht⟩ := List.forall_mem_cons.1 hbare
        obtain ⟨hcomma, hquote, hbreak⟩ := needsQuotes_eq_false_iff.1 hc
        have hfirst : step ⟨rows, row, [], .fieldStart⟩ c = ⟨rows, row, [c], .bare⟩ := by
          simp [step, readFirst, readBare, take, hcomma, hquote, hbreak]
        exact ⟨.bare, .inr (.inl rfl), by rw [List.foldl_cons, hfirst, foldl_bare ht]; rfl⟩

/-! ## Rows -/

theorem foldl_joinWith (rows : List (List Text)) (row : List Text) (t : Text) (ts : List Text) :
    (Text.joinWith [','] ((t :: ts).map encodeField) ++ rowEnd).foldl step
        ⟨rows, row, [], .fieldStart⟩ =
      ⟨rows ++ [row ++ t :: ts], [], [], .rowStart⟩ := by
  induction ts generalizing row t with
  | nil =>
      obtain ⟨p, hp, hfield⟩ := exists_foldl_encodeField rows row t
      rw [List.map_cons, List.map_nil, Text.joinWith, List.foldl_append, hfield, foldl_rowEnd hp]
  | cons u ts ih =>
      obtain ⟨p, hp, hfield⟩ := exists_foldl_encodeField rows row t
      rw [List.map_cons, Text.joinWith.eq_3 _ _ _ (by simp), List.append_assoc, List.append_assoc,
        List.foldl_append, hfield, List.singleton_append, List.foldl_cons, step_comma hp, ih]
      simp

theorem foldl_encodeFields (rows : List (List Text)) {row : List Text} (h : row ≠ []) :
    (encodeFields row ++ rowEnd).foldl step ⟨rows, [], [], .fieldStart⟩ =
      ⟨rows ++ [row], [], [], .rowStart⟩ := by
  unfold encodeFields
  split
  · rename_i hempty
    rw [List.foldl_append, foldl_quoteField, foldl_rowEnd (.inr (.inr rfl)), hempty]
    rfl
  · obtain ⟨t, ts, rfl⟩ := List.exists_cons_of_ne_nil h
    exact foldl_joinWith rows [] t ts

theorem foldl_encodeRow (rows : List (List Text)) (row : List Text) :
    (encodeRow row).foldl step ⟨rows, [], [], .rowStart⟩ =
      ⟨rows ++ [row], [], [], .rowStart⟩ := by
  cases row with
  | nil => rfl
  | cons t ts =>
      have hfields := foldl_encodeFields rows (List.cons_ne_nil t ts)
      obtain ⟨c, rest, hfirst, hc⟩ := exists_encodeFields (List.cons_ne_nil t ts)
      have hsame : step ⟨rows, [], [], .rowStart⟩ c = step ⟨rows, [], [], .fieldStart⟩ c := by
        simp [step, readRow, readFirst, readBare, take, endField, hc]
      rw [hfirst, List.cons_append, List.foldl_cons] at hfields
      rw [encodeRow, hfirst, List.cons_append, List.foldl_cons, hsame, hfields]

theorem foldl_encode (rows more : List (List Text)) :
    (encode more).foldl step ⟨rows, [], [], .rowStart⟩ =
      ⟨rows ++ more, [], [], .rowStart⟩ := by
  induction more generalizing rows with
  | nil => simp [encode]
  | cons row more ih =>
      have hcons : encode (row :: more) = encodeRow row ++ encode more := List.flatMap_cons
      rw [hcons, List.foldl_append, foldl_encodeRow, ih, List.append_assoc, List.singleton_append]

end Reader

theorem decode_encode (rows : List (List Text)) : decode (encode rows) = rows := by
  rw [decode, Reader.start, Reader.foldl_encode]
  rfl

end Proofreader.Csv
