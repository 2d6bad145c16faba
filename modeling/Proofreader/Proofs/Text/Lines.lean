import Mathlib.Data.List.Basic
import Proofreader.Proofs.Text.Breaks

/-!
# Lines and the breaks between them

Where a text breaks can be told place by place.  The lines are what is left between the
breaks: there is one line more than there are breaks, and the lines with the breaks between
them are the text.
-/

namespace Proofreader.Text

/-! ## Breaks -/

/-- The break that begins at a place.  A line feed behind a carriage return begins none, as it
belongs to the break of the carriage return. -/
def breakAt? (t : Text) (i : Nat) : Option Text :=
  if t[i]? = some '\r' then
    if t[i + 1]? = some '\n' then some ['\r', '\n'] else some ['\r']
  else if t[i]? = some '\n' ∧ (i = 0 ∨ t[i - 1]? ≠ some '\r') then some ['\n']
  else none

def lineBreaks (t : Text) : List Text := (List.range t.length).filterMap (breakAt? t)

theorem breakAt?_cons_succ {c : Char} {t : Text} {i : Nat}
    (h : i = 0 → c = '\r' → t[0]? ≠ some '\n') : breakAt? (c :: t) (i + 1) = breakAt? t i := by
  cases i with
  | zero =>
      by_cases hc : c = '\r'
      · have hnext : t[0]? ≠ some '\n' := h rfl hc
        simp [breakAt?, hnext]
      · simp [breakAt?, hc]
  | succ i => simp [breakAt?]

theorem lineBreaks_cons (c : Char) (t : Text) :
    lineBreaks (c :: t) = (breakAt? (c :: t) 0).toList ++
      (List.range t.length).filterMap fun i => breakAt? (c :: t) (i + 1) := by
  rw [lineBreaks, List.length_cons, List.range_succ_eq_map, List.filterMap_cons,
    List.filterMap_map]
  cases breakAt? (c :: t) 0 <;> rfl

theorem lineBreaks_cons_of {c : Char} {t : Text} (h : c = '\r' → t[0]? ≠ some '\n') :
    lineBreaks (c :: t) = (breakAt? (c :: t) 0).toList ++ lineBreaks t := by
  rw [lineBreaks_cons, lineBreaks]
  congr 1
  exact List.filterMap_congr fun i _ => breakAt?_cons_succ fun _ => h

theorem lineBreaks_pair (t : Text) :
    lineBreaks ('\r' :: '\n' :: t) = ['\r', '\n'] :: lineBreaks t := by
  have hfirst : breakAt? ('\r' :: '\n' :: t) 0 = some ['\r', '\n'] := by simp [breakAt?]
  have hsecond : breakAt? ('\r' :: '\n' :: t) 1 = none := by simp [breakAt?]
  have hrest : ∀ i, breakAt? ('\r' :: '\n' :: t) (i + 2) = breakAt? t i := fun i => by
    rw [breakAt?_cons_succ (by simp), breakAt?_cons_succ (by simp)]
  rw [lineBreaks_cons, hfirst, List.length_cons, List.range_succ_eq_map, List.filterMap_cons,
    hsecond, List.filterMap_map]
  simp [hrest, lineBreaks]

/-! ## Lines with breaks between them -/

def interleave (lines bs : List Text) : Text :=
  (List.zipWith (· ++ ·) lines (bs ++ [[]])).flatten

@[simp] theorem interleave_singleton (line : Text) : interleave [line] [] = line := by
  simp [interleave]

@[simp] theorem interleave_cons (line b : Text) (lines bs : List Text) :
    interleave (line :: lines) (b :: bs) = line ++ (b ++ interleave lines bs) := by
  simp [interleave]

theorem interleave_cons_cons (c : Char) (line : Text) (lines bs : List Text) :
    interleave ((c :: line) :: lines) bs = c :: interleave (line :: lines) bs := by
  cases bs <;> simp [interleave]

def lineEndings : List Text := [['\r', '\n'], ['\r'], ['\n']]

theorem exists_of_mem_lineEndings {b : Text} (h : b ∈ lineEndings) :
    ∃ c rest, b = c :: rest ∧ isBreak c = true := by
  simp only [lineEndings, List.mem_cons, List.not_mem_nil, or_false] at h
  rcases h with rfl | rfl | rfl
  · exact ⟨'\r', ['\n'], rfl, rfl⟩
  · exact ⟨'\r', [], rfl, rfl⟩
  · exact ⟨'\n', [], rfl, rfl⟩

theorem takeWhile_unbroken {line b : Text} (hline : breaks line = 0) (hb : b ∈ lineEndings)
    (t : Text) : (line ++ (b ++ t)).takeWhile (fun c => !isBreak c) = line := by
  obtain ⟨c, rest, rfl, hc⟩ := exists_of_mem_lineEndings hb
  have hplain : ∀ d ∈ line, (!isBreak d) = true := fun d hd => by
    rw [breaks_eq_zero.1 hline d hd]
    rfl
  rw [List.takeWhile_append_of_pos hplain, List.cons_append,
    List.takeWhile_cons_of_neg (by simp [hc]), List.append_nil]

theorem interleave_inj {bs lines lines' : List Text} (hbs : bs ⊆ lineEndings)
    (hlength : lines.length = bs.length + 1) (hlength' : lines'.length = bs.length + 1)
    (hunbroken : ∀ line ∈ lines, breaks line = 0)
    (hunbroken' : ∀ line ∈ lines', breaks line = 0)
    (h : interleave lines bs = interleave lines' bs) : lines = lines' := by
  induction bs generalizing lines lines' with
  | nil =>
      obtain ⟨line, rfl⟩ := List.length_eq_one_iff.1 hlength
      obtain ⟨line', rfl⟩ := List.length_eq_one_iff.1 hlength'
      simpa using h
  | cons b bs ih =>
      obtain ⟨line, lines, rfl⟩ := List.exists_cons_of_length_eq_add_one hlength
      obtain ⟨line', lines', rfl⟩ := List.exists_cons_of_length_eq_add_one hlength'
      rw [List.forall_mem_cons] at hunbroken hunbroken'
      rw [List.cons_subset] at hbs
      rw [interleave_cons, interleave_cons] at h
      -- On either side the first line is what stands before the first break character.
      have hline := congrArg (List.takeWhile fun c => !isBreak c) h
      rw [takeWhile_unbroken hunbroken.1 hbs.1, takeWhile_unbroken hunbroken'.1 hbs.1] at hline
      subst hline
      rw [List.append_cancel_left_eq, List.append_cancel_left_eq] at h
      rw [ih hbs.2 (by simpa using hlength) (by simpa using hlength') hunbroken.2 hunbroken'.2 h]

/-! ## Divided texts -/

/-- A text from its front with lines and breaks that it is made of: it is at its end, or a line
ends with a break, or a line goes on.  It is left open here whether a line feed behind a
carriage return is a break of its own. -/
inductive Divided : Text → List Text → List Text → Prop where
  | nil : Divided [] [[]] []
  | ends {b t : Text} {lines bs : List Text} (hb : b ∈ lineEndings)
      (h : Divided t lines bs) : Divided (b ++ t) ([] :: lines) (b :: bs)
  | goesOn {c : Char} {t line : Text} {lines bs : List Text} (hc : isBreak c = false)
      (h : Divided t (line :: lines) bs) : Divided (c :: t) ((c :: line) :: lines) bs

namespace Divided

variable {t : Text} {lines bs : List Text}

theorem length_eq (h : Divided t lines bs) : lines.length = bs.length + 1 := by
  induction h with
  | nil => rfl
  | ends hb h ih => simp [ih]
  | goesOn hc h ih => simpa using ih

theorem interleave_eq (h : Divided t lines bs) : interleave lines bs = t := by
  induction h with
  | nil => rfl
  | ends hb h ih => simp [ih]
  | goesOn hc h ih => rw [interleave_cons_cons, ih]

theorem unbroken (h : Divided t lines bs) : ∀ line ∈ lines, breaks line = 0 := by
  induction h with
  | nil => simp
  | ends hb h ih => simpa using ih
  | goesOn hc h ih =>
      rw [List.forall_mem_cons] at ih ⊢
      exact ⟨by simp [hc, ih.1], ih.2⟩

theorem subset_lineEndings (h : Divided t lines bs) : bs ⊆ lineEndings := by
  induction h with
  | nil => simp
  | ends hb h ih => exact List.cons_subset.2 ⟨hb, ih⟩
  | goesOn hc h ih => exact ih

theorem subset_text (h : Divided t lines bs) : ∀ b ∈ bs, b ⊆ t := by
  induction h with
  | nil => simp
  | @ends b t lines bs hb h ih =>
      rw [List.forall_mem_cons]
      exact ⟨List.subset_append_left b t, fun d hd => List.subset_append_of_subset_right b (ih d hd)⟩
  | goesOn hc h ih => exact fun b hb => List.subset_cons_of_subset _ (ih b hb)

theorem breaks_eq (h : Divided t lines bs) : breaks t = bs.length + bs.count ['\r', '\n'] := by
  induction h with
  | nil => rfl
  | @ends b t lines bs hb h ih =>
      rw [breaks_append, ih, List.length_cons, List.count_cons]
      simp only [lineEndings, List.mem_cons, List.not_mem_nil, or_false] at hb
      rcases hb with rfl | rfl | rfl <;> simp [isBreak] <;> omega
  | goesOn hc h ih => simp [hc, ih]

end Divided

/-! ## The lines of a text -/

theorem divided_splitLines (t : Text) : Divided t (splitLines t) (lineBreaks t) := by
  induction t using splitLines.induct with
  | case1 => exact .nil
  | case2 rest ih =>
      rw [splitLines, lineBreaks_pair]
      exact .ends (b := ['\r', '\n']) (by simp [lineEndings]) ih
  | case3 c rest hfirst hbreak ih =>
      -- A carriage return with a line feed behind it was the case before.
      have hnext : c = '\r' → rest[0]? ≠ some '\n' := by
        intro hc hfeed
        cases rest with
        | nil => simp at hfeed
        | cons d rest => exact hfirst rest hc (by rw [Option.some.inj hfeed])
      have hbegins : breakAt? (c :: rest) 0 = some [c] := by
        rcases hbreak with rfl | rfl
        · simp [breakAt?, hnext rfl]
        · simp [breakAt?]
      rw [splitLines.eq_3 _ _ hfirst, if_pos hbreak, lineBreaks_cons_of hnext, hbegins]
      exact .ends (b := [c]) (by rcases hbreak with rfl | rfl <;> simp [lineEndings]) ih
  | case4 c rest hfirst hbreak ih =>
      obtain ⟨hreturn, hfeed⟩ := not_or.1 hbreak
      have hbegins : breakAt? (c :: rest) 0 = none := by simp [breakAt?, hreturn, hfeed]
      obtain ⟨line, lines, hlines⟩ := List.exists_cons_of_ne_nil (splitLines_ne_nil rest)
      rw [splitLines.eq_3 _ _ hfirst, if_neg hbreak,
        lineBreaks_cons_of fun hc => absurd hc hreturn, hbegins]
      rw [hlines] at ih ⊢
      exact .goesOn (by simp [isBreak, hreturn, hfeed]) ih

theorem length_splitLines_le (t : Text) : (splitLines t).length ≤ breaks t + 1 := by
  have h := divided_splitLines t
  have hlength := h.length_eq
  have hbreaks := h.breaks_eq
  omega

theorem length_splitLines {t : Text} (h : '\r' ∉ t) : (splitLines t).length = breaks t + 1 := by
  have hdivided := divided_splitLines t
  have hpairs : (lineBreaks t).count ['\r', '\n'] = 0 :=
    List.count_eq_zero.2 fun hpair => h (hdivided.subset_text _ hpair (by simp))
  rw [hdivided.length_eq, hdivided.breaks_eq, hpairs, Nat.add_zero]

theorem breaks_of_mem_splitLines {t line : Text} (h : line ∈ splitLines t) : breaks line = 0 :=
  (divided_splitLines t).unbroken line h

theorem splitLines_eq_singleton_iff {t : Text} : splitLines t = [t] ↔ breaks t = 0 := by
  constructor
  · intro h
    exact breaks_of_mem_splitLines (h ▸ List.mem_singleton_self t)
  · intro h
    have hdivided := divided_splitLines t
    have hbreaks := hdivided.breaks_eq
    have hnone : lineBreaks t = [] := List.eq_nil_of_length_eq_zero (by omega)
    rw [hnone] at hdivided
    obtain ⟨line, hline⟩ := List.length_eq_one_iff.1 hdivided.length_eq
    have htext := hdivided.interleave_eq
    rw [hline, interleave_singleton] at htext
    rw [hline, htext]

end Proofreader.Text
