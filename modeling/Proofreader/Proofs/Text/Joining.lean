import Proofreader.Proofs.Text.Breaks

/-!
# Joined lines

A text that is written line by line is read again line by line.  A line of it that has
breaks of its own counts as several, and a carriage return at its end makes one break with
the line feed behind it.
-/

namespace Proofreader.Text

def endedLines (t : Text) : List Text := (splitLines (t ++ ['\n'])).dropLast

/-- What a line feed divides has the lines of both parts, except that it belongs to a carriage
return right before it. -/
theorem exists_splitLines_append (s : Text) :
    ∃ lines, lines ≠ [] ∧ (s.getLast? ≠ some '\r' → lines = splitLines s) ∧
      ∀ t, splitLines (s ++ '\n' :: t) = lines ++ splitLines t := by
  induction s using splitLines.induct with
  | case1 => exact ⟨[[]], by simp, by simp [splitLines], by simp [splitLines]⟩
  | case2 rest ih =>
      obtain ⟨lines, hne, hend, happend⟩ := ih
      refine ⟨[] :: lines, by simp, fun h => ?_, fun t => ?_⟩
      · rw [splitLines, ← hend]
        cases rest with
        | nil => simp
        | cons c rest => simpa using h
      · rw [List.cons_append, List.cons_append, splitLines, happend, List.cons_append]
  | case3 c rest hfirst hbreak ih =>
      obtain ⟨lines, hne, hend, happend⟩ := ih
      by_cases hlone : c = '\r' ∧ rest = []
      · -- The line feed and the carriage return before it are one break.
        obtain ⟨rfl, rfl⟩ := hlone
        exact ⟨[[]], by simp, by simp, by simp [splitLines]⟩
      · refine ⟨[] :: lines, by simp, fun h => ?_, fun t => ?_⟩
        · rw [splitLines.eq_3 _ _ hfirst, if_pos hbreak, ← hend]
          cases rest with
          | nil => simp
          | cons d rest => simpa using h
        · have hfirst' : ∀ rest', c = '\r' → rest ++ '\n' :: t = '\n' :: rest' → False := by
            intro rest' hc hrest
            cases rest with
            | nil => exact hlone ⟨hc, rfl⟩
            | cons d rest => exact hfirst rest hc (by rw [(List.cons.inj hrest).1])
          rw [List.cons_append, splitLines.eq_3 _ _ hfirst', if_pos hbreak, happend,
            List.cons_append]
  | case4 c rest hfirst hbreak ih =>
      obtain ⟨lines, hne, hend, happend⟩ := ih
      obtain ⟨line, lines, rfl⟩ := List.exists_cons_of_ne_nil hne
      refine ⟨(c :: line) :: lines, by simp, fun h => ?_, fun t => ?_⟩
      · rw [splitLines.eq_3 _ _ hfirst, if_neg hbreak, ← hend]
        · rfl
        · cases rest with
          | nil => simp
          | cons d rest => simpa using h
      · have hfirst' : ∀ rest', c = '\r' → rest ++ '\n' :: t = '\n' :: rest' → False :=
          fun _ hc _ => hbreak (.inl hc)
        rw [List.cons_append, splitLines.eq_3 _ _ hfirst', if_neg hbreak, happend]
        rfl

theorem splitLines_append_newline (s t : Text) :
    splitLines (s ++ '\n' :: t) = endedLines s ++ splitLines t := by
  obtain ⟨lines, -, -, happend⟩ := exists_splitLines_append s
  rw [endedLines, happend, happend, splitLines, List.dropLast_concat]

theorem endedLines_eq_splitLines {t : Text} (h : t.getLast? ≠ some '\r') :
    endedLines t = splitLines t := by
  obtain ⟨lines, -, hend, happend⟩ := exists_splitLines_append t
  rw [endedLines, happend, splitLines, List.dropLast_concat, hend h]

theorem splitLines_joinWith (ts : List Text) {last : Text} (hlast : last.getLast? ≠ some '\r') :
    splitLines (joinWith ['\n'] (ts ++ [last])) = (ts ++ [last]).flatMap endedLines := by
  induction ts with
  | nil =>
      have hend := endedLines_eq_splitLines hlast
      simp [joinWith, hend]
  | cons t ts ih =>
      rw [List.cons_append, joinWith.eq_3 _ _ _ (by simp), List.append_assoc,
        List.singleton_append, splitLines_append_newline, ih, List.flatMap_cons]

end Proofreader.Text
