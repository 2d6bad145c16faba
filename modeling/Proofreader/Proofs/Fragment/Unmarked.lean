import Proofreader.Proofs.Fragment.Coverage
import Proofreader.Proofs.Fragment.Lines
import Proofreader.Proofs.Text.Words

/-!
# Texts without markup

A text in which no angle bracket opens and no ampersand stands is a single string, whatever
other characters it has.  Stripping it only squeezes it, and nothing of it is exempt; so what
was stripped once stays as it is, unless a character reference has put such a character there.
-/

namespace Proofreader

namespace Fragment

/-- No construct and no reference can begin in the text. -/
def Unmarked (t : Text) : Prop := '<' ∉ t ∧ '&' ∉ t

theorem Unmarked.startsMarkup_eq {t : Text} (h : Unmarked t) {c : Char} (hc : c ∈ t) :
    startsMarkup c = false := by
  have hopen : c ≠ '<' := by
    rintro rfl
    exact h.1 hc
  have hname : c ≠ '&' := by
    rintro rfl
    exact h.2 hc
  simp [startsMarkup, hopen, hname]

theorem Unmarked.isPlain_eq {t : Text} (h : Unmarked t) {c : Char} (hc : c ∈ t) :
    isPlain c = true := by
  simp [isPlain, h.startsMarkup_eq hc]

theorem pieces_of_unmarked {c : Char} {t : Text} (h : Unmarked (c :: t)) :
    pieces (c :: t) = .ok [.text (c :: t)] := by
  have hplain : ∀ d ∈ t, isPlain d = true := fun d hd => h.isPlain_eq (List.mem_cons_of_mem c hd)
  have htake : t.takeWhile isPlain = t := List.takeWhile_eq_self_iff.2 hplain
  have hdrop : t.dropWhile isPlain = [] := List.dropWhile_eq_nil_iff.2 hplain
  rw [pieces_plain (h.startsMarkup_eq (List.mem_cons_self ..)), htake, hdrop]
  rfl

theorem exists_read_of_unmarked {t : Text} (h : Unmarked t) :
    ∃ f, read t = .ok f ∧ f.plain = t ∧ ∀ s start, f.marked s start = [] := by
  cases t with
  | nil => exact ⟨.nil, rfl, rfl, fun _ _ => rfl⟩
  | cons c t =>
      refine ⟨.text (c :: t) .nil, ?_, List.append_nil _, fun _ _ => rfl⟩
      rw [read, pieces_of_unmarked h]
      rfl

end Fragment

/-- Stripping makes `clean` of the text and finds nothing that is exempt, be the marker a class
or anything else that a selector can be made of. -/
structure StripsBare (t clean : Text) : Prop where
  strip_eq : Fragment.strip t = .ok clean
  class_eq : ∀ marker, Selector.isIdentifier marker = true →
    stripMarkup t marker = .ok ⟨clean, []⟩
  selector_eq : ∀ marker s, Selector.read ('.' :: marker) = .ok s →
    stripMarkup t marker = .ok ⟨clean, []⟩

theorem stripsBare_of_unmarked {t : Text} (h : Fragment.Unmarked t) : StripsBare t t.squeeze := by
  obtain ⟨f, hread, hplain, hmarked⟩ := Fragment.exists_read_of_unmarked h
  have hselector : ∀ marker s, Selector.read ('.' :: marker) = .ok s →
      stripMarkup t marker = .ok ⟨t.squeeze, []⟩ := by
    intro marker s hs
    simp [stripMarkup, hread, hs, Fragment.exemptions, hplain, hmarked]
  refine ⟨?_, fun marker hmarker => ?_, hselector⟩
  · rw [Fragment.strip, hread, ← hplain]
    rfl
  · exact hselector marker _ (Selector.read_class hmarker)

theorem squeeze_of_strip {raw clean : Text} (h : Fragment.strip raw = .ok clean) :
    clean.squeeze = clean := by
  unfold Fragment.strip at h
  cases hread : Fragment.read raw with
  | error e => simp [hread, Except.map] at h
  | ok f =>
      obtain rfl : f.plain.squeeze = clean := by simpa [hread, Except.map] using h
      exact Text.squeeze_squeeze f.plain

/-- A text without markup is only squeezed.  So if it is what is left of a fragment, it is not
changed by stripping it again. -/
theorem strip_unmarked (t : Text) (h : Fragment.Unmarked t) :
    StripsBare t t.squeeze ∧ ∀ raw, Fragment.strip raw = .ok t → StripsBare t t := by
  have hbare := stripsBare_of_unmarked h
  refine ⟨hbare, fun raw hraw => ?_⟩
  rwa [squeeze_of_strip hraw] at hbare

/-- Quotes, a closing bracket, a form feed and an em space in a text without markup, and a
fragment of which a closing bracket remains. -/
theorem strip_unmarked_bracket :
    let t : Text := "\x0c\"a\">\u2003 b'"
    let raw : Text := "<i class=\"ignore R\">a</i>\n &#62; <b>b"
    StripsBare t "\"a\"> b'" ∧ Fragment.strip raw = .ok "a > b".toList ∧
      StripsBare "a > b".toList "a > b".toList := by
  intro t raw
  have ht : Fragment.Unmarked t := ⟨by decide, by decide⟩
  have hraw : Fragment.strip raw = .ok "a > b".toList := by decide +kernel
  have hclean : Fragment.Unmarked "a > b".toList := ⟨by decide, by decide⟩
  exact ⟨(strip_unmarked t ht).1, hraw, (strip_unmarked _ hclean).2 raw hraw⟩

/-- A text without markup is not stripped if the marker begins with a digit. -/
theorem stripMarkup_rejects_unmarked :
    let t : Text := "plain text"
    Fragment.Unmarked t ∧ Fragment.strip t = .ok t.squeeze ∧
      stripMarkup t "2col" = .error .selector := by
  intro t
  exact ⟨⟨by decide, by decide⟩, by decide +kernel, by decide +kernel⟩

end Proofreader
