import Proofreader.Markdown.RawHtml
import Proofreader.Proofs.Text.Breaks

/-!
# The reach of raw HTML

What follows a tag, a comment, an instruction, a declaration or a section of character
data is the end of the text that it was read from, without its first character.
-/

namespace Proofreader.Markdown.RawHtml

open Text

variable {t rest : Text}

theorem suffix_of_afterFirst? {p : Text} (h : afterFirst? t p = some rest) : rest <:+ t := by
  induction t with
  | nil =>
      rw [afterFirst?] at h
      split at h
      · rename_i hafter
        exact Option.some.inj h ▸ suffix_of_after? hafter
      · simp at h
  | cons c t ih =>
      rw [afterFirst?] at h
      split at h
      · rename_i hafter
        exact Option.some.inj h ▸ suffix_of_after? hafter
      · exact (ih h).trans (List.suffix_cons c t)

/-! ## Tags -/

theorem suffix_of_afterTagName? (h : afterTagName? t = some rest) : rest <:+ t := by
  cases t with
  | nil => simp [afterTagName?] at h
  | cons c t =>
      rw [afterTagName?] at h
      split at h
      · exact Option.some.inj h ▸ (List.dropWhile_suffix _).trans (List.suffix_cons c t)
      · simp at h

theorem suffix_of_mem_valueEnds (h : rest ∈ valueEnds t) : rest <:+ t := by
  unfold valueEnds at h
  split at h
  · rename_i t
    split at h
    · rename_i quote rest' hdrop
      obtain rfl := List.mem_singleton.1 h
      have hsuffix : quote :: rest <:+ t := hdrop ▸ List.dropWhile_suffix _
      exact (List.suffix_cons quote rest).trans (hsuffix.trans (List.suffix_cons '"' t))
    · simp at h
  · rename_i t
    split at h
    · rename_i quote rest' hdrop
      obtain rfl := List.mem_singleton.1 h
      have hsuffix : quote :: rest <:+ t := hdrop ▸ List.dropWhile_suffix _
      exact (List.suffix_cons quote rest).trans (hsuffix.trans (List.suffix_cons '\'' t))
    · simp at h
  · unfold bareValueEnds at h
    simp only at h
    split at h
    · simp at h
    · rcases List.mem_cons.1 h with rfl | h
      · exact List.drop_suffix _ _
      · obtain ⟨n, -, rfl⟩ := List.mem_map.1 h
        exact List.drop_suffix _ _

theorem suffix_of_mem_attributeEnds (h : rest ∈ attributeEnds t) : rest <:+ t := by
  have hblanks : t.dropWhile Text.isBlank <:+ t := List.dropWhile_suffix _
  unfold attributeEnds at h
  split at h
  · rename_i c name hname
    rw [hname] at hblanks
    have hafter : name.dropWhile isAttributeChar <:+ t :=
      (List.dropWhile_suffix _).trans ((List.suffix_cons c name).trans hblanks)
    split at h
    · simp only at h
      split at h
      · rename_i value hvalue
        have hequals : '=' :: value <:+ t := hvalue ▸ (List.dropWhile_suffix _).trans hafter
        rcases List.mem_append.1 h with h | h
        · exact (suffix_of_mem_valueEnds h).trans ((List.dropWhile_suffix _).trans
            ((List.suffix_cons '=' value).trans hequals))
        · exact List.mem_singleton.1 h ▸ hafter
      · exact List.mem_singleton.1 h ▸ hafter
    · simp at h
  · simp at h

theorem suffix_of_afterTagEnd? (h : afterTagEnd? t = some rest) : rest <:+ t := by
  have hblanks : t.dropWhile Text.isBlank <:+ t := List.dropWhile_suffix _
  unfold afterTagEnd? at h
  split at h
  · rename_i rest' hdrop
    obtain rfl := Option.some.inj h
    exact (List.suffix_cons '>' _).trans (hdrop ▸ hblanks)
  · rename_i rest' hdrop
    obtain rfl := Option.some.inj h
    rw [hdrop] at hblanks
    exact (List.suffix_append ['/', '>'] _).trans hblanks
  · simp at h

theorem suffix_of_afterAttributes? {fuel : Nat} (h : afterAttributes? fuel t = some rest) :
    rest <:+ t := by
  induction fuel generalizing t with
  | zero => simp [afterAttributes?] at h
  | succ fuel ih =>
      rw [afterAttributes?] at h
      split at h
      · rename_i rest' hfound
        obtain rfl := Option.some.inj h
        obtain ⟨next, hmem, hnext⟩ := List.exists_of_findSome?_eq_some hfound
        exact (ih hnext).trans (suffix_of_mem_attributeEnds hmem)
      · exact suffix_of_afterTagEnd? h

theorem suffix_of_afterOpenTag? (h : afterOpenTag? t = some rest) : rest <:+ t.tail := by
  unfold afterOpenTag? at h
  split at h
  · obtain ⟨name, hname, hrest⟩ := Option.bind_eq_some_iff.1 h
    exact (suffix_of_afterAttributes? hrest).trans (suffix_of_afterTagName? hname)
  · simp at h

theorem suffix_of_afterCloseTag? (h : afterCloseTag? t = some rest) : rest <:+ t.tail := by
  unfold afterCloseTag? at h
  split at h
  · rename_i t
    split at h
    · rename_i rest' hname
      obtain rfl := Option.some.inj h
      obtain ⟨name, hname, hdrop⟩ := Option.map_eq_some_iff.1 hname
      have hend : '>' :: rest' <:+ name := hdrop ▸ List.dropWhile_suffix _
      exact (List.suffix_cons '>' rest').trans
        (hend.trans ((suffix_of_afterTagName? hname).trans (List.suffix_cons '/' t)))
    · simp at h
  · simp at h

/-! ## Other constructs -/

theorem suffix_of_afterCommentBody? (h : afterCommentBody? t = some rest) : rest <:+ t := by
  induction t using afterCommentBody?.induct with
  | case1 t =>
      obtain rfl := Option.some.inj h
      exact List.suffix_append ['-', '-', '>'] t
  | case2 c t hclose ih =>
      rw [afterCommentBody?.eq_2 _ _ hclose] at h
      exact (ih h).trans (List.suffix_append ['-', '-', c] t)
  | case3 => simp [afterCommentBody?] at h
  | case4 c t hclose hmarks hend ih =>
      rw [afterCommentBody?.eq_4 _ _ hclose hmarks hend] at h
      exact (ih h).trans (List.suffix_cons c t)
  | case5 => simp [afterCommentBody?] at h

theorem suffix_tail_of_after? {c : Char} {p : Text} (h : Text.after? t (c :: p) = some rest) :
    rest <:+ t.tail := by
  cases t with
  | nil => simp [Text.after?] at h
  | cons d t =>
      rw [Text.after?] at h
      split at h
      · exact suffix_of_after? h
      · simp at h

theorem suffix_of_afterComment? (h : afterComment? t = some rest) : rest <:+ t.tail := by
  unfold afterComment? at h
  split at h
  all_goals try (rename_i hafter; have hsuffix := suffix_tail_of_after? hafter)
  · obtain rfl := Option.some.inj h
    exact (List.suffix_cons '>' _).trans hsuffix
  · obtain rfl := Option.some.inj h
    exact (List.suffix_append ['-', '>'] _).trans hsuffix
  · exact (suffix_of_afterCommentBody? h).trans hsuffix
  · simp at h

theorem suffix_of_after?_of_afterFirst? {c : Char} {p q : Text}
    (h : (Text.after? t (c :: p)).bind (afterFirst? · q) = some rest) : rest <:+ t.tail := by
  obtain ⟨inside, hinside, hrest⟩ := Option.bind_eq_some_iff.1 h
  exact (suffix_of_afterFirst? hrest).trans (suffix_tail_of_after? hinside)

theorem suffix_of_afterDeclaration? (h : afterDeclaration? t = some rest) : rest <:+ t.tail := by
  unfold afterDeclaration? at h
  split at h
  · rename_i c t
    split at h
    · exact (suffix_of_afterFirst? h).trans (List.suffix_append ['!', c] t)
    · simp at h
  · simp at h

theorem suffix_tail_of_rawHtml (h : after? t = some rest) : rest <:+ t.tail := by
  simp only [after?, Option.or_eq_some_iff] at h
  rcases h with h | ⟨-, h | ⟨-, h | ⟨-, h | ⟨-, h | ⟨-, h⟩⟩⟩⟩⟩
  · exact suffix_of_afterOpenTag? h
  · exact suffix_of_afterCloseTag? h
  · exact suffix_of_afterComment? h
  · exact suffix_of_after?_of_afterFirst? h
  · exact suffix_of_afterDeclaration? h
  · exact suffix_of_after?_of_afterFirst? h

end Proofreader.Markdown.RawHtml
