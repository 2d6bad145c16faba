import Mathlib.Data.List.Basic
import Proofreader.Markdown.Inline.Autolink
import Proofreader.Proofs.Markdown.Spelling
import Proofreader.Proofs.Text.Utf8

/-!
# Addresses between angle brackets

An address is shown without its escapes and with its host name in Unicode.  This shows
no line break unless one of the escapes stands for one: a host name cannot hold any, and
the address as a whole can only end in one, which is trimmed.
-/

namespace Proofreader

open Text

namespace Markdown.Url

/-! ## Undoing escapes -/

/-- A text without line breaks in which no escape stands for one. -/
structure Unbroken (t : Text) : Prop where
  breaks_eq : breaks t = 0
  escape : ∀ a b, ['%', a, b] <:+: t → isHexDigit a = true → isHexDigit b = true →
    isBreak (Char.ofNat (CodeSet.hexValue [a, b])) = false

theorem Unbroken.of_isInfix {s t : Text} (h : Unbroken t) (hs : s <:+: t) : Unbroken s :=
  ⟨Nat.le_zero.1 (h.breaks_eq ▸ breaks_mono hs.sublist),
    fun a b hab => h.escape a b (hab.trans hs)⟩

theorem Unbroken.of_isSuffix {s t : Text} (h : Unbroken t) (hs : s <:+ t) : Unbroken s :=
  h.of_isInfix hs.isInfix

theorem readEscapes_spec {t rest : Text} {bytes : List Nat} (ht : Unbroken t)
    (h : readEscapes t = (bytes, rest)) :
    rest <:+ t ∧ ∀ b ∈ bytes, isBreak (Char.ofNat b) = false := by
  induction t using readEscapes.induct generalizing bytes with
  | case1 a b t hdigits more rest' hrest ih =>
      rw [readEscapes, if_pos hdigits, hrest] at h
      obtain ⟨rfl, rfl⟩ := Prod.mk.inj h
      obtain ⟨hsuffix, hmore⟩ := ih (ht.of_isSuffix (List.suffix_append ['%', a, b] t)) hrest
      refine ⟨hsuffix.trans (List.suffix_append ['%', a, b] t), ?_⟩
      rw [List.forall_mem_cons]
      rw [Bool.and_eq_true] at hdigits
      exact ⟨ht.escape a b ⟨[], t, rfl⟩ hdigits.1 hdigits.2, hmore⟩
  | case2 a b t hdigits =>
      rw [readEscapes, if_neg hdigits] at h
      obtain ⟨rfl, rfl⟩ := Prod.mk.inj h
      exact ⟨List.suffix_refl _, by simp⟩
  | case3 t hescape =>
      rw [readEscapes.eq_2 _ hescape] at h
      obtain ⟨rfl, rfl⟩ := Prod.mk.inj h
      exact ⟨List.suffix_refl _, by simp⟩

theorem toNat_of_announced {b : Nat} (h : 0 < announced b - 1) : 0x80 ≤ b.toUInt8.toNat := by
  have hlt : 128 ≤ b ∧ b < 256 := by
    unfold announced at h
    split at h
    · omega
    · split at h
      · omega
      · split at h <;> omega
  rw [UInt8.toNat_ofNat_of_lt' hlt.2]
  exact hlt.1

theorem toNat_of_isContinuation {b : Nat} (h : isContinuation b = true) :
    0x80 ≤ b.toUInt8.toNat := by
  have hlt : 128 ≤ b ∧ b < 256 := by
    rw [isContinuation, beq_iff_eq] at h
    omega
  rw [UInt8.toNat_ofNat_of_lt' hlt.2]
  exact hlt.1

theorem breaks_decodeBytes (fuel : Nat) {bytes : List Nat}
    (h : ∀ b ∈ bytes, isBreak (Char.ofNat b) = false) : breaks (decodeBytes fuel bytes) = 0 := by
  induction fuel, bytes using decodeBytes.induct with
  | case1 bytes => rfl
  | case2 fuel => cases fuel <;> rfl
  | case3 fuel b rest hb ih =>
      rw [List.forall_mem_cons] at h
      rw [decodeBytes, if_pos hb, breaks_append, ih h.2]
      split
      · exact breaks_percent _
      · simp [h.1]
  | case4 fuel b rest hb more =>
      rename_i hmore ih
      rw [List.forall_mem_cons] at h
      have hdrop := ih fun b hb => h.2 b (List.mem_of_mem_drop hb)
      have hbytes : ∀ b' ∈ (b :: rest.take more).map Nat.toUInt8, 0x80 ≤ b'.toNat := by
        rw [List.map_cons, List.forall_mem_cons, List.forall_mem_map]
        exact ⟨toNat_of_announced hmore.1, fun b' hb' =>
          toNat_of_isContinuation (List.all_eq_true.1 hmore.2.2 b' hb')⟩
      rw [decodeBytes, if_neg hb]
      simp only [more] at hmore hdrop hbytes
      rw [if_pos hmore, breaks_append, hdrop, Nat.add_zero]
      split
      · rename_i t hdecode
        exact Utf8.breaks_decode hbytes hdecode
      · rw [breaks_eq_zero]
        intro c hc
        rw [List.eq_of_mem_replicate hc]
        rfl
  | case5 fuel b rest hb more =>
      rename_i hmore ih
      rw [List.forall_mem_cons] at h
      rw [decodeBytes, if_neg hb]
      simp only [more] at hmore
      rw [if_neg hmore, breaks_cons, ih h.2]
      rfl

theorem breaks_unescapeFrom (fuel : Nat) {t : Text} (h : Unbroken t) :
    breaks (unescapeFrom fuel t) = 0 := by
  induction fuel, t using unescapeFrom.induct with
  | case1 t => exact h.breaks_eq
  | case2 fuel => cases fuel <;> rfl
  | case3 fuel c t rest hread ih =>
      have hcons := h.breaks_eq
      rw [breaks_cons] at hcons
      simp only [unescapeFrom, hread, breaks_cons, ih (h.of_isSuffix (List.suffix_cons c t))]
      omega
  | case4 fuel c t bytes rest hne hread ih =>
      obtain ⟨hrest, hbytes⟩ := readEscapes_spec h hread
      cases bytes with
      | nil => exact absurd rfl hne
      | cons b bytes =>
          simp only [unescapeFrom, hread, breaks_append, ih (h.of_isSuffix hrest),
            breaks_decodeBytes _ hbytes]

/-! ## Host names -/

def isInert (c : Char) : Bool := !isBreak c && c != '%'

def Inert (t : Text) : Prop := ∀ c ∈ t, isInert c = true

theorem Inert.subset {s t : Text} (h : Inert t) (hs : s ⊆ t) : Inert s := fun c hc => h c (hs hc)

theorem Inert.append {s t : Text} (hs : Inert s) (ht : Inert t) : Inert (s ++ t) := by
  rw [Inert, List.forall_mem_append]
  exact ⟨hs, ht⟩

theorem Inert.append_unbroken {s t : Text} (hs : Inert s) (ht : Unbroken t) :
    Unbroken (s ++ t) := by
  induction s with
  | nil => exact ht
  | cons c s ih =>
      rw [Inert, List.forall_mem_cons] at hs
      obtain ⟨hc, hs⟩ := hs
      have ih := ih hs
      simp only [isInert, Bool.and_eq_true, Bool.not_eq_true', bne_iff_ne] at hc
      refine ⟨by simp [hc.1, ih.breaks_eq], fun a b hab => ?_⟩
      rw [List.cons_append, List.infix_cons_iff] at hab
      rcases hab with hab | hab
      · exact absurd (List.cons_prefix_cons.1 hab).1.symm hc.2
      · exact ih.escape a b hab

theorem Unbroken.append_cons {s t : Text} {c : Char} (hs : Unbroken s) (ht : Unbroken (c :: t))
    (hc : isHexDigit c = false) : Unbroken (s ++ c :: t) := by
  refine ⟨by rw [breaks_append, hs.breaks_eq, ht.breaks_eq], fun a b hab ha hb => ?_⟩
  rcases List.infix_append_iff_ne_nil.1 hab with hab | hab | ⟨l, r, hl, hr, heq, hleft, hright⟩
  · exact hs.escape a b hab ha hb
  · exact ht.escape a b hab ha hb
  · obtain ⟨x, l, rfl⟩ := List.exists_cons_of_ne_nil hl
    obtain ⟨d, r, rfl⟩ := List.exists_cons_of_ne_nil hr
    obtain rfl : d = c := (List.cons_prefix_cons.1 hright).1
    have hmem : d ∈ [a, b] := by
      rw [List.cons_append, List.cons.injEq] at heq
      simp [heq.2]
    rcases List.mem_pair.1 hmem with rfl | rfl
    · simp [hc] at ha
    · simp [hc] at hb

theorem Inert.joinWith {labels : List Text} (h : ∀ label ∈ labels, Inert label) :
    Inert (Text.joinWith ['.'] labels) := by
  induction labels with
  | nil => simp [Text.joinWith, Inert]
  | cons label labels ih =>
      rw [List.forall_mem_cons] at h
      cases labels with
      | nil => exact h.1
      | cons label' labels =>
          rw [Text.joinWith]
          · refine (h.1.append ?_).append (ih h.2)
            simp [Inert, isInert, isBreak]
          · simp

theorem isInert_of {p : Char → Bool} (hp : p '\n' = false ∧ p '\r' = false ∧ p '%' = false)
    {c : Char} (h : p c = true) : isInert c = true := by
  have hescape : c ≠ '%' := by
    rintro rfl
    simp [hp.2.2] at h
  simp [isInert, isBreak_of ⟨hp.1, hp.2.1⟩ h, hescape]

theorem cutProtocol_spec (t : Text) :
    Inert (cutProtocol t).1 ∧ (cutProtocol t).2 <:+ t := by
  have hinert : Inert (t.takeWhile isProtocolChar) := fun c hc =>
    isInert_of (by decide) (List.all_eq_true.1 List.all_takeWhile c hc)
  rw [cutProtocol]
  split
  · rename_i c name rest hname hrest
    rw [hname] at hinert
    refine ⟨hinert.append (by simp [Inert, isInert, isBreak]), ?_⟩
    exact (List.suffix_cons ':' rest).trans (hrest ▸ List.dropWhile_suffix _)
  · exact ⟨by simp [Inert], List.suffix_refl _⟩

theorem cutUser_spec (t : Text) :
    cutUser t = ([], t) ∨ t = (cutUser t).1 ++ '@' :: (cutUser t).2 := by
  simp only [cutUser, List.span_eq_takeWhile_dropWhile]
  split
  · rename_i tail user hspan
    right
    obtain ⟨htail, huser⟩ := Prod.mk.inj hspan
    have hauthority := List.takeWhile_append_dropWhile (p := (· ≠ '@'))
      (l := (t.takeWhile fun c => !endsAuthority c).reverse)
    rw [htail, huser, ← List.reverse_inj, List.reverse_reverse] at hauthority
    have hsplit := List.takeWhile_append_dropWhile (p := fun c => !endsAuthority c) (l := t)
    rw [drop_length_takeWhile]
    conv_lhs => rw [← hsplit, ← hauthority]
    simp
  · exact .inl rfl

theorem cutPort_spec (host : Text) : (cutPort host).1 ⊆ host ∧ (cutPort host).2 ⊆ host := by
  simp only [cutPort, List.span_eq_takeWhile_dropWhile]
  split
  · rename_i digits name hspan
    obtain ⟨hdigits, hname⟩ := Prod.mk.inj hspan
    have hhost := List.takeWhile_append_dropWhile (p := Char.isDigit) (l := host.reverse)
    rw [hdigits, hname, ← List.reverse_inj, List.reverse_reverse] at hhost
    rw [← hhost]
    constructor
    · exact List.reverse_subset.2 fun c hc => by simp [hc]
    · exact List.reverse_subset.2 fun c hc => by simp [hc]
  · exact ⟨List.Subset.refl _, List.nil_subset _⟩

theorem cutLabels_subset {labels good : List Text} {bad : Option (List Text)}
    (h : cutLabels labels = (good, bad)) {t : Text} (ht : ∀ label ∈ labels, label ⊆ t) :
    (∀ label ∈ good, label ⊆ t) ∧ ∀ rest, bad = some rest → ∀ label ∈ rest, label ⊆ t := by
  induction labels using cutLabels.induct generalizing good with
  | case1 =>
      obtain ⟨rfl, rfl⟩ := Prod.mk.inj h
      simp
  | case2 label rest hlabel good' bad' hrest ih =>
      rw [List.forall_mem_cons] at ht
      rw [cutLabels, if_pos hlabel, hrest] at h
      obtain ⟨rfl, rfl⟩ := Prod.mk.inj h
      rw [List.forall_mem_cons]
      exact ⟨⟨ht.1, (ih hrest ht.2).1⟩, (ih hrest ht.2).2⟩
  | case3 label rest hlabel =>
      rw [List.forall_mem_cons] at ht
      rw [cutLabels, if_neg hlabel] at h
      obtain ⟨rfl, rfl⟩ := Prod.mk.inj h
      have htake : (label.takeWhile isLabelChar).take 63 ⊆ label :=
        ((List.take_sublist _ _).trans (List.takeWhile_sublist _)).subset
      refine ⟨by simpa using List.Subset.trans htake ht.1, ?_⟩
      rintro rest' h'
      obtain rfl := Option.some.inj h'
      rw [List.forall_mem_cons]
      exact ⟨List.Subset.trans (List.drop_sublist _ _).subset ht.1, ht.2⟩

theorem cutHostName_spec {name rest : Text} (hname : Inert name) (hrest : Unbroken rest) :
    Inert (cutHostName name rest).1 ∧ Unbroken (cutHostName name rest).2 := by
  rw [cutHostName]
  split
  · rename_i good bad hcut
    obtain ⟨hgood, hbad⟩ := cutLabels_subset hcut (t := name) fun label hlabel =>
      subset_of_mem_splitOn hlabel
    refine ⟨.joinWith fun label hlabel => hname.subset (hgood label hlabel), ?_⟩
    have hjoined : Inert (joinWith ['.'] bad) :=
      .joinWith fun label hlabel => hname.subset (hbad bad rfl label hlabel)
    exact hjoined.append_unbroken hrest
  · exact ⟨hname, hrest⟩

theorem cutHost_spec {t : Text} (ht : Unbroken t) :
    Inert (cutHost t).1 ∧ Inert (cutHost t).2.1 ∧ Unbroken (cutHost t).2.2 := by
  have htake : Inert (t.takeWhile fun c => !endsHost c) := fun c hc =>
    isInert_of (by decide) (List.all_eq_true.1 List.all_takeWhile c hc)
  rw [cutHost]
  simp only
  generalize hhost : (if (t.takeWhile fun c => !endsHost c).getLast? = some ':' then
    (t.takeWhile fun c => !endsHost c).dropLast else t.takeWhile fun c => !endsHost c) = host
  have hinert : Inert host := by
    rw [← hhost]
    split
    · exact htake.subset (List.dropLast_subset _)
    · exact htake
  have hrest : Unbroken (t.drop host.length) := ht.of_isSuffix (List.drop_suffix _ t)
  obtain ⟨hname, hport⟩ := cutPort_spec host
  generalize cutPort host = parts at hname hport
  obtain ⟨name, port⟩ := parts
  simp only at hname hport ⊢
  split
  · refine ⟨?_, hinert.subset hport, hrest⟩
    split
    · simp [Inert]
    · exact hinert.subset fun c hc => hname (List.mem_of_mem_tail (List.dropLast_subset _ hc))
  · obtain ⟨hgood, hbad⟩ := cutHostName_spec (hinert.subset hname) hrest
    refine ⟨?_, hinert.subset hport, hbad⟩
    split
    · simp [Inert]
    · exact hgood

theorem unbroken_cutUser {t : Text} (ht : Unbroken t) :
    Unbroken (cutUser t).1 ∧ Unbroken (cutUser t).2 := by
  rcases cutUser_spec t with h | h
  · rw [h]
    exact ⟨⟨rfl, by simp⟩, ht⟩
  · exact ⟨ht.of_isInfix ⟨[], '@' :: (cutUser t).2, h.symm⟩,
      ht.of_isSuffix ⟨(cutUser t).1 ++ ['@'], by simpa using h.symm⟩⟩

structure Sound (u : Url) : Prop where
  protocol : Inert u.protocol
  user : Unbroken u.user
  host : Inert u.host
  port : Inert u.port
  tail : Unbroken (u.path ++ u.search ++ u.fragment)

theorem read_sound {t : Text} (ht : Unbroken (Text.trim t)) : (read t).Sound := by
  have htail {t : Text} (h : Unbroken t) : Unbroken ((t.takeWhile (· ≠ '#')).takeWhile (· ≠ '?') ++
      (t.takeWhile (· ≠ '#')).dropWhile (· ≠ '?') ++ t.dropWhile (· ≠ '#')) := by
    rw [List.takeWhile_append_dropWhile, List.takeWhile_append_dropWhile]
    exact h
  obtain ⟨hprotocol, hsuffix⟩ := cutProtocol_spec (Text.trim t)
  rw [read]
  generalize cutProtocol (Text.trim t) = parts at hprotocol hsuffix
  obtain ⟨protocol, rest⟩ := parts
  simp only at hprotocol hsuffix ⊢
  generalize hrest' : (if (Text.startsWith rest ['/', '/'] && !hostless.contains protocol) = true
    then rest.drop 2 else rest) = rest'
  have hrest : Unbroken rest' := by
    rw [← hrest']
    split
    · exact ht.of_isSuffix ((List.drop_suffix 2 rest).trans hsuffix)
    · exact ht.of_isSuffix hsuffix
  obtain ⟨huser, hafter⟩ := unbroken_cutUser hrest
  obtain ⟨hhost, hport, hpath⟩ := cutHost_spec hafter
  cases !hostless.contains protocol && (Text.startsWith rest ['/', '/'] ||
      !protocol.isEmpty && !slashed.contains protocol) with
  | true =>
      simp only [if_true]
      exact ⟨hprotocol, huser, hhost, hport, htail hpath⟩
  | false =>
      simp only [Bool.false_eq_true, if_false]
      exact ⟨hprotocol, ⟨rfl, by simp⟩, by simp [Inert], by simp [Inert], htail hrest⟩

theorem Sound.text {u : Url} (h : u.Sound) : Unbroken u.text := by
  have hmark : ∀ c ∈ ['[', ']', ':', '/', '@'], isInert c = true :=
    List.all_eq_true.1 (by decide)
  have hslashes : Inert (if u.slashes then ['/', '/'] else []) := by
    split <;> simp [Inert, hmark]
  have hhost : Inert (if u.host.contains ':' then '[' :: u.host ++ [']'] else u.host) := by
    split
    · have hbrackets : Inert ['['] ∧ Inert [']'] := by simp [Inert, hmark]
      exact (hbrackets.1.append h.host).append hbrackets.2
    · exact h.host
  have hport : Inert (if u.port.isEmpty then [] else ':' :: u.port) := by
    split
    · simp [Inert]
    · rw [Inert, List.forall_mem_cons]
      exact ⟨hmark ':' (by simp), h.port⟩
  have htail := (hhost.append hport).append_unbroken h.tail
  have huser : Unbroken ((if u.user.isEmpty then [] else u.user ++ ['@']) ++
      ((if u.host.contains ':' then '[' :: u.host ++ [']'] else u.host) ++
        (if u.port.isEmpty then [] else ':' :: u.port) ++ (u.path ++ u.search ++ u.fragment))) := by
    split
    · exact htail
    · rw [List.append_assoc]
      refine h.user.append_cons ?_ (by decide)
      exact Inert.append_unbroken (s := ['@']) (by simp [Inert, hmark]) htail
  have hall := (h.protocol.append hslashes).append_unbroken huser
  simpa [Url.text] using hall

theorem isInert_ofNat {n : Nat} (h : 64 ≤ n) : isInert (Char.ofNat n) = true := by
  have hescape := ofNat_ne (c := '%') (by decide) (show 37 < n by omega)
  simp [isInert, isBreak_ofNat (show 14 ≤ n by omega), hescape]

end Markdown.Url

/-! ## Host names in Unicode -/

theorem Text.of_ofList {p : Text → Prop} (t : Text) (h : p t) : p (String.ofList t).toList := by
  rwa [String.toList_ofList]

namespace CaseMap

set_option maxRecDepth 20000 in
theorem lowerShifts_high :
    lowerShifts.all (fun s => s.up || decide (64 ≤ s.span.first - s.distance)) = true := by
  unfold lowerShifts
  refine Text.of_ofList (p := fun t => (readShifts t).all
    (fun s => s.up || decide (64 ≤ s.span.first - s.distance)) = true) _ ?_
  decide +kernel

open Markdown.Url

theorem isInert_toLower {c : Char} (hc : isInert c = true) (h : c.toNat < 128) :
    isInert c.toLower = true := by
  have hall : ∀ n < 128, isInert (Char.ofNat n) = true →
      isInert (Char.ofNat n).toLower = true := by decide
  simpa [hc] using hall c.toNat h

theorem isInert_shift? {c d : Char} (hc : 128 ≤ c.toNat) (h : shift? lowerShifts c = some d) :
    isInert d = true := by
  obtain ⟨s, hfind, rfl⟩ := Option.map_eq_some_iff.1 h
  have hhigh := List.all_eq_true.1 lowerShifts_high s (List.mem_of_find?_eq_some hfind)
  have hfirst : s.span.first ≤ c.toNat := by
    have hcontains := List.find?_some hfind
    simp only [CodeSpan.contains, Bool.and_eq_true, decide_eq_true_eq] at hcontains
    exact hcontains.1.1
  apply isInert_ofNat
  cases hup : s.up with
  | true =>
      rw [if_pos rfl]
      omega
  | false =>
      simp only [hup, Bool.false_or, decide_eq_true_eq] at hhigh
      rw [if_neg Bool.false_ne_true]
      omega

theorem inert_lowerChar {c : Char} (hc : isInert c = true) : Inert (lowerChar c) := by
  unfold lowerChar
  split
  · rename_i hascii
    simpa [Inert] using isInert_toLower hc hascii
  · rename_i hascii
    split
    · simp only [Inert, List.forall_mem_cons, List.not_mem_nil, false_imp_iff, implies_true,
        and_true]
      decide
    · cases hshift : shift? lowerShifts c with
      | none => simpa [Inert] using hc
      | some d => simpa [Inert] using isInert_shift? (Nat.le_of_not_lt hascii) hshift

theorem inert_lowerFrom {before t : Text} (ht : Inert t) : Inert (lowerFrom before t) := by
  induction t generalizing before with
  | nil => simp [lowerFrom, Inert]
  | cons c t ih =>
      rw [Inert, List.forall_mem_cons] at ht
      rw [lowerFrom]
      refine Inert.append ?_ (ih ht.2)
      split
      · rw [Inert, List.forall_mem_singleton]
        exact isInert_ofNat (by split <;> decide)
      · exact inert_lowerChar ht.1

theorem inert_lower {t : Text} (ht : Inert t) : Inert (lower t) := inert_lowerFrom ht

end CaseMap

namespace Markdown

open Url

theorem Punycode.inert_insertAll {fuel n next bias : Nat} {isFirst : Bool}
    {output digits t : Text} (hn : 64 ≤ n) (houtput : Inert output)
    (h : insertAll fuel n next bias isFirst output digits = some t) : Inert t := by
  induction fuel generalizing n next bias isFirst output digits with
  | zero =>
      obtain rfl : output = t := by simpa [insertAll] using h
      exact houtput
  | succ fuel ih =>
      cases digits with
      | nil =>
          obtain rfl : output = t := by simpa [insertAll] using h
          exact houtput
      | cons d digits =>
          simp only [insertAll, Option.bind_eq_bind, Option.bind_eq_some_iff] at h
          obtain ⟨⟨delta, rest⟩, -, h⟩ := h
          simp only at h
          split at h
          · refine ih (Nat.le_trans hn (Nat.le_add_right _ _)) ?_ h
            have hnew := isInert_ofNat
              (Nat.le_trans hn (Nat.le_add_right n ((next + delta) / (output.length + 1))))
            refine Inert.append (houtput.subset (List.take_subset _ _)) ?_
            rw [Inert, List.forall_mem_cons]
            exact ⟨hnew, houtput.subset (List.drop_subset _ _)⟩
          · simp at h

theorem Punycode.inert_decode? {label t : Text} (hlabel : Inert label)
    (h : decode? label = some t) : Inert t := by
  simp only [decode?, List.span_eq_takeWhile_dropWhile] at h
  split at h
  · refine inert_insertAll (by decide) (hlabel.subset ?_) h
    refine List.reverse_subset.2 fun c hc => ?_
    exact List.mem_reverse.1 ((List.dropWhile_sublist _).subset (List.mem_of_mem_drop hc))
  · simp at h

namespace Url

theorem inert_labelToUnicode? {label t : Text} (hlabel : Inert label)
    (h : labelToUnicode? label = some t) : Inert t := by
  unfold labelToUnicode? at h
  split at h
  · rename_i code hcode
    exact Punycode.inert_decode?
      (CaseMap.inert_lower (hlabel.subset (Text.suffix_of_after? hcode).subset)) h
  · obtain rfl := Option.some.inj h
    exact hlabel

theorem exists_of_mem_mapM {α β : Type} {f : α → Option β} {xs : List α} {ys : List β}
    (h : xs.mapM f = some ys) {y : β} (hy : y ∈ ys) : ∃ x ∈ xs, f x = some y := by
  induction xs generalizing ys with
  | nil =>
      obtain rfl : [] = ys := by simpa using h
      simp at hy
  | cons x xs ih =>
      simp only [List.mapM_cons, Option.bind_eq_bind, Option.bind_eq_some_iff, Option.pure_def,
        Option.some.injEq] at h
      obtain ⟨y', hy', ys', hys, rfl⟩ := h
      rcases List.mem_cons.1 hy with rfl | hy
      · exact ⟨x, by simp, hy'⟩
      · obtain ⟨x', hmem, hx'⟩ := ih hys hy
        exact ⟨x', by simp [hmem], hx'⟩

theorem Sound.withUnicodeHost {u : Url} (h : u.Sound) : u.withUnicodeHost.Sound := by
  unfold Url.withUnicodeHost
  split
  · split
    · rename_i labels hlabels
      refine ⟨h.protocol, h.user, .joinWith fun label hlabel => ?_, h.port, h.tail⟩
      obtain ⟨label', hmem, hlabel'⟩ := exists_of_mem_mapM hlabels hlabel
      exact inert_labelToUnicode? (h.host.subset (subset_of_mem_splitOn hmem)) hlabel'
    · exact h
  · exact h

theorem breaks_shown {t : Text} (ht : Unbroken (Text.trim t)) : breaks (shown t) = 0 :=
  breaks_unescapeFrom _ (read_sound ht).withUnicodeHost.text

end Url

/-! ## Reading -/

namespace Autolink

theorem line_spec (address : Text) :
    let line := if address.getLast? = some '\n' then address.dropLast else address
    address = line ∨ address = line ++ ['\n'] := by
  simp only
  split
  · rename_i hlast
    right
    obtain ⟨line, rfl⟩ := List.getLast?_eq_some_iff.1 hlast
    simp
  · exact .inl rfl

theorem breaks_of_hasScheme {t : Text} (h : hasScheme t = true) : breaks t = 0 := by
  simp only [hasScheme] at h
  split at h
  · rename_i rest hrest
    simp only [Bool.and_eq_true] at h
    rw [← List.takeWhile_append_dropWhile (p := isSchemeChar) (l := t), hrest, breaks_eq_zero]
    intro c hc
    rcases List.mem_append.1 hc with hc | hc
    · exact isBreak_of (by decide) (List.all_eq_true.1 List.all_takeWhile c hc)
    · rcases List.mem_cons.1 hc with rfl | hc
      · rfl
      · exact isBreak_of (by decide) (List.all_eq_true.1 h.2 c hc)
  · simp at h

theorem breaks_of_isMailbox {t : Text} (h : isMailbox t = true) : breaks t = 0 := by
  simp only [isMailbox] at h
  split at h
  · rename_i domain hdomain
    simp only [Bool.and_eq_true, List.all_eq_true] at h
    rw [← List.takeWhile_append_dropWhile (p := isMailboxChar) (l := t), hdomain, breaks_eq_zero]
    intro c hc
    rcases List.mem_append.1 hc with hc | hc
    · exact isBreak_of (by decide) (List.all_eq_true.1 List.all_takeWhile c hc)
    · rcases List.mem_cons.1 hc with rfl | hc
      · rfl
      · rcases exists_mem_splitOn (p := (· == '.')) hc with hdot | ⟨label, hlabel, hc⟩
        · exact isBreak_of (p := (· == '.')) (by decide) hdot
        · have hall := h.2 label hlabel
          simp only [isDomainLabel, Bool.and_eq_true, List.all_eq_true] at hall
          exact isBreak_of (p := fun c => c.isAlphanum || c == '-') (by decide) (hall.2 c hc)
  · simp at h

/-- Only a line feed at the end, which is trimmed, breaks the line of an address. -/
theorem breaks_trim {line : Text} (h : breaks line = 0) :
    breaks (Text.trim (line ++ ['\n'])) = 0 := by
  rw [Text.trim, Text.trimStart, List.dropWhile_append]
  split
  · rfl
  · have hline : line.dropWhile isBlank ⊆ line := (List.dropWhile_sublist _).subset
    rw [List.reverse_append, List.reverse_singleton, List.singleton_append,
      List.dropWhile_cons_of_pos (by decide), breaks_reverse]
    refine breaks_eq_zero_of_subset (fun c hc => hline ?_) h
    exact List.mem_reverse.1 ((List.dropWhile_sublist _).subset hc)

theorem read?_spec {t target shown rest : Text} (hspells : SpellsNoBreak t)
    (h : read? t = some (target, shown, rest)) :
    rest <:+ t ∧ breaks target = 0 ∧ breaks shown = 0 := by
  simp only [read?] at h
  generalize haddress : t.takeWhile (fun c => !isBracket c) = address at h
  have hinfix : address <:+: t := haddress ▸ (List.takeWhile_prefix _).isInfix
  have hline := line_spec address
  simp only at hline
  generalize (if address.getLast? = some '\n' then address.dropLast else address) = line at h hline
  split at h
  · rename_i rest' target' hdrop htarget
    split at h
    · obtain ⟨rfl, rfl, rfl⟩ : target' = target ∧ Url.shown address = shown ∧ rest' = rest := by
        simpa using h
      refine ⟨(List.suffix_cons '>' rest').trans (hdrop ▸ List.drop_suffix _ t), ?_, ?_⟩
      · split at htarget
        · exact Option.some.inj htarget ▸ breaks_target _
        · split at htarget
          · exact Option.some.inj htarget ▸ breaks_target _
          · simp at htarget
      · have hbreaks : breaks line = 0 := by
          split at htarget
          · rename_i hscheme
            exact breaks_of_hasScheme hscheme
          · split at htarget
            · rename_i hmailbox
              exact breaks_of_isMailbox hmailbox
            · simp at htarget
        refine breaks_shown ⟨?_, fun a b hab => ?_⟩
        · rcases hline with rfl | rfl
          · exact Nat.le_zero.1 (hbreaks ▸ breaks_mono (trim_isInfix _).sublist)
          · exact breaks_trim hbreaks
        · exact hspells.escape a b (hab.trans ((trim_isInfix address).trans hinfix))
    · simp at h
  · simp at h

end Autolink

end Markdown

end Proofreader
