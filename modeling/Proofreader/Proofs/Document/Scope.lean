import Mathlib.Data.List.Induction
import Proofreader.Document.Builder

/-!
# Scopes

What a stream of events says about the place of each of its events, without any tree:
the containers that are open there, the sections it stands in, and the rules that are
named around it.
-/

namespace Proofreader

open Markdown

/-! ## Containers -/

namespace Markdown.EventKind

def isEnter : EventKind → Bool
  | .enter _ => true
  | _ => false

def isLeave : EventKind → Bool
  | .leave _ => true
  | _ => false

def isParagraph : EventKind → Bool
  | .paragraph _ => true
  | _ => false

end Markdown.EventKind

def entered (es : List Event) : Nat := es.countP (·.kind.isEnter)

def left (es : List Event) : Nat := es.countP (·.kind.isLeave)

/-- `first` enters a container, and the events `since` then, which are all the others
that come before, do not leave it. -/
structure Encloses (before : List Event) (first : Event) (since : List Event) : Prop where
  split : ∃ earlier, before = earlier ++ first :: since
  isEnter : first.kind.isEnter = true
  stays : ∀ p, p <+: since → left p ≤ entered p

structure Opening where
  first : Event
  since : List Event
  deriving DecidableEq, Repr

namespace Opening

def push (e : Event) (o : Opening) : Opening := { o with since := o.since ++ [e] }

def after (os : List Opening) (e : Event) : List Opening :=
  match e.kind with
  | .enter _ => ⟨e, []⟩ :: os.map (push e)
  | .leave _ => os.tail.map (push e)
  | _ => os.map (push e)

def awaits (o : Opening) : Bool :=
  o.first.kind = .enter .item && o.since.all (·.kind = .attributeLine)

end Opening

def openings (es : List Event) : List Opening := es.foldl Opening.after []

theorem openings_snoc (es : List Event) (e : Event) :
    openings (es ++ [e]) = Opening.after (openings es) e := by
  simp [openings]

theorem entered_snoc (es : List Event) (e : Event) :
    entered (es ++ [e]) = entered es + if e.kind.isEnter then 1 else 0 := by
  simp [entered, List.countP_append, List.countP_cons]

theorem left_snoc (es : List Event) (e : Event) :
    left (es ++ [e]) = left es + if e.kind.isLeave then 1 else 0 := by
  simp [left, List.countP_append, List.countP_cons]

def EnclosesAt (before : List Event) (k : Nat) (o : Opening) : Prop :=
  Encloses before o.first o.since ∧ entered o.since = left o.since + k

theorem enclosesAt_snoc {es : List Event} {e : Event} {k : Nat} {o : Opening} :
    EnclosesAt (es ++ [e]) k o ↔
      (e.kind.isEnter = true ∧ k = 0 ∧ o = ⟨e, []⟩) ∨
      ∃ j o', EnclosesAt es j o' ∧ o = o'.push e ∧
        (j + if e.kind.isEnter then 1 else 0) = k + if e.kind.isLeave then 1 else 0 := by
  constructor
  · rintro ⟨⟨⟨earlier, hsplit⟩, henter, hstays⟩, hcount⟩
    obtain ⟨first, since⟩ := o
    rcases List.eq_nil_or_concat since with rfl | ⟨since', e', rfl⟩
    · obtain ⟨rfl, heq⟩ := List.append_inj' hsplit rfl
      obtain rfl : e = first := by simpa using heq
      exact .inl ⟨henter, by simpa [entered, left] using hcount.symm, rfl⟩
    · simp only [List.concat_eq_append] at *
      rw [← List.cons_append, ← List.append_assoc] at hsplit
      obtain ⟨rfl, heq⟩ := List.append_inj' hsplit rfl
      obtain rfl : e = e' := by simpa using heq
      have hle := hstays since' (List.prefix_append _ _)
      rw [entered_snoc, left_snoc] at hcount
      refine .inr ⟨entered since' - left since', ⟨first, since'⟩,
        ⟨⟨⟨earlier, rfl⟩, henter, fun p hp => ?_⟩, ?_⟩, rfl, ?_⟩
      · exact hstays p (hp.trans (List.prefix_append _ _))
      · simp only
        omega
      · omega
  · rintro (⟨henter, rfl, rfl⟩ | ⟨j, o', ⟨⟨⟨earlier, rfl⟩, henter, hstays⟩, hcount⟩, rfl, hj⟩)
    · refine ⟨⟨⟨es, rfl⟩, henter, fun p hp => ?_⟩, rfl⟩
      obtain rfl := List.prefix_nil.1 hp
      exact Nat.le_refl _
    · refine ⟨⟨⟨earlier, by simp [Opening.push]⟩, henter, fun p hp => ?_⟩, ?_⟩
      · rcases List.prefix_concat_iff.1 hp with rfl | hp
        · rw [entered_snoc, left_snoc]
          omega
        · exact hstays p hp
      · simp only [Opening.push, entered_snoc, left_snoc]
        omega

theorem getElem?_openings {es : List Event} {k : Nat} {o : Opening} :
    (openings es)[k]? = some o ↔ EnclosesAt es k o := by
  induction es using List.reverseRecOn generalizing k o with
  | nil =>
      constructor
      · intro h
        simp [openings] at h
      · rintro ⟨⟨⟨earlier, hsplit⟩, -⟩, -⟩
        simp at hsplit
  | append_singleton es e ih =>
      rw [openings_snoc, enclosesAt_snoc, Opening.after]
      simp only [← ih]
      have hpush : ∀ x : Option Opening, x.map (Opening.push e) = some o ↔
          ∃ o', x = some o' ∧ o = o'.push e := by
        simp [Option.map_eq_some_iff, eq_comm (a := o)]
      cases hkind : e.kind with
      | enter c =>
          cases k with
          | zero => simp [EventKind.isEnter, EventKind.isLeave, eq_comm (a := o)]
          | succ k => simp [EventKind.isEnter, EventKind.isLeave, hpush]
      | leave c => simp [EventKind.isEnter, EventKind.isLeave, hpush]
      | _ => simp [EventKind.isEnter, EventKind.isLeave, hpush]

theorem mem_openings {es : List Event} {o : Opening} :
    o ∈ openings es ↔ Encloses es o.first o.since := by
  rw [List.mem_iff_getElem?]
  constructor
  · rintro ⟨k, hk⟩
    exact (getElem?_openings.1 hk).1
  · intro h
    have hle := h.stays o.since (List.prefix_refl _)
    exact ⟨entered o.since - left o.since, getElem?_openings.2 ⟨h, by omega⟩⟩

theorem Opening.awaits_push (o : Opening) (e : Event) :
    (o.push e).awaits = (o.awaits && decide (e.kind = .attributeLine)) := by
  rw [awaits, push, List.all_append, ← Bool.and_assoc, List.all_cons, List.all_nil, Bool.and_true]
  rfl

theorem awaits_tail_openings (es : List Event) :
    ∀ o ∈ (openings es).tail, o.awaits = false := by
  induction es using List.reverseRecOn with
  | nil => simp [openings]
  | append_singleton es e ih =>
      rw [openings_snoc, Opening.after]
      cases hkind : e.kind <;>
        simp only [List.tail_cons, ← List.map_tail, List.forall_mem_map, Opening.awaits_push, hkind]
      case attributeLine =>
        intro o ho
        simp [ih o ho]
      all_goals simp

def awaiting (es : List Event) : Bool := (openings es).head?.any Opening.awaits

theorem awaiting_snoc (es : List Event) (e : Event) :
    awaiting (es ++ [e]) =
      (decide (e.kind = .enter .item) || decide (e.kind = .attributeLine) && awaiting es) := by
  have hpush : ∀ o : Option Opening, (o.map (Opening.push e)).any Opening.awaits =
      (decide (e.kind = .attributeLine) && o.any Opening.awaits) := by
    intro o
    cases o <;> simp [Opening.awaits_push, Bool.and_comm]
  rw [awaiting, openings_snoc, Opening.after, awaiting]
  cases hkind : e.kind with
  | enter c => simp [Opening.awaits, hkind]
  | _ => simp [List.head?_map, hpush, hkind]

theorem openings_snoc_of_isBlock {es : List Event} {e : Event} (henter : e.kind.isEnter = false)
    (hleave : e.kind.isLeave = false) :
    openings (es ++ [e]) = (openings es).map (Opening.push e) := by
  rw [openings_snoc, Opening.after]
  cases hkind : e.kind <;> simp_all [EventKind.isEnter, EventKind.isLeave]

/-! ## Positions -/

structure Position where
  before : List Event
  event : Event
  deriving DecidableEq, Repr

def positionsFrom (before : List Event) : List Event → List Position
  | [] => []
  | e :: es => ⟨before, e⟩ :: positionsFrom (before ++ [e]) es

def positions (es : List Event) : List Position := positionsFrom [] es

theorem positionsFrom_append (before es es' : List Event) :
    positionsFrom before (es ++ es') =
      positionsFrom before es ++ positionsFrom (before ++ es) es' := by
  induction es generalizing before with
  | nil => simp [positionsFrom]
  | cons e es ih => simp [positionsFrom, ih]

theorem positions_snoc (es : List Event) (e : Event) :
    positions (es ++ [e]) = positions es ++ [⟨es, e⟩] := by
  rw [positions, positionsFrom_append, List.nil_append, positions]
  rfl

theorem event_mem_of_mem_positionsFrom {before es : List Event} {p : Position}
    (h : p ∈ positionsFrom before es) : p.event ∈ es := by
  induction es generalizing before with
  | nil => simp [positionsFrom] at h
  | cons e es ih =>
      rcases List.mem_cons.1 h with rfl | h
      · exact List.mem_cons_self ..
      · exact List.mem_cons_of_mem _ (ih h)

/-! ## Sections -/

def Position.topHeading? (p : Position) : Option (Nat × Event) :=
  match p.event.kind with
  | .heading level _ => if entered p.before = left p.before then some (level, p.event) else none
  | _ => none

def topHeadings (es : List Event) : List (Nat × Event) :=
  ((positions es).filterMap Position.topHeading?).reverse

/-- The nearest heading of a smaller level, from there the nearest one of a level
smaller still, and so on. -/
def ascend (level : Nat) : List (Nat × Event) → List (Nat × Event)
  | [] => []
  | (l, h) :: earlier => if l < level then (l, h) :: ascend l earlier else ascend level earlier

def sectionsAround (es : List Event) : List (Nat × Event) :=
  match topHeadings es with
  | [] => []
  | (level, h) :: earlier => (level, h) :: ascend level earlier

theorem topHeadings_snoc (es : List Event) (e : Event) :
    topHeadings (es ++ [e]) = (Position.topHeading? ⟨es, e⟩).toList ++ topHeadings es := by
  rw [topHeadings, positions_snoc, List.filterMap_append, List.reverse_append, topHeadings]
  cases h : Position.topHeading? ⟨es, e⟩ <;> simp [h]

theorem dropWhile_ascend {level l : Nat} (h : level ≤ l) (hs : List (Nat × Event)) :
    (ascend l hs).dropWhile (fun s => level ≤ s.1) = ascend level hs := by
  induction hs generalizing l with
  | nil => rfl
  | cons s hs ih =>
      obtain ⟨m, e⟩ := s
      unfold ascend
      by_cases hl : m < l
      · by_cases hlevel : m < level
        · simp [hl, hlevel, show ¬ level ≤ m by omega]
        · simp [hl, hlevel, show level ≤ m by omega, ih]
      · simp [hl, show ¬ m < level by omega, ih h]

theorem sectionsAround_heading {es : List Event} {e : Event} {level : Nat}
    (h : Position.topHeading? ⟨es, e⟩ = some (level, e)) :
    sectionsAround (es ++ [e]) =
      (level, e) :: (sectionsAround es).dropWhile fun s => level ≤ s.1 := by
  rw [sectionsAround, topHeadings_snoc, h, sectionsAround]
  cases topHeadings es with
  | nil => rfl
  | cons s earlier =>
      obtain ⟨l, h'⟩ := s
      simp only [Option.toList_some, List.singleton_append, List.dropWhile_cons, ascend]
      by_cases hl : l < level
      · simp [hl, show ¬ level ≤ l by omega]
      · simp [hl, show level ≤ l by omega, dropWhile_ascend]

theorem sectionsAround_other {es : List Event} {e : Event}
    (h : Position.topHeading? ⟨es, e⟩ = none) : sectionsAround (es ++ [e]) = sectionsAround es := by
  rw [sectionsAround, topHeadings_snoc, h, sectionsAround]
  rfl

theorem sectionsAround_of_not_heading {es : List Event} {e : Event}
    (h : ∀ level source, e.kind ≠ .heading level source) :
    sectionsAround (es ++ [e]) = sectionsAround es := by
  apply sectionsAround_other
  rw [Position.topHeading?]
  cases hkind : e.kind <;> simp_all

/-! ## Rules -/

def Markdown.Event.names (key : Text) (e : Event) : List Text :=
  Text.words ((e.attributes.get? key).getD [])

def leadingParagraph? : List Event → Option Event
  | [] => none
  | e :: es =>
      match e.kind with
      | .paragraph _ => some e
      | .attributeLine => leadingParagraph? es
      | _ => none

inductive Position.Ignores (key : Text) (p : Position) (r : Text) : Prop where
  | own (h : r ∈ p.event.names key)
  | container {first : Event} {since : List Event} (hopen : Encloses p.before first since)
      (hkind : first.kind ≠ .enter .item) (h : r ∈ first.names key)
  | leading {first paragraph : Event} {since : List Event} (hopen : Encloses p.before first since)
      (hkind : first.kind = .enter .item) (hleading : leadingParagraph? since = some paragraph)
      (h : r ∈ paragraph.names key)
  | inSection {heading : Nat × Event}
      (hsection : heading ∈ sectionsAround (p.before ++ [p.event]))
      (h : r ∈ heading.2.names key)

/-- The rules of an open container; an item has those of the paragraph it begins with. -/
def Opening.names (key : Text) (o : Opening) : List Text :=
  if o.first.kind = .enter .item then ((leadingParagraph? o.since).map (·.names key)).getD []
  else o.first.names key

def sectionRules (key : Text) (es : List Event) : List Text :=
  (sectionsAround es).flatMap (·.2.names key)

theorem Position.ignores_iff {key : Text} {p : Position} {r : Text} :
    p.Ignores key r ↔ r ∈ p.event.names key ++
      ((openings p.before).flatMap (Opening.names key) ++
        sectionRules key (p.before ++ [p.event])) := by
  simp only [List.mem_append, List.mem_flatMap, mem_openings, sectionRules]
  constructor
  · rintro (h | ⟨hopen, hkind, h⟩ | ⟨hopen, hkind, hleading, h⟩ | ⟨hsection, h⟩)
    · exact .inl h
    · exact .inr (.inl ⟨⟨_, _⟩, hopen, by simpa [Opening.names, hkind] using h⟩)
    · exact .inr (.inl ⟨⟨_, _⟩, hopen, by simpa [Opening.names, hkind, hleading] using h⟩)
    · exact .inr (.inr ⟨_, hsection, h⟩)
  · rintro (h | ⟨o, hopen, h⟩ | ⟨heading, hsection, h⟩)
    · exact .own h
    · unfold Opening.names at h
      split at h
      · rename_i hkind
        cases hleading : leadingParagraph? o.since with
        | none => simp [hleading] at h
        | some paragraph => exact .leading hopen hkind hleading (by simpa [hleading] using h)
      · rename_i hkind
        exact .container hopen hkind h
    · exact .inSection hsection h

theorem leadingParagraph?_snoc (es : List Event) (e : Event) :
    leadingParagraph? (es ++ [e]) =
      if es.all (·.kind = .attributeLine) then if e.kind.isParagraph then some e else none
      else leadingParagraph? es := by
  induction es with
  | nil => cases hkind : e.kind <;> simp [leadingParagraph?, EventKind.isParagraph, hkind]
  | cons e' es ih => cases hkind : e'.kind <;> simp [leadingParagraph?, hkind, ih]

theorem leadingParagraph?_eq_none {es : List Event} (h : es.all (·.kind = .attributeLine) = true) :
    leadingParagraph? es = none := by
  induction es with
  | nil => rfl
  | cons e es ih =>
      simp only [List.all_cons, Bool.and_eq_true, decide_eq_true_eq] at h
      rw [leadingParagraph?, h.1]
      exact ih h.2

theorem Opening.names_of_awaits {key : Text} {o : Opening} (h : o.awaits = true) :
    o.names key = [] := by
  simp only [awaits, Bool.and_eq_true, decide_eq_true_eq] at h
  simp [names, h.1, leadingParagraph?_eq_none h.2]

/-- The first block of an item gives it its rules if it is a paragraph; no other event
changes the rules of a container. -/
theorem Opening.names_push {key : Text} {o : Opening} {e : Event}
    (h : e.kind.isParagraph = true → o.awaits = false) : (o.push e).names key = o.names key := by
  unfold names
  split
  · rename_i hkind
    simp only [push] at hkind ⊢
    rw [if_pos hkind, leadingParagraph?_snoc]
    split
    · rename_i hall
      have hawaits : o.awaits = true := by rw [awaits, hall, decide_eq_true hkind, Bool.and_self]
      cases hparagraph : e.kind.isParagraph with
      | true => simp [h hparagraph] at hawaits
      | false => simp [leadingParagraph?_eq_none hall]
    · rfl
  · rename_i hkind
    exact (if_neg hkind).symm

theorem Opening.names_push_awaited {key : Text} {o : Opening} {e : Event}
    (hawaits : o.awaits = true) (hkind : e.kind.isParagraph = true) :
    (o.push e).names key = e.names key := by
  simp only [awaits, Bool.and_eq_true, decide_eq_true_eq] at hawaits
  simp [names, push, hawaits.1, leadingParagraph?_snoc, hawaits.2, hkind]

/-! ## Lines -/

/-- The event whose lines a text has: a paragraph that becomes the text of an item has
those of the item, and an event without lines those of the container around it. -/
def Position.token (p : Position) : Event :=
  match openings p.before with
  | [] => p.event
  | o :: _ =>
      if (o.awaits && p.event.kind.isParagraph) || p.event.span.isNone then o.first else p.event

end Proofreader
