import Proofreader.Proofs.Fragment.Remainders

/-!
# Scanning step by step

A scan is repeated single steps, each of which takes something off the front of the text.  So
it needs no more steps than the text has characters, and the pieces of a text are those that
the first step reads, followed by the pieces of what it leaves.
-/

namespace Proofreader.Fragment

/-! ## One step -/

/-- How one step turns out; what it adds to the pieces stands in the scan. -/
inductive Advance where
  | on (s : Scan)
  | stop (s : Scan)
  | fails (f : Fault)
  deriving DecidableEq, Repr

def advanceConstruct (last : Bool) (t : Text) : Advance :=
  match readConstruct t with
  | .pieces ps rest => .on ⟨ps.reverse, none, rest⟩
  | .rawStart p name rest => .on ⟨[p], some name, rest⟩
  | .fails f => .fails f
  | .unfinished =>
      if last && !t.isEmpty then .on ⟨[.text (takeAsText t).1], none, (takeAsText t).2⟩
      else .stop ⟨[], none, '<' :: t⟩

def advanceNumber (t : Text) : Advance :=
  match CharacterReference.readNumber? t with
  | some (.ok n, rest) => .on ⟨[.text [CharacterReference.charOfNumber n]], none, rest⟩
  | some (.error f, _) => .fails (.number f)
  | none =>
      if t.contains ';' then .stop ⟨[.text ['&', '#']], none, t⟩
      else .stop ⟨[], none, '&' :: '#' :: t⟩

def advanceName (last : Bool) (t : Text) : Advance :=
  match CharacterReference.readName? t, t with
  | some (name, rest), _ => .on ⟨[.text (CharacterReference.textOfName name)], none, rest⟩
  | none, [] => .stop ⟨[], none, ['&']⟩
  | none, c :: tail =>
      if c.isAlpha then
        if last && tail.isEmpty then .stop ⟨[], none, c :: tail⟩
        else .stop ⟨[], none, '&' :: c :: tail⟩
      else .on ⟨[.text ['&']], none, c :: tail⟩

def isPlain (c : Char) : Bool := !startsMarkup c

def advance (last : Bool) (raw : Option Text) (t : Text) : Advance :=
  match raw with
  | some name =>
      match cutWhere? (rawClose? name) t with
      | some (content, rest) => .on ⟨[.closing name, .text content], none, rest⟩
      | none => .stop ⟨[], raw, t⟩
  | none =>
      match t with
      | [] => .stop ⟨[], none, []⟩
      | '<' :: t => advanceConstruct last t
      | '&' :: '#' :: t => advanceNumber t
      | '&' :: t => advanceName last t
      | t => .on ⟨[.text (t.takeWhile isPlain)], none, t.dropWhile isPlain⟩

def Scan.after (ps : List Piece) (s : Scan) : Scan := { s with pieces := s.pieces ++ ps }

def Advance.resume (last : Bool) (n : Nat) (ps : List Piece) : Advance → Except Fault Scan
  | .on s => scanFrom last n (s.after ps)
  | .stop s => .ok (s.after ps)
  | .fails f => .error f

theorem scanFrom_succ (last : Bool) (n : Nat) (s : Scan) :
    scanFrom last (n + 1) s = (advance last s.raw s.rest).resume last n s.pieces := by
  obtain ⟨ps, raw, t⟩ := s
  rw [scanFrom]
  cases raw with
  | some name =>
      rw [advance]
      cases hcut : cutWhere? (rawClose? name) t with
      | none => simp only [hcut]; rfl
      | some cut => simp only [hcut]; rfl
  | none =>
      simp only
      split
      · rfl
      · rename_i t
        rw [advance, advanceConstruct]
        cases readConstruct t with
        | unfinished =>
            simp only
            cases last && !t.isEmpty <;> rfl
        | pieces ps rest => rfl
        | rawStart p name rest => rfl
        | fails f => rfl
      · rename_i t
        rw [advance, advanceNumber]
        cases CharacterReference.readNumber? t with
        | some found =>
            obtain ⟨n, rest⟩ := found
            cases n <;> rfl
        | none =>
            simp only
            cases t.contains ';' <;> rfl
      · rename_i t hnumber
        rw [advance.eq_5 last t hnumber]
        unfold advanceName
        cases CharacterReference.readName? t with
        | some found => rfl
        | none =>
            cases t with
            | nil => rfl
            | cons c tail =>
                simp only
                cases halpha : c.isAlpha with
                | false => rfl
                | true => cases last && tail.isEmpty <;> rfl
      · rename_i hnil hopen hnumber hname
        rw [advance.eq_6 last t hnil hopen hnumber hname, List.span_eq_takeWhile_dropWhile]
        rfl

theorem length_of_advanceConstruct {last : Bool} {t : Text} {s : Scan}
    (h : advanceConstruct last t = .on s) : s.rest.length ≤ t.length := by
  unfold advanceConstruct at h
  split at h
  · rename_i hread
    obtain rfl := Advance.on.inj h
    exact (suffix_of_readConstruct (by rw [hread]; rfl)).length_le
  · rename_i hread
    obtain rfl := Advance.on.inj h
    exact (suffix_of_readConstruct (by rw [hread]; rfl)).length_le
  · simp at h
  · split at h
    · obtain rfl := Advance.on.inj h
      exact (suffix_takeAsText t).length_le
    · simp at h

theorem length_of_advanceNumber {t : Text} {s : Scan} (h : advanceNumber t = .on s) :
    s.rest.length ≤ t.length := by
  unfold advanceNumber at h
  split at h
  · rename_i hread
    obtain rfl := Advance.on.inj h
    exact (CharacterReference.remainder_of_readNumber? hread).suffix.length_le
  · simp at h
  · split at h <;> simp at h

theorem length_of_advanceName {last : Bool} {t : Text} {s : Scan}
    (h : advanceName last t = .on s) : s.rest.length ≤ t.length := by
  unfold advanceName at h
  split at h
  · rename_i hread
    obtain rfl := Advance.on.inj h
    exact (CharacterReference.remainder_of_readName? hread).suffix.length_le
  · simp at h
  · split at h
    · split at h <;> simp at h
    · obtain rfl := Advance.on.inj h
      exact Nat.le_refl _

theorem length_of_advance {last : Bool} {raw : Option Text} {t : Text} {s : Scan}
    (h : advance last raw t = .on s) : s.rest.length < t.length := by
  unfold advance at h
  split at h
  · split at h
    · rename_i hcut
      obtain rfl := Advance.on.inj h
      exact (remainder_of_cutWhere? (closes_rawClose _) hcut).lt
    · simp at h
  · split at h
    · simp at h
    · exact Nat.lt_succ_of_le (length_of_advanceConstruct h)
    · exact Nat.lt_succ_of_lt (Nat.lt_succ_of_le (length_of_advanceNumber h))
    · exact Nat.lt_succ_of_le (length_of_advanceName h)
    · rename_i hnil hopen _ hname
      obtain rfl := Advance.on.inj h
      cases t with
      | nil => exact absurd rfl hnil
      | cons c t =>
          have hplain : isPlain c = true := by
            have hopen' : c ≠ '<' := fun hc => hopen t (by rw [hc])
            have hname' : c ≠ '&' := fun hc => hname t (by rw [hc])
            simp [isPlain, startsMarkup, hopen', hname']
          rw [List.dropWhile_cons_of_pos hplain]
          exact Nat.lt_succ_of_le (List.dropWhile_suffix _).length_le

/-! ## Fuel and earlier pieces -/

theorem scanFrom_fuel {last : Bool} {n m : Nat} {s : Scan} (hn : s.rest.length < n)
    (hm : s.rest.length < m) : scanFrom last n s = scanFrom last m s := by
  -- each step leaves less to read, so neither fuel runs out first
  induction n generalizing m s with
  | zero => exact absurd hn (Nat.not_lt_zero _)
  | succ n ih =>
      cases m with
      | zero => exact absurd hm (Nat.not_lt_zero _)
      | succ m =>
          rw [scanFrom_succ, scanFrom_succ]
          cases hstep : advance last s.raw s.rest with
          | on s' =>
              have hlt := length_of_advance hstep
              exact ih (s := s'.after s.pieces) (Nat.lt_of_lt_of_le hlt (by omega))
                (Nat.lt_of_lt_of_le hlt (by omega))
          | stop s' => rfl
          | fails f => rfl

theorem scanFrom_after (last : Bool) (n : Nat) (ps : List Piece) (s : Scan) :
    scanFrom last n (s.after ps) = (scanFrom last n s).map (Scan.after ps) := by
  induction n generalizing s with
  | zero => rfl
  | succ n ih =>
      have hafter : ∀ s' : Scan, s'.after (s.pieces ++ ps) = (s'.after s.pieces).after ps :=
        fun s' => by simp [Scan.after]
      rw [scanFrom_succ, scanFrom_succ]
      simp only [Scan.after]
      cases advance last s.raw s.rest with
      | on s' => simp only [Advance.resume, hafter, ih]
      | stop s' => simp only [Advance.resume, hafter]; rfl
      | fails f => rfl

theorem scanPass_after (last : Bool) (ps : List Piece) (s : Scan) :
    scanPass last (s.after ps) = (scanPass last s).map (Scan.after ps) :=
  scanFrom_after last _ ps s

theorem finish_after (ps : List Piece) (s : Scan) :
    finish (s.after ps) = ps.reverse ++ finish s := by
  obtain ⟨qs, raw, rest⟩ := s
  cases hleft : raw.isNone && !rest.isEmpty <;> simp [finish, Scan.after, hleft]

/-! ## Both scans -/

def piecesFrom (raw : Option Text) (t : Text) : Except Fault (List Piece) := do
  let first ← scanPass false ⟨[], raw, t⟩
  let second ← scanPass true first
  return finish second

theorem piecesFrom_of_advance {raw : Option Text} {t : Text} {s : Scan}
    (h : advance false raw t = .on s) :
    piecesFrom raw t = (piecesFrom s.raw s.rest).map (s.pieces.reverse ++ ·) := by
  have hlt := length_of_advance h
  have hfirst : scanPass false ⟨[], raw, t⟩ =
      (scanPass false ⟨[], s.raw, s.rest⟩).map (Scan.after s.pieces) := by
    rw [← scanPass_after, scanPass, scanPass, scanFrom_succ, h, Advance.resume]
    have hafter : s.after [] = (Scan.mk [] s.raw s.rest).after s.pieces := by simp [Scan.after]
    rw [hafter]
    exact scanFrom_fuel (by simp only [Scan.after]; omega) (by simp only [Scan.after]; omega)
  unfold piecesFrom
  rw [hfirst]
  cases scanPass false ⟨[], s.raw, s.rest⟩ with
  | error e => rfl
  | ok first =>
      simp only [Except.map, bind, Except.bind, scanPass_after]
      cases scanPass true first with
      | error e => rfl
      | ok second => simp [pure, Except.pure, finish_after]

end Proofreader.Fragment
