import Proofreader.Disk

/-!
# What changes a disk

Making directories puts directories where nothing stood.  Writing a file changes one place,
which no way leads through, so every path leads where it led before.
-/

namespace Proofreader.Disk

def bytesAt? (d : Disk) (place : Place) : Option Utf8.Bytes :=
  match d.lookup? place with
  | some (.file bytes) => some bytes
  | _ => none

/-! ## Making directories -/

structure AddsDirectories (d d' : Disk) : Prop where
  workingPlace_eq : d'.workingPlace = d.workingPlace
  kept_or_made : ∀ place, d'.lookup? place = d.lookup? place ∨
    d.lookup? place = none ∧ d'.lookup? place = some .directory

namespace AddsDirectories

variable {d mid d' : Disk}

theorem refl (d : Disk) : AddsDirectories d d := ⟨rfl, fun _ => .inl rfl⟩

theorem trans (h : AddsDirectories d mid) (h' : AddsDirectories mid d') :
    AddsDirectories d d' := by
  refine ⟨h'.workingPlace_eq.trans h.workingPlace_eq, fun place => ?_⟩
  rcases h.kept_or_made place with hkept | ⟨hnone, hmade⟩
  · rw [← hkept]
    exact h'.kept_or_made place
  · rcases h'.kept_or_made place with hkept' | ⟨hnone', -⟩
    · exact .inr ⟨hnone, hkept'.trans hmade⟩
    · simp [hmade] at hnone'

theorem bytesAt?_eq (h : AddsDirectories d d') (place : Place) :
    d'.bytesAt? place = d.bytesAt? place := by
  rcases h.kept_or_made place with hkept | ⟨hnone, hmade⟩
  · rw [bytesAt?, hkept, bytesAt?]
  · simp [bytesAt?, hnone, hmade]

theorem makeDirectory (d : Disk) (p : Path) : AddsDirectories d (d.makeDirectory p).disk := by
  unfold Disk.makeDirectory
  cases d.locate p with
  | error f => exact refl d
  | ok place =>
      cases hthere : d.lookup? place with
      | some e => simp [hthere, refl]
      | none =>
          refine ⟨by simp [hthere, put], fun other => ?_⟩
          by_cases hother : other = place
          · subst hother
            have hroot : other ≠ [] := by
              rintro rfl
              simp [lookup?] at hthere
            exact .inr ⟨hthere, by simp [hthere, lookup?_put_self d .directory hroot]⟩
          · exact .inl (by simp [hthere, lookup?_put_of_ne d .directory hother])

end AddsDirectories

theorem disk_allowDirectory (p : Path) (c : Changed) : (allowDirectory p c).disk = c.disk := by
  unfold allowDirectory
  split
  · rfl
  · split <;> rfl

theorem addsDirectories_makeDirectoriesAt (slashes : Nat) (parts : List Text) (d : Disk) :
    AddsDirectories d (makeDirectoriesAt slashes parts d).disk := by
  induction parts generalizing d with
  | nil =>
      rw [makeDirectoriesAt, disk_allowDirectory]
      exact .makeDirectory d _
  | cons part rest ih =>
      unfold makeDirectoriesAt
      simp only
      split
      · split
        · exact ih d
        · rw [disk_allowDirectory]
          exact (ih d).trans (.makeDirectory _ _)
      · rw [disk_allowDirectory]
        exact .makeDirectory d _

theorem addsDirectories_makeDirectories (d : Disk) (p : Path) :
    AddsDirectories d (d.makeDirectories p).disk :=
  addsDirectories_makeDirectoriesAt p.slashes p.parts.reverse d

/-! ## Writing -/

theorem write_cases (d : Disk) (p : Path) (bytes : Utf8.Bytes) :
    (∃ e, d.write p bytes = ⟨.error e, d⟩) ∨
      ∃ place, d.locate p = .ok place ∧ d.lookup? place ≠ some .directory ∧
        d.write p bytes = ⟨.ok (), d.put place (.file bytes)⟩ := by
  unfold write
  cases d.locate p with
  | error f => exact .inl ⟨_, rfl⟩
  | ok place =>
      by_cases hdirectory : d.lookup? place = some .directory
      · exact .inl ⟨⟨.isADirectory, p⟩, by simp [hdirectory]⟩
      · exact .inr ⟨place, rfl, hdirectory, by simp [hdirectory]⟩

section Put

variable {d : Disk} {place : Place}

theorem lookup?_put_directory (h : d.lookup? place ≠ some .directory) (e : Entry) {other : Place}
    (hother : d.lookup? other = some .directory) :
    (d.put place e).lookup? other = some .directory := by
  have hne : other ≠ place := by
    rintro rfl
    exact h hother
  rw [lookup?_put_of_ne d e hne, hother]

theorem bytesAt?_put_self (h : d.lookup? place ≠ some .directory) (bytes : Utf8.Bytes) :
    (d.put place (.file bytes)).bytesAt? place = some bytes := by
  have hroot : place ≠ [] := by
    rintro rfl
    exact h rfl
  rw [bytesAt?, lookup?_put_self d _ hroot]

theorem bytesAt?_put_of_ne (e : Entry) {other : Place} (h : other ≠ place) :
    (d.put place e).bytesAt? other = d.bytesAt? other := by
  rw [bytesAt?, lookup?_put_of_ne d e h, bytesAt?]

theorem follow_put (h : d.lookup? place ≠ some .directory) (e : Entry) {start last : Place}
    {names : List Text} (hfollow : d.follow start names = .ok last) :
    (d.put place e).follow start names = .ok last := by
  induction names generalizing start with
  | nil => exact hfollow
  | cons name rest ih =>
      unfold follow at hfollow ⊢
      cases hstart : d.lookup? start with
      | none => simp [hstart] at hfollow
      | some there =>
          cases there with
          | file bytes => simp [hstart] at hfollow
          | directory =>
              simp only [hstart] at hfollow
              simp only [lookup?_put_directory h e hstart]
              exact ih hfollow

theorem locate_put (h : d.lookup? place ≠ some .directory) (e : Entry) {p : Path} {last : Place}
    (hlocate : d.locate p = .ok last) : (d.put place e).locate p = .ok last :=
  follow_put h e hlocate

end Put

theorem follow_concat {d : Disk} {start last : Place} {names : List Text} {name : Text} :
    d.follow start (names ++ [name]) = .ok last ↔
      ∃ above, d.follow start names = .ok above ∧ d.lookup? above = some .directory ∧
        last = step above name := by
  induction names generalizing start with
  | nil =>
      simp only [List.nil_append, follow, Except.ok.injEq, exists_eq_left']
      cases hstart : d.lookup? start with
      | none => simp
      | some there => cases there <;> simp [eq_comm]
  | cons first names ih =>
      simp only [List.cons_append, follow]
      cases d.lookup? start with
      | none => simp
      | some there =>
          cases there with
          | file bytes => simp
          | directory => exact ih

theorem isDirectory_of_write_error {d : Disk} {p : Path} {bytes : Utf8.Bytes} {e : DiskError}
    {place : Place} (hlocate : d.locate p = .ok place)
    (h : (d.write p bytes).outcome = .error e) : d.isDirectory p = true := by
  unfold write at h
  simp only [hlocate] at h
  split at h
  · rename_i hdirectory
    simp [isDirectory, find?, hlocate, hdirectory]
  · simp at h

theorem read_eq_ok_iff {d : Disk} {p : Path} {bytes : Utf8.Bytes} :
    d.read p = .ok bytes ↔ ∃ place, d.locate p = .ok place ∧ d.bytesAt? place = some bytes := by
  unfold read
  cases d.locate p with
  | error f => simp
  | ok place =>
      simp only [Except.ok.injEq, exists_eq_left', bytesAt?]
      cases d.lookup? place with
      | none => simp
      | some e => cases e <;> simp

/-- Steps from one place lead to one place only if their names are the same, the second one
not being two dots. -/
theorem eq_of_step_eq {place : Place} {name name' : Text} (hname : name' ≠ ['.', '.'])
    (h : step place name = step place name') : name = name' := by
  unfold step at h
  rw [if_neg hname] at h
  split at h
  · have hlength := congrArg List.length h
    rw [List.length_dropLast, List.length_append, List.length_singleton] at hlength
    omega
  · simpa using h

end Proofreader.Disk
