import Proofreader.Proofs.Report.Filing

/-!
# Reports that are filed

Once the reports are filed, the CSV report is in its place and all other files but the
Markdown report are as before.  The Markdown report is in its place as well, unless its own
path has the suffix of the CSV report: then both have one path, and the CSV report was
written last.
-/

namespace Proofreader.Report

open Disk

theorem encode_markdown_ne (rs rs' : List DocumentReport) :
    Utf8.encode (markdown rs) ≠ Utf8.encode (csv rs') := by
  have hmarkdown : ∃ rest, Utf8.encode (markdown rs) = 0x23 :: rest := ⟨_, rfl⟩
  have hcsv : ∃ rest, Utf8.encode (csv rs') = 0x46 :: rest := ⟨_, rfl⟩
  obtain ⟨rest, hmarkdown⟩ := hmarkdown
  obtain ⟨rest', hcsv⟩ := hcsv
  rw [hmarkdown, hcsv]
  simp

/-- Both reports are written to one directory, each to its own place if and only if the
Markdown report has another suffix. -/
theorem place_eq_iff {d d' : Disk} {p : Path} {names : List Text} {name : Text}
    {place place' : Place} (hparts : p.parts = names ++ [name]) (hplace : d.locate p = .ok place)
    (hplace' : d'.locate (csvPath p) = .ok place')
    (hkeep : ∀ above, d.follow (d.start p) names = .ok above →
      d'.follow (d'.start p) names = .ok above) :
    place = place' ↔ p.suffix = ".csv" := by
  obtain ⟨stem, hname, hwith⟩ := Path.exists_stem hparts
  have hcsv : csvPath p = ⟨p.slashes, names ++ [stem ++ ".csv".toList]⟩ := hwith ".csv"
  unfold locate at hplace hplace'
  rw [hparts, follow_concat] at hplace
  rw [hcsv, follow_concat] at hplace'
  obtain ⟨above, habove, -, rfl⟩ := hplace
  obtain ⟨above', habove', -, rfl⟩ := hplace'
  obtain rfl : above = above' := Except.ok.inj ((hkeep above habove).symm.trans habove')
  have hnotUp : stem ++ ".csv".toList ≠ ['.', '.'] := by
    intro h
    have hlength := congrArg List.length h
    simp at hlength
  constructor
  · intro h
    have hsame := eq_of_step_eq hnotUp h
    rw [hname] at hsame
    exact List.append_cancel_left hsame
  · intro h
    rw [hname, h]

theorem locate_csvPath_ne {d : Disk} {p : Path} {place place' : Place} (hparts : p.parts = [])
    (hplace : d.locate p = .ok place) (hfree : d.lookup? place ≠ some .directory)
    (bytes : Utf8.Bytes) : (d.put place (.file bytes)).locate (csvPath p) ≠ .ok place' := by
  have hroot : place ≠ [] := by
    rintro rfl
    exact hfree rfl
  rw [locate, hparts, follow, Except.ok.injEq] at hplace
  have hcsv : (csvPath p).parts ≠ [] := by simp [csvPath, Path.withSuffix]
  obtain ⟨name, rest, hnames⟩ := List.exists_cons_of_ne_nil hcsv
  have hstart : (d.put place (.file bytes)).start (csvPath p) = place := hplace
  rw [locate, hstart, hnames, follow, lookup?_put_self d _ hroot]
  simp

theorem exists_places_of_file_ok {rs : List DocumentReport} {p : Path} {d : Disk}
    (h : (file rs p d).outcome = .ok ()) :
    let d' := (file rs p d).disk
    ∃ place place', d'.locate p = .ok place ∧ d'.locate (csvPath p) = .ok place' ∧
      (place = place' ↔ p.suffix = ".csv") ∧
      d'.bytesAt? place' = some (Utf8.encode (csv rs)) ∧
      (place ≠ place' → d'.bytesAt? place = some (Utf8.encode (markdown rs))) ∧
      ∀ other, other ≠ place → other ≠ place' → d'.bytesAt? other = d.bytesAt? other := by
  rcases file_cases rs p d with ⟨e, hfailed, -⟩ | ⟨made, place, hmade, hplace, hfree, hfile⟩
  · simp [hfailed] at h
  · rw [hfile] at h ⊢
    rcases write_cases (made.put place (.file (Utf8.encode (markdown rs)))) (csvPath p)
        (Utf8.encode (csv rs)) with ⟨e, hwrite⟩ | ⟨place', hplace', hfree', hwrite⟩
    · simp [hwrite] at h
    · rw [hwrite]
      refine ⟨place, place', locate_put hfree' _ (locate_put hfree _ hplace),
        locate_put hfree' _ hplace', ?_, bytesAt?_put_self hfree' _, ?_, ?_⟩
      · rcases p.parts.eq_nil_or_concat with hparts | ⟨names, name, hparts⟩
        · exact absurd hplace' (locate_csvPath_ne hparts hplace hfree _)
        · rw [List.concat_eq_append] at hparts
          exact place_eq_iff hparts hplace hplace' fun above habove => follow_put hfree _ habove
      · intro hne
        rw [bytesAt?_put_of_ne _ hne, bytesAt?_put_self hfree]
      · intro other hother hother'
        rw [bytesAt?_put_of_ne _ hother', bytesAt?_put_of_ne _ hother, hmade.bytesAt?_eq]

/-- After reports were filed, the CSV report can be read at its path, and the Markdown report
at its own exactly if that path does not end in the suffix of the CSV report. -/
theorem file_survives (rs : List DocumentReport) (p : Path) (d : Disk)
    (h : (file rs p d).outcome = .ok ()) :
    let d' := (file rs p d).disk
    d'.read (csvPath p) = .ok (Utf8.encode (csv rs)) ∧
      (d'.read p = .ok (Utf8.encode (markdown rs)) ↔ p.suffix ≠ ".csv") ∧
      ∀ place, d'.locate p ≠ .ok place → d'.locate (csvPath p) ≠ .ok place →
        d'.bytesAt? place = d.bytesAt? place := by
  intro d'
  obtain ⟨place, place', hplace, hplace', hsame, hcsv, hmarkdown, hothers⟩ :=
    exists_places_of_file_ok h
  refine ⟨read_eq_ok_iff.2 ⟨place', hplace', hcsv⟩, ?_, ?_⟩
  · rw [← not_iff_not, not_not, ← hsame, read_eq_ok_iff]
    constructor
    · intro hnot
      by_contra hne
      exact hnot ⟨place, hplace, hmarkdown hne⟩
    · -- What stands at the common place is the report that was written last.
      rintro rfl ⟨place', hplace', hbytes⟩
      obtain rfl := Except.ok.inj (hplace.symm.trans hplace')
      exact encode_markdown_ne rs rs (Option.some.inj (hbytes.symm.trans hcsv))
  · intro other hother hother'
    exact hothers other (fun heq => hother (heq ▸ hplace)) (fun heq => hother' (heq ▸ hplace'))

/-- A report path with several dots, in a directory that is made on the way; the files beside it
that have parts of its name stay. -/
theorem file_survives_dotted :
    let issue : Issue :=
      ⟨⟨"teh", 1, Path.ofText "a.md", by decide⟩, "RULE", "typo", "misspelling", "", "teh", ["the"],
        "**teh**"⟩
    let rs : List DocumentReport := [⟨Path.ofText "a.md", [issue]⟩]
    let p := Path.ofText "out/../report.v1.md"
    let d : Disk := ⟨[], [([("report.v1" : Text)], .file [1]), ([("report.csv" : Text)], .file [2])]⟩
    let d' := (file rs p d).disk
    (file rs p d).outcome = .ok () ∧ csvPath p = Path.ofText "out/../report.v1.csv" ∧
      d'.read (csvPath p) = .ok (Utf8.encode (csv rs)) ∧
      d'.read p = .ok (Utf8.encode (markdown rs)) ∧
      d'.bytesAt? ["report.v1"] = some [1] ∧ d'.bytesAt? ["report.csv"] = some [2] := by
  intro issue rs p d d'
  have hfiled : (file rs p d).outcome = .ok () := by decide +kernel
  have hplaces : d'.locate p = .ok [("report.v1.md" : Text)] ∧
      d'.locate (csvPath p) = .ok [("report.v1.csv" : Text)] := by
    decide +kernel
  obtain ⟨hcsv, hmarkdown, hothers⟩ := file_survives rs p d hfiled
  refine ⟨hfiled, by decide, hcsv, hmarkdown.2 (by decide), ?_, ?_⟩
  · rw [hothers ["report.v1"] (by rw [hplaces.1]; decide) (by rw [hplaces.2]; decide)]
    rfl
  · rw [hothers ["report.csv"] (by rw [hplaces.1]; decide) (by rw [hplaces.2]; decide)]
    rfl

/-- The Markdown report of a path that ends in the suffix of the CSV report is lost. -/
theorem file_overwrites_markdown :
    let p := Path.ofText "r.csv"
    let d' := (file [] p ⟨[], []⟩).disk
    (file [] p ⟨[], []⟩).outcome = .ok () ∧ csvPath p = p ∧
      d'.read p = .ok (Utf8.encode (csv [])) ∧
      Utf8.encode (csv []) ≠ Utf8.encode (markdown []) := by
  decide +kernel

end Proofreader.Report
