import Proofreader.Proofs.Disk
import Proofreader.Proofs.Path
import Proofreader.Report.Filing

/-!
# Reports that cannot be filed

The CSV report is written after the Markdown report.  So if a directory stands in its place,
the Markdown report is there all the same; any other failure leaves all files alone.
-/

namespace Proofreader.Report

open Disk

/-- The reports were filed up to the CSV report, which could not be written. -/
structure LeftBehind (rs : List DocumentReport) (p : Path) (d d' : Disk) (place : Place) :
    Prop where
  locate_eq : d'.locate p = .ok place
  bytesAt?_eq : d'.bytesAt? place = some (Utf8.encode (markdown rs))
  others : ∀ other, other ≠ place → d'.bytesAt? other = d.bytesAt? other
  blocked : p.parts ≠ [] → d'.isDirectory (csvPath p) = true

/-- Filing stops before the Markdown report is written, or comes down to writing the CSV report
on a disk that holds the Markdown report. -/
theorem file_cases (rs : List DocumentReport) (p : Path) (d : Disk) :
    (∃ e, (file rs p d).outcome = .error e ∧ AddsDirectories d (file rs p d).disk) ∨
      ∃ made place, AddsDirectories d made ∧ made.locate p = .ok place ∧
        made.lookup? place ≠ some .directory ∧
        file rs p d = (made.put place (.file (Utf8.encode (markdown rs)))).write (csvPath p)
          (Utf8.encode (csv rs)) := by
  have hmade := addsDirectories_makeDirectories d p.parent
  unfold file Changed.andThen
  cases hparent : (d.makeDirectories p.parent).outcome with
  | error e => exact .inl ⟨e, hparent, hmade⟩
  | ok _ =>
      simp only
      rcases write_cases (d.makeDirectories p.parent).disk p (Utf8.encode (markdown rs)) with
        ⟨e, hwrite⟩ | ⟨place, hlocate, hplace, hwrite⟩
      · rw [hwrite]
        exact .inl ⟨e, rfl, hmade⟩
      · rw [hwrite]
        exact .inr ⟨_, place, hmade, hlocate, hplace, rfl⟩

theorem isDirectory_csvPath {d : Disk} {p : Path} {place : Place} {e : Entry} {bytes : Utf8.Bytes}
    {failure : DiskError} (hparts : p.parts ≠ []) (hlocate : d.locate p = .ok place)
    (hplace : d.lookup? place ≠ some .directory)
    (h : ((d.put place e).write (csvPath p) bytes).outcome = .error failure) :
    (d.put place e).isDirectory (csvPath p) = true := by
  obtain ⟨names, name, hsplit⟩ : ∃ names name, p.parts = names ++ [name] :=
    ⟨_, _, (List.dropLast_concat_getLast hparts).symm⟩
  obtain ⟨stem, -, hwith⟩ := Path.exists_stem hsplit
  have hcsv : csvPath p = ⟨p.slashes, names ++ [stem ++ ".csv".toList]⟩ := hwith ".csv"
  unfold locate at hlocate
  rw [hsplit, follow_concat] at hlocate
  obtain ⟨above, habove, hdirectory, -⟩ := hlocate
  have hcsvPlace : (d.put place e).locate (csvPath p) =
      .ok (step above (stem ++ ".csv".toList)) := by
    rw [hcsv]
    exact follow_concat.2 ⟨above, follow_put hplace e habove,
      lookup?_put_directory hplace e hdirectory, rfl⟩
  exact isDirectory_of_write_error hcsvPlace h

theorem file_of_error {rs : List DocumentReport} {p : Path} {d : Disk} {e : DiskError}
    (h : (file rs p d).outcome = .error e) :
    AddsDirectories d (file rs p d).disk ∨
      ∃ place, LeftBehind rs p d (file rs p d).disk place := by
  rcases file_cases rs p d with ⟨e', -, hmade⟩ | ⟨made, place, hmade, hlocate, hplace, hfile⟩
  · exact .inl hmade
  · right
    refine ⟨place, ?_⟩
    rw [hfile] at h ⊢
    rcases write_cases _ (csvPath p) (Utf8.encode (csv rs)) with ⟨e', hcsv⟩ | ⟨_, _, _, hcsv⟩
    · rw [hcsv]
      refine ⟨locate_put hplace _ hlocate, bytesAt?_put_self hplace _, ?_, ?_⟩
      · intro other hother
        rw [bytesAt?_put_of_ne _ hother, hmade.bytesAt?_eq]
      · intro hparts
        exact isDirectory_csvPath hparts hlocate hplace h
    · rw [hcsv] at h
      simp at h

end Proofreader.Report
