import Proofreader.Proofs.Report.Filed
import Proofreader.Proofs.Report.Csv
import Proofreader.Proofs.Text.Utf8

/-!
# Rows that are read back

Whatever stands in the fields of a CSV report, its rows are read back from the file.  So reports
that differ in any row are filed as different files.
-/

namespace Proofreader.Report

open Disk

def rowsAt? (d : Disk) (p : Path) : Option (List (List Text)) :=
  (d.read p).toOption.bind fun bytes => (Utf8.decode bytes).toOption.map Csv.decode

theorem decode_csv (rs : List DocumentReport) : Csv.decode (csv rs) = csvRows rs :=
  Csv.decode_encode (csvRows rs)

variable {rs : List DocumentReport} {p : Path} {d : Disk}

theorem read_csvPath (h : (file rs p d).outcome = .ok ()) :
    (file rs p d).disk.read (csvPath p) = .ok (Utf8.encode (csv rs)) := by
  obtain ⟨-, place, -, hplace, -, hcsv, -⟩ := exists_places_of_file_ok h
  exact read_eq_ok_iff.2 ⟨place, hplace, hcsv⟩

theorem rowsAt?_csvPath (h : (file rs p d).outcome = .ok ()) :
    rowsAt? (file rs p d).disk (csvPath p) = some (csvRows rs) := by
  rw [rowsAt?, read_csvPath h, ← decode_csv, Except.toOption, Option.bind_some, Utf8.decode_encode]
  rfl

/-- The CSV report is read back row by row, so no other rows are filed as the same file. -/
theorem file_recovers (rs : List DocumentReport) (p : Path) (d : Disk)
    (h : (file rs p d).outcome = .ok ()) :
    rowsAt? (file rs p d).disk (csvPath p) = some (csvRows rs) ∧
      ∀ rs' p' d', (file rs' p' d').outcome = .ok () →
        (file rs' p' d').disk.read (csvPath p') = (file rs p d).disk.read (csvPath p) →
          csvRows rs' = csvRows rs := by
  refine ⟨rowsAt?_csvPath h, fun rs' p' d' h' hsame => ?_⟩
  have hrows := rowsAt?_csvPath h'
  rw [rowsAt?, hsame] at hrows
  exact Option.some.inj (hrows.symm.trans (rowsAt?_csvPath h))

/-- Commas, quotes and line breaks in the fields, one field that is nothing but a carriage
return, and the same reports in another order at another path. -/
theorem file_recovers_broken_fields :
    let odd : Issue :=
      ⟨⟨"\r", 2, Path.ofText "a,b.md", by decide⟩, "A,\"B\"", "say \"hi\"\r\nthere", "other", "",
        "\r", [" \n", ""], "\",\""⟩
    let bare : Issue := ⟨⟨"", 1, Path.ofText "c.md", by decide⟩, "C", "", "", "", "", [], " "⟩
    let rs : List DocumentReport := [⟨Path.ofText "c.md", [bare]⟩, ⟨Path.ofText "a,b.md", [odd]⟩]
    let p := Path.ofText "out/report.md"
    let q := Path.ofText "report.csv"
    let d : Disk := ⟨[], []⟩
    (file rs p d).outcome = .ok () ∧
      rowsAt? (file rs p d).disk (csvPath p) = some (csvRows rs) ∧
      (csvRows rs)[1]? = some (["a,b.md", "2", "A,\"B\"", "other", "\r",
        "say \"hi\"\r\nthere", " \n, ", "\",\""] : List Text) ∧
      (file rs.reverse q d).outcome = .ok () ∧ csvRows rs.reverse = csvRows rs := by
  intro odd bare rs p q d
  have hfiled : (file rs p d).outcome = .ok () := by decide +kernel
  have hfiled' : (file rs.reverse q d).outcome = .ok () := by decide +kernel
  have hsame : (file rs.reverse q d).disk.read (csvPath q) =
      (file rs p d).disk.read (csvPath p) := by
    decide +kernel
  obtain ⟨hrows, hothers⟩ := file_recovers rs p d hfiled
  exact ⟨hfiled, hrows, by decide +kernel, hfiled', hothers _ q d hfiled' hsame⟩

end Proofreader.Report
