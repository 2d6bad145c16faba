import Proofreader.Disk
import Proofreader.Sorting
import Proofreader.Text.CaseMap

/-!
# Finding documents

A path to a file names that file; a path to a directory names the Markdown files
below it, in the order of their paths.  A file that several paths lead to is found
once, by the first of them.
-/

namespace Proofreader.Discovery

def markdownSuffixes : List Text := [".md", ".markdown"]

def isMarkdownName (name : Text) : Bool :=
  markdownSuffixes.contains (CaseMap.lower (Path.suffixOf name))

def wayLe : Place → Place → Bool
  | [], _ => true
  | _ :: _, [] => false
  | a :: s, b :: t => if a = b then wayLe s t else Text.le a b

def markdownBelow (d : Disk) (place : Place) : List Place :=
  sortBy wayLe ((d.filesBelow place).filter fun way => isMarkdownName (way.getLastD []))

structure Missing where
  path : Path
  deriving DecidableEq, Repr

def Missing.message (m : Missing) : Text := "Document not found: ".toList ++ m.path.text

def candidates (d : Disk) (p : Path) : Except Missing (List Path) :=
  match d.find? p with
  | some (.file _) => .ok [p]
  | some .directory =>
      .ok ((markdownBelow d (d.resolve p)).map fun way => { p with parts := p.parts ++ way })
  | none => .error ⟨p⟩

/-- Keeps the first path to each place, disregarding the places in `seen`. -/
def keepFirst (d : Disk) : List Place → List Path → List Path
  | _, [] => []
  | seen, p :: rest =>
      let place := d.resolve p
      if seen.contains place then keepFirst d seen rest
      else p :: keepFirst d (place :: seen) rest

def documents (d : Disk) (paths : List Path) : Except Missing (List Path) := do
  let found ← paths.mapM (candidates d)
  return keepFirst d [] found.flatten

end Proofreader.Discovery
