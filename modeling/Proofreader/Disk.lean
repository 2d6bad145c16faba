import Proofreader.Path
import Proofreader.Text.Numeral
import Proofreader.Text.Quoted
import Proofreader.Text.Utf8

/-!
# Disks

A disk is a finite tree of directories and files without links.  What stands in it
is listed by place, a place being the names on the way down from the root.  Names are
texts, so those that are not UTF-8 are left out, and no name holds a null character.
A path is followed name by name from the working directory or the root, and every name
but the last must lead to a directory, also where two dots come next.
-/

namespace Proofreader

abbrev Place := List Text

inductive Entry where
  | directory
  | file (bytes : Utf8.Bytes)
  deriving DecidableEq, Repr

/-- The entries of a disk; the first entry of a place counts, and the root is always
a directory. -/
structure Disk where
  workingPlace : Place
  entries : List (Place × Entry)
  deriving DecidableEq, Repr

/-! ## Errors -/

inductive DiskFault where
  | notFound
  | occupied
  | notADirectory
  | isADirectory
  deriving DecidableEq, Repr

namespace DiskFault

def number : DiskFault → Nat
  | .notFound => 2
  | .occupied => 17
  | .notADirectory => 20
  | .isADirectory => 21

def message : DiskFault → Text
  | .notFound => "No such file or directory"
  | .occupied => "File exists"
  | .notADirectory => "Not a directory"
  | .isADirectory => "Is a directory"

end DiskFault

structure DiskError where
  fault : DiskFault
  path : Path
  deriving DecidableEq, Repr

def DiskError.message (e : DiskError) : Text :=
  "[Errno ".toList ++ Numeral.ofNat e.fault.number ++ "] ".toList ++ e.fault.message ++
    ": ".toList ++ Quoted.quote e.path.text

structure Disk.Changed where
  outcome : Except DiskError Unit
  disk : Disk

def Disk.Changed.andThen (c : Disk.Changed) (next : Disk → Disk.Changed) : Disk.Changed :=
  match c.outcome with
  | .ok () => next c.disk
  | .error _ => c

namespace Disk

/-! ## Places -/

def lookup? (d : Disk) : Place → Option Entry
  | [] => some .directory
  | place => (d.entries.find? (·.1 == place)).map (·.2)

def put (d : Disk) (place : Place) (e : Entry) : Disk :=
  { d with entries := (place, e) :: d.entries.filter (·.1 != place) }

theorem lookup?_put_self (d : Disk) {place : Place} (e : Entry) (h : place ≠ []) :
    (d.put place e).lookup? place = some e := by
  cases place with
  | nil => exact absurd rfl h
  | cons name rest => simp [put, lookup?]

theorem lookup?_put_of_ne (d : Disk) {place other : Place} (e : Entry) (h : other ≠ place) :
    (d.put place e).lookup? other = d.lookup? other := by
  cases other with
  | nil => rfl
  | cons name rest =>
      have hne : ¬ place = name :: rest := fun h' => h h'.symm
      have hkeep : (fun a : Place × Entry =>
          !decide (a.1 = place) && decide (a.1 = name :: rest)) = (·.1 == name :: rest) := by
        funext a
        by_cases ha : a.1 = name :: rest <;> simp [ha, h]
      simp [put, lookup?, List.find?_filter, hne, hkeep]

def start (d : Disk) (p : Path) : Place := if p.slashes = 0 then d.workingPlace else []

def step (place : Place) (name : Text) : Place :=
  if name = ['.', '.'] then place.dropLast else place ++ [name]

def resolve (d : Disk) (p : Path) : Place := p.parts.foldl step (d.start p)

def follow (d : Disk) : Place → List Text → Except DiskFault Place
  | place, [] => .ok place
  | place, name :: rest =>
      match d.lookup? place with
      | some .directory => d.follow (step place name) rest
      | some (.file _) => .error .notADirectory
      | none => .error .notFound

def locate (d : Disk) (p : Path) : Except DiskFault Place := d.follow (d.start p) p.parts

def find? (d : Disk) (p : Path) : Option Entry :=
  match d.locate p with
  | .ok place => d.lookup? place
  | .error _ => none

def isDirectory (d : Disk) (p : Path) : Bool := d.find? p == some .directory

def isFile (d : Disk) (p : Path) : Bool :=
  match d.find? p with
  | some (.file _) => true
  | _ => false

def upward (place : Place) : List Place := (List.range (place.length + 1)).reverse.map place.take

def nearest? (d : Disk) (place : Place) (name : Text) : Option Path :=
  ((upward place).map fun above => Path.mk 1 (above ++ [name])).find? d.isFile

def below? : Place → Place → Option Place
  | [], place => some place
  | _ :: _, [] => none
  | a :: above, b :: place => if a = b then below? above place else none

def filesBelow (d : Disk) (place : Place) : List Place :=
  d.entries.filterMap fun (other, e) =>
    match e with
    | .file _ => below? place other
    | .directory => none

/-! ## Reading -/

def read (d : Disk) (p : Path) : Except DiskError Utf8.Bytes :=
  match d.locate p with
  | .error f => .error ⟨f, p⟩
  | .ok place =>
      match d.lookup? place with
      | some (.file bytes) => .ok bytes
      | some .directory => .error ⟨.isADirectory, p⟩
      | none => .error ⟨.notFound, p⟩

/-! ## Writing -/

def write (d : Disk) (p : Path) (bytes : Utf8.Bytes) : Changed :=
  match d.locate p with
  | .error f => ⟨.error ⟨f, p⟩, d⟩
  | .ok place =>
      if d.lookup? place = some .directory then ⟨.error ⟨.isADirectory, p⟩, d⟩
      else ⟨.ok (), d.put place (.file bytes)⟩

def makeDirectory (d : Disk) (p : Path) : Changed :=
  match d.locate p with
  | .error f => ⟨.error ⟨f, p⟩, d⟩
  | .ok place =>
      if (d.lookup? place).isSome then ⟨.error ⟨.occupied, p⟩, d⟩
      else ⟨.ok (), d.put place .directory⟩

/-- Disregards a failure where there is a directory after all. -/
def allowDirectory (p : Path) (c : Changed) : Changed :=
  match c.outcome with
  | .ok () => c
  | .error _ => if c.disk.isDirectory p then ⟨.ok (), c.disk⟩ else c

/-- Makes a directory and the missing ones on the way to it, given its parts from
the last one on.  One that exists already is fine. -/
def makeDirectoriesAt (slashes : Nat) : List Text → Disk → Changed
  | [], d => allowDirectory ⟨slashes, []⟩ (d.makeDirectory ⟨slashes, []⟩)
  | part :: rest, d =>
      let p : Path := ⟨slashes, (part :: rest).reverse⟩
      let c := d.makeDirectory p
      match c.outcome with
      | .error ⟨.notFound, _⟩ =>
          let above := makeDirectoriesAt slashes rest d
          match above.outcome with
          | .error e => ⟨.error e, above.disk⟩
          | .ok () => allowDirectory p (above.disk.makeDirectory p)
      | _ => allowDirectory p c

def makeDirectories (d : Disk) (p : Path) : Changed :=
  makeDirectoriesAt p.slashes p.parts.reverse d

end Disk

end Proofreader
