import Proofreader.Text.Basic

/-!
# Paths

A path is a number of leading slashes and a list of parts.  Repeated slashes and
parts that are a single dot carry no meaning and are dropped when a path is
read; a part of two dots is kept, since only the disk can tell what it means.
Two leading slashes differ from one, and three or more count as one.
-/

namespace Proofreader

structure Path where
  slashes : Nat
  parts : List Text
  deriving DecidableEq, Repr

namespace Path

def leadingSlashes : Text → Nat
  | '/' :: rest => leadingSlashes rest + 1
  | _ => 0

def readParts (t : Text) : List Text :=
  (Text.splitOn (· == '/') t).filter fun part => part ≠ [] ∧ part ≠ ['.']

def ofText (t : Text) : Path :=
  let slashes := leadingSlashes t
  ⟨if slashes = 2 then 2 else min slashes 1, readParts t⟩

def text (p : Path) : Text :=
  if p.slashes = 0 ∧ p.parts = [] then ['.']
  else List.replicate p.slashes '/' ++ Text.joinWith ['/'] p.parts

def name (p : Path) : Text := p.parts.getLastD []

def parent (p : Path) : Path := { p with parts := p.parts.dropLast }

def child (p : Path) (part : Text) : Path := { p with parts := p.parts ++ [part] }

/-! ## Suffixes -/

def cutAtLastDot (name : Text) : Option (Text × Text) :=
  match name.reverse.span (· ≠ '.') with
  | (tail, '.' :: stem) => some (stem.reverse, tail.reverse)
  | _ => none

/-- What a name ends in from its last dot on; a dot that is the first or the
last character starts no suffix. -/
def suffixOf (name : Text) : Text :=
  match cutAtLastDot name with
  | some (stem, tail) => if stem = [] ∨ tail = [] then [] else '.' :: tail
  | none => []

def suffix (p : Path) : Text := suffixOf p.name

def withSuffix (p : Path) (suffix : Text) : Path :=
  let name := p.name
  let stem := name.take (name.length - p.suffix.length)
  { p with parts := p.parts.dropLast ++ [stem ++ suffix] }

end Path

end Proofreader
