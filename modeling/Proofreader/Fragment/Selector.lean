import Proofreader.Text.Basic

/-!
# Class selectors

A selector is a list of alternatives, and an alternative is a list of classes
that an element must have.  It is written with a dot before each class and
commas between the alternatives.  A class stands for itself if it is an
identifier.  Nothing escapes the other characters of a class, so one that begins
with a digit is no selector, and one with a dot is the selector of two classes.

Selectors can be written of much more than classes: with escapes, combinators and
pseudo-classes.  These are not read here.
-/

namespace Proofreader

abbrev Selector := List (List Text)

namespace Selector

def startsIdentifier (c : Char) : Bool := c.isAlpha || c == '_' || 0xA0 ≤ c.toNat

def inIdentifier (c : Char) : Bool := startsIdentifier c || c.isDigit || c == '-'

/-- An identifier may begin with one hyphen, or with two and anything after
them. -/
def isIdentifier : Text → Bool
  | '-' :: '-' :: t => t.all inIdentifier
  | '-' :: c :: t => startsIdentifier c && t.all inIdentifier
  | c :: t => startsIdentifier c && t.all inIdentifier
  | [] => false

def isSpace (c : Char) : Bool :=
  c == ' ' || c == '\t' || c == '\n' || c == '\r' || c == Char.ofNat 12

def trimSpaces (t : Text) : Text := ((t.dropWhile isSpace).reverse.dropWhile isSpace).reverse

def readCompound? (t : Text) : Option (List Text) :=
  match Text.splitOn (· == '.') (trimSpaces t) with
  | [] :: classes => if !classes.isEmpty && classes.all isIdentifier then some classes else none
  | _ => none

structure SyntaxFault where
  deriving DecidableEq, Repr

def read (t : Text) : Except SyntaxFault Selector :=
  match (Text.splitOn (· == ',') t).mapM readCompound? with
  | some selector => .ok selector
  | none => .error {}

def selects (s : Selector) (classes : List Text) : Bool :=
  s.any fun needed => needed.all classes.contains

end Selector

end Proofreader
