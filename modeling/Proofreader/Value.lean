import Proofreader.Text.Decimal
import Proofreader.Text.Quoted

/-!
# Loosely typed values

A checking tool answers with attributes whose types it does not promise.  A
value is what such an attribute can be.  Here are the readings the library
needs of it: whether it counts as given, its text, the whole number it stands
for, and the items it lists.
-/

namespace Proofreader

inductive Value where
  | null
  | bool (b : Bool)
  | int (n : Int)
  | decimal (d : Decimal)
  | text (t : Text)
  | list (items : List Value)
  | record (fields : List (Text × Value))

namespace Value

/-- Values of type nothing, zero, false and the empty values do not count as
given. -/
def isGiven : Value → Bool
  | .null => false
  | .bool b => b
  | .int n => n ≠ 0
  | .decimal d => !d.isZero
  | .text t => !t.isEmpty
  | .list items => !items.isEmpty
  | .record fields => !fields.isEmpty

def typeName : Value → Text
  | .null => "NoneType"
  | .bool _ => "bool"
  | .int _ => "int"
  | .decimal _ => "float"
  | .text _ => "str"
  | .list _ => "list"
  | .record _ => "dict"

mutual

def literal : Value → Text
  | .null => "None"
  | .bool true => "True"
  | .bool false => "False"
  | .int n => Numeral.ofInt n
  | .decimal d => d.text
  | .text t => Quoted.quote t
  | .list items => '[' :: itemLiterals items ++ [']']
  | .record fields => '{' :: fieldLiterals fields ++ ['}']

def itemLiterals : List Value → Text
  | [] => []
  | [v] => literal v
  | v :: rest => literal v ++ ", ".toList ++ itemLiterals rest

def fieldLiterals : List (Text × Value) → Text
  | [] => []
  | [(key, v)] => Quoted.quote key ++ ": ".toList ++ literal v
  | (key, v) :: rest =>
      Quoted.quote key ++ ": ".toList ++ literal v ++ ", ".toList ++ fieldLiterals rest

end

def asText : Value → Text
  | .text t => t
  | v => v.literal

def textOr (v : Value) (default : Text) : Text := if v.isGiven then v.asText else default

structure Infinite where
  deriving DecidableEq, Repr

def Infinite.message (_ : Infinite) : Text := "cannot convert float infinity to integer"

def wholeNumber? (v : Value) : Except Infinite (Option Int) :=
  if v.isGiven then
    match v with
    | .bool _ => .ok (some 1)
    | .int n => .ok (some n)
    | .decimal d =>
        match d.truncate? with
        | some n => .ok (some n)
        | none => .error {}
    | .text t => .ok (Numeral.readInt? t)
    | _ => .ok none
  else .ok (some 0)

/-- The items that a value lists: the characters of a text, the keys of a
record.  A number or a truth value lists none, and that is a fault. -/
def items? (v : Value) : Option (List Value) :=
  if v.isGiven then
    match v with
    | .text t => some (t.map fun c => .text [c])
    | .list items => some items
    | .record fields => some (fields.map fun f => .text f.1)
    | _ => none
  else some []

end Value

end Proofreader
