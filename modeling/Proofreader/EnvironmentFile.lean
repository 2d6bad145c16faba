import Proofreader.Settings
import Proofreader.Text.CaseMap
import Proofreader.Text.Numeral

/-!
# Environment files

An environment file binds variables, one statement a line unless a quoted value goes
over several.  A value may refer to variables, to those that are set already before
those that the file binds further up.  A variable that is set already keeps its
value, and a line that cannot be read is skipped with a remark.  One variable turns
environment files off.
-/

namespace Proofreader.EnvironmentFile

inductive Statement where
  /-- A name that stands alone binds nothing, but counts as bound to no value. -/
  | binding (name : Text) (value : Option Text)
  /-- A statement that cannot be read, and the line that what comes before it ends on. -/
  | unreadable (line : Nat)
  deriving DecidableEq, Repr

/-! ## Names -/

def isInlineBlank (c : Char) : Bool := Text.isBlank c && c != '\n' && c != '\r'

def skipInline (t : Text) : Text := t.dropWhile isInlineBlank

def skipKeyword (t : Text) : Text :=
  match Text.after? t "export" with
  | some (c :: rest) => if isInlineBlank c then skipInline rest else t
  | _ => t

def isNameChar (c : Char) : Bool := c != '=' && c != '#' && !Text.isBlank c

def readName : Text → Option (Option Text × Text)
  | '#' :: rest => some (none, '#' :: rest)
  | '\'' :: rest =>
      match rest.span (· != '\'') with
      | (_ :: _, []) | ([], _) => none
      | (name, _ :: rest) => some (some name, rest)
  | t =>
      match t.span isNameChar with
      | ([], _) => none
      | (name, rest) => some (some name, rest)

/-! ## Values -/

def cutAtQuote (quote : Char) : Text → Option (Text × Text)
  | [] => none
  | '\\' :: c :: rest =>
      if c = quote then (cutAtQuote quote rest).map fun (t, r) => ('\\' :: c :: t, r)
      else (cutAtQuote quote (c :: rest)).map fun (t, r) => ('\\' :: t, r)
  | c :: rest =>
      if c = quote then some ([], rest)
      else (cutAtQuote quote rest).map fun (t, r) => (c :: t, r)

def cutAtLastQuote (quote : Char) (t : Text) : Option (Text × Text) :=
  match t.reverse.span (· != quote) with
  | (rest, _ :: before) => some (before.reverse, rest.reverse)
  | (_, []) => none

/-- What stands before the closing quote, and what follows it.  If a backslash
precedes every quote, the last one closes. -/
def readQuoted (quote : Char) (t : Text) : Option (Text × Text) :=
  (cutAtQuote quote t).or (cutAtLastQuote quote t)

def singleEscape : Char → Option Char
  | '\\' => some '\\'
  | '\'' => some '\''
  | _ => none

def doubleEscape : Char → Option Char
  | '\\' => some '\\'
  | '\'' => some '\''
  | '"' => some '"'
  | 'a' => some (Char.ofNat 7)
  | 'b' => some (Char.ofNat 8)
  | 'f' => some (Char.ofNat 12)
  | 'n' => some '\n'
  | 'r' => some '\r'
  | 't' => some '\t'
  | 'v' => some (Char.ofNat 11)
  | _ => none

def unescape (escape : Char → Option Char) : Text → Text
  | [] => []
  | '\\' :: c :: rest =>
      match escape c with
      | some d => d :: unescape escape rest
      | none => '\\' :: unescape escape (c :: rest)
  | c :: rest => c :: unescape escape rest

def cutComment : Text → Text
  | [] => []
  | c :: rest =>
      if Text.isBlank c && (rest.dropWhile Text.isBlank).head? == some '#' then []
      else c :: cutComment rest

def readValue : Text → Option (Text × Text)
  | '\'' :: rest => (readQuoted '\'' rest).map fun (t, r) => (unescape singleEscape t, r)
  | '"' :: rest => (readQuoted '"' rest).map fun (t, r) => (unescape doubleEscape t, r)
  | t =>
      let (line, rest) := t.span (· != '\n')
      some (Text.trimEnd (cutComment line), rest)

/-! ## Statements -/

def skipComment (t : Text) : Text :=
  match skipInline t with
  | '#' :: rest => rest.dropWhile (· != '\n')
  | rest => rest

def endLine? (t : Text) : Option Text :=
  match skipInline (skipComment t) with
  | [] => some []
  | '\n' :: rest => some rest
  | _ => none

def dropLine (t : Text) : Text := (t.dropWhile (· != '\n')).drop 1

def readBinding (t : Text) : Except Text (Option Text × Text) :=
  match skipInline t with
  | '=' :: rest =>
      let rest := skipInline rest
      match readValue rest with
      | some (value, rest) => .ok (some value, rest)
      | none => .error (dropLine rest)
  | rest => .ok (none, rest)

/-- The next statement, with what follows it.  There is none on a blank line, in a
comment, and at the end. -/
def readStatement (line : Nat) (t : Text) : Option Statement × Text :=
  let t := t.dropWhile Text.isBlank
  if t.isEmpty then (none, [])
  else
    let t := skipKeyword t
    match readName t with
    | none => (some (.unreadable line), dropLine t)
    | some (name, rest) =>
        match readBinding rest with
        | .error rest => (some (.unreadable line), rest)
        | .ok (value, rest) =>
            match endLine? rest with
            | some rest => (name.map fun name => .binding name value, rest)
            | none => (some (.unreadable line), dropLine rest)

def readStatements : Nat → Nat → Text → List Statement
  | 0, _, _ => []
  | _ + 1, _, [] => []
  | fuel + 1, line, t =>
      let (s, rest) := readStatement line t
      s.toList ++ readStatements fuel (line + (t.count '\n' - rest.count '\n')) rest

def statements (t : Text) : List Statement := readStatements t.length 1 t

def Statement.remark? : Statement → Option Text
  | .unreadable line =>
      some ("python-dotenv could not parse statement starting at line ".toList ++
        Numeral.ofNat line)
  | .binding .. => none

/-! ## References -/

structure Reference where
  name : Text
  default : Text
  deriving DecidableEq, Repr

def readReference : Text → Option (Reference × Text)
  | '\x7b' :: t =>
      match t.span fun c => c != '\x7d' && c != ':' with
      | (name, '\x7d' :: rest) => some (⟨name, []⟩, rest)
      | (name, ':' :: '-' :: rest) =>
          match rest.span (· != '\x7d') with
          | (default, _ :: rest) => some (⟨name, default⟩, rest)
          | (_, []) => none
      | _ => none
  | _ => none

def substitute (value : Reference → Text) : Nat → Text → Text
  | 0, t => t
  | _ + 1, [] => []
  | fuel + 1, '$' :: rest =>
      match readReference rest with
      | some (r, rest) => value r ++ substitute value fuel rest
      | none => '$' :: substitute value fuel rest
  | fuel + 1, c :: rest => c :: substitute value fuel rest

/-- Variables of a file; one without a value is there, but empty. -/
abbrev Bindings := List (Text × Option Text)

namespace Bindings

def get? (bs : Bindings) (name : Text) : Option (Option Text) :=
  (bs.find? (·.1 == name)).map (·.2)

def set (bs : Bindings) (name : Text) (value : Option Text) : Bindings :=
  if bs.any (·.1 == name) then bs.map fun b => if b.1 == name then (name, value) else b
  else bs ++ [(name, value)]

end Bindings

/-- The value of a reference: what is set counts before what the file binds. -/
def valueOf (env : Environment) (bs : Bindings) (r : Reference) : Text :=
  match env.get? r.name with
  | some value => value
  | none =>
      match bs.get? r.name with
      | some value => value.getD []
      | none => r.default

def bind (env : Environment) (bs : Bindings) : Statement → Bindings
  | .binding name value =>
      bs.set name (value.map fun t => substitute (valueOf env bs) t.length t)
  | .unreadable _ => bs

def bindings (env : Environment) (ss : List Statement) : Bindings := ss.foldl (bind env) []

/-! ## Setting variables -/

inductive VariableFault where
  | nullCharacter
  | name
  deriving DecidableEq, Repr

def VariableFault.message : VariableFault → Text
  | .nullCharacter => "embedded null byte"
  | .name => "illegal environment variable name"

def fault? (name value : Text) : Option VariableFault :=
  if name.contains '\x00' || value.contains '\x00' then some .nullCharacter
  else if name.contains '=' then some .name
  else none

def setAll (env : Environment) : Bindings → Except VariableFault Environment
  | [] => .ok env
  | (name, some value) :: rest =>
      if (env.get? name).isSome then setAll env rest
      else
        match fault? name value with
        | some f => .error f
        | none => setAll (env ++ [(name, value)]) rest
  | (_, none) :: rest => setAll env rest

def defaultName : Text := ".env"

def offVariable : Text := "PYTHON_DOTENV_DISABLED"

def offValues : List Text := ["1", "true", "t", "yes", "y"]

def isTurnedOff (env : Environment) : Bool :=
  (env.get? offVariable).any fun value => offValues.contains (CaseMap.lower value)

def load (env : Environment) (ss : List Statement) : Except VariableFault Environment :=
  setAll env (bindings env ss)

end Proofreader.EnvironmentFile
