import Proofreader.Text.Letter

/-!
# Tokens of a command line

An argument that begins with a dash names an option, unless it could be a negative
number or holds a space.  The name of an option may be cut short as long as only one
option begins that way, and its value may follow an equals sign.  Behind a separator
of two dashes nothing is an option.
-/

namespace Proofreader.CommandLine

/-! ## Options -/

inductive Flag where
  | help
  | report
  | language
  | auxiliaryLanguage
  | ignoreWord
  | ignoreWordsFile
  | noDefaultWords
  | environmentFile
  | verbose
  deriving DecidableEq, Repr

namespace Flag

def all : List Flag :=
  [.help, .report, .language, .auxiliaryLanguage, .ignoreWord, .ignoreWordsFile, .noDefaultWords,
    .environmentFile, .verbose]

def name : Flag → Text
  | .help => "--help"
  | .report => "--report"
  | .language => "--language"
  | .auxiliaryLanguage => "--aux-language"
  | .ignoreWord => "--ignore-word"
  | .ignoreWordsFile => "--ignore-words-file"
  | .noDefaultWords => "--no-default-words"
  | .environmentFile => "--dotenv"
  | .verbose => "--verbose"

def takesValue : Flag → Bool
  | .help | .noDefaultWords | .verbose => false
  | _ => true

def named? (t : Text) : Option Flag := all.find? fun f => f.name = t

def beginningWith (t : Text) : List Flag := all.filter fun f => Text.startsWith f.name t

end Flag

/-! ## Faults -/

inductive UsageError where
  | ambiguous (argument : Text) (flags : List Flag)
  | missingValue (flag : Flag)
  | needlessValue (flag : Flag)
  | missingPaths
  | unrecognized (arguments : List Text)
  deriving DecidableEq, Repr

def UsageError.message : UsageError → Text
  | .ambiguous argument flags =>
      "ambiguous option: ".toList ++ argument ++ " could match ".toList ++
        Text.joinWith [',', ' '] (flags.map Flag.name)
  | .missingValue flag => "argument ".toList ++ flag.name ++ ": expected one argument".toList
  | .needlessValue flag => "argument ".toList ++ flag.name ++ ": takes no argument".toList
  | .missingPaths => "the following arguments are required: paths"
  | .unrecognized arguments =>
      "unrecognized arguments: ".toList ++ Text.joinWith [' '] arguments

/-! ## Tokens -/

inductive Token where
  | flag (f : Flag) (value : Option Text)
  /-- The short name of the option for help, and what stands right behind it. -/
  | shortHelp (behind : Option Text)
  | unknownFlag (t : Text)
  | separator
  | word (t : Text)
  deriving DecidableEq, Repr

def isDigit (c : Char) : Bool := (Letter.digitValue? c).isSome

/-- A dash and digits, perhaps with a point; a line feed may end it. -/
def isNegativeNumber : Text → Bool
  | '-' :: t =>
      let t := if t.getLast? = some '\n' then t.dropLast else t
      match t.span isDigit with
      | (whole, []) => !whole.isEmpty
      | (_, '.' :: fraction) => !fraction.isEmpty && fraction.all isDigit
      | _ => false
  | _ => false

def cutAtEquals (t : Text) : Text × Option Text :=
  match t.span (· != '=') with
  | (name, _ :: value) => (name, some value)
  | (name, []) => (name, none)

def shortHelpName : Text := ['-', 'h']

def fullName? (t : Text) : Option Token :=
  let (name, value) := cutAtEquals t
  if name = shortHelpName then some (.shortHelp value)
  else (Flag.named? name).map fun f => .flag f value

def otherToken (t : Text) : Token :=
  if isNegativeNumber t || t.contains ' ' then .word t else .unknownFlag t

def shortenedName (t : Text) : Except UsageError Token :=
  if Text.startsWith t ['-', '-'] then
    let (name, value) := cutAtEquals t
    match Flag.beginningWith name with
    | [] => .ok (otherToken t)
    | [f] => .ok (.flag f value)
    | flags => .error (.ambiguous t flags)
  else if Text.startsWith t shortHelpName then .ok (.shortHelp (some (t.drop 2)))
  else .ok (otherToken t)

def Token.read (t : Text) : Except UsageError Token :=
  match t with
  | '-' :: _ :: _ =>
      match fullName? t with
      | some token => .ok token
      | none => shortenedName t
  | _ => .ok (.word t)

def Token.readAll : List Text → Except UsageError (List Token)
  | [] => .ok []
  | t :: rest =>
      if t = ['-', '-'] then .ok (.separator :: rest.map .word)
      else do
        let token ← Token.read t
        let tokens ← Token.readAll rest
        return token :: tokens

end Proofreader.CommandLine
