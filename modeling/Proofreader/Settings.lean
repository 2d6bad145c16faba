import Proofreader.Text.Lines

/-!
# Settings

Settings say how the engines of a session are built.  They are drawn up from
explicit values, from the environment, and from defaults, in this order.
-/

namespace Proofreader

def defaultLanguage : Text := "en-GB"

/-- Rules that misfire where text is checked line by line. -/
def defaultDisabledRules : List Text := Text.words
  "WHITESPACE_RULE CONSECUTIVE_SPACES SENTENCE_WHITESPACE UPPERCASE_SENTENCE_START
   COMMA_PARENTHESIS_WHITESPACE EN_UNPAIRED_BRACKETS EN_UNPAIRED_QUOTES DASH_RULE
   PUNCTUATION_PARAGRAPH_END"

def defaultIgnoredWords : List Text := Text.words
  "Markdown markdown CommonMark AsciiDoc Asciidoctor LanguageTool HTML CSS JSON YAML TOML CSV URL
   URLs CPU GPU RAM SSD USB API APIs CLI SDK PNG JPEG SVG PDF png jpeg svg"

structure Settings where
  language : Text
  auxiliaryLanguages : List Text
  ignoredWords : List Text
  disabledRules : List Text
  remoteServer : Option Text
  deriving DecidableEq, Repr

/-- Variables and their values; the first entry of a name counts. -/
abbrev Environment := List (Text × Text)

namespace Environment

def get? (env : Environment) (name : Text) : Option Text := (env.find? (·.1 == name)).map (·.2)

def given? (env : Environment) (name : Text) : Option Text :=
  (env.get? name).filter fun t => !t.isEmpty

end Environment

namespace Settings

def default : Settings :=
  ⟨defaultLanguage, [], defaultIgnoredWords, defaultDisabledRules, none⟩

def languageVariable : Text := "MARKUP_CHECK_LANGUAGE"

def auxiliaryVariable : Text := "MARKUP_CHECK_AUX_LANGUAGES"

def serverVariable : Text := "MARKUP_CHECK_REMOTE_SERVER"

def splitLanguages (t : Text) : List Text :=
  ((Text.splitOn (· == ',') t).map Text.trim).filter fun t => !t.isEmpty

structure Explicit where
  language : Option Text
  auxiliaryLanguages : List Text
  ignoredWords : List Text
  usesDefaultWords : Bool
  deriving DecidableEq, Repr

def fromEnvironment (env : Environment) (x : Explicit) : Settings :=
  { language := ((x.language.filter fun t => !t.isEmpty).or (env.given? languageVariable)).getD
      defaultLanguage
    auxiliaryLanguages :=
      if x.auxiliaryLanguages.isEmpty then
        ((env.given? auxiliaryVariable).map splitLanguages).getD []
      else x.auxiliaryLanguages
    ignoredWords :=
      (if x.usesDefaultWords then defaultIgnoredWords else []) ++
        x.ignoredWords.filter fun t => !t.isEmpty
    disabledRules := defaultDisabledRules
    remoteServer := env.given? serverVariable }

/-! ## Word lists -/

def readWordList (t : Text) : List Text :=
  ((Text.splitOn Text.endsEntry t).map Text.trim).filter fun w =>
    !w.isEmpty && w.head? != some '#'

end Settings

end Proofreader
