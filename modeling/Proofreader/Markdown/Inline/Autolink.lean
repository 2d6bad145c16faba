import Proofreader.Markdown.Url

/-!
# Autolinks

An address in angle brackets is a link to itself.  It begins with a scheme, or it
is the address of a mailbox.  A line feed may stand before the closing bracket.
-/

namespace Proofreader.Markdown.Autolink

def isSchemeChar (c : Char) : Bool := c.isAlphanum || c == '+' || c == '.' || c == '-'

def isAddressChar (c : Char) : Bool := 32 < c.toNat && c != '<' && c != '>'

def hasScheme (t : Text) : Bool :=
  let scheme := t.takeWhile isSchemeChar
  match t.dropWhile isSchemeChar with
  | ':' :: rest =>
      scheme.head?.any Char.isAlpha && 2 ≤ scheme.length && scheme.length ≤ 32 &&
        rest.all isAddressChar
  | _ => false

def isMailboxChar (c : Char) : Bool :=
  c.isAlphanum || ".!#$%&'*+/=?^_\x60\x7b|\x7d~-".toList.contains c

def isDomainLabel (t : Text) : Bool :=
  t.length ≤ 63 && t.head?.any Char.isAlphanum && t.getLast?.any Char.isAlphanum &&
    t.all fun c => c.isAlphanum || c == '-'

def isMailbox (t : Text) : Bool :=
  match t.dropWhile isMailboxChar with
  | '@' :: domain =>
      !(t.takeWhile isMailboxChar).isEmpty && (Text.splitOn (· == '.') domain).all isDomainLabel
  | _ => false

def isBracket (c : Char) : Bool := c == '<' || c == '>'

/-- Reads an autolink after its opening bracket: its target, the text it shows, and
what follows. -/
def read? (t : Text) : Option (Text × Text × Text) :=
  let address := t.takeWhile fun c => !isBracket c
  let line := if address.getLast? = some '\n' then address.dropLast else address
  let target? :=
    if hasScheme line then some (Url.target address)
    else if isMailbox line then some (Url.target ("mailto:".toList ++ address))
    else none
  match t.drop address.length, target? with
  | '>' :: rest, some target =>
      if Url.isAllowed target then some (target, Url.shown address, rest) else none
  | _, _ => none

end Proofreader.Markdown.Autolink
