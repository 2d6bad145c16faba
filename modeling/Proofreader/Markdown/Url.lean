import Proofreader.Markdown.Punycode
import Proofreader.Text.CaseMap
import Proofreader.Text.Quoted
import Proofreader.Text.Utf8

/-!
# Link targets

A link target is taken apart into the components of an address, its host name is
written in ASCII, and it is put together again with every character escaped that
an address may not hold.  The visible text of an address undoes both.  Targets
that a reader's browser would run or read from disk are refused.
-/

namespace Proofreader.Markdown

/-! ## Components -/

/-- A component that is absent is empty.  The protocol ends in its colon; search
and fragment begin with their marks. -/
structure Url where
  protocol : Text
  slashes : Bool
  user : Text
  host : Text
  port : Text
  path : Text
  search : Text
  fragment : Text
  deriving DecidableEq, Repr

namespace Url

/-- The Latin letter that a letter counts as when case is ignored; two dotted and
undotted forms, the long s and the sign for kelvin count as Latin letters. -/
def foldLetter (c : Char) : Char :=
  if c.toNat = 0x130 ∨ c.toNat = 0x131 then 'i'
  else if c.toNat = 0x17F then 's'
  else if c.toNat = 0x212A then 'k'
  else c.toLower

def isProtocolChar (c : Char) : Bool :=
  (foldLetter c).isAlphanum || c == '.' || c == '+' || c == '-'

def cutProtocol (t : Text) : Text × Text :=
  match t.takeWhile isProtocolChar, t.dropWhile isProtocolChar with
  | c :: name, ':' :: rest => (c :: name ++ [':'], rest)
  | _, _ => ([], t)

def hostless : List Text := ["javascript:"]

def slashed : List Text := ["http:", "https:", "ftp:", "gopher:", "file:"]

def endsHost (c : Char) : Bool := "%/?;#'\x7b\x7d|\\^\x60<>\" \r\n\t".toList.contains c

def endsAuthority (c : Char) : Bool := c == '/' || c == '?' || c == '#'

def cutUser (t : Text) : Text × Text :=
  let authority := t.takeWhile fun c => !endsAuthority c
  match authority.reverse.span (· ≠ '@') with
  | (tail, '@' :: user) => (user.reverse, tail.reverse ++ t.drop authority.length)
  | _ => ([], t)

def cutPort (host : Text) : Text × Text :=
  match host.reverse.span Char.isDigit with
  | (digits, ':' :: name) => (name.reverse, digits.reverse)
  | _ => (host, [])

/-! ### Host names -/

def isLabelChar (c : Char) : Bool := c.isAlphanum || c == '+' || c == '_' || c == '-'

def isLabel (t : Text) : Bool :=
  t.length ≤ 63 && t.all fun c => isLabelChar c || 127 < c.toNat

/-- Cuts a host name, given as labels, where it goes wrong; the second part
belongs to the path. -/
def cutLabels : List Text → List Text × Option (List Text)
  | [] => ([], none)
  | label :: rest =>
      if isLabel label then
        let (good, bad) := cutLabels rest
        (label :: good, bad)
      else
        let good := (label.takeWhile isLabelChar).take 63
        ([good], some (label.drop good.length :: rest))

def cutHostName (name rest : Text) : Text × Text :=
  match cutLabels (Text.splitOn (· == '.') name) with
  | (good, some bad) => (Text.joinWith ['.'] good, Text.joinWith ['.'] bad ++ rest)
  | (_, none) => (name, rest)

def isBracketed (name : Text) : Bool := name.head? == some '[' && name.getLast? == some ']'

def maxHostLength : Nat := 255

def cutHost (t : Text) : Text × Text × Text :=
  let host := t.takeWhile fun c => !endsHost c
  let host := if host.getLast? = some ':' then host.dropLast else host
  let rest := t.drop host.length
  let (name, port) := cutPort host
  if isBracketed name then
    ((if maxHostLength < name.length then [] else name.tail.dropLast), port, rest)
  else
    let (name, rest) := cutHostName name rest
    ((if maxHostLength < name.length then [] else name), port, rest)

/-! ### Reading and writing -/

def read (t : Text) : Url :=
  let (protocol, rest) := cutProtocol (Text.trim t)
  let isHostless := hostless.contains protocol
  let hasSlashes := Text.startsWith rest ['/', '/']
  let slashes := hasSlashes && !isHostless
  let rest := if slashes then rest.drop 2 else rest
  let (user, host, port, rest) :=
    if !isHostless && (hasSlashes || (!protocol.isEmpty && !slashed.contains protocol)) then
      let (user, rest) := cutUser rest
      let (host, port, rest) := cutHost rest
      (user, host, port, rest)
    else ([], [], [], rest)
  let beforeFragment := rest.takeWhile (· ≠ '#')
  { protocol, slashes, user, host, port
    path := beforeFragment.takeWhile (· ≠ '?')
    search := beforeFragment.dropWhile (· ≠ '?')
    fragment := rest.dropWhile (· ≠ '#') }

def text (u : Url) : Text :=
  u.protocol ++ (if u.slashes then ['/', '/'] else []) ++
    (if u.user.isEmpty then [] else u.user ++ ['@']) ++
    (if u.host.contains ':' then '[' :: u.host ++ [']'] else u.host) ++
    (if u.port.isEmpty then [] else ':' :: u.port) ++ u.path ++ u.search ++ u.fragment

/-! ## Host names in ASCII -/

def converted : List Text := ["", "http:", "https:", "mailto:"]

def separatesLabels (c : Char) : Bool :=
  c == '.' || c.toNat == 0x3002 || c.toNat == 0xFF0E || c.toNat == 0xFF61

def labelToAscii (label : Text) : Text :=
  if label.any fun c => 0x7E < c.toNat then "xn--".toList ++ Punycode.encode label else label

def labelToUnicode? (label : Text) : Option Text :=
  match Text.after? label "xn--" with
  | some code => Punycode.decode? (CaseMap.lower code)
  | none => some label

def withAsciiHost (u : Url) : Url :=
  if converted.contains u.protocol && !u.host.isEmpty then
    { u with host := Text.joinWith ['.'] ((Text.splitOn separatesLabels u.host).map labelToAscii) }
  else u

def withUnicodeHost (u : Url) : Url :=
  if converted.contains u.protocol && !u.host.isEmpty then
    match (Text.splitOn separatesLabels u.host).mapM labelToUnicode? with
    | some labels => { u with host := Text.joinWith ['.'] labels }
    | none => u
  else u

/-! ## Percent escapes -/

def hexUpper (n : Nat) : Char := Char.ofNat (if n < 10 then 48 + n else 55 + n)

def percent (b : UInt8) : Text := ['%', hexUpper (b.toNat / 16), hexUpper (b.toNat % 16)]

def isPlain (c : Char) : Bool := c.isAlphanum || ";/?:@&=+$,-_.!~*'()#".toList.contains c

def isHexDigit (c : Char) : Bool := (CodeSet.hexDigit? c).isSome

def escapeChar (c : Char) : Text := if isPlain c then [c] else (Utf8.encode [c]).flatMap percent

def escape : Text → Text
  | [] => []
  | '%' :: a :: b :: t =>
      if isHexDigit a && isHexDigit b then '%' :: a :: b :: escape t
      else escapeChar '%' ++ escape (a :: b :: t)
  | c :: t => escapeChar c ++ escape t

def readEscapes : Text → List Nat × Text
  | '%' :: a :: b :: t =>
      if isHexDigit a && isHexDigit b then
        let (bytes, rest) := readEscapes t
        (CodeSet.hexValue [a, b] :: bytes, rest)
      else ([], '%' :: a :: b :: t)
  | t => ([], t)

def keepsEscape (n : Nat) : Bool := ";/?:@&=+$,#%".toList.contains (Char.ofNat n)

def isContinuation (b : Nat) : Bool := b / 64 == 2

def announced (b : Nat) : Nat :=
  if b / 32 = 6 then 2 else if b / 16 = 14 then 3 else if b / 8 = 30 then 4 else 1

/-- The characters that escaped bytes stand for.  Bytes that belong together but
stand for no character leave one mark each, and so does every stray byte. -/
def decodeBytes : Nat → List Nat → Text
  | 0, _ => []
  | _, [] => []
  | fuel + 1, b :: rest =>
      if b < 128 then
        (if keepsEscape b then percent b.toUInt8 else [Char.ofNat b]) ++ decodeBytes fuel rest
      else
        let more := announced b - 1
        if 0 < more ∧ more ≤ rest.length ∧ (rest.take more).all isContinuation then
          (match Utf8.decode ((b :: rest.take more).map Nat.toUInt8) with
            | .ok t => t
            | .error _ => List.replicate (more + 1) (Char.ofNat 0xFFFD)) ++
            decodeBytes fuel (rest.drop more)
        else Char.ofNat 0xFFFD :: decodeBytes fuel rest

def unescapeFrom : Nat → Text → Text
  | 0, t => t
  | _, [] => []
  | fuel + 1, c :: t =>
      match readEscapes (c :: t) with
      | ([], _) => c :: unescapeFrom fuel t
      | (bytes, rest) => decodeBytes bytes.length bytes ++ unescapeFrom fuel rest

/-! ## Targets -/

def target (t : Text) : Text := escape (read t).withAsciiHost.text

def shown (t : Text) : Text :=
  let text := (read t).withUnicodeHost.text
  unescapeFrom text.length text

def refusedProtocols : List Text := ["vbscript:", "javascript:", "file:", "data:"]

def allowedData : List Text :=
  ["data:image/gif;", "data:image/png;", "data:image/jpeg;", "data:image/webp;"]

def isAllowed (t : Text) : Bool :=
  let lowered := CaseMap.lower (Text.trim t)
  !refusedProtocols.any (Text.startsWith lowered) || allowedData.any (Text.startsWith lowered)

end Url

end Proofreader.Markdown
