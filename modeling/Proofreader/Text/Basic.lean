/-!
# Texts

A text is the sequence of its characters, so every offset, length and slice of
the library counts characters.  Half of a surrogate pair is no character, so a
string that holds one is no text.  A blank is a character that separates words.
The words of a text are its maximal runs of characters that are not blank, and
squeezing a text joins its words with single spaces.
-/

namespace Proofreader

abbrev Text := List Char

instance : Coe String Text := ⟨String.toList⟩

namespace Text

/-! ## Blanks -/

/-- The characters that separate words: the control characters that move the
print position, the four information separators, and every Unicode space. -/
def isBlank (c : Char) : Bool :=
  let n := c.toNat
  (9 ≤ n && n ≤ 13) || (28 ≤ n && n ≤ 32) || n == 0x85 || n == 0xA0 || n == 0x1680 ||
    (0x2000 ≤ n && n ≤ 0x200A) || n == 0x2028 || n == 0x2029 || n == 0x202F ||
    n == 0x205F || n == 0x3000

def trimStart (t : Text) : Text := t.dropWhile isBlank

def trimEnd (t : Text) : Text := (t.reverse.dropWhile isBlank).reverse

def trim (t : Text) : Text := (trimStart t).reverse.dropWhile isBlank |>.reverse

def isAllBlank (t : Text) : Bool := t.all isBlank

/-! ## Cutting and joining -/

/-- The pieces between the characters that satisfy `p`; there is always one
piece more than there are such characters. -/
def splitOn (p : Char → Bool) : Text → List Text
  | [] => [[]]
  | c :: rest =>
      if p c then [] :: splitOn p rest
      else match splitOn p rest with
        | [] => [[c]]
        | piece :: pieces => (c :: piece) :: pieces

def words (t : Text) : List Text := (splitOn isBlank t).filter (fun w => !w.isEmpty)

def joinWith (separator : Text) : List Text → Text
  | [] => []
  | [t] => t
  | t :: rest => t ++ separator ++ joinWith separator rest

def squeeze (t : Text) : Text := joinWith [' '] (words t)

/-- The characters from `start` up to `stop`, both counted from the front and
cut off at the end of the text. -/
def slice (t : Text) (start stop : Nat) : Text := (t.take stop).drop start

/-! ## Searching and replacing -/

def startsWith : Text → Text → Bool
  | _, [] => true
  | [], _ :: _ => false
  | c :: t, d :: p => c == d && startsWith t p

def after? : Text → Text → Option Text
  | t, [] => some t
  | [], _ :: _ => none
  | c :: t, d :: p => if c == d then after? t p else none

def includes (t p : Text) : Bool :=
  match t with
  | [] => p.isEmpty
  | _ :: rest => startsWith t p || includes rest p

def replaceChar (c : Char) (replacement : Text) : Text → Text
  | [] => []
  | d :: rest =>
      if d == c then replacement ++ replaceChar c replacement rest
      else d :: replaceChar c replacement rest

/-! ## Order -/

def le : Text → Text → Bool
  | [], _ => true
  | _ :: _, [] => false
  | a :: s, b :: t => a.toNat < b.toNat || (a == b && le s t)

def insertSorted (t : Text) : List Text → List Text
  | [] => [t]
  | u :: rest => if t = u then u :: rest else if le t u then t :: u :: rest else u :: insertSorted t rest

def sortedSet (ts : List Text) : List Text := ts.foldl (fun acc t => insertSorted t acc) []

end Text

end Proofreader
