import Proofreader.Text.Letter

/-!
# Ignored terms

A text consists of ignored terms if it is one, or if each of its words is one.  A
word in capitals is compared by its letters alone, and a plural mark after the
capitals does not count.
-/

namespace Proofreader.Terms

def letters (t : Text) : Text := t.filter Letter.isLetter

def singular (t : Text) : Text := (t.reverse.dropWhile (· == 's')).reverse

def isIgnoredWord (terms : List Text) (word : Text) : Bool :=
  let ls := letters word
  terms.contains word ||
    ((Letter.isCapitals ls || Letter.isCapitals (singular ls)) &&
      (terms.contains ls || terms.contains (singular ls)))

def coverAll (terms : List Text) (t : Text) : Bool :=
  let trimmed := t.trim
  !trimmed.isEmpty && !terms.isEmpty &&
    (terms.contains trimmed || (Text.words trimmed).all (isIgnoredWord terms))

def trimAll (terms : List Text) : List Text :=
  (terms.map Text.trim).filter fun t => !t.isEmpty

end Proofreader.Terms
