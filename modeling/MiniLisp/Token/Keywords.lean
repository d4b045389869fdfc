/-!
# Keywords

Which words are keywords is up to the host.  A table starts with the five words
that are always keywords, and every word is in it at most once.
-/

namespace MiniLisp

structure Keywords where
  words : List String
  deriving DecidableEq, Repr, Inhabited

namespace Keywords

/-- The words that are keywords in every table. -/
def builtin : Keywords := ⟨["if", "while", "for", "break", "else"]⟩

/-- The words that the interpreter registers, so that all of its forms read. -/
def forms : List String := ["define", "set", "lambda", "begin", "list"]

def contains (k : Keywords) (word : String) : Bool :=
  k.words.contains word

/-- Register a word; a word that is already there changes nothing. -/
def insert (k : Keywords) (word : String) : Keywords :=
  if k.contains word then k else ⟨k.words ++ [word]⟩

def insertAll (k : Keywords) (words : List String) : Keywords :=
  words.foldl insert k

/-- The built-in words together with the given ones. -/
def ofList (words : List String) : Keywords :=
  builtin.insertAll words

/-- The table that all forms read with. -/
def standard : Keywords := ofList forms

def size (k : Keywords) : Nat :=
  k.words.length

end Keywords
end MiniLisp
