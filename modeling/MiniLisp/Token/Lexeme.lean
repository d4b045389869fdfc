import MiniLisp.Token.Basic

/-!
# Lexemes

Source text is a sequence of lexemes: `split` cuts it, from left to right, into
the longest piece that stands at each position.  Numbers are taken loosely here,
as digits and dots followed by letters, and are judged later.  The texts of the
lexemes, one after the other, are the source.
-/

namespace MiniLisp

inductive Lexeme where
  /-- A run of spaces, tabs and carriage returns. -/
  | blank (run : List Char)
  | newline
  /-- Digits and dots, the first a digit, and the letters that follow them. -/
  | number (digits suffix : List Char)
  | word (letters : List Char)
  /-- A quote, the text up to its next occurrence, and the same quote. -/
  | string (quote : Char) (body : List Char)
  /-- A quote and the rest of the source, in which it does not occur again. -/
  | unclosed (quote : Char) (body : List Char)
  /-- A character that is a token by itself. -/
  | symbol (kind : TokenKind) (c : Char)
  | unknown (c : Char)
  deriving DecidableEq, Repr

namespace Lexeme

def isBlank (c : Char) : Bool :=
  c == ' ' || c == '\t' || c == '\r'

/-- The characters of the number part of a numeral. -/
def isNumeric (c : Char) : Bool :=
  c.isDigit || c == '.'

/-- The characters of a word after its first letter. -/
def isWordChar (c : Char) : Bool :=
  c.isAlphanum || c == '_'

def isQuote (c : Char) : Bool :=
  c == '"' || c == '\''

/-- The piece of source that a lexeme was cut from. -/
def text : Lexeme → List Char
  | .blank run => run
  | .newline => ['\n']
  | .number digits suffix => digits ++ suffix
  | .word letters => letters
  | .string quote body => quote :: body ++ [quote]
  | .unclosed quote body => quote :: body
  | .symbol _ c => [c]
  | .unknown c => [c]

/-- The lexeme at the start of `c :: cs`, and what follows it. -/
def next (c : Char) (cs : List Char) : Lexeme × List Char :=
  if isBlank c then
    (.blank (c :: cs.takeWhile isBlank), cs.dropWhile isBlank)
  else if c == '\n' then
    (.newline, cs)
  else if c.isDigit then
    let rest := cs.dropWhile isNumeric
    (.number (c :: cs.takeWhile isNumeric) (rest.takeWhile Char.isAlpha),
      rest.dropWhile Char.isAlpha)
  else if c.isAlpha then
    (.word (c :: cs.takeWhile isWordChar), cs.dropWhile isWordChar)
  else if isQuote c then
    match cs.dropWhile (· != c) with
    | [] => (.unclosed c cs, [])
    | _ :: rest => (.string c (cs.takeWhile (· != c)), rest)
  else
    match TokenKind.ofSymbol? c with
    | some kind => (.symbol kind c, cs)
    | none => (.unknown c, cs)

theorem length_dropWhile_le (p : Char → Bool) (cs : List Char) :
    (cs.dropWhile p).length ≤ cs.length :=
  (List.dropWhile_sublist p).length_le

/-- What follows a lexeme is shorter than the source it was cut from. -/
theorem length_next_le (c : Char) (cs : List Char) :
    (next c cs).2.length ≤ cs.length := by
  unfold next
  split
  · exact length_dropWhile_le _ _
  split
  · exact Nat.le_refl _
  split
  · exact Nat.le_trans (length_dropWhile_le _ _) (length_dropWhile_le _ _)
  split
  · exact length_dropWhile_le _ _
  split
  · have h := length_dropWhile_le (· != c) cs
    split
    · exact Nat.zero_le _
    · rename_i rest heq
      rw [heq] at h
      simp only [List.length_cons] at h
      dsimp only
      omega
  · split <;> exact Nat.le_refl _

/-- A lexeme and what follows it make up the source it was cut from. -/
theorem text_next (c : Char) (cs : List Char) :
    (next c cs).1.text ++ (next c cs).2 = c :: cs := by
  unfold next
  split
  · simp [text]
  split
  · simp_all [text]
  split
  · simp [text]
  split
  · simp [text]
  split
  · split
    · simp [text]
    · rename_i found rest heq
      have hquote : found = c := by
        have := List.head?_dropWhile_not (· != c) cs
        simpa [heq] using this
      subst hquote
      have := List.takeWhile_append_dropWhile (p := (· != found)) (l := cs)
      rw [heq] at this
      simp [text, this]
  · split <;> simp [text]

/-- Cut source text into lexemes. -/
def split : List Char → List Lexeme
  | [] => []
  | c :: cs => (next c cs).1 :: split (next c cs).2
termination_by cs => cs.length
decreasing_by
  have := length_next_le c cs
  simp only [List.length_cons]
  omega

/-- Nothing is lost: the lexemes make up the source. -/
theorem flatMap_text_split (cs : List Char) : (split cs).flatMap text = cs := by
  induction cs using split.induct with
  | case1 => simp [split]
  | case2 c cs ih => rw [split, List.flatMap_cons, ih, text_next]

/-- The number of line ends in a lexeme. -/
def newlines : Lexeme → Nat
  | .newline => 1
  | .string _ body | .unclosed _ body => body.count '\n'
  | _ => 0

end Lexeme
end MiniLisp
