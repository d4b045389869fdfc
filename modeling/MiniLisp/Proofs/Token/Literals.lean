import MiniLisp.Proofs.Token.Whitespace
import MiniLisp.Value.Text

/-!
# Reading what was written

A text that starts with the text of a single token is read as this token and what
follows, provided that the token ends there: digits and letters run on as far as they
can.  Integers that are not negative, and strings that lack one of the two quotes, are
written in this way.
-/

namespace MiniLisp
namespace Lexeme

/-- A run of such characters does not go on in the text. -/
def Ends (p : Char → Bool) (rest : List Char) : Prop :=
  ∀ c ∈ rest.head?, p c = false

section Ends

variable {p : Char → Bool} {cs rest : List Char}

theorem Ends.nil : Ends p [] :=
  nofun

theorem Ends.cons {c : Char} (hc : p c = false) (rest : List Char) : Ends p (c :: rest) := by
  simpa [Ends] using hc

theorem Ends.takeWhile_eq_nil (h : Ends p rest) : rest.takeWhile p = [] := by
  cases rest with
  | nil => rfl
  | cons c rest => simp [h c rfl]

theorem Ends.dropWhile_eq_self (h : Ends p rest) : rest.dropWhile p = rest := by
  cases rest with
  | nil => rfl
  | cons c rest => simp [h c rfl]

theorem takeWhile_append_of_ends (hcs : ∀ c ∈ cs, p c = true) (hrest : Ends p rest) :
    (cs ++ rest).takeWhile p = cs := by
  rw [List.takeWhile_append_of_pos hcs, hrest.takeWhile_eq_nil, List.append_nil]

theorem dropWhile_append_of_ends (hcs : ∀ c ∈ cs, p c = true) (hrest : Ends p rest) :
    (cs ++ rest).dropWhile p = rest := by
  rw [List.dropWhile_append_of_pos hcs, hrest.dropWhile_eq_self]

end Ends

/-- No number and no word goes on in the text. -/
structure Boundary (rest : List Char) : Prop where
  numeric : Ends isNumeric rest
  alpha : Ends Char.isAlpha rest
  word : Ends isWordChar rest

theorem Boundary.nil : Boundary [] :=
  ⟨.nil, .nil, .nil⟩

theorem Boundary.space (rest : List Char) : Boundary (' ' :: rest) :=
  ⟨.cons (by decide) rest, .cons (by decide) rest, .cons (by decide) rest⟩

theorem Boundary.paren (rest : List Char) : Boundary (')' :: rest) :=
  ⟨.cons (by decide) rest, .cons (by decide) rest, .cons (by decide) rest⟩

end Lexeme

namespace Lexed

variable (keywords : Keywords) (line : Nat)

theorem ofText_symbol {c : Char} {kind : TokenKind} (hc : TokenKind.ofSymbol? c = some kind)
    (rest : List Char) :
    ofText keywords line (c :: rest) =
      ⟨[⟨kind, .str c.toString, line⟩], []⟩ ++ ofText keywords line rest := by
  rw [ofText_cons, Lexeme.next_symbol rest hc]
  rfl

theorem ofText_keyword {c : Char} {cs rest : List Char} (hc : c.isAlpha = true)
    (hcs : ∀ x ∈ cs, Lexeme.isWordChar x = true) (hrest : Lexeme.Ends Lexeme.isWordChar rest)
    (hword : keywords.contains (String.ofList (c :: cs)) = true) :
    ofText keywords line (c :: (cs ++ rest)) =
      ⟨[⟨.keyword, .str (String.ofList (c :: cs)), line⟩], []⟩ ++ ofText keywords line rest := by
  rw [ofText_cons, Lexeme.next_word _ hc, Lexeme.takeWhile_append_of_ends hcs hrest,
    Lexeme.dropWhile_append_of_ends hcs hrest]
  simp only [Lexeme.emit, hword, if_true, Lexeme.newlines, Nat.add_zero]

theorem ofText_string {quote : Char} (hquote : Lexeme.isQuote quote = true) {body : List Char}
    (hbody : quote ∉ body) (rest : List Char) :
    ofText keywords line (quote :: (body ++ quote :: rest)) =
      ⟨[⟨.quote, .str quote.toString, line⟩, ⟨.str, .str (String.ofList body), line⟩,
        ⟨.quote, .str quote.toString, line + body.count '\n'⟩], []⟩ ++
        ofText keywords (line + body.count '\n') rest := by
  rw [ofText_cons, Lexeme.next_string rest body hquote hbody]
  rfl

end Lexed

/-! ## Integers -/

theorem Numeral.classify_toDigits {k : Nat} (hk : (k : Int) ≤ Int64.maxValue.toInt) :
    classify (Nat.toDigits 10 k) [] = .ok (.int, .int (.ofNat k)) := by
  have hdigit : ∀ c ∈ Nat.toDigits 10 k, c.isDigit = true :=
    fun c hc => Nat.isDigit_of_mem_toDigits (by decide) (by decide) hc
  have hdots : (Nat.toDigits 10 k).count '.' = 0 := by
    rw [List.count_eq_zero]
    intro hdot
    exact absurd (hdigit '.' hdot) (by decide)
  have hvalue : value (Nat.toDigits 10 k) = k := by
    unfold value
    rw [List.filter_eq_self.mpr hdigit, Nat.ofDigitChars_toDigits (by decide) (by decide)]
  have hint : toInt? (Nat.toDigits 10 k) = some (.ofNat k) := by
    simp only [toInt?, hvalue]
    exact if_pos hk
  simp [classify, hdots, hint]

theorem Lexed.ofText_int (keywords : Keywords) (line : Nat) {n : Int64} (hn : 0 ≤ n.toInt)
    {rest : List Char} (hnumeric : Lexeme.Ends Lexeme.isNumeric rest)
    (halpha : Lexeme.Ends Char.isAlpha rest) :
    ofText keywords line ((Value.int n).display.toList ++ rest) =
      ⟨[⟨.int, .int n, line⟩], []⟩ ++ ofText keywords line rest := by
  obtain ⟨k, hk⟩ := Int.eq_ofNat_of_zero_le hn
  have hmax : (k : Int) ≤ Int64.maxValue.toInt := hk ▸ Int64.toInt_le n
  have hofNat : Int64.ofNat k = n := by
    rw [← Int64.toInt_inj, Int64.toInt_ofNat_of_lt (by have := Int64.toInt_lt n; omega), hk]
  have hdisplay : (Value.int n).display.toList = Nat.toDigits 10 k := by
    have htext : (Value.int n).display = k.repr := by
      change toString n.toInt = k.repr
      rw [hk]
      rfl
    rw [htext, Nat.toList_repr]
  obtain ⟨c, cs, hcs⟩ := List.exists_cons_of_ne_nil (Nat.toDigits_ne_nil (n := k) (b := 10))
  have hdigit : ∀ x ∈ c :: cs, x.isDigit = true :=
    fun x hx => Nat.isDigit_of_mem_toDigits (by decide) (by decide) (hcs ▸ hx)
  rw [List.forall_mem_cons] at hdigit
  have hrun : ∀ x ∈ cs, Lexeme.isNumeric x = true :=
    fun x hx => by simp [Lexeme.isNumeric, hdigit.2 x hx]
  have hclass : Numeral.classify (c :: cs) [] = .ok (.int, .int n) := by
    rw [← hcs, Numeral.classify_toDigits hmax, hofNat]
  rw [hdisplay, hcs, List.cons_append, ofText_cons, Lexeme.next_number _ hdigit.1,
    Lexeme.takeWhile_append_of_ends hrun hnumeric, Lexeme.dropWhile_append_of_ends hrun hnumeric,
    halpha.takeWhile_eq_nil, halpha.dropWhile_eq_self]
  simp only [Lexeme.emit, hclass, Lexeme.newlines, Nat.add_zero]

/-! ## Strings -/

/-- The quote that a string is written between. -/
def delimiter (s : String) : Char :=
  if '"' ∈ s.toList ∧ '\'' ∉ s.toList then '\'' else '"'

theorem isQuote_delimiter (s : String) : Lexeme.isQuote (delimiter s) = true := by
  unfold delimiter
  split <;> rfl

theorem toList_quoted (s : String) :
    (quoted s).toList = delimiter s :: (s.toList ++ [delimiter s]) := by
  by_cases hdouble : '"' ∈ s.toList
  · by_cases hsingle : '\'' ∈ s.toList <;> simp [quoted, delimiter, hdouble, hsingle]
  · simp [quoted, delimiter, hdouble]

theorem delimiter_notMem_iff {s : String} :
    delimiter s ∉ s.toList ↔ '"' ∉ s.toList ∨ '\'' ∉ s.toList := by
  by_cases hdouble : '"' ∈ s.toList
  · by_cases hsingle : '\'' ∈ s.toList <;> simp [delimiter, hdouble, hsingle]
  · simp [delimiter, hdouble]

/-- A string is written between quotes that it does not contain, if there are such. -/
theorem exists_toList_quoted {s : String} (hs : '"' ∉ s.toList ∨ '\'' ∉ s.toList) :
    ∃ quote, Lexeme.isQuote quote = true ∧ quote ∉ s.toList ∧
      (quoted s).toList = quote :: (s.toList ++ [quote]) :=
  ⟨delimiter s, isQuote_delimiter s, delimiter_notMem_iff.mpr hs, toList_quoted s⟩

/-! ## Data -/

namespace Value

mutual

/-- Integers that are not negative, strings that lack one of the two quotes, and lists of
such values. -/
def isWritable : Value → Bool
  | .int n => 0 ≤ n.toInt
  | .str s => !(s.toList.contains '"' && s.toList.contains '\'')
  | .list items => allWritable items
  | _ => false

def allWritable : List Value → Bool
  | [] => true
  | v :: vs => v.isWritable && allWritable vs

end

end Value
end MiniLisp
