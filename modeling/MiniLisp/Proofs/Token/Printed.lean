import MiniLisp.Proofs.Token.Literals

/-!
# Printed data reads back

What is displayed of integers that are not negative, of strings that lack one of the two
quotes, and of lists of such values is read again, token by token, as what it was.  For
other integers and strings this fails: a sign is a token of its own, and a string with
both quotes ends too early.

The text of a list is taken apart into pieces, each of which is read without a look at
what was read before it.  A space belongs to the element that it precedes, so that every
element is followed by a space or by the closing parenthesis, and no number runs on.
-/

namespace MiniLisp

/-- What a token is, apart from where it stands. -/
def Token.content (t : Token) : TokenKind × Value :=
  (t.kind, t.value)

namespace Lexed

/-- These are the tokens, and nothing was left out. -/
structure Reads (a : Lexed) (contents : List (TokenKind × Value)) : Prop where
  tokens : a.tokens.map Token.content = contents
  diagnostics : a.diagnostics = []

/-- The text starts with these tokens, without anything that is left out, and then goes on
as the rest would by itself. -/
def Spells (keywords : Keywords) (contents : List (TokenKind × Value))
    (text rest : List Char) : Prop :=
  ∀ line, ∃ ts line', ofText keywords line (text ++ rest) =
    ⟨ts, []⟩ ++ ofText keywords line' rest ∧ ts.map Token.content = contents

namespace Spells

variable {keywords : Keywords} {xs ys : List (TokenKind × Value)} {text more rest : List Char}

theorem nil (rest : List Char) : Spells keywords [] [] rest :=
  fun line => ⟨[], line, rfl, rfl⟩

theorem append (hxs : Spells keywords xs text (more ++ rest)) (hys : Spells keywords ys more rest) :
    Spells keywords (xs ++ ys) (text ++ more) rest := by
  intro line
  obtain ⟨ts, line', hread, hts⟩ := hxs line
  obtain ⟨us, line'', hread', hus⟩ := hys line'
  refine ⟨ts ++ us, line'', ?_, ?_⟩
  · rw [List.append_assoc, hread, hread']
    exact Lexed.ext (by simp) (by simp)
  · rw [List.map_append, hts, hus]

theorem blank (h : Spells keywords xs text rest) : Spells keywords xs (' ' :: text) rest := by
  intro line
  rw [List.cons_append, ofText_cons_of_isBlank keywords line _ rfl, ofText_dropWhile_isBlank]
  exact h line

theorem symbol {c : Char} {kind : TokenKind} (hc : TokenKind.ofSymbol? c = some kind)
    (rest : List Char) : Spells keywords [(kind, .str c.toString)] [c] rest :=
  fun line => ⟨[⟨kind, .str c.toString, line⟩], line, ofText_symbol keywords line hc rest, rfl⟩

theorem int {n : Int64} (hn : 0 ≤ n.toInt) (hrest : Lexeme.Boundary rest) :
    Spells keywords [(.int, .int n)] (Value.int n).display.toList rest :=
  fun line => ⟨[⟨.int, .int n, line⟩], line,
    ofText_int keywords line hn hrest.numeric hrest.alpha, rfl⟩

/-- A string ends at the first of its quotes, wherever that is. -/
theorem string {quote : Char} (hquote : Lexeme.isQuote quote = true) {body : List Char}
    (hbody : quote ∉ body) (rest : List Char) :
    Spells keywords [(.quote, .str quote.toString), (.str, .str (String.ofList body)),
      (.quote, .str quote.toString)] (quote :: (body ++ [quote])) rest := by
  intro line
  have hread := ofText_string keywords line hquote hbody rest
  rw [List.cons_append, List.append_assoc]
  exact ⟨_, _, hread, rfl⟩

theorem reads {source : String} (h : Spells keywords xs source.toList []) :
    (lex keywords source).Reads xs := by
  obtain ⟨ts, line', hread, hts⟩ := h 1
  rw [List.append_nil, ofText_nil] at hread
  have hlex : lex keywords source = ⟨ts, []⟩ := hread.trans (Lexed.ext (List.append_nil ts) rfl)
  exact ⟨by rw [hlex, hts], by rw [hlex]⟩

/-- What a text is read as starts with what its first part is read as. -/
theorem prefix_lex {source : String} (h : Spells keywords xs text rest)
    (hsource : source.toList = text ++ rest) :
    xs <+: (lex keywords source).tokens.map Token.content := by
  obtain ⟨ts, line', hread, hts⟩ := h 1
  rw [← hsource] at hread
  change lex keywords source = _ at hread
  rw [hread, tokens_append, List.map_append, hts]
  exact List.prefix_append _ _

end Spells
end Lexed

/-! ## The tokens of a value -/

namespace Value

mutual

/-- The tokens that integers, strings and lists of such are written with. -/
def flatten : Value → List (TokenKind × Value)
  | .int n => [(.int, .int n)]
  | .str s => [(.quote, .str (delimiter s).toString), (.str, .str s),
      (.quote, .str (delimiter s).toString)]
  | .list items => (.lparen, .str "(") :: (flattenAll items ++ [(.rparen, .str ")")])
  | _ => []

def flattenAll : List Value → List (TokenKind × Value)
  | [] => []
  | v :: vs => v.flatten ++ flattenAll vs

end

/-- The text of elements that are not the first. -/
def following (vs : List Value) : List Char :=
  vs.flatMap fun v => ' ' :: v.display.toList

theorem toList_display_list_nil : (Value.list []).display.toList = ['(', ')'] := by
  decide

theorem toList_display_list_cons (v : Value) (vs : List Value) :
    (Value.list (v :: vs)).display.toList =
      ['('] ++ (v.display.toList ++ following vs ++ [')']) := by
  have hwords : ∀ v : Value,
      (" ".intercalate (writeAll quoted (v :: vs))).toList = v.display.toList ++ following vs := by
    induction vs with
    | nil => simp [writeAll, following, display]
    | cons w vs ih =>
        intro v
        have hrest := ih w
        rw [writeAll] at hrest
        rw [writeAll, writeAll, String.intercalate_cons_cons, String.toList_append, hrest]
        simp [following, display]
  simp only [display, write, String.toList_append, hwords]
  simp

end Value

theorem Lexeme.Boundary.following (vs : List Value) (rest : List Char) :
    Boundary (Value.following vs ++ ')' :: rest) := by
  cases vs with
  | nil => exact .paren rest
  | cons v vs => exact .space _

mutual

theorem spells_display (keywords : Keywords) (v : Value) (hv : v.isWritable = true)
    {rest : List Char} (hrest : Lexeme.Boundary rest) :
    Lexed.Spells keywords v.flatten v.display.toList rest := by
  cases v with
  | int n => exact .int (by simpa [Value.isWritable] using hv) hrest
  | str s =>
      have hs : '"' ∉ s.toList ∨ '\'' ∉ s.toList := by simpa [Value.isWritable] using hv
      have hread : Lexed.Spells keywords _ _ rest :=
        .string (isQuote_delimiter s) (delimiter_notMem_iff.mpr hs) rest
      rwa [String.ofList_toList, ← toList_quoted] at hread
  | list items =>
      cases items with
      | nil =>
          rw [Value.toList_display_list_nil]
          exact (Lexed.Spells.symbol (c := '(') rfl _).append (.symbol (c := ')') rfl rest)
      | cons v vs =>
          obtain ⟨hv, hvs⟩ := Bool.and_eq_true_iff.mp hv
          -- Only the first element has no space before it.
          have hitems := (spells_display keywords v hv (.following vs rest)).append
            (spells_following keywords vs hvs rest)
          rw [Value.toList_display_list_cons]
          exact (Lexed.Spells.symbol (c := '(') rfl _).append
            (hitems.append (.symbol (c := ')') rfl rest))
  | float | bool | null | function => cases hv

theorem spells_following (keywords : Keywords) (vs : List Value)
    (hvs : Value.allWritable vs = true) (rest : List Char) :
    Lexed.Spells keywords (Value.flattenAll vs) (Value.following vs) (')' :: rest) := by
  cases vs with
  | nil => exact .nil _
  | cons v vs =>
      obtain ⟨hv, hvs⟩ := Bool.and_eq_true_iff.mp hvs
      have hfirst := spells_display keywords v hv (.following vs rest)
      exact hfirst.blank.append (spells_following keywords vs hvs rest)

end

/-! ## What does not read back -/

/-- The body of a string ends where its delimiter first occurs. -/
theorem delimiter_notMem_of_reads {keywords : Keywords} {s : String} {l r : Value}
    (h : (lex keywords (Value.str s).display).Reads [(.quote, l), (.str, .str s), (.quote, r)]) :
    delimiter s ∉ s.toList := by
  intro hmem
  obtain ⟨body, rest, hs, hbody⟩ := List.eq_append_cons_of_mem hmem
  have htext : (Value.str s).display.toList =
      delimiter s :: (body ++ [delimiter s]) ++ (rest ++ [delimiter s]) := by
    change (quoted s).toList = _
    rw [toList_quoted]
    simp [hs]
  have hstart : Lexed.Spells keywords _ _ (rest ++ [delimiter s]) :=
    .string (isQuote_delimiter s) hbody _
  have hprefix := hstart.prefix_lex htext
  rw [h.tokens] at hprefix
  simp only [List.cons_prefix_cons, Prod.mk.injEq, Value.str.injEq] at hprefix
  have hsame : s.toList = body := by
    rw [← hprefix.2.1.2, String.toList_ofList]
  exact hbody (hsame ▸ hmem)

/-- A negative integer starts with a sign, which is a token of its own. -/
theorem nonneg_of_reads {keywords : Keywords} {n : Int64}
    (h : (lex keywords (Value.int n).display).Reads [(.int, .int n)]) : 0 ≤ n.toInt := by
  by_contra hn
  have htext : (Value.int n).display.toList = ['-'] ++ (-n.toInt).toNat.repr.toList := by
    change (Int.repr n.toInt).toList = _
    rw [Int.repr_eq_if, if_neg hn, String.toList_append]
    rfl
  have hsign : Lexed.Spells keywords _ ['-'] (-n.toInt).toNat.repr.toList := .symbol rfl _
  have hprefix := hsign.prefix_lex htext
  rw [h.tokens] at hprefix
  simp at hprefix

/-! ## Tokens determine the value -/

namespace Value

theorem exists_flatten_eq_cons {v : Value} (hv : v.isWritable = true) :
    ∃ x xs, v.flatten = x :: xs ∧ x.1 ≠ .rparen := by
  cases v with
  | int | str | list => exact ⟨_, _, rfl, nofun⟩
  | float | bool | null | function => cases hv

mutual

/-- Where the tokens of a value end is known from the tokens alone, and so is the value. -/
theorem flatten_append_inj (v w : Value) (hv : v.isWritable = true) (hw : w.isWritable = true)
    {xs ys : List (TokenKind × Value)} (h : v.flatten ++ xs = w.flatten ++ ys) :
    v = w ∧ xs = ys := by
  cases v with
  | int n =>
      cases w with
      | int m => simpa [flatten] using h
      | str | list => simp [flatten] at h
      | float | bool | null | function => cases hw
  | str s =>
      cases w with
      | str t =>
          simp only [flatten, List.cons_append, List.nil_append, List.cons.injEq, Prod.mk.injEq,
            Value.str.injEq, true_and] at h
          obtain ⟨-, rfl, -, rfl⟩ := h
          exact ⟨rfl, rfl⟩
      | int | list => simp [flatten] at h
      | float | bool | null | function => cases hw
  | list vs =>
      cases w with
      | list ws =>
          have hitems : flattenAll vs ++ (.rparen, .str ")") :: xs =
              flattenAll ws ++ (.rparen, .str ")") :: ys := by
            simpa [flatten] using h
          obtain ⟨rfl, rfl⟩ := flattenAll_append_inj vs ws hv hw hitems
          exact ⟨rfl, rfl⟩
      | int | str => simp [flatten] at h
      | float | bool | null | function => cases hw
  | float | bool | null | function => cases hv

theorem flattenAll_append_inj (vs ws : List Value) (hvs : allWritable vs = true)
    (hws : allWritable ws = true) {xs ys : List (TokenKind × Value)}
    (h : flattenAll vs ++ (.rparen, .str ")") :: xs =
      flattenAll ws ++ (.rparen, .str ")") :: ys) :
    vs = ws ∧ xs = ys := by
  cases vs with
  | nil =>
      cases ws with
      | nil => simpa [flattenAll] using h
      | cons w ws =>
          -- No element starts with the parenthesis that ends the list.
          obtain ⟨x, _, hx, hne⟩ := exists_flatten_eq_cons (Bool.and_eq_true_iff.mp hws).1
          simp only [flattenAll, hx, List.nil_append, List.cons_append, List.cons.injEq] at h
          exact absurd (congrArg Prod.fst h.1).symm hne
  | cons v vs =>
      obtain ⟨hv, hvs⟩ := Bool.and_eq_true_iff.mp hvs
      cases ws with
      | nil =>
          obtain ⟨x, _, hx, hne⟩ := exists_flatten_eq_cons hv
          simp only [flattenAll, hx, List.nil_append, List.cons_append, List.cons.injEq] at h
          exact absurd (congrArg Prod.fst h.1) hne
      | cons w ws =>
          obtain ⟨hw, hws'⟩ := Bool.and_eq_true_iff.mp hws
          rw [flattenAll, flattenAll, List.append_assoc, List.append_assoc] at h
          obtain ⟨rfl, hrest⟩ := flatten_append_inj v w hv hw h
          obtain ⟨rfl, rfl⟩ := flattenAll_append_inj vs ws hvs hws' hrest
          exact ⟨rfl, rfl⟩

end

theorem flatten_inj {v w : Value} (hv : v.isWritable = true) (hw : w.isWritable = true)
    (h : v.flatten = w.flatten) : v = w :=
  (flatten_append_inj v w hv hw (congrArg (· ++ []) h)).1

end Value

theorem lex_display (keywords : Keywords) {v : Value} (hv : v.isWritable = true) :
    (lex keywords v.display).Reads v.flatten :=
  (spells_display keywords v hv .nil).reads

/-- Whatever the keywords are: a string reads back as itself between two quotes exactly if
it lacks one of the two, an integer reads back as itself exactly if it is not negative, and
all that is built from these as lists reads back as its tokens, in order.  What is written
the same way is therefore the same. -/
theorem printed_reads_back (keywords : Keywords) :
    (∀ s : String,
      (∃ l r, (lex keywords (Value.str s).display).Reads
        [(.quote, l), (.str, .str s), (.quote, r)]) ↔ '"' ∉ s.toList ∨ '\'' ∉ s.toList) ∧
    (∀ n : Int64,
      (lex keywords (Value.int n).display).Reads [(.int, .int n)] ↔ 0 ≤ n.toInt) ∧
    (∀ v : Value, v.isWritable = true → (lex keywords v.display).Reads v.flatten) ∧
    (∀ v w : Value, v.isWritable = true → w.isWritable = true → v.display = w.display →
      v = w) := by
  refine ⟨fun s => ⟨?_, fun hs => ?_⟩, fun n => ⟨nonneg_of_reads, fun hn => ?_⟩,
    fun v hv => lex_display keywords hv, fun v w hv hw hsame => ?_⟩
  · rintro ⟨l, r, hreads⟩
    exact delimiter_notMem_iff.mp (delimiter_notMem_of_reads hreads)
  · exact ⟨_, _, lex_display keywords (v := .str s) (by simpa [Value.isWritable] using hs)⟩
  · exact lex_display keywords (v := .int n) (by simpa [Value.isWritable] using hn)
  · have hv' := (lex_display keywords hv).tokens
    have hw' := (lex_display keywords hw).tokens
    rw [hsame, hw'] at hv'
    exact Value.flatten_inj hv hw hv'.symm

/-- A parenthesis, a line end and a quote inside a string, an empty list, and a string for
which only the single quote is left.  A sign or both quotes are too much. -/
theorem printed_reads_back_nested :
    let v : Value := .list [.int 0, .str "a)\n'é", .list [], .list [.str "\"", .int 12]]
    v.isWritable = true ∧ v.display = "(0 \"a)\n'é\" () ('\"' 12))" ∧
      (lex .builtin v.display).Reads
        [(.lparen, .str "("), (.int, .int 0),
          (.quote, .str "\""), (.str, .str "a)\n'é"), (.quote, .str "\""),
          (.lparen, .str "("), (.rparen, .str ")"),
          (.lparen, .str "("), (.quote, .str "'"), (.str, .str "\""), (.quote, .str "'"),
          (.int, .int 12), (.rparen, .str ")"), (.rparen, .str ")")] ∧
      ¬ (lex .builtin "-7").Reads [(.int, .int (-7))] ∧
      ¬ ∃ l r, (lex .builtin "\"'\"\"").Reads
        [(.quote, l), (.str, .str "'\""), (.quote, r)] := by
  intro v
  obtain ⟨hstring, hint, hvalue, _⟩ := printed_reads_back .builtin
  have hv : v.isWritable = true := by decide +kernel
  have hreads := hvalue v hv
  simp only [v, Value.flatten, Value.flattenAll] at hreads
  refine ⟨hv, by decide +kernel, hreads, ?_, ?_⟩
  · exact fun h => absurd ((hint (-7)).mp h) (by decide)
  · exact fun h => absurd ((hstring "'\"").mp h) (by decide)

end MiniLisp
