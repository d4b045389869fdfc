import Mathlib.Data.List.TakeWhile
import MiniLisp.Token.Lexed

/-!
# The segmentation of source text

Which lexemes can stand at the start of a text is a matter of their shapes alone:
`Lexeme.Matches` says so without scanning anything.  A segmentation takes the
longest of them at each position.  There is exactly one, because a lexeme that
matches is always an initial part of the one that `Lexeme.next` cuts off, and the
two have the same text only if they are the same.

What is read from a text is then told lexeme by lexeme.  The line that a lexeme
starts on is known from the text before it.
-/

namespace MiniLisp
namespace Lexeme

/-! ## Lexemes that can stand at the start of a text -/

/-- The characters that start no other lexeme. -/
def isOther (c : Char) : Bool :=
  !isBlank c && c != '\n' && !c.isDigit && !c.isAlpha && !isQuote c &&
    (TokenKind.ofSymbol? c).isNone

/-- The text starts with the lexeme.  An unclosed string needs all of it. -/
inductive Matches : Lexeme → List Char → Prop
  | blank {c : Char} {cs rest : List Char} : isBlank c = true →
      (∀ x ∈ cs, isBlank x = true) → Matches (.blank (c :: cs)) (c :: (cs ++ rest))
  | newline {rest : List Char} : Matches .newline ('\n' :: rest)
  | number {c : Char} {digits suffix rest : List Char} : c.isDigit = true →
      (∀ x ∈ digits, isNumeric x = true) → (∀ x ∈ suffix, x.isAlpha = true) →
      Matches (.number (c :: digits) suffix) (c :: (digits ++ suffix ++ rest))
  | word {c : Char} {cs rest : List Char} : c.isAlpha = true →
      (∀ x ∈ cs, isWordChar x = true) → Matches (.word (c :: cs)) (c :: (cs ++ rest))
  | string {quote : Char} {body rest : List Char} : isQuote quote = true → quote ∉ body →
      Matches (.string quote body) (quote :: (body ++ quote :: rest))
  | unclosed {quote : Char} {body : List Char} : isQuote quote = true → quote ∉ body →
      Matches (.unclosed quote body) (quote :: body)
  | symbol {kind : TokenKind} {c : Char} {rest : List Char} :
      TokenKind.ofSymbol? c = some kind → Matches (.symbol kind c) (c :: rest)
  | unknown {c : Char} {rest : List Char} : isOther c = true →
      Matches (.unknown c) (c :: rest)

/-- The text starts with the lexeme and with no longer one. -/
def LongestAt (x : Lexeme) (source : List Char) : Prop :=
  x.Matches source ∧ ∀ y : Lexeme, y.Matches source → y.text.length ≤ x.text.length

/-- The lexemes make up the source, and each of them is the longest at its
position. -/
structure Segmentation (xs : List Lexeme) (source : List Char) : Prop where
  concat : xs.flatMap text = source
  nonempty : ∀ x ∈ xs, x.text ≠ []
  longest : ∀ (before : List Lexeme) (x : Lexeme) (after : List Lexeme),
    xs = before ++ x :: after → x.LongestAt ((x :: after).flatMap text)

theorem Matches.text_ne_nil {x : Lexeme} {source : List Char} (h : x.Matches source) :
    x.text ≠ [] := by
  cases h <;> simp [text]

/-! ## The first character decides -/

section FirstCharacter

variable {c : Char} (cs : List Char)

theorem not_isDigit_of_isAlpha (hc : c.isAlpha = true) : c.isDigit = false := by
  unfold Char.isAlpha Char.isUpper Char.isLower at hc
  unfold Char.isDigit
  grind

theorem not_isNumeric_of_isAlpha (hc : c.isAlpha = true) : isNumeric c = false := by
  have hdot : c ≠ '.' := by
    rintro rfl
    exact absurd hc (by decide)
  simp [isNumeric, not_isDigit_of_isAlpha hc, hdot]

private theorem not_isBlank_of {p : Char → Bool} (hc : p c = true) (hspace : p ' ' = false)
    (htab : p '\t' = false) (hreturn : p '\r' = false) : isBlank c = false := by
  rw [Bool.eq_false_iff]
  intro hblank
  simp only [isBlank, Bool.or_eq_true, beq_iff_eq] at hblank
  rcases hblank with (rfl | rfl) | rfl <;> simp_all

theorem next_blank (hc : isBlank c = true) :
    next c cs = (.blank (c :: cs.takeWhile isBlank), cs.dropWhile isBlank) := by
  simp [next, hc]

theorem next_newline : next '\n' cs = (.newline, cs) := by
  simp [next, isBlank]

theorem next_number (hc : c.isDigit = true) :
    next c cs =
      (.number (c :: cs.takeWhile isNumeric)
          ((cs.dropWhile isNumeric).takeWhile Char.isAlpha),
        (cs.dropWhile isNumeric).dropWhile Char.isAlpha) := by
  have hblank : isBlank c = false := not_isBlank_of hc (by decide) (by decide) (by decide)
  have hnewline : c ≠ '\n' := by
    rintro rfl
    exact absurd hc (by decide)
  simp [next, hblank, hnewline, hc]

theorem next_word (hc : c.isAlpha = true) :
    next c cs = (.word (c :: cs.takeWhile isWordChar), cs.dropWhile isWordChar) := by
  have hblank : isBlank c = false := not_isBlank_of hc (by decide) (by decide) (by decide)
  have hnewline : c ≠ '\n' := by
    rintro rfl
    exact absurd hc (by decide)
  simp [next, hblank, hnewline, not_isDigit_of_isAlpha hc, hc]

theorem disjoint_of_isQuote (hc : isQuote c = true) :
    isBlank c = false ∧ c ≠ '\n' ∧ c.isDigit = false ∧ c.isAlpha = false := by
  simp only [isQuote, Bool.or_eq_true, beq_iff_eq] at hc
  rcases hc with rfl | rfl <;> decide

theorem next_unclosed (hc : isQuote c = true) (hcs : c ∉ cs) :
    next c cs = (.unclosed c cs, []) := by
  obtain ⟨hblank, hnewline, hdigit, halpha⟩ := disjoint_of_isQuote hc
  have hdrop : cs.dropWhile (· != c) = [] := by
    rw [List.dropWhile_eq_nil_iff]
    intro x hx
    simpa using ne_of_mem_of_not_mem hx hcs
  simp [next, hblank, hnewline, hdigit, halpha, hc, hdrop]

theorem next_string (body : List Char) (hc : isQuote c = true) (hbody : c ∉ body) :
    next c (body ++ c :: cs) = (.string c body, cs) := by
  obtain ⟨hblank, hnewline, hdigit, halpha⟩ := disjoint_of_isQuote hc
  have hinside : ∀ x ∈ body, (x != c) = true := by
    intro x hx
    simpa using ne_of_mem_of_not_mem hx hbody
  have hdrop : (body ++ c :: cs).dropWhile (· != c) = c :: cs := by
    simp [List.dropWhile_append_of_pos hinside]
  have htake : (body ++ c :: cs).takeWhile (· != c) = body := by
    simp [List.takeWhile_append_of_pos hinside]
  simp [next, hblank, hnewline, hdigit, halpha, hc, hdrop, htake]

theorem next_symbol {kind : TokenKind} (hc : TokenKind.ofSymbol? c = some kind) :
    next c cs = (.symbol kind c, cs) := by
  have hothers : isBlank c = false ∧ c ≠ '\n' ∧ c.isDigit = false ∧ c.isAlpha = false ∧
      isQuote c = false := by
    unfold TokenKind.ofSymbol? at hc
    split at hc <;> first | decide | cases hc
  obtain ⟨hblank, hnewline, hdigit, halpha, hquote⟩ := hothers
  simp [next, hblank, hnewline, hdigit, halpha, hquote, hc]

theorem next_unknown (hc : isOther c = true) : next c cs = (.unknown c, cs) := by
  simp only [isOther, Bool.and_eq_true, Bool.not_eq_true', bne_iff_ne,
    Option.isNone_iff_eq_none] at hc
  obtain ⟨⟨⟨⟨⟨hblank, hnewline⟩, hdigit⟩, halpha⟩, hquote⟩, hsymbol⟩ := hc
  simp [next, hblank, hnewline, hdigit, halpha, hquote, hsymbol]

/-- What the first character of a lexeme can be. -/
theorem first_cases (c : Char) :
    isBlank c = true ∨ c = '\n' ∨ c.isDigit = true ∨ c.isAlpha = true ∨ isQuote c = true ∨
      (∃ kind, TokenKind.ofSymbol? c = some kind) ∨ isOther c = true := by
  cases hsymbol : TokenKind.ofSymbol? c with
  | some kind => simp
  | none => grind [isOther]

end FirstCharacter

/-! ## What is cut off is the longest -/

/-- A letter ends the digits of a number, and the suffix goes on as far as there are
letters. -/
theorem next_number_suffix {c : Char} {digits suffix : List Char} (rest : List Char)
    (hc : c.isDigit = true) (hdigits : ∀ x ∈ digits, isNumeric x = true)
    (hsuffix : ∀ x ∈ suffix, x.isAlpha = true) (hne : suffix ≠ []) :
    next c (digits ++ suffix ++ rest) =
      (.number (c :: digits) (suffix ++ rest.takeWhile Char.isAlpha),
        rest.dropWhile Char.isAlpha) := by
  obtain ⟨a, as, rfl⟩ := List.exists_cons_of_ne_nil hne
  have ha : isNumeric a = false := not_isNumeric_of_isAlpha (hsuffix a List.mem_cons_self)
  have htake : (a :: as ++ rest).takeWhile isNumeric = [] := by
    simp [ha]
  have hdrop : (a :: as ++ rest).dropWhile isNumeric = a :: as ++ rest := by
    simp [ha]
  rw [next_number _ hc, List.append_assoc, List.takeWhile_append_of_pos hdigits,
    List.dropWhile_append_of_pos hdigits, htake, hdrop, List.takeWhile_append_of_pos hsuffix,
    List.dropWhile_append_of_pos hsuffix, List.append_nil]

/-- A lexeme that matches is an initial part of the one that is cut off, and equal
to it if nothing more is cut off. -/
theorem Matches.text_next {x : Lexeme} {c : Char} {cs : List Char}
    (h : x.Matches (c :: cs)) :
    ∃ more, (next c cs).1.text = x.text ++ more ∧ (more = [] → (next c cs).1 = x) := by
  cases h with
  | @blank _ run rest hc hrun =>
      refine ⟨rest.takeWhile isBlank, ?_, fun hmore => ?_⟩
      · simp [next_blank _ hc, List.takeWhile_append_of_pos hrun, text]
      · simp [next_blank _ hc, List.takeWhile_append_of_pos hrun, hmore]
  | newline => exact ⟨[], by simp [next_newline], fun _ => by simp [next_newline]⟩
  | @number _ digits suffix rest hc hdigits hsuffix =>
      by_cases hne : suffix = []
      · subst hne
        refine ⟨rest.takeWhile isNumeric ++
          (rest.dropWhile isNumeric).takeWhile Char.isAlpha, ?_, fun hmore => ?_⟩
        · simp [next_number _ hc, List.takeWhile_append_of_pos hdigits,
            List.dropWhile_append_of_pos hdigits, text]
        · obtain ⟨hnumeric, halpha⟩ := List.append_eq_nil_iff.mp hmore
          simp [next_number _ hc, List.takeWhile_append_of_pos hdigits,
            List.dropWhile_append_of_pos hdigits, hnumeric, halpha]
      · rw [next_number_suffix rest hc hdigits hsuffix hne]
        refine ⟨rest.takeWhile Char.isAlpha, ?_, fun hmore => ?_⟩
        · simp [text]
        · simp [hmore]
  | @word _ letters rest hc hletters =>
      refine ⟨rest.takeWhile isWordChar, ?_, fun hmore => ?_⟩
      · simp [next_word _ hc, List.takeWhile_append_of_pos hletters, text]
      · simp [next_word _ hc, List.takeWhile_append_of_pos hletters, hmore]
  | string hc hbody =>
      exact ⟨[], by simp [next_string _ _ hc hbody], fun _ => by simp [next_string _ _ hc hbody]⟩
  | unclosed hc hbody =>
      exact ⟨[], by simp [next_unclosed _ hc hbody], fun _ => by simp [next_unclosed _ hc hbody]⟩
  | symbol hc => exact ⟨[], by simp [next_symbol _ hc], fun _ => by simp [next_symbol _ hc]⟩
  | unknown hc => exact ⟨[], by simp [next_unknown _ hc], fun _ => by simp [next_unknown _ hc]⟩

theorem matches_next (c : Char) (cs : List Char) : (next c cs).1.Matches (c :: cs) := by
  rcases first_cases c with hc | rfl | hc | hc | hc | ⟨kind, hc⟩ | hc
  · have h : (Lexeme.blank (c :: cs.takeWhile isBlank)).Matches
        (c :: (cs.takeWhile isBlank ++ cs.dropWhile isBlank)) :=
      .blank hc fun x hx => List.mem_takeWhile_imp hx
    rw [List.takeWhile_append_dropWhile] at h
    rwa [next_blank cs hc]
  · rw [next_newline]
    exact .newline
  · have h : (Lexeme.number (c :: cs.takeWhile isNumeric)
        ((cs.dropWhile isNumeric).takeWhile Char.isAlpha)).Matches
        (c :: (cs.takeWhile isNumeric ++ (cs.dropWhile isNumeric).takeWhile Char.isAlpha ++
          (cs.dropWhile isNumeric).dropWhile Char.isAlpha)) :=
      .number hc (fun x hx => List.mem_takeWhile_imp hx)
        (fun x hx => List.mem_takeWhile_imp hx)
    rw [List.append_assoc, List.takeWhile_append_dropWhile,
      List.takeWhile_append_dropWhile] at h
    rwa [next_number cs hc]
  · have h : (Lexeme.word (c :: cs.takeWhile isWordChar)).Matches
        (c :: (cs.takeWhile isWordChar ++ cs.dropWhile isWordChar)) :=
      .word hc fun x hx => List.mem_takeWhile_imp hx
    rw [List.takeWhile_append_dropWhile] at h
    rwa [next_word cs hc]
  · by_cases hmem : c ∈ cs
    · obtain ⟨body, rest, rfl, hbody⟩ := List.eq_append_cons_of_mem hmem
      rw [next_string _ _ hc hbody]
      exact .string hc hbody
    · rw [next_unclosed _ hc hmem]
      exact .unclosed hc hmem
  · rw [next_symbol cs hc]
    exact .symbol hc
  · rw [next_unknown cs hc]
    exact .unknown hc

theorem longestAt_cons_iff {x : Lexeme} {c : Char} {cs : List Char} :
    x.LongestAt (c :: cs) ↔ x = (next c cs).1 := by
  constructor
  · rintro ⟨hmatch, hlongest⟩
    obtain ⟨more, htext, hsame⟩ := hmatch.text_next
    have hlength := hlongest _ (matches_next c cs)
    rw [htext, List.length_append] at hlength
    have hmore : more = [] := List.eq_nil_of_length_eq_zero (by omega)
    exact (hsame hmore).symm
  · rintro rfl
    refine ⟨matches_next c cs, fun y hy => ?_⟩
    obtain ⟨more, htext, _⟩ := hy.text_next
    rw [htext, List.length_append]
    omega

/-! ## There is exactly one segmentation -/

theorem Segmentation.tail {x : Lexeme} {xs : List Lexeme} {source : List Char}
    (h : Segmentation (x :: xs) source) : Segmentation xs (xs.flatMap text) where
  concat := rfl
  nonempty y hy := h.nonempty y (List.mem_cons_of_mem x hy)
  longest before y after hxs := h.longest (x :: before) y after (by rw [hxs]; rfl)

theorem segmentation_split (source : List Char) : Segmentation (split source) source where
  concat := flatMap_text_split source
  nonempty := by
    induction source using split.induct with
    | case1 => simp [split]
    | case2 c cs ih =>
        rw [split]
        exact List.forall_mem_cons.mpr ⟨(matches_next c cs).text_ne_nil, ih⟩
  longest := by
    induction source using split.induct with
    | case1 => simp [split]
    | case2 c cs ih =>
        intro before x after hsplit
        rw [split] at hsplit
        cases before with
        | nil =>
            obtain ⟨rfl, rfl⟩ := List.cons.inj hsplit
            rw [List.flatMap_cons, flatMap_text_split, Lexeme.text_next]
            exact longestAt_cons_iff.mpr rfl
        | cons y before => exact ih before x after (List.cons.inj hsplit).2

theorem Segmentation.eq_split {xs : List Lexeme} {source : List Char}
    (h : Segmentation xs source) : xs = split source := by
  induction xs generalizing source with
  | nil =>
      have hsource : [] = source := h.concat
      rw [← hsource, split]
  | cons x xs ih =>
      have hrest := ih h.tail
      have hfirst := h.longest [] x xs rfl
      have hconcat : x.text ++ xs.flatMap text = source := h.concat
      rw [List.flatMap_cons, hconcat] at hfirst
      cases source with
      | nil => exact absurd (List.append_eq_nil_iff.mp hconcat).1 hfirst.1.text_ne_nil
      | cons c cs =>
          obtain rfl := longestAt_cons_iff.mp hfirst
          have hafter : xs.flatMap text = (next c cs).2 :=
            List.append_cancel_left (hconcat.trans (Lexeme.text_next c cs).symm)
          rw [split, ← hafter, ← hrest]

/-! ## What is read from a segmentation -/

/-- What a lexeme gives that starts on the given line. -/
inductive Yields (keywords : Keywords) (line : Nat) : Lexeme → Lexed → Prop
  | blank (run : List Char) : Yields keywords line (.blank run) ⟨[], []⟩
  | newline : Yields keywords line .newline ⟨[], []⟩
  | number {digits suffix : List Char} {kind : TokenKind} {value : Value} :
      Numeral.classify digits suffix = .ok (kind, value) →
      Yields keywords line (.number digits suffix) ⟨[⟨kind, value, line⟩], []⟩
  | rejected {digits suffix : List Char} {defect : Numeral.Defect} :
      Numeral.classify digits suffix = .error defect →
      Yields keywords line (.number digits suffix)
        ⟨[], [⟨line, defect.fault (String.ofList (digits ++ suffix))⟩]⟩
  | keyword {letters : List Char} : String.ofList letters ∈ keywords.words →
      Yields keywords line (.word letters)
        ⟨[⟨.keyword, .str (String.ofList letters), line⟩], []⟩
  | identifier {letters : List Char} : String.ofList letters ∉ keywords.words →
      Yields keywords line (.word letters)
        ⟨[⟨.identifier, .str (String.ofList letters), line⟩], []⟩
  | string (quote : Char) (body : List Char) :
      Yields keywords line (.string quote body)
        ⟨[⟨.quote, .str quote.toString, line⟩, ⟨.str, .str (String.ofList body), line⟩,
          ⟨.quote, .str quote.toString, line + body.count '\n'⟩], []⟩
  | unclosed (quote : Char) (body : List Char) :
      Yields keywords line (.unclosed quote body)
        ⟨[⟨.quote, .str quote.toString, line⟩, ⟨.str, .str (String.ofList body), line⟩],
          [⟨line + body.count '\n', .unterminatedString quote⟩]⟩
  | symbol (kind : TokenKind) (c : Char) :
      Yields keywords line (.symbol kind c) ⟨[⟨kind, .str c.toString, line⟩], []⟩
  | unknown (c : Char) : Yields keywords line (.unknown c) ⟨[], [⟨line, .unknownSyntax c⟩]⟩

theorem yields_emit (keywords : Keywords) (line : Nat) (x : Lexeme) :
    x.Yields keywords line (x.emit keywords line) := by
  cases x with
  | blank run => exact .blank run
  | newline => exact .newline
  | number digits suffix =>
      cases hnumeral : Numeral.classify digits suffix with
      | ok result =>
          simp only [emit, hnumeral]
          exact .number hnumeral
      | error defect =>
          simp only [emit, hnumeral]
          exact .rejected hnumeral
  | word letters =>
      by_cases hword : String.ofList letters ∈ keywords.words
      · simpa [emit, Keywords.contains, hword] using Yields.keyword hword
      · simpa [emit, Keywords.contains, hword] using Yields.identifier hword
  | string quote body => exact .string quote body
  | unclosed quote body => exact .unclosed quote body
  | symbol kind c => exact .symbol kind c
  | unknown c => exact .unknown c

private theorem count_newline_of_forall {p : Char → Bool} {cs : List Char}
    (hcs : ∀ x ∈ cs, p x = true) (hp : p '\n' = false) : cs.count '\n' = 0 := by
  rw [List.count_eq_zero]
  intro hmem
  exact absurd (hcs _ hmem) (by simp [hp])

/-- The lines that a lexeme ends are those of its text. -/
theorem Matches.newlines_eq {x : Lexeme} {source : List Char} (h : x.Matches source) :
    x.newlines = x.text.count '\n' := by
  cases h with
  | @blank c cs _ hc hcs =>
      have hall : ∀ x ∈ c :: cs, isBlank x = true := List.forall_mem_cons.mpr ⟨hc, hcs⟩
      exact (count_newline_of_forall hall (by decide)).symm
  | newline => rfl
  | @number c digits suffix _ hc hdigits hsuffix =>
      have hall : ∀ x ∈ c :: digits, isNumeric x = true :=
        List.forall_mem_cons.mpr ⟨by simp [isNumeric, hc], hdigits⟩
      simp only [newlines, text, List.count_append, count_newline_of_forall hall (by decide),
        count_newline_of_forall hsuffix (by decide)]
  | @word c cs _ hc hcs =>
      have hall : ∀ x ∈ c :: cs, isWordChar x = true :=
        List.forall_mem_cons.mpr ⟨by simp [isWordChar, Char.isAlphanum, hc], hcs⟩
      exact (count_newline_of_forall hall (by decide)).symm
  | @string quote body _ hquote _ =>
      have hne : quote ≠ '\n' := (disjoint_of_isQuote hquote).2.1
      simp [newlines, text, hne]
  | @unclosed quote body hquote _ =>
      have hne : quote ≠ '\n' := (disjoint_of_isQuote hquote).2.1
      simp [newlines, text, hne]
  | @symbol kind c _ hc =>
      have hne : c ≠ '\n' := by
        rintro rfl
        cases hc
      simp [newlines, text, hne]
  | @unknown c _ hc =>
      have hne : c ≠ '\n' := by
        rintro rfl
        exact absurd hc (by decide)
      simp [newlines, text, hne]

theorem count_newline_cons (c : Char) (cs : List Char) :
    (c :: cs).count '\n' = (next c cs).1.newlines + (next c cs).2.count '\n' := by
  rw [← text_next c cs, List.count_append, (matches_next c cs).newlines_eq]

end Lexeme

namespace Lexed

/-- What lexemes give that stand behind the text `before`: what each of them gives,
in order, the lines being counted from the start of that text. -/
inductive ReadFrom (keywords : Keywords) : List Char → List Lexeme → Lexed → Prop
  | nil (before : List Char) : ReadFrom keywords before [] ⟨[], []⟩
  | cons {before : List Char} {x : Lexeme} {xs : List Lexeme} {first rest : Lexed} :
      x.Yields keywords (1 + before.count '\n') first →
      ReadFrom keywords (before ++ x.text) xs rest →
      ReadFrom keywords before (x :: xs)
        ⟨first.tokens ++ rest.tokens, first.diagnostics ++ rest.diagnostics⟩

theorem readFrom_split (keywords : Keywords) (before source : List Char) :
    ReadFrom keywords before (Lexeme.split source)
      (.ofLexemes keywords (1 + before.count '\n') (Lexeme.split source)) := by
  induction source using Lexeme.split.induct generalizing before with
  | case1 =>
      rw [Lexeme.split]
      exact .nil before
  | case2 c cs ih =>
      have hline : 1 + before.count '\n' + (Lexeme.next c cs).1.newlines =
          1 + (before ++ (Lexeme.next c cs).1.text).count '\n' := by
        rw [(Lexeme.matches_next c cs).newlines_eq, List.count_append]
        omega
      rw [Lexeme.split, ofLexemes, hline]
      exact .cons (Lexeme.yields_emit keywords _ _) (ih _)

end Lexed

/-- Every text has exactly one segmentation, and what is read from the text is what
its lexemes give, in order. -/
theorem lex_unique_segmentation (keywords : Keywords) (source : String) :
    ∃ xs, Lexeme.Segmentation xs source.toList ∧
      (∀ ys, Lexeme.Segmentation ys source.toList → ys = xs) ∧
      Lexed.ReadFrom keywords [] xs (lex keywords source) := by
  refine ⟨Lexeme.split source.toList, Lexeme.segmentation_split _, fun ys hys => ?_, ?_⟩
  · exact hys.eq_split
  · exact Lexed.readFrom_split keywords [] source.toList

/-- Dots and a suffix, a quote inside the other quote, a letter that is none of the
alphabet, and a string that does not end. -/
theorem lex_unique_segmentation_mixed :
    let source := "1.2.3f\tif_1 'a\"\nb'é(\"c"
    let xs : List Lexeme :=
      [.number ['1', '.', '2', '.', '3'] ['f'], .blank ['\t'], .word ['i', 'f', '_', '1'],
        .blank [' '], .string '\'' ['a', '"', '\n', 'b'], .unknown 'é', .symbol .lparen '(',
        .unclosed '"' ['c']]
    Lexeme.Segmentation xs source.toList ∧
      (∀ ys, Lexeme.Segmentation ys source.toList → ys = xs) ∧
      Lexed.ReadFrom .standard [] xs (lex .standard source) ∧
      (lex .standard source).diagnostics =
        [⟨1, .tooManyDots "1.2.3f"⟩, ⟨2, .unknownSyntax 'é'⟩, ⟨2, .unterminatedString '"'⟩] := by
  intro source xs
  obtain ⟨ys, hys, hunique, hread⟩ := lex_unique_segmentation .standard source
  have hxs : ys = xs := hys.eq_split.trans (by decide +kernel)
  subst hxs
  exact ⟨hys, hunique, hread, by decide +kernel⟩

end MiniLisp
