import Mathlib.Data.List.Forall2
import MiniLisp.Proofs.Token.Segmentation

/-!
# The lines of tokens and diagnostics

Every token is read from a span of the source, and everything that is left out is a span
of it as well.  The lines that are counted while reading are compared here with these
spans: a line is one more than the number of line ends before the span.  Only an
unterminated string is reported elsewhere, namely where the source ends.

Spans are in the order of the text, one behind the other, and so their lines never
decrease.  The last part is about a counter of 32 bits, which gives the same lines unless
the text has more line ends than it can count.
-/

namespace MiniLisp

/-- A part of a text: what stands before it, and its own characters. -/
structure Span where
  before : List Char
  text : List Char
  deriving DecidableEq

namespace Span

def line (p : Span) : Nat :=
  1 + p.before.count '\n'

/-- The span, once its text is put behind another one. -/
def behind (before : List Char) (p : Span) : Span :=
  ⟨before ++ p.before, p.text⟩

def Within (p : Span) (source : List Char) : Prop :=
  p.before ++ p.text <+: source

/-- The one span ends before the other one starts. -/
def Precedes (p q : Span) : Prop :=
  p.before ++ p.text <+: q.before

variable {p q : Span} {source : List Char}

theorem Precedes.line_le (h : p.Precedes q) : p.line ≤ q.line :=
  Nat.add_le_add_left (((List.prefix_append _ _).trans h).count_le '\n') 1

theorem Within.line_le (h : p.Within source) : p.line ≤ 1 + source.count '\n' :=
  Nat.add_le_add_left (((List.prefix_append _ _).trans h).count_le '\n') 1

theorem Within.behind (h : p.Within source) (before rest : List Char) :
    (p.behind before).Within (before ++ (source ++ rest)) := by
  unfold Within Span.behind
  rw [List.append_assoc, List.prefix_append_right_inj]
  exact List.prefix_append_of_prefix h

theorem Precedes.behind (h : p.Precedes q) (before : List Char) :
    (p.behind before).Precedes (q.behind before) := by
  unfold Precedes Span.behind
  rwa [List.append_assoc, List.prefix_append_right_inj]

end Span

/-! ## Where tokens and faults are -/

namespace Lexeme

/-- The spans of the tokens of a lexeme, in its own text.  The text of a string is what
stands between its quotes. -/
def tokenSpans : Lexeme → List Span
  | .number digits suffix =>
      match Numeral.classify digits suffix with
      | .ok _ => [⟨[], digits ++ suffix⟩]
      | .error _ => []
  | .word letters => [⟨[], letters⟩]
  | .string quote body => [⟨[], [quote]⟩, ⟨[quote], body⟩, ⟨quote :: body, [quote]⟩]
  | .unclosed quote body => [⟨[], [quote]⟩, ⟨[quote], body⟩]
  | .symbol _ c => [⟨[], [c]⟩]
  | .blank _ | .newline | .unknown _ => []

/-- A lexeme that is at fault is so as a whole. -/
def faultSpans : Lexeme → List Span
  | .number digits suffix =>
      match Numeral.classify digits suffix with
      | .ok _ => []
      | .error _ => [⟨[], digits ++ suffix⟩]
  | .unclosed quote body => [⟨[], quote :: body⟩]
  | .unknown c => [⟨[], [c]⟩]
  | .blank _ | .newline | .word _ | .string _ _ | .symbol _ _ => []

/-- The spans of lexemes that stand behind the text `before`, in order. -/
def spans (part : Lexeme → List Span) : List Char → List Lexeme → List Span
  | _, [] => []
  | before, x :: xs => (part x).map (.behind before) ++ spans part (before ++ x.text) xs

/-- The spans are parts of the lexeme, one behind the other. -/
structure Arranged (part : Lexeme → List Span) (x : Lexeme) : Prop where
  within : ∀ p ∈ part x, p.Within x.text
  ordered : (part x).Pairwise Span.Precedes

theorem arranged_tokenSpans (x : Lexeme) : Arranged tokenSpans x := by
  cases x with
  | number digits suffix =>
      constructor <;> cases h : Numeral.classify digits suffix <;>
        simp [tokenSpans, h, Span.Within, text]
  | string quote body | unclosed quote body =>
      constructor <;> simp [tokenSpans, Span.Within, Span.Precedes, text]
  | blank | newline | word | symbol | unknown =>
      constructor <;> simp [tokenSpans, Span.Within, text]

theorem arranged_faultSpans (x : Lexeme) : Arranged faultSpans x := by
  cases x with
  | number digits suffix =>
      constructor <;> cases h : Numeral.classify digits suffix <;>
        simp [faultSpans, h, Span.Within, text]
  | blank | newline | word | string | unclosed | symbol | unknown =>
      constructor <;> simp [faultSpans, Span.Within, text]

section Order

variable {part : Lexeme → List Span}

theorem prefix_of_mem_spans {before : List Char} {xs : List Lexeme} {p : Span}
    (hp : p ∈ spans part before xs) : before <+: p.before := by
  induction xs generalizing before with
  | nil => cases hp
  | cons x xs ih =>
      rcases List.mem_append.mp hp with hp | hp
      · obtain ⟨p, _, rfl⟩ := List.mem_map.mp hp
        exact List.prefix_append _ _
      · exact (List.prefix_append _ _).trans (ih hp)

theorem pairwise_spans (hpart : ∀ x, Arranged part x) (before : List Char) (xs : List Lexeme) :
    (spans part before xs).Pairwise Span.Precedes := by
  induction xs generalizing before with
  | nil => exact .nil
  | cons x xs ih =>
      rw [spans, List.pairwise_append, List.pairwise_map]
      refine ⟨(hpart x).ordered.imp fun h => h.behind before, ih _, fun p hp q hq => ?_⟩
      obtain ⟨p, hmem, rfl⟩ := List.mem_map.mp hp
      have hend : (p.behind before).Within (before ++ x.text) := by
        simpa using ((hpart x).within p hmem).behind before []
      exact hend.trans (prefix_of_mem_spans hq)

end Order
end Lexeme

/-! ## What stands in a span -/

/-- The token is read from the span, and its line is that of the span. -/
structure Token.At (source : List Char) (t : Token) (p : Span) : Prop where
  within : p.Within source
  line : t.line = p.line
  reads : t.value = .str (String.ofList p.text) ∨
    ∃ digits suffix, p.text = digits ++ suffix ∧
      Numeral.classify digits suffix = .ok (t.kind, t.value)

namespace Fault

/-- The span is the one that the fault tells of.  An unterminated string takes all that is
left of the source. -/
def Blames (source : List Char) (p : Span) : Fault → Prop
  | .invalidSuffix literal | .tooManyDots literal | .intOverflow literal
  | .malformedNumber literal => p.text = literal.toList
  | .unknownSyntax c => p.text = [c]
  | .unterminatedString quote => p.text.head? = some quote ∧ p.before ++ p.text = source

/-- Where a fault is reported: an unterminated string at the end of the source, all others
where they start. -/
def line (source : List Char) (p : Span) : Fault → Nat
  | .unterminatedString _ => 1 + source.count '\n'
  | _ => p.line

end Fault

/-- The diagnostic is about the span, and its line is the one that its fault calls for. -/
structure Diagnostic.At (source : List Char) (d : Diagnostic) (p : Span) : Prop where
  within : p.Within source
  blames : d.fault.Blames source p
  line : d.line = d.fault.line source p

namespace Diagnostic.At

variable {source : List Char} {d e : Diagnostic} {p q : Span}

theorem line_cases (h : d.At source p) :
    d.line = p.line ∨ d.line = 1 + source.count '\n' ∧ p.before ++ p.text = source := by
  obtain ⟨-, hblames, hline⟩ := h
  cases hfault : d.fault with
  | unterminatedString quote =>
      rw [hfault] at hblames hline
      exact .inr ⟨hline, hblames.2⟩
  | invalidSuffix | tooManyDots | intOverflow | malformedNumber | unknownSyntax =>
      rw [hfault] at hline
      exact .inl hline

theorem line_le (h : d.At source p) : d.line ≤ 1 + source.count '\n' := by
  rcases h.line_cases with hline | ⟨hline, _⟩
  · exact hline ▸ h.within.line_le
  · exact Nat.le_of_eq hline

theorem span_line_le (h : d.At source p) : p.line ≤ d.line := by
  rcases h.line_cases with hline | ⟨hline, _⟩
  · exact Nat.le_of_eq hline.symm
  · exact hline ▸ h.within.line_le

/-- What comes behind an unterminated string is at the end of the source. -/
theorem line_le_of_precedes (hd : d.At source p) (he : e.At source q) (h : p.Precedes q) :
    d.line ≤ e.line := by
  apply Nat.le_trans ?_ he.span_line_le
  rcases hd.line_cases with hline | ⟨hline, hend⟩
  · exact hline ▸ h.line_le
  · have hsource : source <+: q.before := hend ▸ h
    exact hline ▸ Nat.add_le_add_left (hsource.count_le '\n') 1

end Diagnostic.At

/-! ## From one lexeme to all of them -/

namespace Lexeme

theorem Matches.isQuote_of_string {quote : Char} {body source : List Char}
    (h : (Lexeme.string quote body).Matches source) : isQuote quote = true := by
  cases h with
  | string hquote _ => exact hquote

theorem Matches.isQuote_of_unclosed {quote : Char} {body source : List Char}
    (h : (Lexeme.unclosed quote body).Matches source) :
    isQuote quote = true ∧ source = quote :: body := by
  cases h with
  | unclosed hquote _ => exact ⟨hquote, rfl⟩

theorem count_newline_cons_of_isQuote {quote : Char} (hquote : isQuote quote = true)
    (body : List Char) : (quote :: body).count '\n' = body.count '\n' :=
  List.count_cons_of_ne (disjoint_of_isQuote hquote).2.1

end Lexeme

section

open Lexeme

variable {keywords : Keywords} {x : Lexeme} {read : Lexed} (before rest : List Char)

/-- Line ends before a token are counted up to its lexeme, and then inside of it. -/
theorem Token.At.behind {t : Token} {p : Span} (hp : p ∈ x.tokenSpans)
    (hline : t.line = 1 + before.count '\n' + p.before.count '\n')
    (hreads : t.value = .str (String.ofList p.text) ∨
      ∃ digits suffix, p.text = digits ++ suffix ∧
        Numeral.classify digits suffix = .ok (t.kind, t.value)) :
    t.At (before ++ (x.text ++ rest)) (p.behind before) where
  within := ((arranged_tokenSpans x).within p hp).behind before rest
  line := by rw [hline, Span.line, Span.behind, List.count_append, Nat.add_assoc]
  reads := hreads

theorem Lexeme.Yields.tokens_at (h : x.Yields keywords (1 + before.count '\n') read)
    (hx : x.Matches (x.text ++ rest)) :
    List.Forall₂ (Token.At (before ++ (x.text ++ rest))) read.tokens
      (x.tokenSpans.map (.behind before)) := by
  cases h with
  | blank | newline | unknown => exact .nil
  | @number digits suffix _ _ hnumeral =>
      have hspans : (Lexeme.number digits suffix).tokenSpans = [⟨[], digits ++ suffix⟩] := by
        simp only [tokenSpans, hnumeral]
      have hmem := hspans ▸ List.mem_singleton_self _
      rw [hspans]
      exact .cons (.behind before rest hmem rfl (.inr ⟨_, _, rfl, hnumeral⟩)) .nil
  | rejected hnumeral =>
      simp only [tokenSpans, hnumeral]
      exact .nil
  | keyword | identifier =>
      exact .cons (.behind before rest (.head _) rfl (.inl rfl)) .nil
  | string quote body =>
      -- A quote is no line end, so that behind it the lines of the body alone are counted.
      have hcount := count_newline_cons_of_isQuote hx.isQuote_of_string
      refine .cons (.behind before rest (.head _) rfl (.inl rfl))
        (.cons (.behind before rest (.tail _ (.head _)) ?_ (.inl rfl))
          (.cons (.behind before rest (.tail _ (.tail _ (.head _))) ?_ (.inl rfl)) .nil))
      · rw [hcount]
        rfl
      · rw [hcount]
  | unclosed quote body =>
      have hcount := count_newline_cons_of_isQuote hx.isQuote_of_unclosed.1
      refine .cons (.behind before rest (.head _) rfl (.inl rfl))
        (.cons (.behind before rest (.tail _ (.head _)) ?_ (.inl rfl)) .nil)
      rw [hcount]
      rfl
  | symbol kind c =>
      exact .cons (.behind before rest (.head _) rfl (.inl rfl)) .nil

/-- A fault is told of the whole lexeme, and an unterminated string is the last one. -/
theorem Lexeme.Yields.diagnostics_at (h : x.Yields keywords (1 + before.count '\n') read)
    (hx : x.Matches (x.text ++ rest)) :
    List.Forall₂ (Diagnostic.At (before ++ (x.text ++ rest))) read.diagnostics
      (x.faultSpans.map (.behind before)) := by
  have hline : ∀ text, (Span.behind before ⟨[], text⟩).line = 1 + before.count '\n' := by
    simp [Span.line, Span.behind]
  have hwithin : ∀ p ∈ x.faultSpans, (p.behind before).Within (before ++ (x.text ++ rest)) :=
    fun p hp => ((arranged_faultSpans x).within p hp).behind before rest
  cases h with
  | blank | newline | keyword | identifier | string | symbol => exact .nil
  | number hnumeral =>
      simp only [faultSpans, hnumeral]
      exact .nil
  | @rejected digits suffix defect hnumeral =>
      simp only [faultSpans, hnumeral] at hwithin ⊢
      refine .cons ⟨hwithin _ (.head _), ?_, ?_⟩ .nil
      · cases defect <;> simp [Numeral.Defect.fault, Fault.Blames, Span.behind]
      · cases defect <;> exact (hline _).symm
  | unclosed quote body =>
      -- Nothing is left behind the string, so that its line ends complete those of the source.
      obtain ⟨hquote, hrest⟩ := hx.isQuote_of_unclosed
      have hend : (Span.behind before ⟨[], quote :: body⟩).before ++ quote :: body =
          before ++ ((Lexeme.unclosed quote body).text ++ rest) := by
        rw [hrest]
        simp [Span.behind]
      refine .cons ⟨hwithin _ (.head _), ⟨rfl, hend⟩, ?_⟩ .nil
      have hcount := count_newline_cons_of_isQuote hquote body
      rw [Fault.line, hrest, List.count_append, hcount, Nat.add_assoc]
  | unknown c =>
      exact .cons ⟨hwithin _ (.head _), rfl, (hline _).symm⟩ .nil

end

/-- The lexemes behind the text `before` give tokens and diagnostics for all of their
spans. -/
theorem Lexed.ReadFrom.at_spans {keywords : Keywords} {before : List Char} {xs : List Lexeme}
    {read : Lexed} (h : ReadFrom keywords before xs read) {source : List Char}
    (hxs : Lexeme.Segmentation xs source) :
    List.Forall₂ (Token.At (before ++ source)) read.tokens
        (Lexeme.spans Lexeme.tokenSpans before xs) ∧
      List.Forall₂ (Diagnostic.At (before ++ source)) read.diagnostics
        (Lexeme.spans Lexeme.faultSpans before xs) := by
  induction h generalizing source with
  | nil before => exact ⟨.nil, .nil⟩
  | @cons before x xs first rest hfirst _ ih =>
      have hsource : x.text ++ xs.flatMap Lexeme.text = source := hxs.concat
      have hx : x.Matches (x.text ++ xs.flatMap Lexeme.text) := (hxs.longest [] x xs rfl).1
      obtain ⟨htokens, hdiagnostics⟩ := ih hxs.tail
      rw [List.append_assoc] at htokens hdiagnostics
      rw [← hsource]
      exact ⟨List.rel_append (hfirst.tokens_at before _ hx) htokens,
        List.rel_append (hfirst.diagnostics_at before _ hx) hdiagnostics⟩

section Lists

variable {α : Type} {At : α → Span → Prop} {as : List α} {ps : List Span}
  (h : List.Forall₂ At as ps)
include h

theorem forall_of_forall₂ {P : α → Prop} (hP : ∀ a p, At a p → P a) : ∀ a ∈ as, P a :=
  ((List.forall₂_and_left as ps).mp (h.imp fun a p ha => ⟨hP a p ha, ha⟩)).1

/-- What is at spans that are in order is in order itself. -/
theorem pairwise_of_forall₂ {le : α → α → Prop} (hps : ps.Pairwise Span.Precedes)
    (hle : ∀ a b p q, At a p → At b q → p.Precedes q → le a b) : as.Pairwise le := by
  rw [List.pairwise_iff_getElem] at hps ⊢
  intro i j hi hj hij
  have hi' : i < ps.length := h.length_eq ▸ hi
  have hj' : j < ps.length := h.length_eq ▸ hj
  exact hle _ _ _ _ (h.get hi hi') (h.get hj hj') (hps i j hi' hj' hij)

end Lists

/-! ## The lines of a text -/

/-- The tokens and the diagnostics of a text, in order, are those at the spans of its
segmentation.  A token's line is one more than the number of line ends before its span,
which for the text of a string starts behind the quote.  A diagnostic's line is the same of
the lexeme at fault, or the last line if this is an unterminated string.  Therefore lines
never decrease, and they fit 32 bits unless the text has too many line ends. -/
theorem lines_exact (keywords : Keywords) (source : String) :
    let read := lex keywords source
    let cs := source.toList
    ∃ xs, Lexeme.Segmentation xs cs ∧
      List.Forall₂ (Token.At cs) read.tokens (Lexeme.spans Lexeme.tokenSpans [] xs) ∧
      List.Forall₂ (Diagnostic.At cs) read.diagnostics (Lexeme.spans Lexeme.faultSpans [] xs) ∧
      read.tokens.Pairwise (fun s t => s.line ≤ t.line) ∧
      read.diagnostics.Pairwise (fun d e => d.line ≤ e.line) ∧
      (cs.count '\n' < UInt32.size - 1 →
        (∀ t ∈ read.tokens, t.line < UInt32.size) ∧ ∀ d ∈ read.diagnostics, d.line < UInt32.size) := by
  intro read cs
  have hsegmentation := Lexeme.segmentation_split cs
  have hread : Lexed.ReadFrom keywords [] (Lexeme.split cs) read :=
    Lexed.readFrom_split keywords [] cs
  obtain ⟨htokens, hdiagnostics⟩ := hread.at_spans hsegmentation
  refine ⟨Lexeme.split cs, hsegmentation, htokens, hdiagnostics, ?_, ?_, fun hcount => ⟨?_, ?_⟩⟩
  · apply pairwise_of_forall₂ htokens (Lexeme.pairwise_spans Lexeme.arranged_tokenSpans [] _)
    intro s t p q hs ht h
    rw [hs.line, ht.line]
    exact h.line_le
  · apply pairwise_of_forall₂ hdiagnostics (Lexeme.pairwise_spans Lexeme.arranged_faultSpans [] _)
    intro d e p q hd he h
    exact hd.line_le_of_precedes he h
  · refine forall_of_forall₂ htokens fun t p ht => ?_
    have hle : t.line ≤ 1 + cs.count '\n' := ht.line ▸ ht.within.line_le
    omega
  · refine forall_of_forall₂ hdiagnostics fun d p hd => ?_
    have hle : d.line ≤ 1 + cs.count '\n' := hd.line_le
    omega

/-- A string over two lines, a letter that is none of the alphabet, a number with a bad
suffix, and a string that does not end, with both kinds of line ends. -/
theorem lines_exact_mixed :
    let source := "a\r\n'b\nc' é\n1x \"d\n"
    let read := lex .builtin source
    let cs := source.toList
    let xs : List Lexeme :=
      [.word ['a'], .blank ['\r'], .newline, .string '\'' ['b', '\n', 'c'], .blank [' '],
        .unknown 'é', .newline, .number ['1'] ['x'], .blank [' '], .unclosed '"' ['d', '\n']]
    Lexeme.Segmentation xs cs ∧
      List.Forall₂ (Token.At cs) read.tokens (Lexeme.spans Lexeme.tokenSpans [] xs) ∧
      List.Forall₂ (Diagnostic.At cs) read.diagnostics (Lexeme.spans Lexeme.faultSpans [] xs) ∧
      read.tokens.map Token.line = [1, 2, 2, 3, 4, 4] ∧
      read.diagnostics =
        [⟨3, .unknownSyntax 'é'⟩, ⟨4, .invalidSuffix "1x"⟩, ⟨5, .unterminatedString '"'⟩] ∧
      cs.count '\n' < UInt32.size - 1 ∧ (∀ t ∈ read.tokens, t.line < UInt32.size) ∧
      ∀ d ∈ read.diagnostics, d.line < UInt32.size := by
  intro source read cs xs
  obtain ⟨ys, hys, htokens, hdiagnostics, _, _, hbound⟩ := lines_exact .builtin source
  have hxs : ys = xs := hys.eq_split.trans (by decide +kernel)
  have hcount : cs.count '\n' < UInt32.size - 1 := by decide +kernel
  subst hxs
  exact ⟨hys, htokens, hdiagnostics, by decide +kernel, by decide +kernel, hcount, hbound hcount⟩

/-! ## A counter of 32 bits -/

/-- The counter behind a lexeme.  A line end outside of strings is added without a check,
and those in a string are added up to the greatest number that there is. -/
def Lexeme.advance (line : UInt32) (x : Lexeme) : UInt32 :=
  match x with
  | .string _ body | .unclosed _ body =>
      .ofNat (min (line.toNat + body.count '\n') (UInt32.size - 1))
  | .newline => line + 1
  | _ => line

theorem Lexeme.toNat_advance {line : UInt32} {x : Lexeme}
    (h : line.toNat + x.newlines < UInt32.size) :
    (x.advance line).toNat = line.toNat + x.newlines := by
  have hstring : ∀ n, line.toNat + n < UInt32.size →
      (UInt32.ofNat (min (line.toNat + n) (UInt32.size - 1))).toNat = line.toNat + n := by
    intro n hn
    rw [Nat.min_eq_left (Nat.le_sub_one_of_lt hn), UInt32.toNat_ofNat_of_lt' hn]
  cases x with
  | newline =>
      change (line + 1).toNat = line.toNat + 1
      rw [UInt32.toNat_add]
      exact Nat.mod_eq_of_lt h
  | string quote body | unclosed quote body => exact hstring _ h
  | blank | number | word | symbol | unknown => rfl

/-- What lexemes contribute if their lines are taken from such a counter. -/
def Lexed.counted (keywords : Keywords) : UInt32 → List Lexeme → Lexed
  | _, [] => .empty
  | line, x :: xs => x.emit keywords line.toNat ++ counted keywords (x.advance line) xs

theorem Lexed.counted_split (keywords : Keywords) (line : UInt32) (cs : List Char)
    (h : line.toNat + cs.count '\n' < UInt32.size) :
    counted keywords line (Lexeme.split cs) = ofLexemes keywords line.toNat (Lexeme.split cs) := by
  induction cs using Lexeme.split.induct generalizing line with
  | case1 => rw [Lexeme.split, counted, ofLexemes]
  | case2 c cs ih =>
      have hcount := Lexeme.count_newline_cons c cs
      have hline : ((Lexeme.next c cs).1.advance line).toNat =
          line.toNat + (Lexeme.next c cs).1.newlines := Lexeme.toNat_advance (by omega)
      rw [Lexeme.split, counted, ofLexemes, ih _ (by omega), hline]

/-- A text whose line ends can be counted is read with a counter of 32 bits as without. -/
theorem lex_eq_counted (keywords : Keywords) (source : String)
    (h : source.toList.count '\n' < UInt32.size - 1) :
    lex keywords source = .counted keywords 1 (Lexeme.split source.toList) := by
  apply Eq.symm
  apply Lexed.counted_split
  change 1 + source.toList.count '\n' < UInt32.size
  omega

end MiniLisp
