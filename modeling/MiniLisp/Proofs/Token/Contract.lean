import MiniLisp.Proofs.Eval.Results
import MiniLisp.Proofs.Token.Whitespace

/-!
# What tokens carry

A token that was read from a text carries what its kind promises: a number, a name, or
the character that it stands for.  Quotes and the texts between them come in groups of
three; only at the end of the tokens may the closing quote be missing, and then, and
only then, the last diagnostic tells of an unterminated string.

All of this is said of one lexeme first.  Nothing but an unclosed string leaves a group
incomplete, and as such a string takes the rest of the text, nothing follows it.
-/

namespace MiniLisp

/-- The characters that tokens of a kind stand for. -/
def TokenKind.characters : TokenKind → List Char
  | .quote => ['"', '\'']
  | .arith => ['+', '-', '*', '/']
  | .bitwise => ['&', '|', '^']
  | .not => ['!']
  | .lparen => ['(']
  | .rparen => [')']
  | .lbrace => ['{']
  | .rbrace => ['}']
  | .lbracket => ['[']
  | .rbracket => [']']
  | .semicolon => [';']
  | .colon => [':']
  | .comma => [',']
  | .lthan => ['<']
  | .gthan => ['>']
  | .identifier | .keyword | .int | .float | .num | .str | .conditional => []

/-- A letter, and then letters, digits and underscores. -/
def isName (s : String) : Bool :=
  match s.toList with
  | [] => false
  | c :: cs => c.isAlpha && cs.all Lexeme.isWordChar

theorem isName_ofList {c : Char} {cs : List Char} (hc : c.isAlpha = true)
    (hcs : ∀ x ∈ cs, Lexeme.isWordChar x = true) : isName (String.ofList (c :: cs)) = true := by
  unfold isName
  rw [String.toList_ofList]
  exact Bool.and_eq_true_iff.mpr ⟨hc, List.all_eq_true.mpr hcs⟩

namespace Token

/-- The payload is one that the kind promises.  An integer is at most the greatest one
of 64 bits, as all integers are. -/
def Fits (keywords : Keywords) (t : Token) : Prop :=
  match t.kind with
  | .int => ∃ n : Int64, t.value = .int n ∧ 0 ≤ n.toInt
  | .float | .num => ∃ x, t.value = .float x
  | .identifier => ∃ word, t.value = .str word ∧ isName word = true ∧ word ∉ keywords.words
  | .keyword => ∃ word, t.value = .str word ∧ isName word = true ∧ word ∈ keywords.words
  | .str => ∃ body, t.value = .str body
  | kind => ∃ c ∈ kind.characters, t.value = .str c.toString

namespace Fits

variable {keywords : Keywords} {t : Token} (h : t.Fits keywords)
include h

theorem isAtom_value : t.value.isAtom = true := by
  unfold Fits at h
  split at h <;> obtain ⟨_, h⟩ := h <;> simp_all [Value.isAtom]

/-- A conditional stands for no character. -/
theorem kind_ne_conditional : t.kind ≠ .conditional := by
  intro hkind
  unfold Fits at h
  rw [hkind] at h
  obtain ⟨c, hc, _⟩ := h
  cases hc

end Fits

def IsQuote (quote : Char) (t : Token) : Prop :=
  t.kind = .quote ∧ t.value = .str quote.toString

/-- A text in which the quote does not occur. -/
def IsBody (quote : Char) (t : Token) : Prop :=
  t.kind = .str ∧ ∃ body, t.value = .str body ∧ quote ∉ body.toList

/-- Quotes and texts stand in groups.  A last group may lack its closing quote, which is
then the one that is left open. -/
inductive Grouped : Option Char → List Token → Prop
  | nil : Grouped none []
  | other {left : Option Char} {t : Token} {ts : List Token} : t.kind ≠ .quote →
      t.kind ≠ .str → Grouped left ts → Grouped left (t :: ts)
  | string {left : Option Char} {quote : Char} {l s r : Token} {ts : List Token} :
      l.IsQuote quote → s.IsBody quote → r.IsQuote quote → Grouped left ts →
      Grouped left (l :: s :: r :: ts)
  | unclosed {quote : Char} {l s : Token} : l.IsQuote quote → s.IsBody quote →
      Grouped (some quote) [l, s]

namespace Grouped

variable {left : Option Char} {ts us : List Token}

theorem append (hts : Grouped none ts) (hus : Grouped left us) : Grouped left (ts ++ us) := by
  generalize hnone : (none : Option Char) = closed at hts
  induction hts with
  | nil => exact hus
  | other hquote hstr _ ih => exact .other hquote hstr (ih hnone)
  | string hl hs hr _ ih => exact .string hl hs hr (ih hnone)
  | unclosed hl hs => cases hnone

theorem exists_last {quote : Char} (h : Grouped (some quote) ts) :
    ∃ init s, ts = init ++ [s] ∧ s.kind = .str := by
  generalize hsome : some quote = left at h
  induction h with
  | nil => cases hsome
  | @other _ t _ _ _ _ ih =>
      obtain ⟨init, s, rfl, hs⟩ := ih hsome
      exact ⟨t :: init, s, rfl, hs⟩
  | @string _ _ l s r _ _ _ _ _ ih =>
      obtain ⟨init, last, rfl, hlast⟩ := ih hsome
      exact ⟨l :: s :: r :: init, last, rfl, hlast⟩
  | @unclosed _ l s _ hs => exact ⟨[l], s, rfl, hs.1⟩

end Grouped
end Token

namespace Lexed

@[simp] theorem append_empty (a : Lexed) : a ++ empty = a :=
  ext (List.append_nil _) (List.append_nil _)

/-- The diagnostics tell of the string that is left open, last, and of no other. -/
def Reports (a : Lexed) : Option Char → Prop
  | none => a.Closed
  | some quote => ∃ (before : Lexed) (line : Nat), before.Closed ∧
      a.diagnostics = before.diagnostics ++ [⟨line, .unterminatedString quote⟩]

/-- What is read is in order, with the given quote left open. -/
structure Tidy (keywords : Keywords) (left : Option Char) (a : Lexed) : Prop where
  fits : ∀ t ∈ a.tokens, t.Fits keywords
  grouped : Token.Grouped left a.tokens
  reports : a.Reports left

namespace Tidy

variable {keywords : Keywords} {left : Option Char} {a b : Lexed}

theorem empty : Lexed.empty.Tidy keywords none where
  fits := nofun
  grouped := .nil
  reports := nofun

theorem append (ha : a.Tidy keywords none) (hb : b.Tidy keywords left) :
    (a ++ b).Tidy keywords left where
  fits := List.forall_mem_append.mpr ⟨ha.fits, hb.fits⟩
  grouped := ha.grouped.append hb.grouped
  reports := by
    have hclosed : a.Closed := ha.reports
    have hreports := hb.reports
    cases left with
    | none => exact closed_append.mpr ⟨hclosed, hreports⟩
    | some quote =>
        obtain ⟨before, line, hbefore, hdiagnostics⟩ := hreports
        refine ⟨a ++ before, line, closed_append.mpr ⟨hclosed, hbefore⟩, ?_⟩
        rw [diagnostics_append, diagnostics_append, hdiagnostics, List.append_assoc]

theorem single {t : Token} (hquote : t.kind ≠ .quote) (hstr : t.kind ≠ .str)
    (ht : t.Fits keywords) : Tidy keywords none ⟨[t], []⟩ where
  fits := List.forall_mem_singleton.mpr ht
  grouped := .other hquote hstr .nil
  reports := nofun

theorem diagnostic {line : Nat} {fault : Fault}
    (hfault : ∀ quote, fault ≠ .unterminatedString quote) :
    Tidy keywords none ⟨[], [⟨line, fault⟩]⟩ where
  fits := nofun
  grouped := .nil
  reports := List.forall_mem_singleton.mpr hfault

/-- The quote that is left open is the one of the last diagnostic. -/
theorem left_eq_some_iff (ha : a.Tidy keywords left) (quote : Char) :
    left = some quote ↔
      ∃ line, a.diagnostics.getLast? = some ⟨line, .unterminatedString quote⟩ := by
  have hreports := ha.reports
  cases left with
  | none =>
      constructor
      · intro h
        cases h
      · rintro ⟨line, hlast⟩
        exact absurd rfl (hreports _ (List.mem_of_getLast? hlast) quote)
  | some quote' =>
      obtain ⟨before, line, -, hdiagnostics⟩ := hreports
      rw [hdiagnostics]
      simp

theorem exists_left (ha : a.Tidy keywords left) (hopen : ¬ a.Closed) :
    ∃ quote, left = some quote := by
  have hreports := ha.reports
  cases left with
  | none => exact absurd hreports hopen
  | some quote => exact ⟨quote, rfl⟩

end Tidy
end Lexed

/-! ## Single lexemes -/

theorem Numeral.toInt_of_toInt? {digits : List Char} {n : Int64} (h : toInt? digits = some n) :
    n.toInt = value digits := by
  unfold toInt? at h
  obtain ⟨hle, hn⟩ := Option.ite_none_right_eq_some.mp h
  cases hn
  have hmax : Int64.maxValue.toInt = 2 ^ 63 - 1 := by decide
  exact Int64.toInt_ofNat_of_lt (by omega)

theorem Numeral.tidy_classify {keywords : Keywords} {digits suffix : List Char} {kind : TokenKind}
    {value : Value} (h : classify digits suffix = .ok (kind, value)) (line : Nat) :
    Lexed.Tidy keywords none ⟨[⟨kind, value, line⟩], []⟩ := by
  unfold classify at h
  split at h
  · cases h
  split at h
  · cases h
  split at h
  · split at h
    next n hn =>
      cases h
      refine .single (by simp) (by simp) ⟨n, rfl, ?_⟩
      rw [toInt_of_toInt? hn]
      exact Int.natCast_nonneg _
    next => cases h
  split at h
  next x hx =>
    cases h
    by_cases hsuffix : suffix = ['f']
    · rw [if_pos hsuffix]
      exact .single (by simp) (by simp) ⟨x, rfl⟩
    · rw [if_neg hsuffix]
      exact .single (by simp) (by simp) ⟨x, rfl⟩
  next => cases h

namespace Lexeme

theorem mem_characters_of_ofSymbol? {c : Char} {kind : TokenKind}
    (h : TokenKind.ofSymbol? c = some kind) :
    c ∈ kind.characters ∧ kind ≠ .quote ∧ kind ≠ .str := by
  unfold TokenKind.ofSymbol? at h
  split at h <;> cases h <;> decide

theorem mem_characters_of_isQuote {c : Char} (h : isQuote c = true) :
    c ∈ TokenKind.quote.characters := by
  simpa [isQuote, TokenKind.characters] using h

/-- The quote that a lexeme leaves open. -/
def left? : Lexeme → Option Char
  | .unclosed quote _ => some quote
  | _ => none

theorem Matches.tidy_emit {x : Lexeme} {source : List Char} (h : x.Matches source)
    (keywords : Keywords) (line : Nat) : (x.emit keywords line).Tidy keywords x.left? := by
  cases h with
  | blank | newline => exact .empty
  | @number c digits suffix rest =>
      cases hnumeral : Numeral.classify (c :: digits) suffix with
      | ok result =>
          simp only [emit, hnumeral]
          exact Numeral.tidy_classify hnumeral line
      | error defect =>
          simp only [emit, hnumeral]
          refine .diagnostic ?_
          cases defect <;> simp [Numeral.Defect.fault]
  | @word c cs rest hc hcs =>
      have hname := isName_ofList hc hcs
      by_cases hword : String.ofList (c :: cs) ∈ keywords.words
      · simp only [emit, Keywords.contains, List.contains_iff_mem, hword, if_true]
        exact .single (by simp) (by simp) ⟨_, rfl, hname, hword⟩
      · simp only [emit, Keywords.contains, List.contains_iff_mem, hword, if_false]
        exact .single (by simp) (by simp) ⟨_, rfl, hname, hword⟩
  | @string quote body rest hquote hbody =>
      have hfits : ∀ line, Token.Fits keywords ⟨.quote, .str quote.toString, line⟩ :=
        fun line => ⟨quote, mem_characters_of_isQuote hquote, rfl⟩
      refine ⟨?_, ?_, List.forall_mem_nil _⟩
      · simp only [emit, List.forall_mem_cons]
        exact ⟨hfits _, ⟨_, rfl⟩, hfits _, List.forall_mem_nil _⟩
      · have hs : ∀ line, Token.IsBody quote ⟨.str, .str (String.ofList body), line⟩ :=
          fun line => ⟨rfl, _, rfl, by rwa [String.toList_ofList]⟩
        exact .string ⟨rfl, rfl⟩ (hs line) ⟨rfl, rfl⟩ .nil
  | @unclosed quote body hquote hbody =>
      refine ⟨?_, ?_, .empty, _, List.forall_mem_nil _, rfl⟩
      · simp only [emit, List.forall_mem_cons]
        exact ⟨⟨quote, mem_characters_of_isQuote hquote, rfl⟩, ⟨_, rfl⟩, List.forall_mem_nil _⟩
      · refine .unclosed ⟨rfl, rfl⟩ ⟨rfl, _, rfl, ?_⟩
        rwa [String.toList_ofList]
  | @symbol kind c rest hc =>
      obtain ⟨hmem, hquote, hstr⟩ := mem_characters_of_ofSymbol? hc
      refine .single hquote hstr ?_
      cases kind <;> first | exact ⟨c, hmem, rfl⟩ | cases hmem
  | unknown => exact .diagnostic (by simp)

/-- Nothing follows an unclosed string. -/
theorem next_eq_nil_of_left? {c quote : Char} {cs : List Char}
    (h : (next c cs).1.left? = some quote) : (next c cs).2 = [] := by
  have hmatches := matches_next c cs
  have htext := text_next c cs
  generalize (next c cs).1 = x at h hmatches htext
  cases hmatches with
  | unclosed =>
      change (c :: cs) ++ (next c cs).2 = c :: cs at htext
      exact List.append_right_eq_self.mp htext
  | _ => cases h

end Lexeme

/-- Whatever the text, what is read from it is in order. -/
theorem Lexed.tidy_ofText (keywords : Keywords) (line : Nat) (cs : List Char) :
    ∃ left, (ofText keywords line cs).Tidy keywords left := by
  induction cs using Lexeme.split.induct generalizing line with
  | case1 =>
      rw [ofText_nil]
      exact ⟨none, .empty⟩
  | case2 c cs ih =>
      have hfirst := (Lexeme.matches_next c cs).tidy_emit keywords line
      rw [ofText_cons]
      cases hleft : (Lexeme.next c cs).1.left? with
      | none =>
          rw [hleft] at hfirst
          obtain ⟨left, hrest⟩ := ih (line + (Lexeme.next c cs).1.newlines)
          exact ⟨left, hfirst.append hrest⟩
      | some quote =>
          -- The string has taken the rest of the text, so that its group is the last.
          rw [hleft] at hfirst
          rw [Lexeme.next_eq_nil_of_left? hleft, ofText_nil, append_empty]
          exact ⟨some quote, hfirst⟩

end MiniLisp
