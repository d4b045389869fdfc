import MiniLisp.Proofs.Token.Segmentation

/-!
# Reading across whitespace

Whitespace ends every lexeme but a blank run and a string.  A text that stops
outside a string is therefore read the same whatever follows, as long as this
starts with whitespace, and what follows is read as if it stood alone, on later
lines.  Only a blank run can reach over the border; it gives nothing, so that it
does not matter where it is cut.
-/

namespace MiniLisp

/-- The same token on a later line. -/
def Token.shift (lines : Nat) (t : Token) : Token :=
  { t with line := t.line + lines }

def Diagnostic.shift (lines : Nat) (d : Diagnostic) : Diagnostic :=
  { d with line := d.line + lines }

namespace Lexed

@[simp] theorem tokens_append (a b : Lexed) : (a ++ b).tokens = a.tokens ++ b.tokens := rfl

@[simp] theorem diagnostics_append (a b : Lexed) :
    (a ++ b).diagnostics = a.diagnostics ++ b.diagnostics := rfl

theorem ext {a b : Lexed} (htokens : a.tokens = b.tokens)
    (hdiagnostics : a.diagnostics = b.diagnostics) : a = b := by
  cases a
  cases b
  simp_all

theorem append_assoc (a b c : Lexed) : a ++ b ++ c = a ++ (b ++ c) :=
  ext (List.append_assoc ..) (List.append_assoc ..)

@[simp] theorem empty_append (a : Lexed) : empty ++ a = a := rfl

def shift (lines : Nat) (a : Lexed) : Lexed :=
  ⟨a.tokens.map (.shift lines), a.diagnostics.map (.shift lines)⟩

theorem shift_append (lines : Nat) (a b : Lexed) :
    (a ++ b).shift lines = a.shift lines ++ b.shift lines :=
  ext List.map_append List.map_append

/-- No string is left open. -/
def Closed (a : Lexed) : Prop :=
  ∀ d ∈ a.diagnostics, ∀ quote, d.fault ≠ .unterminatedString quote

theorem closed_append {a b : Lexed} : (a ++ b).Closed ↔ a.Closed ∧ b.Closed := by
  simp only [Closed, diagnostics_append, List.forall_mem_append]

end Lexed

namespace Lexeme

theorem emit_add (keywords : Keywords) (line lines : Nat) (x : Lexeme) :
    x.emit keywords (line + lines) = (x.emit keywords line).shift lines := by
  cases x with
  | number digits suffix =>
      cases hnumeral : Numeral.classify digits suffix <;>
        simp [emit, hnumeral, Lexed.shift, Token.shift, Diagnostic.shift]
  | string quote body => simp [emit, Lexed.shift, Token.shift, Nat.add_right_comm]
  | unclosed quote body =>
      simp [emit, Lexed.shift, Token.shift, Diagnostic.shift, Nat.add_right_comm]
  | _ => simp [emit, Lexed.shift, Lexed.empty, Token.shift, Diagnostic.shift]

theorem not_closed_unclosed (keywords : Keywords) (line : Nat) (quote : Char)
    (body : List Char) : ¬ ((unclosed quote body).emit keywords line).Closed := by
  simp [Lexed.Closed, emit]

/-! ## Lexemes before whitespace -/

def isSpace (c : Char) : Bool :=
  isBlank c || c == '\n'

section Space

variable {w : Char} (hw : isSpace w = true)
include hw

private theorem space_cases : w = ' ' ∨ w = '\t' ∨ w = '\r' ∨ w = '\n' := by
  simpa [isSpace, isBlank, or_assoc] using hw

theorem not_isNumeric_of_isSpace : isNumeric w = false := by
  rcases space_cases hw with rfl | rfl | rfl | rfl <;> decide

theorem not_isAlpha_of_isSpace : w.isAlpha = false := by
  rcases space_cases hw with rfl | rfl | rfl | rfl <;> decide

theorem not_isWordChar_of_isSpace : isWordChar w = false := by
  rcases space_cases hw with rfl | rfl | rfl | rfl <;> decide

end Space

section Boundary

variable {p : Char → Bool} {w : Char} (hw : p w = false) (cs rest : List Char)
include hw

private theorem takeWhile_append_of_boundary :
    (cs ++ w :: rest).takeWhile p = cs.takeWhile p := by
  induction cs with
  | nil => simp [hw]
  | cons c cs ih =>
      by_cases hc : p c = true
      · simp [hc, ih]
      · simp [hc]

private theorem dropWhile_append_of_boundary :
    (cs ++ w :: rest).dropWhile p = cs.dropWhile p ++ w :: rest := by
  induction cs with
  | nil => simp [hw]
  | cons c cs ih =>
      by_cases hc : p c = true
      · simp [hc, ih]
      · simp [hc]

end Boundary

/-- Whitespace behind a text does not change its first lexeme, unless that is a
blank run or an open string. -/
theorem next_append_of_isSpace {c w : Char} (cs rest : List Char) (hw : isSpace w = true)
    (hblank : isBlank c = false) (hclosed : ∀ quote body, (next c cs).1 ≠ .unclosed quote body) :
    next c (cs ++ w :: rest) = ((next c cs).1, (next c cs).2 ++ w :: rest) := by
  rcases first_cases c with hc | rfl | hc | hc | hc | ⟨kind, hc⟩ | hc
  · rw [hblank] at hc
    cases hc
  · simp only [next_newline]
  · have hnumeric := not_isNumeric_of_isSpace hw
    have halpha := not_isAlpha_of_isSpace hw
    simp only [next_number _ hc, takeWhile_append_of_boundary hnumeric,
      dropWhile_append_of_boundary hnumeric, takeWhile_append_of_boundary halpha,
      dropWhile_append_of_boundary halpha]
  · have hword := not_isWordChar_of_isSpace hw
    simp only [next_word _ hc, takeWhile_append_of_boundary hword,
      dropWhile_append_of_boundary hword]
  · by_cases hmem : c ∈ cs
    · obtain ⟨body, rest', rfl, hbody⟩ := List.eq_append_cons_of_mem hmem
      simp only [List.append_assoc, List.cons_append, next_string _ _ hc hbody]
    · exact absurd (by rw [next_unclosed _ hc hmem]) (hclosed c cs)
  · simp only [next_symbol _ hc]
  · simp only [next_unknown _ hc]

end Lexeme

namespace Lexed

/-- What is read from a text that starts on the given line. -/
def ofText (keywords : Keywords) (line : Nat) (cs : List Char) : Lexed :=
  ofLexemes keywords line (Lexeme.split cs)

variable (keywords : Keywords)

theorem ofText_nil (line : Nat) : ofText keywords line [] = .empty := by
  simp [ofText, Lexeme.split, ofLexemes]

theorem ofText_cons (line : Nat) (c : Char) (cs : List Char) :
    ofText keywords line (c :: cs) =
      (Lexeme.next c cs).1.emit keywords line ++
        ofText keywords (line + (Lexeme.next c cs).1.newlines) (Lexeme.next c cs).2 := by
  simp [ofText, Lexeme.split, ofLexemes]

theorem ofText_add (line lines : Nat) (cs : List Char) :
    ofText keywords (line + lines) cs = (ofText keywords line cs).shift lines := by
  induction cs using Lexeme.split.induct generalizing line with
  | case1 => simp [ofText_nil, shift, empty]
  | case2 c cs ih =>
      rw [ofText_cons, ofText_cons, shift_append, ← ih, Lexeme.emit_add, Nat.add_right_comm]

/-! ## Leading whitespace -/

theorem ofText_cons_of_isBlank (line : Nat) {c : Char} (cs : List Char)
    (hc : Lexeme.isBlank c = true) :
    ofText keywords line (c :: cs) = ofText keywords line (cs.dropWhile Lexeme.isBlank) := by
  rw [ofText_cons, Lexeme.next_blank cs hc]
  simp [Lexeme.emit, Lexeme.newlines]

theorem ofText_dropWhile_isBlank (line : Nat) (cs : List Char) :
    ofText keywords line (cs.dropWhile Lexeme.isBlank) = ofText keywords line cs := by
  cases cs with
  | nil => rfl
  | cons c cs =>
      by_cases hc : Lexeme.isBlank c = true
      · rw [List.dropWhile_cons_of_pos hc, ofText_cons_of_isBlank keywords line cs hc]
      · rw [List.dropWhile_cons_of_neg hc]

theorem ofText_dropWhile_append (line : Nat) (cs rest : List Char) :
    ofText keywords line (cs.dropWhile Lexeme.isBlank ++ rest) =
      ofText keywords line (cs ++ rest) := by
  have hrun : ∀ c ∈ cs.takeWhile Lexeme.isBlank, Lexeme.isBlank c = true :=
    fun c hc => List.mem_takeWhile_imp hc
  calc ofText keywords line (cs.dropWhile Lexeme.isBlank ++ rest)
      = ofText keywords line ((cs.takeWhile Lexeme.isBlank ++
          (cs.dropWhile Lexeme.isBlank ++ rest)).dropWhile Lexeme.isBlank) := by
        rw [List.dropWhile_append_of_pos hrun, ofText_dropWhile_isBlank]
    _ = ofText keywords line (cs ++ rest) := by
        rw [ofText_dropWhile_isBlank, ← List.append_assoc, List.takeWhile_append_dropWhile]

theorem ofText_whitespace (line : Nat) {w : List Char} (rest : List Char)
    (hw : ∀ c ∈ w, Lexeme.isSpace c = true) :
    ofText keywords line (w ++ rest) = ofText keywords (line + w.count '\n') rest := by
  induction w generalizing line with
  | nil => rfl
  | cons c w ih =>
      obtain ⟨hc, hrest⟩ := List.forall_mem_cons.mp hw
      by_cases hnewline : c = '\n'
      · subst hnewline
        rw [List.cons_append, ofText_cons, Lexeme.next_newline]
        simp only [Lexeme.emit, Lexeme.newlines, empty_append]
        rw [ih _ hrest, List.count_cons_self, Nat.add_assoc, Nat.add_comm 1]
      · have hblank : Lexeme.isBlank c = true := by
          simpa [Lexeme.isSpace, hnewline] using hc
        rw [List.cons_append, ofText_cons_of_isBlank keywords line _ hblank,
          ofText_dropWhile_isBlank, ih _ hrest, List.count_cons_of_ne hnewline]

/-! ## Whitespace behind a text -/

theorem ofText_append_of_isSpace (line : Nat) {cs : List Char} {w : Char} (rest : List Char)
    (hw : Lexeme.isSpace w = true) (hclosed : (ofText keywords line cs).Closed) :
    ofText keywords line (cs ++ w :: rest) =
      ofText keywords line cs ++ ofText keywords (line + cs.count '\n') (w :: rest) := by
  induction cs using Lexeme.split.induct generalizing line with
  | case1 => simp [ofText_nil]
  | case2 c cs ih =>
      have hlines := Lexeme.count_newline_cons c cs
      rw [ofText_cons, closed_append] at hclosed
      have hrest := ih _ hclosed.2
      rw [Nat.add_assoc, ← hlines] at hrest
      by_cases hblank : Lexeme.isBlank c = true
      · -- The run may go on behind `cs`, so both sides are read without it.
        rw [Lexeme.next_blank cs hblank] at hrest
        simp only [Lexeme.newlines, Nat.add_zero] at hrest
        rw [List.cons_append, ofText_cons_of_isBlank keywords line _ hblank,
          ofText_dropWhile_isBlank, ofText_cons_of_isBlank keywords line _ hblank, ← hrest,
          ofText_dropWhile_append]
      · have hopen : ∀ quote body, (Lexeme.next c cs).1 ≠ .unclosed quote body := by
          intro quote body hnext
          rw [hnext] at hclosed
          exact Lexeme.not_closed_unclosed keywords line quote body hclosed.1
        have hnext := Lexeme.next_append_of_isSpace cs rest hw (by simpa using hblank) hopen
        rw [List.cons_append, ofText_cons, hnext, ofText_cons, append_assoc, hrest]

end Lexed

theorem lex_append {keywords : Keywords} {s w : String} (t : String) (hne : w ≠ "")
    (hw : ∀ c ∈ w.toList, Lexeme.isSpace c = true) (hclosed : (lex keywords s).Closed) :
    lex keywords (s ++ w ++ t) =
      lex keywords s ++ (lex keywords t).shift ((s ++ w).toList.count '\n') := by
  have hnil : w.toList ≠ [] := by
    simpa using hne
  obtain ⟨c, cs, hcs⟩ := List.exists_cons_of_ne_nil hnil
  have hc : Lexeme.isSpace c = true := hw c (by simp [hcs])
  calc lex keywords (s ++ w ++ t)
      = .ofText keywords 1 (s.toList ++ c :: (cs ++ t.toList)) := by
        simp [lex, Lexed.ofText, hcs]
    _ = lex keywords s ++ .ofText keywords (1 + s.toList.count '\n') (w.toList ++ t.toList) := by
        rw [Lexed.ofText_append_of_isSpace keywords 1 _ hc hclosed, hcs]
        rfl
    _ = lex keywords s ++ .ofText keywords (1 + (s ++ w).toList.count '\n') t.toList := by
        rw [Lexed.ofText_whitespace keywords _ _ hw, String.toList_append, List.count_append,
          Nat.add_assoc]
    _ = lex keywords s ++ (lex keywords t).shift ((s ++ w).toList.count '\n') := by
        rw [Lexed.ofText_add]
        rfl

/-- A text that leaves no string open and a second one behind whitespace are read
one after the other, the second on later lines. -/
theorem lex_whitespace_compositional (keywords : Keywords) (s w t : String) (hne : w ≠ "")
    (hw : ∀ c ∈ w.toList, Lexeme.isSpace c = true)
    (hclosed : ∀ d ∈ (lex keywords s).diagnostics, ∀ quote,
      d.fault ≠ .unterminatedString quote) :
    let lines := (s ++ w).toList.count '\n'
    (lex keywords (s ++ w ++ t)).tokens =
        (lex keywords s).tokens ++ (lex keywords t).tokens.map (.shift lines) ∧
      (lex keywords (s ++ w ++ t)).diagnostics =
        (lex keywords s).diagnostics ++ (lex keywords t).diagnostics.map (.shift lines) := by
  intro lines
  rw [lex_append t hne hw hclosed]
  exact ⟨rfl, rfl⟩

/-- A number that is left out, a string over two lines, and a text behind it that does
not end. -/
theorem lex_whitespace_compositional_strings :
    let s := "(f 1.2.3 'a\nb'"
    let w := " \r\n"
    let t := "2x \"c"
    (∀ d ∈ (lex .standard s).diagnostics, ∀ quote, d.fault ≠ .unterminatedString quote) ∧
      (lex .standard (s ++ w ++ t)).tokens =
        (lex .standard s).tokens ++ (lex .standard t).tokens.map (.shift 2) ∧
      (lex .standard (s ++ w ++ t)).diagnostics =
        [⟨1, .tooManyDots "1.2.3"⟩, ⟨3, .invalidSuffix "2x"⟩, ⟨3, .unterminatedString '"'⟩] := by
  intro s w t
  have hdiagnostics : (lex .standard s).diagnostics = [⟨1, .tooManyDots "1.2.3"⟩] := by
    decide +kernel
  have hclosed : ∀ d ∈ (lex .standard s).diagnostics, ∀ quote,
      d.fault ≠ .unterminatedString quote := by
    simp [hdiagnostics]
  have hlines : (s ++ w).toList.count '\n' = 2 := by
    decide +kernel
  have hspace : ∀ c ∈ w.toList, Lexeme.isSpace c = true := by
    simp [w, Lexeme.isSpace, Lexeme.isBlank]
  obtain ⟨htokens, hrest⟩ :=
    lex_whitespace_compositional .standard s w t (by decide) hspace hclosed
  rw [hlines] at htokens hrest
  refine ⟨hclosed, htokens, ?_⟩
  rw [hrest, hdiagnostics]
  decide +kernel

end MiniLisp
