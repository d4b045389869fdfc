import Mathlib.Data.Nat.Digits.Defs
import MiniLisp.Proofs.Binary64.Rounding
import MiniLisp.Proofs.Token.Contract
import MiniLisp.Proofs.Token.Literals

/-!
# What numerals stand for

A numeral is judged by its suffix first, then by its dots, and only then by its size.  An
integer has the value that its digits write in the decimal system, and it is rejected exactly
if that value is too large.  With a dot or a suffix the digits stand for the double that is
nearest to the number they write.
-/

namespace MiniLisp
namespace Numeral

/-! ## The decimal system -/

def digit (c : Char) : Nat :=
  c.toNat - '0'.toNat

/-- The number that digits write. -/
def decimal (ds : List Char) : Nat :=
  Nat.ofDigits 10 (ds.reverse.map digit)

/-- Digits with at most one dot write the number `m / 10 ^ p`. -/
inductive Writes : List Char → Nat → Nat → Prop
  | whole {ds : List Char} : (∀ c ∈ ds, c.isDigit = true) → Writes ds (decimal ds) 0
  | fraction {ds es : List Char} : (∀ c ∈ ds, c.isDigit = true) →
      (∀ c ∈ es, c.isDigit = true) → Writes (ds ++ '.' :: es) (decimal (ds ++ es)) es.length

/-- The double is the nearest to the number that the digits write. -/
def Denotes (digits : List Char) (x : Binary64) : Prop :=
  ∃ m p, Writes digits m p ∧ x.isNegative = false ∧
    Binary64.IsNearest (m * Binary64.one) (10 ^ p) x.magnitude

theorem decimal_cons (c : Char) (ds : List Char) :
    decimal (c :: ds) = digit c * 10 ^ ds.length + decimal ds := by
  simp [decimal, Nat.ofDigits_append, Nat.add_comm, Nat.mul_comm]

theorem ofDigitChars_eq (ds : List Char) (n : Nat) :
    Nat.ofDigitChars 10 ds n = n * 10 ^ ds.length + decimal ds := by
  induction ds generalizing n with
  | nil => simp [decimal]
  | cons c ds ih =>
      rw [Nat.ofDigitChars_cons, ih, decimal_cons, List.length_cons, Nat.pow_succ]
      unfold digit
      ring

theorem value_eq (digits : List Char) : value digits = decimal (digits.filter Char.isDigit) := by
  simp [value, ofDigitChars_eq]

section Writes

variable {digits : List Char} {m p : Nat}

theorem Writes.value_eq (h : Writes digits m p) : value digits = m := by
  cases h with
  | whole hds => rw [Numeral.value_eq, List.filter_eq_self.mpr hds]
  | fraction hds hes =>
      have hdot : Char.isDigit '.' = false := by decide
      rw [Numeral.value_eq, List.filter_append, List.filter_cons, hdot,
        List.filter_eq_self.mpr hds, List.filter_eq_self.mpr hes]
      rfl

theorem Writes.places_eq (h : Writes digits m p) : places digits = p := by
  cases h with
  | whole hds => simp [places, List.dropWhile_eq_nil_iff.mpr hds]
  | fraction hds hes =>
      have hdot : Char.isDigit '.' = false := by decide
      simp [places, List.dropWhile_append_of_pos hds, hdot]

theorem isDigit_of_notMem (hdigits : ∀ c ∈ digits, Lexeme.isNumeric c = true)
    (hdot : '.' ∉ digits) : ∀ c ∈ digits, c.isDigit = true := by
  intro c hc
  have hne : c ≠ '.' := ne_of_mem_of_not_mem hc hdot
  simpa [Lexeme.isNumeric, hne] using hdigits c hc

theorem exists_writes (hdigits : ∀ c ∈ digits, Lexeme.isNumeric c = true)
    (hdots : digits.count '.' ≤ 1) : ∃ m p, Writes digits m p := by
  by_cases hmem : '.' ∈ digits
  · obtain ⟨ds, es, rfl, hds⟩ := List.eq_append_cons_of_mem hmem
    have hes : '.' ∉ es := by
      rw [← List.count_eq_zero]
      simp only [List.count_append, List.count_cons_self] at hdots
      omega
    simp only [List.forall_mem_append, List.forall_mem_cons] at hdigits
    have hwhole := isDigit_of_notMem hdigits.1 hds
    have hplaces := isDigit_of_notMem hdigits.2.2 hes
    exact ⟨_, _, .fraction hwhole hplaces⟩
  · exact ⟨_, _, .whole (isDigit_of_notMem hdigits hmem)⟩

/-- The digits denote one double, the one that they are read as. -/
theorem Writes.denotes_iff (h : Writes digits m p) (x : Binary64) :
    Denotes digits x ↔ x = toDouble digits := by
  have hden : 0 < 10 ^ p := Nat.pow_pos (by decide)
  have hnearest := Binary64.isNearest_nearestWord (m * Binary64.one) hden
  have hword := Binary64.nearestWord_lt_signUnit (m * Binary64.one) hden
  have hread : toDouble digits =
      .ofMagnitude false (Binary64.nearestWord (m * Binary64.one) (10 ^ p)) := by
    rw [toDouble, h.value_eq, h.places_eq]
    rfl
  rw [hread]
  constructor
  · rintro ⟨m', p', h', hsign, hx⟩
    rw [← h'.value_eq, ← h'.places_eq, h.value_eq, h.places_eq] at hx
    rw [hnearest.unique hden hx, ← hsign, Binary64.ofMagnitude_magnitude]
  · rintro rfl
    refine ⟨m, p, h, Binary64.isNegative_ofMagnitude hword, ?_⟩
    rwa [Binary64.magnitude_ofMagnitude hword]

end Writes

/-! ## The judgement -/

section Classify

variable {digits suffix : List Char}

theorem classify_eq_suffix :
    classify digits suffix = .error .suffix ↔ suffix ≠ [] ∧ suffix ≠ ['f'] := by
  unfold classify
  grind

theorem classify_eq_dots (hsuffix : suffix = [] ∨ suffix = ['f']) :
    classify digits suffix = .error .dots ↔ 2 ≤ digits.count '.' := by
  unfold classify
  grind

/-- With a digit, and without a second dot, a number is written. -/
theorem toDouble?_eq_some (hdigit : digits.any Char.isDigit = true)
    (hdots : digits.count '.' ≤ 1) : toDouble? digits = some (toDouble digits) :=
  if_pos ⟨hdigit, hdots⟩

theorem classify_of_float (hdigit : digits.any Char.isDigit = true)
    (hdots : digits.count '.' ≤ 1) :
    classify digits ['f'] = .ok (.float, .float (toDouble digits)) := by
  simp [classify, toDouble?_eq_some hdigit hdots, Nat.not_lt.mpr hdots]

theorem classify_of_num (hdigit : digits.any Char.isDigit = true)
    (hdots : digits.count '.' = 1) :
    classify digits [] = .ok (.num, .float (toDouble digits)) := by
  simp [classify, toDouble?_eq_some hdigit (Nat.le_of_eq hdots), hdots]

/-- Digits and dots fail to write a number only if there is no digit among them. -/
theorem classify_ne_malformed (hdigit : digits.any Char.isDigit = true) :
    classify digits suffix ≠ .error .malformed := by
  unfold classify
  split
  · nofun
  split
  · nofun
  next hdots =>
    split
    · cases toInt? digits <;> nofun
    · rw [toDouble?_eq_some hdigit (Nat.le_of_not_lt hdots)]
      nofun

theorem exists_toInt_eq {n : Nat} : (∃ k : Int64, k.toInt = n) ↔ n ≤ 2 ^ 63 - 1 := by
  constructor
  · rintro ⟨k, hk⟩
    have hlt := Int64.toInt_lt k
    omega
  · intro hn
    exact ⟨.ofNat n, Int64.toInt_ofNat_of_lt (by omega)⟩

theorem toInt?_eq_some {n : Int64} :
    toInt? digits = some n ↔ n.toInt = value digits := by
  have hmax : Int64.maxValue.toInt = 2 ^ 63 - 1 := by decide
  constructor
  · exact toInt_of_toInt?
  · intro hn
    have hle := Int64.toInt_le n
    have hlt := Int64.toInt_lt n
    have hofNat : Int64.ofNat (value digits) = n := by
      rw [← Int64.toInt_inj, Int64.toInt_ofNat_of_lt (by omega), hn]
    simp only [toInt?, hofNat, ← hn, hle, if_true]

theorem toInt?_eq_none : toInt? digits = none ↔ 2 ^ 63 - 1 < value digits := by
  have hmax : Int64.maxValue.toInt = 2 ^ 63 - 1 := by decide
  simp only [toInt?, hmax]
  split <;> simp <;> omega

theorem classify_eq_int (hdots : digits.count '.' = 0) {n : Int64} :
    classify digits [] = .ok (.int, .int n) ↔ n.toInt = value digits := by
  rw [← toInt?_eq_some]
  simp only [classify, hdots]
  cases toInt? digits <;> simp

theorem classify_eq_range (hdots : digits.count '.' = 0) :
    classify digits [] = .error .range ↔ 2 ^ 63 - 1 < value digits := by
  rw [← toInt?_eq_none]
  simp only [classify, hdots]
  cases toInt? digits <;> simp

end Classify
end Numeral

namespace Lexeme

variable {keywords : Keywords} {line : Nat} {digits suffix : List Char}

theorem emit_eq_token {kind : TokenKind} {v : Value} :
    (Lexeme.number digits suffix).emit keywords line = ⟨[⟨kind, v, line⟩], []⟩ ↔
      Numeral.classify digits suffix = .ok (kind, v) := by
  simp only [emit]
  cases Numeral.classify digits suffix with
  | ok result => simp [Prod.ext_iff]
  | error defect => simp

theorem emit_eq_fault {defect : Numeral.Defect} :
    (Lexeme.number digits suffix).emit keywords line =
        ⟨[], [⟨line, defect.fault (String.ofList (digits ++ suffix))⟩]⟩ ↔
      Numeral.classify digits suffix = .error defect := by
  simp only [emit]
  cases Numeral.classify digits suffix with
  | ok result => simp
  | error other => cases other <;> cases defect <;> simp [Numeral.Defect.fault]

/-- A numeral begins with a digit, so that it writes a number unless it is rejected for
something else. -/
theorem Matches.fault_ne_malformed {x : Lexeme} {source : List Char} (h : x.Matches source)
    (keywords : Keywords) (line : Nat) :
    ∀ d ∈ (x.emit keywords line).diagnostics, ∀ literal, d.fault ≠ .malformedNumber literal := by
  cases h with
  | @number c digits suffix rest hc =>
      have hdigit : (c :: digits).any Char.isDigit = true := by
        simp [hc]
      cases hclass : Numeral.classify (c :: digits) suffix with
      | ok result => simp [emit, hclass]
      | error defect =>
          cases defect with
          | malformed => exact absurd hclass (Numeral.classify_ne_malformed hdigit)
          | suffix | dots | range => simp [emit, hclass, Numeral.Defect.fault]
  | blank | newline | word | string | unclosed | symbol | unknown => simp [emit, Lexed.empty]

/-- A number is read as such, if neither its digits nor its letters go on. -/
theorem next_number_of_ends {c : Char} {ds letters rest : List Char} (hc : c.isDigit = true)
    (hds : ∀ x ∈ ds, isNumeric x = true) (hletters : ∀ x ∈ letters, x.isAlpha = true)
    (halpha : Ends Char.isAlpha rest) (hnumeric : letters = [] → Ends isNumeric rest) :
    next c (ds ++ letters ++ rest) = (.number (c :: ds) letters, rest) := by
  by_cases hnil : letters = []
  · subst hnil
    rw [next_number _ hc, List.append_nil, takeWhile_append_of_ends hds (hnumeric rfl),
      dropWhile_append_of_ends hds (hnumeric rfl), halpha.takeWhile_eq_nil,
      halpha.dropWhile_eq_self]
  · rw [next_number_suffix rest hc hds hletters hnil, halpha.takeWhile_eq_nil,
      halpha.dropWhile_eq_self, List.append_nil]

end Lexeme

/-- No source text has a numeral that writes no number. -/
theorem lex_fault_ne_malformed (keywords : Keywords) (source : String) :
    ∀ d ∈ (lex keywords source).diagnostics, ∀ literal, d.fault ≠ .malformedNumber literal := by
  change ∀ d ∈ (Lexed.ofText keywords 1 source.toList).diagnostics, _
  generalize source.toList = cs
  generalize 1 = line
  induction cs using Lexeme.split.induct generalizing line with
  | case1 => simp [Lexed.ofText_nil, Lexed.empty]
  | case2 c cs ih =>
      rw [Lexed.ofText_cons, Lexed.diagnostics_append, List.forall_mem_append]
      exact ⟨(Lexeme.matches_next c cs).fault_ne_malformed keywords line, ih _⟩

/-- A digit, further digits and dots, and letters behind them are read as one numeral, which
gives one token or one diagnostic with its whole text.  Letters other than a single `f` are
reported before all else, then two dots or more.  Digits alone are the integer that they
write, or it is reported to be too large.  Otherwise they stand for the one double that is
nearest to what they write, as a float with the suffix and as a plain number without it. -/
theorem numerals_classified (keywords : Keywords) (line : Nat) (c : Char)
    (ds letters : List Char) (hc : c.isDigit = true)
    (hds : ∀ x ∈ ds, Lexeme.isNumeric x = true) (hletters : ∀ x ∈ letters, x.isAlpha = true) :
    let digits := c :: ds
    let literal := String.ofList (digits ++ letters)
    let token (kind : TokenKind) (v : Value) : Lexed := ⟨[⟨kind, v, line⟩], []⟩
    let diagnostic (fault : Fault) : Lexed := ⟨[], [⟨line, fault⟩]⟩
    ∃ read : Lexed,
      (∀ rest, Lexeme.Ends Char.isAlpha rest →
        (letters = [] → Lexeme.Ends Lexeme.isNumeric rest) →
          Lexed.ofText keywords line (digits ++ letters ++ rest) =
            read ++ Lexed.ofText keywords line rest) ∧
      ((∃ kind v, read = token kind v) ∨ ∃ fault, read = diagnostic fault ∧
        fault ∈ [.invalidSuffix literal, .tooManyDots literal, .intOverflow literal]) ∧
      (read = diagnostic (.invalidSuffix literal) ↔ letters ≠ [] ∧ letters ≠ ['f']) ∧
      (letters = [] ∨ letters = ['f'] →
        (read = diagnostic (.tooManyDots literal) ↔ 2 ≤ digits.count '.')) ∧
      (letters = [] → digits.count '.' = 0 →
        ((∃ n : Int64, n.toInt = Numeral.decimal digits ∧ read = token .int (.int n)) ↔
          Numeral.decimal digits ≤ 2 ^ 63 - 1) ∧
        (read = diagnostic (.intOverflow literal) ↔ 2 ^ 63 - 1 < Numeral.decimal digits)) ∧
      ((letters = ['f'] ∧ digits.count '.' ≤ 1 ∨ letters = [] ∧ digits.count '.' = 1) →
        ∃ x, (∀ y, Numeral.Denotes digits y ↔ y = x) ∧
          read = token (if letters = ['f'] then .float else .num) (.float x)) := by
  intro digits literal token diagnostic
  have hdigits : ∀ x ∈ digits, Lexeme.isNumeric x = true :=
    List.forall_mem_cons.mpr ⟨by simp [Lexeme.isNumeric, hc], hds⟩
  have hdigit : digits.any Char.isDigit = true := by
    simp [digits, hc]
  refine ⟨(Lexeme.number digits letters).emit keywords line, ?_, ?_, ?_, ?_, ?_, ?_⟩
  · intro rest halpha hnumeric
    have hnext := Lexeme.next_number_of_ends hc hds hletters halpha hnumeric
    simp only [digits, List.cons_append]
    rw [Lexed.ofText_cons, hnext]
    rfl
  · cases hclass : Numeral.classify digits letters with
    | ok result => exact .inl ⟨_, _, Lexeme.emit_eq_token.mpr hclass⟩
    | error defect =>
        refine .inr ⟨_, Lexeme.emit_eq_fault.mpr hclass, ?_⟩
        cases defect with
        | malformed => exact absurd hclass (Numeral.classify_ne_malformed hdigit)
        | suffix | dots | range => simp [Numeral.Defect.fault, literal]
  · exact Lexeme.emit_eq_fault.trans Numeral.classify_eq_suffix
  · intro hsuffix
    exact Lexeme.emit_eq_fault.trans (Numeral.classify_eq_dots hsuffix)
  · rintro rfl hdots
    have hdot : '.' ∉ digits := List.count_eq_zero.mp hdots
    have hvalue := (Numeral.Writes.whole (Numeral.isDigit_of_notMem hdigits hdot)).value_eq
    constructor
    · simp only [token, Lexeme.emit_eq_token, Numeral.classify_eq_int hdots, hvalue, and_self]
      exact Numeral.exists_toInt_eq
    · rw [← hvalue]
      exact Lexeme.emit_eq_fault.trans (Numeral.classify_eq_range hdots)
  · intro hcases
    have hdots : digits.count '.' ≤ 1 := by omega
    obtain ⟨m, p, hwrites⟩ := Numeral.exists_writes hdigits hdots
    refine ⟨Numeral.toDouble digits, hwrites.denotes_iff, Lexeme.emit_eq_token.mpr ?_⟩
    rcases hcases with ⟨rfl, -⟩ | ⟨rfl, hone⟩
    · exact Numeral.classify_of_float hdigit hdots
    · exact Numeral.classify_of_num hdigit hone

/-- The greatest integer and the one behind it, both with a zero in front, and a numeral that
has too many dots and too many letters. -/
theorem numerals_classified_limits :
    let most := "09223372036854775807"
    let more := "09223372036854775808"
    lex .standard most = ⟨[⟨.int, .int 9223372036854775807, 1⟩], []⟩ ∧
      lex .standard more = ⟨[], [⟨1, .intOverflow more⟩]⟩ ∧
      lex .standard "1..5fg" = ⟨[], [⟨1, .invalidSuffix "1..5fg"⟩]⟩ := by
  intro most more
  obtain ⟨a, ha, -, -, -, hint, -⟩ := numerals_classified .standard 1 '0'
    "9223372036854775807".toList [] rfl (by simp [Lexeme.isNumeric]) (by simp)
  obtain ⟨b, hb, -, -, -, hrange, -⟩ := numerals_classified .standard 1 '0'
    "9223372036854775808".toList [] rfl (by simp [Lexeme.isNumeric]) (by simp)
  obtain ⟨d, hd, -, hsuffix, -⟩ := numerals_classified .standard 1 '1' "..5".toList "fg".toList
    rfl (by simp [Lexeme.isNumeric]) (by simp)
  have hlex : ∀ source, lex .standard source = Lexed.ofText .standard 1 source.toList :=
    fun _ => rfl
  have hmost : lex .standard most = a := by
    simpa [hlex, most, Lexed.ofText_nil] using ha [] .nil fun _ => .nil
  have hmore : lex .standard more = b := by
    simpa [hlex, more, Lexed.ofText_nil] using hb [] .nil fun _ => .nil
  have hletters : lex .standard "1..5fg" = d := by
    simpa [hlex, Lexed.ofText_nil] using hd [] .nil (by simp)
  refine ⟨?_, ?_, ?_⟩
  · obtain ⟨n, hn, rfl⟩ := ((hint rfl (by decide +kernel)).1).mpr (by decide +kernel)
    have hvalue : n = 9223372036854775807 := Int64.toInt_inj.mp (hn.trans (by decide +kernel))
    rw [hmost, hvalue]
  · rw [hmore]
    exact (hrange rfl (by decide +kernel)).2.mpr (by decide +kernel)
  · rw [hletters]
    exact hsuffix.mpr (by simp)

end MiniLisp
