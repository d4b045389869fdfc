import MiniLisp.Proofs.Interpreter.Layout
import MiniLisp.Proofs.Token.Contract

/-!
# Truncated strings

A string that does not end takes the rest of the text with it, and reading the text
goes on as if nothing had happened: there is a diagnostic, and the tokens end with the
text of the string.  Such tokens are never accepted, because a unit either is empty or
ends with a closing parenthesis.  So a text that was cut off in a string does not run.
All other diagnostics leave the outcome of a load as it is.
-/

namespace MiniLisp

/-! ## How a unit ends -/

theorem Expr.Renders.exists_last {e : Expr} {ts : List Token} (h : Expr.Renders e ts) :
    ∃ init r, ts = init ++ [r] ∧ r.kind = .rparen := by
  cases h with
  | @empty l r _ hr => exact ⟨[l], r, rfl, hr⟩
  | arith _ _ _ _ hr => exact ⟨_, _, rfl, hr⟩
  | cond _ _ _ hr => exact ⟨_, _, rfl, hr⟩
  | define _ _ _ hr => exact ⟨_, _, rfl, hr⟩
  | set _ _ _ _ _ hr => exact ⟨_, _, rfl, hr⟩
  | lambda _ _ _ _ _ _ _ hr => exact ⟨_, _, rfl, hr⟩
  | begin _ _ _ _ hr => exact ⟨_, _, rfl, hr⟩
  | list _ _ _ hr => exact ⟨_, _, rfl, hr⟩
  | call _ _ _ hr => exact ⟨_, _, rfl, hr⟩

theorem Expr.RendersUnit.eq_nil_or_exists_last {es : List Expr} {ts : List Token}
    (h : Expr.RendersUnit es ts) : ts = [] ∨ ∃ init r, ts = init ++ [r] ∧ r.kind = .rparen := by
  obtain ⟨parts, hparts, rfl⟩ := h
  induction hparts with
  | nil => exact .inl rfl
  | @cons e part es parts he _ ih =>
      rcases ih with hnil | ⟨init, r, hlast, hr⟩
      · obtain ⟨init, r, rfl, hr⟩ := he.exists_last
        exact .inr ⟨init, r, by rw [List.flatten_cons, hnil, List.append_nil], hr⟩
      · exact .inr ⟨part ++ init, r, by rw [List.flatten_cons, hlast, List.append_assoc], hr⟩

/-- Tokens that end with a text are not those of a unit. -/
theorem exists_parse_error_of_last {init : List Token} {s : Token} (hs : s.kind = .str) :
    ∃ e, parse (init ++ [s]) = .error e := by
  cases hparse : parse (init ++ [s]) with
  | error e => exact ⟨e, rfl⟩
  | ok es =>
      rcases (parse_eq_ok_iff_renders.mp hparse).eq_nil_or_exists_last with
        hnil | ⟨init', r, hlast, hr⟩
      · simp at hnil
      · have heq : s = r := by simpa using congrArg List.getLast? hlast
        rw [heq, hr] at hs
        cases hs

theorem exists_parse_error_of_not_closed {keywords : Keywords} {source : String}
    (h : ¬ (lex keywords source).Closed) : ∃ e, parse (lex keywords source).tokens = .error e := by
  obtain ⟨left, htidy⟩ := Lexed.tidy_ofText keywords 1 source.toList
  obtain ⟨quote, rfl⟩ := htidy.exists_left h
  obtain ⟨init, s, htokens, hs⟩ := htidy.grouped.exists_last
  change (lex keywords source).tokens = init ++ [s] at htokens
  rw [htokens]
  exact exists_parse_error_of_last hs

/-! ## What is told while a text is read -/

def Event.isEvaluation : Event → Bool
  | .evaluating _ => true
  | _ => false

theorem Head.isEvaluation_events {head : Head} {count : Nat} {event : Event}
    (h : event ∈ head.events count) : event.isEvaluation = false := by
  cases head <;> grind [Head.events, Event.isEvaluation]

namespace Reader

theorem isEvaluation_elementEvents {pos : Nat} {p : Pending} {t : Token} {event : Event}
    (h : event ∈ elementEvents pos p t) : event.isEvaluation = false := by
  grind [elementEvents, Head.isEvaluation_events, Event.isEvaluation]

theorem isEvaluation_events {r : Reader} {pos : Nat} {t : Token} {event : Event}
    (h : event ∈ r.events pos t) : event.isEvaluation = false := by
  unfold events at h
  split at h
  case h_4 | h_6 => exact isEvaluation_elementEvents h
  all_goals grind [Event.isEvaluation]

theorem isEvaluation_trace {pos : Nat} {r : Reader} {ts : List Token} {event : Event}
    (h : event ∈ trace pos r ts) : event.isEvaluation = false := by
  induction ts generalizing pos r with
  | nil => cases h
  | cons t ts ih =>
      rcases List.mem_append.mp h with h | h
      · exact isEvaluation_events h
      · split at h
        · exact ih h
        · cases h

end Reader

theorem isEvaluation_parseEvents {ts : List Token} {event : Event} (h : event ∈ parseEvents ts) :
    event.isEvaluation = false := by
  rcases List.mem_append.mp h with h | h
  · exact Reader.isEvaluation_trace h
  · split at h
    · cases List.mem_singleton.mp h
      rfl
    · cases h

theorem Lexed.isEvaluation_events {a : Lexed} {event : Event} (h : event ∈ a.events) :
    event.isEvaluation = false := by
  rcases List.mem_append.mp h with h | h
  · obtain ⟨d, _, rfl⟩ := List.mem_map.mp h
    rfl
  · cases List.mem_singleton.mp h
    rfl

namespace Interpreter

/-- A text that is cut off in a string is not read as a unit.  Its load fails whatever
the fuel, has told of nothing that was evaluated, and changes nothing.  The other
diagnostics do not matter: a load ends as that of any text with the same tokens. -/
theorem truncated_string_never_runs (i : Interpreter) (name source : String) :
    ((∃ d ∈ (lex i.keywords source).diagnostics, ∃ quote, d.fault = .unterminatedString quote) →
      ∃ e events, parse (lex i.keywords source).tokens = .error e ∧
        (∀ event ∈ events, event.isEvaluation = false) ∧
        ∀ fuel, i.load fuel name source = (.error (.parse e), i.tell events) ∧
          i.Untouched (i.load fuel name source).2) ∧
      ∀ fuel other, (lex i.keywords other).tokens = (lex i.keywords source).tokens →
        (i.load fuel name source).1 = (i.load fuel name other).1.map fun loaded =>
          { loaded with diagnostics := (lex i.keywords source).diagnostics } := by
  constructor
  · rintro ⟨d, hd, quote, hquote⟩
    have hopen : ¬ (lex i.keywords source).Closed := fun hclosed => hclosed d hd quote hquote
    obtain ⟨e, he⟩ := exists_parse_error_of_not_closed hopen
    refine ⟨e, (lex i.keywords source).events ++ parseEvents (lex i.keywords source).tokens, he,
      ?_, fun fuel => ?_⟩
    · exact List.forall_mem_append.mpr ⟨fun event => Lexed.isEvaluation_events,
        fun event => isEvaluation_parseEvents⟩
    · have hload := i.load_of_error fuel name he
      rw [tell_tell] at hload
      exact ⟨hload, load_untouched (congrArg Prod.fst hload) nofun⟩
  · intro fuel other htokens
    exact (i.load_congr fuel name (congrArg parse htokens)).1

/-- A definition stands before the string that does not end, and is not made.  A number
that is left out does no harm. -/
theorem truncated_string_never_runs_definition :
    let i := Interpreter.new .standard
    let source := "(define x 'a')(print \"b)"
    let faulty := "(list 2x 'a')"
    (lex i.keywords source).diagnostics = [⟨1, .unterminatedString '"'⟩] ∧
      (∃ e, ∀ fuel, (i.load fuel "unit" source).1 = .error (.parse e) ∧
        (i.load fuel "unit" source).2.forest = i.forest) ∧
      (lex i.keywords faulty).tokens = (lex i.keywords "(list 'a')").tokens ∧
      (i.load 4 "unit" faulty).1 = .ok ⟨.list [.str "a"], [⟨1, .invalidSuffix "2x"⟩]⟩ := by
  intro i source faulty
  have hdiagnostics : (lex .standard source).diagnostics = [⟨1, .unterminatedString '"'⟩] := by
    decide +kernel
  have hfaulty : (lex .standard faulty).diagnostics = [⟨1, .invalidSuffix "2x"⟩] := by
    decide +kernel
  have hsplit : Lexeme.split faulty.toList =
      [.symbol .lparen '(', .word "list".toList, .blank [' '], .number ['2'] ['x'], .blank [' '],
        .string '\'' ['a'], .symbol .rparen ')'] := by
    decide +kernel
  have hsplit' : Lexeme.split "(list 'a')".toList =
      [.symbol .lparen '(', .word "list".toList, .blank [' '], .string '\'' ['a'],
        .symbol .rparen ')'] := by
    decide +kernel
  have htokens : (lex .standard faulty).tokens = (lex .standard "(list 'a')").tokens := by
    rw [lex, lex, hsplit, hsplit']
    rfl
  have hparse : parse (lex .standard "(list 'a')").tokens = .ok [.list [.literal (.str "a")]] := by
    rw [lex, hsplit']
    rfl
  obtain ⟨e, events, -, -, hload⟩ := (truncated_string_never_runs i "unit" source).1
    ⟨_, hdiagnostics ▸ List.mem_singleton_self _, '"', rfl⟩
  have hclean : (i.load 4 "unit" "(list 'a')").1 = .ok ⟨.list [.str "a"], _⟩ ∧ _ :=
    i.load_ends 4 "unit" hparse
  refine ⟨hdiagnostics, ⟨e, fun fuel => ?_⟩, htokens, ?_⟩
  · exact ⟨congrArg Prod.fst (hload fuel).1, (hload fuel).2.forest⟩
  · rw [(truncated_string_never_runs i "unit" faulty).2 4 _ htokens.symm, hclean.1]
    change Except.ok (Loaded.mk _ (lex .standard faulty).diagnostics) = _
    rw [hfaulty]

end Interpreter
end MiniLisp
