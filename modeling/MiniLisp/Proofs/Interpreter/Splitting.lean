import MiniLisp.Proofs.Interpreter.Loading
import MiniLisp.Proofs.Token.Whitespace

/-!
# Splitting a unit

A unit may be cut in two at the end of a line, outside strings and between
expressions.  To load the two parts one after the other is then to load the whole:
the second part is read on other lines, compiled with the identities that follow,
and run in the scope as the first part left it.
-/

namespace MiniLisp

namespace Interpreter

/-- The state that a unit starts to run in, with nothing told. -/
def start (i : Interpreter) : Run :=
  ⟨i.forest.chain home, ⟨i.console.output, #[]⟩⟩

/-- What an interpreter has become by running a unit that was compiled with the
identities up to `fresh`, in all that a later unit can notice. -/
structure After (i : Interpreter) (fresh : Identity) (run : Run) (j : Interpreter) : Prop where
  keywords : j.keywords = i.keywords
  fresh : j.fresh = fresh
  forest : j.forest = i.forest.restore home run.chain
  output : j.console.output = run.console.output

/-- How loading a unit ends, given how its run does. -/
def LoadEnds (i : Interpreter) (fresh : Identity) (diagnostics : List Diagnostic)
    (outcome : Except LoadError Loaded × Interpreter) : EStateM.Result Stop Run Value → Prop
  | .ok v run => outcome.1 = .ok ⟨v, diagnostics⟩ ∧ i.After fresh run outcome.2
  | .error stop run => outcome.1 = .error (.eval stop) ∧ i.After fresh run outcome.2

theorem load_ends (i : Interpreter) (fuel : Nat) (name : String) {source : String}
    {es : List Expr} (hparse : parse (lex i.keywords source).tokens = .ok es) :
    LoadEnds i (compileAll es i.fresh).2 (lex i.keywords source).diagnostics
      (i.load fuel name source)
      (Run.muteEnd (Program.run fuel (compileAll es i.fresh).1 i.start)) := by
  have hload := i.load_of_ok fuel name hparse
  generalize compileAll es i.fresh = compiled at hload
  obtain ⟨program, fresh⟩ := compiled
  let before : Run := ⟨i.forest.chain home, i.announced name source program.length⟩
  have hmute : before.mute = i.start.mute := by
    simp [Run.mute_eq_iff, before, start, announced, Console.output_tellAll]
  have hrun := Program.runFrom_equalMuted fuel 0 0 .null program before i.start hmute
  change Run.muteEnd (Program.run fuel program before) =
    Run.muteEnd (Program.run fuel program i.start) at hrun
  rw [hload, ← hrun]
  cases Program.run fuel program before with
  | ok v run => exact ⟨rfl, rfl, rfl, rfl, Console.output_tellAll _ _⟩
  | error stop run => exact ⟨rfl, rfl, rfl, rfl, rfl⟩

namespace After

variable {i j k : Interpreter} {fresh fresh' : Identity} {run run' : Run}

/-- A unit that is loaded next starts where the run before it has ended. -/
theorem start_eq (h : i.After fresh run j) (hi : i.forest.WellFormed)
    (hhome : home < i.forest.next) (hdepth : run.chain.depth = i.forest.depth home) :
    j.start = run.mute := by
  unfold start Run.mute
  rw [h.forest, h.output, hi.chain_restore hhome hdepth]

theorem trans (h : i.After fresh run j) (h' : j.After fresh' run' k)
    (hi : i.forest.WellFormed) (hhome : home < i.forest.next)
    (hdepth : run'.chain.depth = i.forest.depth home) : i.After fresh' run' k where
  keywords := h'.keywords.trans h.keywords
  fresh := h'.fresh
  forest := by rw [h'.forest, h.forest, hi.restore_restore hhome hdepth]
  output := h'.output

/-- What has been printed and what is defined depends on the run alone. -/
theorem agree (h : i.After fresh run j) (h' : i.After fresh' run k) :
    j.console.output = k.console.output ∧ j.forest = k.forest := by
  rw [h.output, h'.output, h.forest, h'.forest]
  exact ⟨rfl, rfl⟩

end After

/-! ## The parts and the whole -/

theorem lex_append_line {keywords : Keywords} {s : String} (t : String)
    (hclosed : (lex keywords s).Closed) :
    lex keywords (s ++ "\n" ++ t) =
      lex keywords s ++ (lex keywords t).shift ((s ++ "\n").toList.count '\n') :=
  lex_append t (by decide) (by simp [Lexeme.isSpace]) hclosed

theorem parse_lex_append_line {keywords : Keywords} {s t : String} {es es' : List Expr}
    (hs : parse (lex keywords s).tokens = .ok es) (ht : parse (lex keywords t).tokens = .ok es')
    (hclosed : (lex keywords s).Closed) :
    parse (lex keywords (s ++ "\n" ++ t)).tokens = .ok (es ++ es') := by
  have hparse :=
    parse_append_relabel hs (· + (s ++ "\n").toList.count '\n') (lex keywords t).tokens
  rw [ht] at hparse
  rw [lex_append_line t hclosed]
  exact hparse

theorem isEmpty_compileAll (es : List Expr) (n : Identity) :
    (compileAll es n).1.isEmpty = es.isEmpty := by
  cases es <;> rfl

/-- To load the two parts of a unit is to load the whole.  The run of the whole ends
where that of a part fails; else its value is that of the last part with an
expression. -/
theorem load_split (i : Interpreter) (hreachable : i.forest.Reachable)
    (hhome : home < i.forest.next) (fuel : Nat) (name name₁ name₂ s t : String)
    (es es' : List Expr) (hs : parse (lex i.keywords s).tokens = .ok es)
    (ht : parse (lex i.keywords t).tokens = .ok es')
    (hclosed : ∀ d ∈ (lex i.keywords s).diagnostics, ∀ quote,
      d.fault ≠ .unterminatedString quote) :
    let lines := (s ++ "\n").toList.count '\n'
    let whole := i.load fuel name (s ++ "\n" ++ t)
    let first := i.load fuel name₁ s
    let second := first.2.load fuel name₂ t
    (∃ stop, first.1 = .error (.eval stop) ∧ whole.1 = .error (.eval stop) ∧
      whole.2.console.output = first.2.console.output ∧ whole.2.forest = first.2.forest) ∨
    ∃ loaded, first.1 = .ok loaded ∧
      (whole.2.console.output = second.2.console.output ∧ whole.2.forest = second.2.forest) ∧
      ((∃ stop, second.1 = .error (.eval stop) ∧ whole.1 = .error (.eval stop)) ∨
        ∃ loaded', second.1 = .ok loaded' ∧
          whole.1 = .ok
            ⟨if es'.isEmpty then loaded.value else loaded'.value,
              loaded.diagnostics ++ loaded'.diagnostics.map (.shift lines)⟩) := by
  intro lines whole first second
  have hi : i.forest.WellFormed := hreachable.wellFormed
  have hfirst := i.load_ends fuel name₁ hs
  have hwhole := i.load_ends fuel name (parse_lex_append_line hs ht hclosed)
  rw [compileAll_append, lex_append_line t hclosed] at hwhole
  have hdepth := Program.depth_run fuel (compileAll es i.fresh).1 i.start
  unfold EvalM.after at hdepth
  cases hp : Program.run fuel (compileAll es i.fresh).1 i.start with
  | error stop r =>
      rw [Program.run_append_of_error hp] at hwhole
      rw [hp] at hfirst
      exact Or.inl ⟨stop, hfirst.1, hwhole.1, hwhole.2.agree hfirst.2⟩
  | ok v r =>
      rw [Program.run_append_of_ok hp] at hwhole
      rw [hp] at hfirst hdepth
      obtain ⟨hloaded, hafter⟩ := hfirst
      replace hdepth : r.chain.depth = i.forest.depth home :=
        hdepth.trans (Forest.depth_chain i.forest home)
      have hstart : first.2.start = r.mute := hafter.start_eq hi hhome hdepth
      have hsecond := first.2.load_ends fuel name₂ (hafter.keywords.symm ▸ ht)
      rw [hafter.fresh, hafter.keywords, hstart] at hsecond
      -- From here on both ways run the same program in the same state.
      have hempty := isEmpty_compileAll es' (compileAll es i.fresh).2
      generalize (compileAll es' (compileAll es i.fresh).2).1 = q at hwhole hsecond hempty
      have hdepth' := Program.depth_run fuel q r.mute
      unfold EvalM.after at hdepth'
      cases hq : Program.run fuel q r.mute with
      | error stop r' =>
          rw [Program.runFrom_of_error hq] at hwhole
          rw [hq] at hsecond hdepth'
          have hboth := hafter.trans hsecond.2 hi hhome (hdepth'.trans hdepth)
          exact Or.inr ⟨_, hloaded, hwhole.2.agree hboth, Or.inl ⟨stop, hsecond.1, hwhole.1⟩⟩
      | ok v' r' =>
          rw [Program.runFrom_of_ok hq, hempty] at hwhole
          rw [hq] at hsecond hdepth'
          have hboth := hafter.trans hsecond.2 hi hhome (hdepth'.trans hdepth)
          exact Or.inr ⟨_, hloaded, hwhole.2.agree hboth, Or.inr ⟨_, hsecond.1, hwhole.1⟩⟩

/-- The first part leaves a character out and names a string over two lines; the second
prints it and fails. -/
theorem load_split_failing_call :
    let i := Interpreter.new .standard
    let s := "(define x 'a\nb')#"
    let t := "(print x)(y)"
    let unbound : Except LoadError Loaded := .error (.eval (.failed (.notBound "y")))
    let whole := i.load 4 "whole" (s ++ "\n" ++ t)
    let first := i.load 4 "first" s
    let second := first.2.load 4 "second" t
    i.forest.Reachable ∧ home < i.forest.next ∧
      first.1 = .ok ⟨.str "a\nb", [⟨2, .unknownSyntax '#'⟩]⟩ ∧ whole.1 = unbound ∧
      second.1 = unbound ∧ second.2.console.output = "a\nb\n" ∧
      second.2.forest = whole.2.forest := by
  intro i s t unbound whole first second
  have hreachable : i.forest.Reachable := .addRoot .standard .empty
  have hhome : home < i.forest.next := by decide
  have hsplit : Lexeme.split s.toList =
      [.symbol .lparen '(', .word "define".toList, .blank [' '], .word ['x'], .blank [' '],
        .string '\'' ['a', '\n', 'b'], .symbol .rparen ')', .unknown '#'] := by
    decide +kernel
  have hsplit' : Lexeme.split t.toList =
      [.symbol .lparen '(', .word "print".toList, .blank [' '], .word ['x'], .symbol .rparen ')',
        .symbol .lparen '(', .word ['y'], .symbol .rparen ')'] := by
    decide +kernel
  have hs : parse (lex .standard s).tokens =
      .ok [.define (.name (.str "x")) (.literal (.str "a\nb"))] := by
    rw [lex, hsplit]
    rfl
  have ht : parse (lex .standard t).tokens =
      .ok [.call "print" [.name (.str "x")], .call "y" []] := by
    rw [lex, hsplit']
    rfl
  have hdiagnostics : (lex .standard s).diagnostics = [⟨2, .unknownSyntax '#'⟩] := by
    rw [lex, hsplit]
    rfl
  have hclosed : ∀ d ∈ (lex .standard s).diagnostics, ∀ quote,
      d.fault ≠ .unterminatedString quote := by
    simp [hdiagnostics]
  have hfirst : first.1 = .ok ⟨.str "a\nb", (lex .standard s).diagnostics⟩ ∧ _ :=
    i.load_ends 4 "first" hs
  have hwhole : whole.1 = unbound ∧ i.After _ _ whole.2 :=
    i.load_ends 4 "whole" (parse_lex_append_line hs ht hclosed)
  have hprinted : whole.2.console.output = "a\nb\n" := hwhole.2.output
  rcases load_split i hreachable hhome 4 "whole" "first" "second" s t _ _ hs ht hclosed with
    ⟨stop, hfails, -⟩ | ⟨loaded, -, ⟨houtput, hforest⟩, hends⟩
  · cases hfirst.1.symm.trans hfails
  · rcases hends with ⟨stop, hstop, hwhole'⟩ | ⟨loaded', -, hwhole'⟩
    · have hsecond : second.1 = unbound := hstop.trans (hwhole'.symm.trans hwhole.1)
      rw [hdiagnostics] at hfirst
      exact ⟨hreachable, hhome, hfirst.1, hwhole.1, hsecond, houtput.symm.trans hprinted,
        hforest.symm⟩
    · have hloaded := hwhole'.symm.trans hwhole.1
      simp [unbound] at hloaded

end Interpreter
end MiniLisp
