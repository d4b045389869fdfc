import MiniLisp.Proofs.Eval.Program
import MiniLisp.Proofs.Expr.Append
import MiniLisp.Proofs.Scope.Forest

/-!
# Loading units

Loading fails in one of three places.  A text that cannot be read, or that does not
compile, leaves everything as it was.  A unit that compiles is kept, and if its run
fails, so are the effects of its expressions up to the one that failed.  Which units
an interpreter has is therefore known from the texts and the keywords alone, however
their runs went.
-/

namespace MiniLisp

theorem Console.output_tellAll (c : Console) (events : List Event) :
    (c.tellAll events).output = c.output := by
  unfold tellAll
  induction events generalizing c with
  | nil => rfl
  | cons e events ih => exact ih (c.tell e)

namespace Interpreter

/-- What has been written when a unit starts to run. -/
def announced (i : Interpreter) (name source : String) (expressions : Nat) : Console :=
  ((i.console.tellAll (lex i.keywords source).events).tellAll
    (parseEvents (lex i.keywords source).tokens)).tellAll [.loadedUnit name expressions]

theorem load_of_ok (i : Interpreter) (fuel : Nat) (name : String) {source : String}
    {es : List Expr} (hparse : parse (lex i.keywords source).tokens = .ok es) :
    let program : Program := (compileAll es i.fresh).1
    let leave (run : Run) (console : Console) : Interpreter :=
      ⟨i.keywords, i.forest.restore home run.chain, i.units ++ [⟨name, program⟩],
        (compileAll es i.fresh).2, console⟩
    i.load fuel name source =
      match program.run fuel ⟨i.forest.chain home, i.announced name source program.length⟩ with
      | .ok v run =>
          (.ok ⟨v, (lex i.keywords source).diagnostics⟩,
            leave run (run.console.tellAll [.unitFinished v]))
      | .error stop run => (.error (.eval stop), leave run run.console) := by
  intro program leave
  simp only [load, read, compile_of_ok hparse, within, tell, program, leave, announced]
  generalize Program.run fuel _ _ = result
  cases result <;> rfl

theorem load_of_error (i : Interpreter) (fuel : Nat) (name : String) {source : String}
    {e : ParseError} (hparse : parse (lex i.keywords source).tokens = .error e) :
    i.load fuel name source =
      (.error (.parse e),
        (i.tell (lex i.keywords source).events).tell
          (parseEvents (lex i.keywords source).tokens)) := by
  simp only [load, read, compile_of_error hparse]

/-! ## Sequences of operations -/

inductive Operation where
  | load (name source : String)
  /-- Load a file, given what reading it has led to. -/
  | loadFile (path : String) (found : Except ReadError String)
  | addKeyword (word : String)

/-- Carry out an operation.  Only loading has a result. -/
def perform (fuel : Nat) (i : Interpreter) :
    Operation → Option (Except LoadError Loaded) × Interpreter
  | .load name source => (some (i.load fuel name source).1, (i.load fuel name source).2)
  | .loadFile path found =>
      (some (i.loadFile fuel path found).1, (i.loadFile fuel path found).2)
  | .addKeyword word => (none, i.addKeyword word)

def performAll (fuel : Nat) (i : Interpreter) (ops : List Operation) : Interpreter :=
  ops.foldl (fun i op => (i.perform fuel op).2) i

namespace Operation

/-- The name of a unit and its text, if there is one. -/
def text? : Operation → Option (String × String)
  | .load name source => some (name, source)
  | .loadFile path (.ok source) => some (path, source)
  | .loadFile _ (.error _) | .addKeyword _ => none

/-- The keywords that are registered afterwards. -/
def keywords (before : Keywords) : Operation → Keywords
  | .addKeyword word => before.insert word
  | .load .. | .loadFile .. => before

/-- The unit that an operation adds, compiled with the keywords and the identities as
they are, and the first identity that is then free. -/
def unit? (keywords : Keywords) (fresh : Identity) (op : Operation) :
    Option (SourceUnit × Identity) := do
  let (name, source) ← op.text?
  let es ← (parse (lex keywords source).tokens).toOption
  return (⟨name, (compileAll es fresh).1⟩, (compileAll es fresh).2)

section Unit

variable {keywords : Keywords} {op : Operation} {name source : String}
  (htext : op.text? = some (name, source))
include htext

theorem unit?_of_ok {es : List Expr} (hparse : parse (lex keywords source).tokens = .ok es)
    (fresh : Identity) :
    op.unit? keywords fresh =
      some (⟨name, (compileAll es fresh).1⟩, (compileAll es fresh).2) := by
  simp [unit?, htext, hparse, Except.toOption]

theorem unit?_of_error {e : ParseError} (hparse : parse (lex keywords source).tokens = .error e)
    (fresh : Identity) : op.unit? keywords fresh = none := by
  simp [unit?, htext, hparse, Except.toOption]

end Unit

/-- The units that operations add one after the other. -/
def units : Keywords → Identity → List Operation → List SourceUnit
  | _, _, [] => []
  | keywords, fresh, op :: ops =>
      match op.unit? keywords fresh with
      | none => units (op.keywords keywords) fresh ops
      | some (unit, fresh) => unit :: units (op.keywords keywords) fresh ops

end Operation

theorem perform_of_text {op : Operation} {name source : String}
    (h : op.text? = some (name, source)) (fuel : Nat) (i : Interpreter) :
    i.perform fuel op = (some (i.load fuel name source).1, (i.load fuel name source).2) := by
  cases op with
  | load name' source' =>
      cases h
      rfl
  | loadFile path found =>
      cases found with
      | error e => cases h
      | ok source' =>
          cases h
          rfl
  | addKeyword word => cases h

/-- What an operation does to all that later texts are read and compiled with, and to
the units that are kept. -/
structure Stepped (i : Interpreter) (op : Operation) (j : Interpreter) : Prop where
  keywords : j.keywords = op.keywords i.keywords
  units : j.units = i.units ++ (op.unit? i.keywords i.fresh).toList.map Prod.fst
  fresh : j.fresh = ((op.unit? i.keywords i.fresh).map Prod.snd).getD i.fresh

theorem stepped_load (fuel : Nat) (i : Interpreter) (name source : String) :
    i.Stepped (.load name source) (i.load fuel name source).2 := by
  cases hparse : parse (lex i.keywords source).tokens with
  | error e =>
      have hunit : (Operation.load name source).unit? i.keywords i.fresh = none :=
        Operation.unit?_of_error rfl hparse i.fresh
      rw [i.load_of_error fuel name hparse]
      constructor <;> simp [hunit, tell, Operation.keywords]
  | ok es =>
      have hunit : (Operation.load name source).unit? i.keywords i.fresh = some _ :=
        Operation.unit?_of_ok rfl hparse i.fresh
      rw [i.load_of_ok fuel name hparse]
      dsimp only
      split <;> constructor <;> simp [hunit, Operation.keywords]

theorem stepped_perform (fuel : Nat) (i : Interpreter) (op : Operation) :
    i.Stepped op (i.perform fuel op).2 := by
  cases op with
  | load name source => exact stepped_load fuel i name source
  | loadFile path found =>
      cases found with
      | error e => exact ⟨rfl, (List.append_nil i.units).symm, rfl⟩
      | ok source =>
          have hload := stepped_load fuel i path source
          exact ⟨hload.keywords, hload.units, hload.fresh⟩
  | addKeyword word => exact ⟨rfl, (List.append_nil i.units).symm, rfl⟩

theorem units_performAll (fuel : Nat) (i : Interpreter) (ops : List Operation) :
    (i.performAll fuel ops).units = i.units ++ Operation.units i.keywords i.fresh ops := by
  induction ops generalizing i with
  | nil => exact (List.append_nil i.units).symm
  | cons op ops ih =>
      have hstep := stepped_perform fuel i op
      change ((i.perform fuel op).2.performAll fuel ops).units = _
      rw [ih, hstep.keywords, hstep.units, hstep.fresh, Operation.units]
      cases op.unit? i.keywords i.fresh with
      | none => simp
      | some added => simp

/-! ## What is left behind -/

theorem forest_load_of_ok (i : Interpreter) (fuel : Nat) (name : String) {source : String}
    {es : List Expr} (hparse : parse (lex i.keywords source).tokens = .ok es) :
    let program : Program := (compileAll es i.fresh).1
    (i.load fuel name source).2.forest =
      i.forest.restore home ((program.run fuel).after
        ⟨i.forest.chain home, i.announced name source program.length⟩).chain := by
  intro program
  rw [i.load_of_ok fuel name hparse]
  unfold EvalM.after
  dsimp only
  split <;> rename_i heq <;> simp only [program, heq]

/-- Nothing but loading a text changes the forest. -/
theorem forest_perform (fuel : Nat) (i : Interpreter) (op : Operation) :
    (i.perform fuel op).2.forest = i.forest ∨
      ∃ name source, op.text? = some (name, source) ∧
        (i.perform fuel op).2.forest = (i.load fuel name source).2.forest := by
  cases op with
  | load name source => exact .inr ⟨name, source, rfl, rfl⟩
  | loadFile path found =>
      cases found with
      | error e => exact .inl rfl
      | ok source => exact .inr ⟨path, source, rfl, rfl⟩
  | addKeyword word => exact .inl rfl

/-- What every load keeps, sequences of operations keep. -/
theorem forest_performAll {P : Forest → Prop} {fuel : Nat}
    (hload : ∀ (i : Interpreter) (name source : String), P i.forest →
      P (i.load fuel name source).2.forest)
    {i : Interpreter} (hi : P i.forest) (ops : List Operation) :
    P (i.performAll fuel ops).forest := by
  induction ops generalizing i with
  | nil => exact hi
  | cons op ops ih =>
      apply ih
      rcases forest_perform fuel i op with hforest | ⟨name, source, _, hforest⟩
      · rw [hforest]
        exact hi
      · rw [hforest]
        exact hload i name source hi

/-- A forest that has come about and has the scope that units run in. -/
def Housed (i : Interpreter) : Prop :=
  i.forest.Reachable ∧ home < i.forest.next

theorem Housed.new (keywords : Keywords) : (Interpreter.new keywords).Housed :=
  ⟨.addRoot .standard .empty, Nat.zero_lt_one⟩

theorem Housed.load {i : Interpreter} (hi : i.Housed) (fuel : Nat) (name source : String) :
    (i.load fuel name source).2.Housed := by
  unfold Housed
  cases hparse : parse (lex i.keywords source).tokens with
  | error e =>
      rw [i.load_of_error fuel name hparse]
      exact hi
  | ok es =>
      rw [i.forest_load_of_ok fuel name hparse, Forest.next_restore]
      exact ⟨.run home fuel _ _ hi.1, hi.2⟩

theorem Housed.performAll {i : Interpreter} (hi : i.Housed) (fuel : Nat)
    (ops : List Operation) : (i.performAll fuel ops).Housed :=
  forest_performAll (P := fun forest => forest.Reachable ∧ home < forest.next)
    (fun _ name source hi => Housed.load hi fuel name source) hi ops

/-- A load that fails in its run leaves what the run has come to. -/
theorem load_eq_eval_error {i : Interpreter} {fuel : Nat} {name source : String} {stop : Stop}
    (h : (i.load fuel name source).1 = .error (.eval stop)) :
    ∃ es last, parse (lex i.keywords source).tokens = .ok es ∧
      Program.run fuel (compileAll es i.fresh).1 ⟨i.forest.chain home,
        i.announced name source (compileAll es i.fresh).1.length⟩ = .error stop last ∧
      (i.load fuel name source).2.forest = i.forest.restore home last.chain ∧
      (i.load fuel name source).2.console = last.console := by
  cases hparse : parse (lex i.keywords source).tokens with
  | error e =>
      rw [i.load_of_error fuel name hparse] at h
      cases h
  | ok es =>
      have hload := i.load_of_ok fuel name hparse
      dsimp only at hload
      rw [hload] at h ⊢
      refine ⟨es, ?_⟩
      split at h
      next => cases h
      next stop' last hrun =>
        cases h
        exact ⟨last, rfl, hrun, rfl, rfl⟩

structure Untouched (i j : Interpreter) : Prop where
  forest : j.forest = i.forest
  units : j.units = i.units
  keywords : j.keywords = i.keywords
  output : j.console.output = i.console.output

theorem Untouched.refl (i : Interpreter) : i.Untouched i :=
  ⟨rfl, rfl, rfl, rfl⟩

/-- A load that fails before its run changes nothing. -/
theorem load_untouched {i : Interpreter} {fuel : Nat} {name source : String} {e : LoadError}
    (h : (i.load fuel name source).1 = .error e) (he : ∀ stop, e ≠ .eval stop) :
    i.Untouched (i.load fuel name source).2 := by
  cases hparse : parse (lex i.keywords source).tokens with
  | error e' =>
      rw [i.load_of_error fuel name hparse]
      exact ⟨rfl, rfl, rfl,
        (Console.output_tellAll _ _).trans (Console.output_tellAll i.console _)⟩
  | ok es =>
      rw [i.load_of_ok fuel name hparse] at h
      dsimp only at h
      split at h
      next => cases h
      next stop last hrun =>
        cases h
        exact absurd rfl (he stop)

/-- A run that began in `start` has failed in one of the expressions of the program.
Those before it have run, those behind it make no difference, and the interpreter has
what the run had come to when it failed. -/
def FailedIn (i : Interpreter) (fuel : Nat) (program : Program) (start : Run) (stop : Stop)
    (j : Interpreter) : Prop :=
  ∃ (done : Program) (failing : Function) (rest : Program) (v : Value) (middle last : Run),
    program = done ++ failing :: rest ∧ done.run fuel start = .ok v middle ∧
      call fuel failing [] (middle.told (.evaluating done.length)) = .error stop last ∧
      (∀ others, Program.run fuel (done ++ failing :: others) start = .error stop last) ∧
      j.forest = i.forest.restore home last.chain ∧ j.forest.chain home = last.chain ∧
      j.console = last.console

theorem Housed.failedIn_load {i : Interpreter} (hi : i.Housed) {fuel : Nat}
    {name source : String} {stop : Stop}
    (h : (i.load fuel name source).1 = .error (.eval stop)) :
    ∃ es, parse (lex i.keywords source).tokens = .ok es ∧
      i.FailedIn fuel (compileAll es i.fresh).1
        ⟨i.forest.chain home, i.announced name source (compileAll es i.fresh).1.length⟩ stop
        (i.load fuel name source).2 := by
  obtain ⟨es, last, hparse, hrun, hforest, hconsole⟩ := load_eq_eval_error h
  have hdepth : last.chain.depth = i.forest.depth home := by
    have hframed := Program.depth_run fuel (compileAll es i.fresh).1
      ⟨i.forest.chain home, i.announced name source (compileAll es i.fresh).1.length⟩
    unfold EvalM.after at hframed
    rw [hrun] at hframed
    exact hframed.trans (Forest.depth_chain i.forest home)
  have hchain : (i.load fuel name source).2.forest.chain home = last.chain := by
    rw [hforest]
    exact hi.1.wellFormed.chain_restore hi.2 hdepth
  obtain ⟨done, failing, rest, v, middle, hprogram, hdone, hfailing⟩ :=
    Program.exists_of_runFrom_error hrun
  rw [Nat.zero_add] at hfailing
  refine ⟨es, hparse, done, failing, rest, v, middle, last, hprogram, hdone, hfailing, ?_,
    hforest, hchain, hconsole⟩
  intro others
  apply Program.runFrom_append_cons_of_error hdone
  rw [Nat.zero_add]
  exact hfailing

/-- After any operations, the units are those whose texts could be read and compiled,
each with the keywords of its time.  A load that fails to read or to compile its text
changes nothing; one that fails in its run leaves what the run had come to. -/
theorem loads_atomic (keywords : Keywords) (fuel : Nat) (ops : List Operation) :
    let i := (new keywords).performAll fuel ops
    i.units = Operation.units keywords 0 ops ∧
      ∀ op error, (i.perform fuel op).1 = some (.error error) →
        match error with
        | .read _ | .parse _ => i.Untouched (i.perform fuel op).2
        | .eval stop =>
            ∃ name source es, op.text? = some (name, source) ∧
              parse (lex i.keywords source).tokens = .ok es ∧
              i.FailedIn fuel (compileAll es i.fresh).1
                ⟨i.forest.chain home, i.announced name source (compileAll es i.fresh).1.length⟩
                stop (i.perform fuel op).2 := by
  intro i
  have hi : i.Housed := (Housed.new keywords).performAll fuel ops
  refine ⟨units_performAll fuel (new keywords) ops, ?_⟩
  intro op error herror
  cases htext : op.text? with
  | none =>
      cases op with
      | load name source => cases htext
      | loadFile path found =>
          cases found with
          | ok source => cases htext
          | error e =>
              cases herror
              exact .refl i
      | addKeyword word => cases herror
  | some text =>
      obtain ⟨name, source⟩ := text
      rw [perform_of_text htext] at herror ⊢
      have hload := Option.some.inj herror
      cases error with
      | read e => exact load_untouched hload fun _ => nofun
      | parse e => exact load_untouched hload fun _ => nofun
      | eval stop =>
          obtain ⟨es, hparse, hfailed⟩ := hi.failedIn_load hload
          exact ⟨name, source, es, rfl, hparse, hfailed⟩

/-- The same text is read as a call before `define` is a keyword, and as a definition
afterwards; then a text fails in its second expression, and one has no end. -/
theorem loads_atomic_late_keyword :
    let broken := Operation.load "broken" "("
    let late := Operation.load "late" "(define x 'a')(y)(define z 'b')"
    let ops := [.load "early" "(define x 'a')", .addKeyword "define", late, broken]
    let i := (new .builtin).performAll 4 [.addKeyword "define"]
    let defineX (id : Identity) : Function := .thunk id (.define (.str "x") (.str "a"))
    let callY (id : Identity) : Function := .thunk id (.call "y" [])
    let defineZ (id : Identity) : Function := .thunk id (.define (.str "z") (.str "b"))
    ((new .builtin).performAll 4 ops).units =
        [⟨"early", [.thunk 1 (.call "define" [.function (.deferred 0 "x"), .str "a"])]⟩,
          ⟨"late", [defineX 2, callY 3, defineZ 4]⟩] ∧
      (i.perform 4 late).1 = some (.error (.eval (.failed (.notBound "y")))) ∧
      (∃ start, i.FailedIn 4 [defineX 0, callY 1, defineZ 2] start (.failed (.notBound "y"))
        (i.perform 4 late).2) ∧
      (∃ e, (i.perform 4 broken).1 = some (.error (.parse e))) ∧
      i.Untouched (i.perform 4 broken).2 := by
  intro broken late ops i defineX callY defineZ
  let keywords : Keywords := Keywords.builtin.insert "define"
  have hsplitEarly : Lexeme.split "(define x 'a')".toList =
      [.symbol .lparen '(', .word "define".toList, .blank [' '], .word ['x'], .blank [' '],
        .string '\'' ['a'], .symbol .rparen ')'] := by
    decide +kernel
  have hsplitLate : Lexeme.split "(define x 'a')(y)(define z 'b')".toList =
      [.symbol .lparen '(', .word "define".toList, .blank [' '], .word ['x'], .blank [' '],
        .string '\'' ['a'], .symbol .rparen ')', .symbol .lparen '(', .word ['y'],
        .symbol .rparen ')', .symbol .lparen '(', .word "define".toList, .blank [' '],
        .word ['z'], .blank [' '], .string '\'' ['b'], .symbol .rparen ')'] := by
    decide +kernel
  have hsplitBroken : Lexeme.split "(".toList = [.symbol .lparen '('] := by
    decide +kernel
  have hearly : parse (lex .builtin "(define x 'a')").tokens =
      .ok [.call "define" [.name (.str "x"), .literal (.str "a")]] := by
    rw [lex, hsplitEarly]
    rfl
  have hlate : parse (lex keywords "(define x 'a')(y)(define z 'b')").tokens =
      .ok [.define (.name (.str "x")) (.literal (.str "a")), .call "y" [],
        .define (.name (.str "z")) (.literal (.str "b"))] := by
    rw [lex, hsplitLate]
    rfl
  have hbroken : ∃ e, parse (lex keywords "(").tokens = .error e := by
    rw [lex, hsplitBroken]
    exact ⟨_, rfl⟩
  obtain ⟨e, hbroken⟩ := hbroken
  have hunitEarly : (Operation.load "early" "(define x 'a')").unit? .builtin 0 =
      some (⟨"early", [.thunk 1 (.call "define" [.function (.deferred 0 "x"), .str "a"])]⟩, 2) :=
    Operation.unit?_of_ok rfl hearly 0
  have hunitLate : late.unit? keywords 2 =
      some (⟨"late", [defineX 2, callY 3, defineZ 4]⟩, 5) :=
    Operation.unit?_of_ok rfl hlate 2
  have hunitBroken : broken.unit? keywords 5 = none :=
    Operation.unit?_of_error rfl hbroken 5
  have hunits : Operation.units .builtin 0 ops =
      [⟨"early", [.thunk 1 (.call "define" [.function (.deferred 0 "x"), .str "a"])]⟩,
        ⟨"late", [defineX 2, callY 3, defineZ 4]⟩] := by
    rw [Operation.units, hunitEarly]
    change _ :: Operation.units keywords 2 [late, broken] = _
    rw [Operation.units, hunitLate]
    change _ :: _ :: Operation.units keywords 5 [broken] = _
    rw [Operation.units, hunitBroken]
    rfl
  have hfails : (i.perform 4 late).1 = some (.error (.eval (.failed (.notBound "y")))) := by
    rw [perform_of_text rfl, i.load_of_ok 4 "late" hlate]
    rfl
  have hends : (i.perform 4 broken).1 = some (.error (.parse e)) := by
    rw [perform_of_text rfl, i.load_of_error 4 "broken" hbroken]
  have hatomic := (loads_atomic .builtin 4 [.addKeyword "define"]).2
  obtain ⟨name, source, es, htext, hparse, hfailed⟩ := hatomic late _ hfails
  cases htext
  cases hlate.symm.trans hparse
  exact ⟨(loads_atomic .builtin 4 ops).1.trans hunits, hfails, ⟨_, hfailed⟩, ⟨e, hends⟩,
    hatomic broken _ hends⟩

end Interpreter
end MiniLisp
