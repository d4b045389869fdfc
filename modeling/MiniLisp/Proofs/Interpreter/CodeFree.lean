import MiniLisp.Proofs.Eval.Monitor
import MiniLisp.Proofs.Expr.Orderly
import MiniLisp.Proofs.Interpreter.Loading
import MiniLisp.Proofs.Scope.Overwrite

/-!
# Forced values contain no code

Where definitions are orderly, whatever is evaluated gives a value in which no function
occurs.  Such values are what an assignment stores and what a list is built of, and
apart from them nothing but a lambda is ever passed to a function.

The names of a run may be bound to code: a definition stores its value unforced, and a
lambda may be passed.  That such code is orderly again, and never a definition, is the
invariant.
-/

namespace MiniLisp

/-- A value without code, or a lambda. -/
def Value.isPassable : Value → Bool
  | .function f => f.isLambda
  | v => v.isCodeFree

theorem Value.isPassable_of_isCodeFree {v : Value} (h : v.isCodeFree = true) :
    v.isPassable = true := by
  cases v with
  | function f => cases h
  | _ => exact h

def Discipline.orderly : Discipline where
  callable f := f.Orderly
  code v := v.Code
  arg v := v.Code ∧ v.isPassable = true
  result v := v.isCodeFree = true
  callable_of_code h := h.callable.2
  values hf hv := hf.values hv
  steps hf hg := hf.steps hg
  arg_of_result h := ⟨.data h, Value.isPassable_of_isCodeFree h⟩
  arg_of_lambda hlambda h := ⟨h, hlambda⟩
  result_of_code hdata h := h.isCodeFree hdata
  result_of_atom h := Value.isCodeFree_of_isAtom h
  result_list h := Value.allCodeFree_of_forall h
  result_define h := nomatch h.callable.1
  result_host h := nomatch h.isHost
  result_host_args h := nomatch h.isHost

/-- All names are bound to what may be asked for its value. -/
def Invariant.orderly : Invariant .orderly where
  holds _ c := c.All Value.Code
  bound hc hname := hc.get? hname
  define hc hf hdefine := hc.define (hf.values List.mem_cons_self) hdefine
  set hc hv hset := hc.set (.data hv) hset
  push hc _ hbindings := hc.push fun name v hv => (hbindings name v hv).1
  pop hc := hc.pop

/-! ## What is watched -/

/-- The name that an assignment overwrites. -/
def Function.assigned? : Function → Option String
  | .thunk _ (.set (.str name) _) => some name
  | _ => none

/-- The arguments of a call are values without code or lambdas, and the data that the
function forces are without code.  The value of a call is without code, unless a
definition was called, and so is what an assignment has stored. -/
def Monitor.codeFree : Monitor where
  begins f args _ :=
    args.all Value.isPassable && f.values.all fun v => v.isFunction || v.isCodeFree
  ends f v c :=
    f.isDefinition ||
      v.isCodeFree && f.assigned?.all fun name => (c.get? name).any Value.isCodeFree

/-- An assignment gives the value that it has stored. -/
theorem Eval.get?_of_set {call : Caller} {name : String} {value v : Value} {before after : Run}
    (h : Eval.set call (.str name) value before = .ok v after) :
    after.chain.get? name = some v := by
  unfold Eval.set at h
  obtain ⟨_, _, htarget, h⟩ := EvalM.bind_eq_ok h
  cases htarget
  obtain ⟨_, _, hchain, h⟩ := EvalM.bind_eq_ok h
  cases hchain
  cases hname : before.chain.get? name with
  | none =>
      rw [hname] at h
      cases h
  | some _ =>
      rw [hname] at h
      obtain ⟨w, middle, _, h⟩ := EvalM.bind_eq_ok h
      obtain ⟨_, last, hupdate, h⟩ := EvalM.bind_eq_ok h
      cases h
      change EvalM.update (·.set name v) middle = _ at hupdate
      unfold EvalM.update at hupdate
      split at hupdate
      next d hset =>
        cases hupdate
        exact Chain.get?_of_set hset
      next => cases hupdate

theorem Function.Orderly.codeFree_values {f : Function} (hf : f.Orderly) {v : Value}
    (hv : v ∈ f.values) : (v.isFunction || v.isCodeFree) = true := by
  cases hfunction : v.isFunction with
  | true => rfl
  | false => exact (hf.values hv).isCodeFree hfunction

theorem Invariant.orderly_satisfies : Invariant.orderly.Satisfies .codeFree where
  begins := by
    intro n c f args _ hf hargs
    apply Bool.and_eq_true_iff.mpr
    constructor
    · exact List.all_eq_true.mpr fun v hv => (hargs v hv).2
    · exact List.all_eq_true.mpr fun v hv => hf.codeFree_values hv
  ends := by
    intro n call f args before v after _ hf hanswer hcall
    cases hdefinition : f.isDefinition with
    | true => simp [Monitor.codeFree, hdefinition]
    | false =>
        -- Only code that is no definition owes a value without code.
        have hv : v.isCodeFree = true := hanswer (.function hdefinition hf)
        simp only [Monitor.codeFree, hdefinition, hv, Bool.false_or, Bool.true_and]
        unfold Function.assigned?
        split
        next id name value =>
          rw [Option.all_some, Eval.get?_of_set hcall]
          exact hv
        next => rfl

theorem Program.run_watched {p : Program} (hp : ∀ f ∈ p, f.Orderly) {start : Run}
    (hstart : start.chain.All Value.Code) (fuel : Nat) (alarm : EvalM Unit) :
    Monitor.codeFree.run alarm fuel p start = p.run fuel start ∧
      ((p.run fuel).after start).chain.All Value.Code :=
  Invariant.eq_of_simulates (n := 0)
    (Invariant.orderly_satisfies.runFrom alarm fuel 0 0 .null hp) hstart

/-- A definition that stands last in a body is noticed. -/
example :
    let f : Function := .lambda 0 [] [.str "a"]
    let definition : Function := .thunk 1 (.define (.str "f") (.function f))
    ∃ after, Monitor.codeFree.run (throw .outOfFuel) 3
      [.thunk 2 (.begin [.function definition])] ⟨.root .standard, .empty⟩ =
        .error .outOfFuel after :=
  ⟨_, rfl⟩

/-! ## Loading orderly sources -/

namespace Interpreter

namespace Operation

/-- Definitions are orderly in the text of an operation, as it is read with the
keywords. -/
def orderly (keywords : Keywords) (op : Operation) : Bool :=
  match op.text? with
  | none => true
  | some (_, source) =>
      match parse (lex keywords source).tokens with
      | .error _ => true
      | .ok es => es.all Expr.orderly

/-- Definitions are orderly in all texts, each read with the keywords of its time. -/
def allOrderly : Keywords → List Operation → Bool
  | _, [] => true
  | keywords, op :: ops => op.orderly keywords && allOrderly (op.keywords keywords) ops

theorem orderly_of_text {keywords : Keywords} {op : Operation} {name source : String}
    (h : op.orderly keywords = true) (htext : op.text? = some (name, source)) {es : List Expr}
    (hparse : parse (lex keywords source).tokens = .ok es) :
    ∀ e ∈ es, e.orderly = true := by
  simpa [orderly, htext, hparse] using h

end Operation

theorem all_code_new (keywords : Keywords) : (new keywords).forest.All Value.Code := by
  refine Forest.All.addRoot .empty (Bindings.all_standard ?_ ?_ ?_ ?_)
  · exact .data rfl
  · exact .data rfl
  · exact .data rfl
  · exact fun p => .function rfl (.leaf rfl rfl rfl)

theorem all_code_load {i : Interpreter} (hi : i.forest.All Value.Code) {source : String}
    (hsource : ∀ es, parse (lex i.keywords source).tokens = .ok es →
      ∀ e ∈ es, e.orderly = true) (fuel : Nat) (name : String) :
    (i.load fuel name source).2.forest.All Value.Code := by
  cases hparse : parse (lex i.keywords source).tokens with
  | error e =>
      rw [i.load_of_error fuel name hparse]
      exact hi
  | ok es =>
      have hcode := orderly_compileAll_of_parse hparse (hsource es hparse) i.fresh
      rw [i.forest_load_of_ok fuel name hparse]
      apply hi.restore home
      exact (Program.run_watched hcode (hi.chain home) fuel (pure ())).2

theorem all_code_perform {i : Interpreter} (hi : i.forest.All Value.Code) {op : Operation}
    (hop : op.orderly i.keywords = true) (fuel : Nat) :
    (i.perform fuel op).2.forest.All Value.Code := by
  rcases forest_perform fuel i op with hforest | ⟨name, source, htext, hforest⟩
  · rw [hforest]
    exact hi
  · rw [hforest]
    exact all_code_load hi (fun es hparse => Operation.orderly_of_text hop htext hparse) fuel name

theorem all_code_performAll {i : Interpreter} (hi : i.forest.All Value.Code)
    {ops : List Operation} (hops : Operation.allOrderly i.keywords ops = true) (fuel : Nat) :
    (i.performAll fuel ops).forest.All Value.Code := by
  induction ops generalizing i with
  | nil => exact hi
  | cons op ops ih =>
      obtain ⟨hop, hrest⟩ := Bool.and_eq_true_iff.mp hops
      apply ih (all_code_perform hi hop fuel)
      rw [(stepped_perform fuel i op).keywords]
      exact hrest

/-- If all texts that are loaded are orderly, the run of each of them goes as it does
when it is watched, whatever the alarm does.  So none is raised: every call in it has
arguments that are values without code or lambdas, and every value that is forced,
stored by an assignment or put into a list is without code. -/
theorem forced_values_code_free (keywords : Keywords) (fuel : Nat) (ops : List Operation)
    (hops : Operation.allOrderly keywords ops = true) (name source : String) (es : List Expr)
    (hparse : parse (lex ((new keywords).performAll fuel ops).keywords source).tokens = .ok es)
    (hes : ∀ e ∈ es, e.orderly = true) (alarm : EvalM Unit) :
    let i := (new keywords).performAll fuel ops
    let program : Program := (compileAll es i.fresh).1
    let start : Run := ⟨i.forest.chain home, i.announced name source program.length⟩
    Monitor.codeFree.run alarm fuel program start = program.run fuel start := by
  intro i program start
  have hi : i.forest.All Value.Code := all_code_performAll (all_code_new keywords) hops fuel
  have hcode : ∀ f ∈ program, f.Orderly := orderly_compileAll_of_parse hparse hes i.fresh
  exact (Program.run_watched hcode (hi.chain home) fuel alarm).1

/-- A lambda with a definition in its body is called under another name.  It passes the
list that it has defined to the lambda that was passed to it, and the value is
stored. -/
theorem forced_values_code_free_assigned :
    let ops := [Operation.load "first" "(define f (lambda (g) (define y (list 'a' 'b')) (g y)))"]
    let i := (new .standard).performAll 9 ops
    let source := "(define x 'c')(define h f)(set x (h (lambda (z) (list (length z) z))))"
    let es : List Expr :=
      [.define (.name (.str "x")) (.literal (.str "c")),
        .define (.name (.str "h")) (.name (.str "f")),
        .set (.name (.str "x")) (.expr (.call "h" [.expr (.lambda ["z"]
          [.expr (.list [.expr (.call "length" [.name (.str "z")]), .name (.str "z")])])]))]
    let start : Run := ⟨i.forest.chain home, i.announced "second" source 3⟩
    let program : Program := (compileAll es i.fresh).1
    Operation.allOrderly .standard ops = true ∧ parse (lex i.keywords source).tokens = .ok es ∧
      (i.load 9 "second" source).1 = .ok ⟨.list [.int 2, .list [.str "a", .str "b"]], []⟩ ∧
      ∀ alarm, Monitor.codeFree.run alarm 9 program start = program.run 9 start := by
  intro ops i source es start program
  have hsplitFirst :
      Lexeme.split "(define f (lambda (g) (define y (list 'a' 'b')) (g y)))".toList =
        [.symbol .lparen '(', .word "define".toList, .blank [' '], .word ['f'], .blank [' '],
          .symbol .lparen '(', .word "lambda".toList, .blank [' '], .symbol .lparen '(',
          .word ['g'], .symbol .rparen ')', .blank [' '], .symbol .lparen '(',
          .word "define".toList, .blank [' '], .word ['y'], .blank [' '], .symbol .lparen '(',
          .word "list".toList, .blank [' '], .string '\'' ['a'], .blank [' '],
          .string '\'' ['b'], .symbol .rparen ')', .symbol .rparen ')', .blank [' '],
          .symbol .lparen '(', .word ['g'], .blank [' '], .word ['y'], .symbol .rparen ')',
          .symbol .rparen ')', .symbol .rparen ')'] := by
    decide +kernel
  have hsplit : Lexeme.split source.toList =
      [.symbol .lparen '(', .word "define".toList, .blank [' '], .word ['x'], .blank [' '],
        .string '\'' ['c'], .symbol .rparen ')', .symbol .lparen '(', .word "define".toList,
        .blank [' '], .word ['h'], .blank [' '], .word ['f'], .symbol .rparen ')',
        .symbol .lparen '(', .word "set".toList, .blank [' '], .word ['x'], .blank [' '],
        .symbol .lparen '(', .word ['h'], .blank [' '], .symbol .lparen '(',
        .word "lambda".toList, .blank [' '], .symbol .lparen '(', .word ['z'],
        .symbol .rparen ')', .blank [' '], .symbol .lparen '(', .word "list".toList,
        .blank [' '], .symbol .lparen '(', .word "length".toList, .blank [' '], .word ['z'],
        .symbol .rparen ')', .blank [' '], .word ['z'], .symbol .rparen ')',
        .symbol .rparen ')', .symbol .rparen ')', .symbol .rparen ')'] := by
    decide +kernel
  have hfirst : parse (lex .standard
      "(define f (lambda (g) (define y (list 'a' 'b')) (g y)))").tokens =
      .ok [.define (.name (.str "f")) (.expr (.lambda ["g"]
        [.expr (.define (.name (.str "y"))
            (.expr (.list [.literal (.str "a"), .literal (.str "b")]))),
          .expr (.call "g" [.name (.str "y")])]))] := by
    rw [lex, hsplitFirst]
    rfl
  have hkeywords : i.keywords = .standard := (stepped_perform 9 (new .standard) _).keywords
  have hparse : parse (lex i.keywords source).tokens = .ok es := by
    rw [hkeywords, lex, hsplit]
    rfl
  have hops : Operation.allOrderly .standard ops = true := by
    simp only [ops, Operation.allOrderly, Operation.orderly, Operation.text?, hfirst]
    decide
  have hvalue : (i.load 9 "second" source).1 =
      .ok ⟨.list [.int 2, .list [.str "a", .str "b"]], []⟩ := by
    have hdiagnostics : (lex i.keywords source).diagnostics = [] := by
      rw [hkeywords, lex, hsplit]
      rfl
    have hi : i = ((new .standard).load 9 "first" _).2 := rfl
    rw [(new .standard).load_of_ok 9 "first" hfirst] at hi
    rw [i.load_of_ok 9 "second" hparse, hdiagnostics, hi]
    rfl
  exact ⟨hops, hparse, hvalue,
    forced_values_code_free .standard 9 ops hops "second" source es hparse (by decide)⟩

end Interpreter
end MiniLisp
