import MiniLisp.Interpreter

/-!
# The command line

A command line is a command with its arguments.  What it prints and the code it
exits with are a value; reading files and printing is left to the program around
it.
-/

namespace MiniLisp
namespace Cli

inductive Command where
  | help
  | version
  /-- Run a file, with further keywords. -/
  | run (path : String) (keywords : List String)
  /-- Show the tokens of a file. -/
  | lex (path : String)
  /-- Run source text given on the command line. -/
  | eval (source : String)
  deriving DecidableEq, Repr

/-- Why a command line is not a command. -/
inductive Misuse where
  | noFileToRun
  | noFileToLex
  | noSource
  | unknown (word : String)
  deriving DecidableEq, Repr

/-- What a command prints, and the code it exits with. -/
structure Outcome where
  stdout : String
  stderr : String
  exit : UInt32
  deriving DecidableEq, Repr

def lines (ls : List String) : String :=
  String.join (ls.map (· ++ "\n"))

def usage : String :=
  lines
    ["Lispy interpreter",
      "",
      "Usage: lispy <command> [options]",
      "",
      "Commands:",
      "  run <file>          Load and run a source file",
      "  lex <file>          Tokenize and display tokens",
      "  eval <source>       Run inline source and print the result",
      "  help                Show this help message",
      "  version             Show version information",
      "",
      "Run options:",
      "  --keyword=<word>    Register an extra keyword (repeatable)",
      "",
      "Logging:",
      "  LISPY_LOG=<filter>   e.g. LISPY_LOG=debug or LISPY_LOG=lispy_parse=trace",
      "",
      "Examples:",
      "  lispy run main.lsp",
      "  lispy eval '(+ 1 2)'",
      "  lispy lex main.lsp"]

def versionLine : String := "Lispy 0.1.0\n"

/-- The option that registers a keyword. -/
def keywordOption : String := "--keyword="

/-- The keyword that an argument registers. -/
def keyword? (arg : String) : Option String :=
  if keywordOption.toList.isPrefixOf arg.toList then
    some (String.ofList (arg.toList.drop keywordOption.length))
  else none

/-- Arguments that start with a dash are options; the first other one is the
file, and those after it are not looked at. -/
def isFile (arg : String) : Bool :=
  arg.toList.head? != some '-'

def parseRun (args : List String) : Except Misuse Command :=
  match args.find? isFile with
  | some path => .ok (.run path (args.filterMap keyword?))
  | none => .error .noFileToRun

def parse : List String → Except Misuse Command
  | [] => .ok .help
  | word :: args =>
      match word with
      | "run" => parseRun args
      | "lex" =>
          match args with
          | path :: _ => .ok (.lex path)
          | [] => .error .noFileToLex
      | "eval" =>
          match args with
          | source :: _ => .ok (.eval source)
          | [] => .error .noSource
      | "help" | "--help" | "-h" => .ok .help
      | "version" | "--version" | "-v" => .ok .version
      | word => .error (.unknown word)

def Misuse.outcome : Misuse → Outcome
  | .noFileToRun =>
      ⟨"", lines ["error: missing file path", "Usage: lispy run <file> [--keyword=<word>]..."], 1⟩
  | .noFileToLex => ⟨"", lines ["Usage: lispy lex <file>"], 1⟩
  | .noSource => ⟨"", lines ["Usage: lispy eval <source>"], 1⟩
  | .unknown word => ⟨usage, lines ["Unknown command: " ++ word, ""], 1⟩

/-- The file that a command reads. -/
def Command.path? : Command → Option String
  | .run path _ | .lex path => some path
  | .help | .version | .eval _ => none

/-- Fill up with blanks on the right. -/
def padRight (width : Nat) (s : String) : String :=
  s.pushn ' ' (width - s.length)

def tokenLine (t : Token) : String :=
  "  " ++ padRight 10 t.kind.name ++ " " ++ padRight 16 t.value.display ++ " @ line " ++
    toString t.line

/-- The list of tokens and diagnostics of a file. -/
def tokenTable (path : String) (lexed : Lexed) : String :=
  let header := "Tokens for '" ++ path ++ "' (" ++ toString lexed.tokens.length ++ " tokens):"
  let faults :=
    if lexed.diagnostics.isEmpty then []
    else "" :: "Diagnostics:" :: lexed.diagnostics.map ("  " ++ ·.message)
  lines (header :: lexed.tokens.map tokenLine ++ faults)

def failure (printed message : String) : Outcome :=
  ⟨printed, lines ["error: " ++ message], 1⟩

/-- The outcome of loading a unit.  What the unit printed comes first, then its
value if it is to be shown. -/
def loaded (isShown : Value → Bool) : Except LoadError Loaded × Interpreter → Outcome
  | (.error e, i) => failure i.console.output e.message
  | (.ok result, i) =>
      let value := if isShown result.value then lines [result.value.display] else ""
      ⟨i.console.output ++ value, "", 0⟩

/-- Carry out a command, given what reading its file gave. -/
def Command.execute (fuel : Nat) (source : Except ReadError String) : Command → Outcome
  | .help => ⟨usage, "", 0⟩
  | .version => ⟨versionLine, "", 0⟩
  | .run path keywords =>
      let i := Interpreter.new (.ofList (Keywords.forms ++ keywords))
      loaded (·.kind != .null) (i.loadFile fuel path source)
  | .lex path =>
      match source with
      | .error e => failure "" e.message
      | .ok source => ⟨tokenTable path (MiniLisp.lex .standard source), "", 0⟩
  | .eval source => loaded (fun _ => true) ((Interpreter.new .standard).load fuel "<eval>" source)

/-- The outcome of a command line, where files are read from a tree in memory. -/
def respond (fuel : Nat) (files : Files) (args : List String) : Outcome :=
  match parse args with
  | .error misuse => misuse.outcome
  | .ok command => command.execute fuel (files.read (command.path?.getD ""))

end Cli
end MiniLisp
