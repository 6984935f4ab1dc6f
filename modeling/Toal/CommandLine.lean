import Toal.Compiler

/-!
# The command line

The command takes the name of a program and, after it, how far to compile it;
flags switch the passes of simplification off. Without a name it compiles the
lines of its input one by one, each as a program of its own.

Here the arguments are read (`Arguments.parse`) and it is said what the command
answers, in terms of what it writes and its exit code (`Answer`); the module
`Toal.Main` only reads and writes.
-/

namespace Toal.CommandLine

open Program (Passes)

/-- What the command is asked to do. -/
structure Arguments where
  /-- The name of the program, unless lines are read from the input. -/
  file : Option String
  /-- How far to compile. -/
  stage : Stage
  /-- The passes to apply. -/
  passes : Passes
deriving DecidableEq, Repr

/-- Why arguments are not carried out. -/
inductive Refusal
  /-- An unknown flag, or a third argument that is not a flag. -/
  | unknownArgument (arg : String)
  /-- A flag that is given twice. -/
  | repeatedFlag (flag : String)
  /-- A stage that does not exist. -/
  | unknownStage (name : String)
  /-- The user asks for help. -/
  | help
  /-- The user asks for the version. -/
  | version
deriving DecidableEq, Repr

/-- What has been read of the arguments. -/
structure Seen where
  /-- The arguments that are not flags, in order. -/
  positional : List String
  /-- How often folding was switched off. -/
  noFold : Nat
  /-- How often pruning was switched off. -/
  noPrune : Nat

/-- Nothing read yet. -/
def Seen.nothing : Seen := ⟨[], 0, 0⟩

/-- Takes an argument that is not a flag; there is room for two. -/
def Seen.value (s : Seen) (arg : String) : Except Refusal Seen :=
  if s.positional.length < 2 then .ok { s with positional := s.positional ++ [arg] }
  else .error (.unknownArgument arg)

/-- Takes a flag in words. All dashes in front and a value after an equals sign
    are ignored. -/
def Seen.longFlag (s : Seen) (arg : String) : Except Refusal Seen :=
  let name := (arg.toList.dropWhile (· = '-')).takeWhile (· ≠ '=')
  match String.ofList name with
  | "no-fold" => .ok { s with noFold := s.noFold + 1 }
  | "no-prune" => .ok { s with noPrune := s.noPrune + 1 }
  | "help" => .error .help
  | "version" => .error .version
  | _ => .error (.unknownArgument arg)

/-- What a group of one-letter flags asks for, given the letter it begins with. -/
def shortFlag (arg : String) (letter : Option Char) : Refusal :=
  match letter with
  | some 'h' => .help
  | some 'V' => .version
  | _ => .unknownArgument arg

/-- Reads arguments from left to right. After two dashes alone there are no more
    flags, and a dash alone is not a flag. -/
def Seen.read (s : Seen) : List String → Except Refusal Seen
  | [] => .ok s
  | arg :: args =>
    match arg.toList with
    | ['-', '-'] => args.foldlM Seen.value s
    | '-' :: '-' :: _ => do (← s.longFlag arg).read args
    | '-' :: c :: _ => .error (shortFlag arg (some c))
    | _ => do (← s.value arg).read args

/-- Reads the arguments of the command. Faults in single arguments are reported
    before those of all of them together. -/
def Arguments.parse (args : List String) : Except Refusal Arguments := do
  let seen ← Seen.nothing.read args
  if 1 < seen.noFold then throw (.repeatedFlag "--no-fold")
  if 1 < seen.noPrune then throw (.repeatedFlag "--no-prune")
  let passes : Passes := ⟨seen.noFold = 0, seen.noPrune = 0⟩
  match seen.positional[1]? with
  | none => return ⟨seen.positional.head?, .js, passes⟩
  | some name =>
    match Stage.ofName? name with
    | some stage => return ⟨seen.positional.head?, stage, passes⟩
    | none => throw (.unknownStage name)

/-- What the command writes, and its exit code. -/
structure Answer where
  /-- The exit code. -/
  exitCode : Nat
  /-- What is written to the output. -/
  output : String
  /-- What is written to the error output. -/
  errors : String
deriving DecidableEq, Repr

/-- The usage of the command. -/
def usage : String :=
  "toalc 0.1.0\nCompiles T.O.A.L. programs to JavaScript\n\nUSAGE:\n" ++
  "    toalc [FLAGS] [ARGS]\n\nFLAGS:\n" ++
  "    -h, --help        Prints help information\n" ++
  "        --no-fold     Do not fold constant expressions\n" ++
  "        --no-prune    Do not remove unreachable statements\n" ++
  "    -V, --version     Prints version information\n\nARGS:\n" ++
  "    <FILE_NAME>    Program to compile. Without one, lines are read from a prompt\n" ++
  "    <OUTPUT>       How far to run the pipeline: parsed, analyzed, optimized or js " ++
  "[default: js]\n"

/-- The message about arguments that are not carried out. -/
def Refusal.message : Refusal → String
  | unknownArgument arg =>
    s!"error: Found argument '{arg}' which wasn't expected, or isn't valid in this context"
  | repeatedFlag flag =>
    s!"error: The argument '{flag}' was provided more than once, but cannot be used multiple times"
  | unknownStage name => "error: Invalid value for '<OUTPUT>': " ++ Stage.unknownMessage name
  | help => usage
  | version => "toalc 0.1.0"

/-- The answer to arguments that are not carried out. -/
def Refusal.answer (r : Refusal) : Answer :=
  match r with
  | help => ⟨0, r.message, ""⟩
  | version => ⟨0, r.message ++ "\n", ""⟩
  | _ => ⟨1, "", r.message ++ "\n"⟩

/-- Why a program cannot be read. -/
inductive ReadFailure
  | missing
  | isDirectory
  /-- The bytes are not text. -/
  | notText
deriving DecidableEq, Repr

/-- The reason that the command gives. -/
def ReadFailure.message : ReadFailure → String
  | missing => "No such file or directory (os error 2)"
  | isDirectory => "Is a directory (os error 21)"
  | notText => "stream did not contain valid UTF-8"

/-- The text of a program, given its bytes. -/
def decode (bytes : ByteArray) : Except ReadFailure String :=
  match String.fromUTF8? bytes with
  | some text => .ok text
  | none => .error .notText

/-- What is shown about a failure, given the text that was compiled. -/
def failureText (text : List Char) : Failure → String
  | .fault f =>
    let d := f.diagnostic text
    (d.render? text).getD d.display
  | .noTemplate name args =>
    s!"no JavaScript rendering for built-in '{name}' with {args} argument(s)"

/-- The text that a compilation gives, or what is shown about its failure. -/
def compiled (passes : Passes) (stage : Stage) (source : String) : Except String String :=
  let text := source.toList
  match (compile passes stage text).1 with
  | .ok output => .ok output.text
  | .error failure => .error (failureText text failure)

/-- The answer for a program in a file of the given name. -/
def answerFile (a : Arguments) (name : String) (contents : Except ReadFailure String) : Answer :=
  match contents with
  | .error reason => ⟨1, "", s!"could not read {name}: " ++ reason.message ++ "\n"⟩
  | .ok source =>
    match compiled a.passes a.stage source with
    | .ok text => ⟨0, text ++ "\n", ""⟩
    | .error text => ⟨1, "", text ++ "\n"⟩

/-- The answer for one line of input. Its exit code plays no role. -/
def answerLine (a : Arguments) (line : String) : Answer :=
  match compiled a.passes a.stage line with
  | .ok text => ⟨0, text ++ "\n", ""⟩
  | .error text => ⟨0, "", text ++ "\n"⟩

/-- The lines of a text, each with the line feed that ends it. -/
def inputLines : List Char → List (List Char)
  | [] => []
  | c :: cs =>
    if c = '\n' then [c] :: inputLines cs
    else
      match inputLines cs with
      | [] => [[c]]
      | line :: lines => (c :: line) :: lines

/-- The answer for all lines of an input together. -/
def answerInput (a : Arguments) (input : String) : Answer :=
  let answers := (inputLines input.toList).map fun line => answerLine a (String.ofList line)
  ⟨0, String.join (answers.map (·.output)), String.join (answers.map (·.errors))⟩

/-- What the command answers, given a way to read files and its whole input. -/
def run (args : List String) (read : String → Except ReadFailure String) (input : String) :
    Answer :=
  match Arguments.parse args with
  | .error refusal => refusal.answer
  | .ok a =>
    match a.file with
    | some name => answerFile a name (read name)
    | none => answerInput a input

end Toal.CommandLine
