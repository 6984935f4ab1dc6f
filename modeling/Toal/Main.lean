import Toal.CommandLine

/-!
# The command

Reads the program or the input and writes what `Toal.CommandLine` answers.
-/

namespace Toal.CommandLine

/-- Writes an answer. -/
def write (a : Answer) : IO Unit := do
  (← IO.getStdout).putStr a.output
  (← IO.getStdout).flush
  (← IO.getStderr).putStr a.errors

/-- Reads a file. -/
def readFile (name : String) : IO (Except ReadFailure String) := do
  try
    return decode (← IO.FS.readBinFile name)
  catch
    | .noFileOrDirectory .. => return .error .missing
    | _ => return .error .isDirectory

/-- Answers the lines of the input until it ends. -/
partial def prompt (a : Arguments) : IO Unit := do
  let line ← (← IO.getStdin).getLine
  unless line.isEmpty do
    write (answerLine a line)
    prompt a

end Toal.CommandLine

open Toal.CommandLine

/-- The command. -/
def main (args : List String) : IO UInt32 := do
  match Arguments.parse args with
  | .error refusal =>
    let answer := refusal.answer
    write answer
    return answer.exitCode.toUInt32
  | .ok a =>
    match a.file with
    | some name =>
      let answer := answerFile a name (← readFile name)
      write answer
      return answer.exitCode.toUInt32
    | none =>
      prompt a
      return 0
