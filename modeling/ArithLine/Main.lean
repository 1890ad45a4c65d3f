import ArithLine.CommandLine.Run

/-!
# The program

Passes the command line and the lines of the standard input to the functions
that answer them, one line at a time, and writes what they answer.
-/

namespace ArithLine.Terminal

/-- Reads a line with its end, byte by byte. -/
partial def readLine (input : IO.FS.Stream) (acc : List UInt8) : IO (List UInt8) := do
  let bytes ← input.read 1
  match bytes.toList with
  | [] => return acc.reverse
  | b :: _ => if b = newline then return (b :: acc).reverse else readLine input (b :: acc)

/-- Answers lines until the input ends or a line ends the run. -/
partial def converse (o : Options) (number : Nat) : IO UInt32 := do
  let output ← IO.getStdout
  output.putStr Prompt.text
  output.flush
  match ← readLine (← IO.getStdin) [] with
  | [] =>
    output.putStr "\n"
    return 0
  | line =>
    match Prompt.answer o number line with
    | .next n out err =>
      output.putStr out
      output.flush
      IO.eprint err
      converse o n
    | .stop err =>
      IO.eprint err
      return 1

end ArithLine.Terminal

/-- Runs the program. -/
def main (args : List String) : IO UInt32 := do
  match ArithLine.Options.ofArguments args with
  | .ok o@{ expr := none, .. } => ArithLine.Terminal.converse o 0
  | _ =>
    let r := ArithLine.run args []
    IO.print r.stdout
    IO.eprint r.stderr
    return UInt32.ofNat r.code
