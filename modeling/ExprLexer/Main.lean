import ExprLexer.CommandLine
import ExprLexer.SourceFile

/-!
# The program
-/
namespace ExprLexer

/-- The bytes of a file, or why there are none. -/
def readFile (path : String) : IO (Except String ByteArray) := do
  let outcome ← (IO.FS.readBinFile path).toBaseIO
  return outcome.mapError toString

def Output.play (output : Output) : IO UInt32 := do
  for w in output.writes do
    match w.channel with
    | .out => IO.print w.text
    | .err => IO.eprint w.text
  (← IO.getStdout).flush
  return output.exitCode

end ExprLexer

def main (args : List String) : IO UInt32 := do
  let output ← ExprLexer.CommandLine.run (ExprLexer.readSource ExprLexer.readFile) args
  output.play
