import ExprLexer.Excerpt
import ExprLexer.Lexer

/-!
# The command line

One run lists the tokens of a source on the standard output and tells its diagnostics and failures on the
standard error. A failure does not stop the listing, but the run as a whole has failed then.
-/
namespace ExprLexer

inductive Channel where
  | out | err
  deriving DecidableEq, Repr

structure Write where
  channel : Channel
  text : String
  deriving DecidableEq, Repr

def textTo (channel : Channel) (ws : List Write) : String :=
  String.join ((ws.filter (·.channel == channel)).map Write.text)

/-- What a run wrote, in order, and the exit code with which it ended. -/
structure Output where
  writes : List Write
  exitCode : UInt32
  deriving DecidableEq, Repr

namespace Output

def stdout (o : Output) : String := textTo .out o.writes

def stderr (o : Output) : String := textTo .err o.writes

end Output

/-- A run in progress: what it has written, the latest first, and whether something has failed. -/
structure Transcript where
  writes : List Write
  failed : Bool

namespace Transcript

def write (t : Transcript) (channel : Channel) (text : String) : Transcript :=
  { t with writes := ⟨channel, text⟩ :: t.writes }

def finish (t : Transcript) (exitCode : UInt32) : Output := ⟨t.writes.reverse, exitCode⟩

instance : Sink Transcript := ⟨fun t d => t.write .err (d.text ++ "\n")⟩

def tell (t : Transcript) (source path : String) : ScanResult → Except LayoutError Transcript
  | .ok token => .ok (t.write .out (token.listing ++ "\n"))
  | .error e => (e.render source path).map fun text => { t.write .err text with failed := true }

end Transcript

namespace CommandLine

/-- Lists the results that a lexer has left. A failure that cannot be laid out ends the run at once. -/
def listResults (path : String) (l : Lexer Transcript) : Output :=
  match h : l.next with
  | (x, l') =>
    if hx : x.isEnd then
      let t := l'.sink.write .out "=== End of Tokens ===\n"
      t.finish (if t.failed then 1 else 0)
    else
      have := Lexer.length_rest_lt_of_next h (Bool.eq_false_iff.2 hx)
      match l'.sink.tell l'.source path x with
      | .ok t => listResults path { l' with sink := t }
      | .error e => (l'.sink.write .err (e.message ++ "\n")).finish 101
termination_by l.cursor.rest.length

def list (path source : String) : Output :=
  let t : Transcript := ⟨[⟨.out, "=== Lexical Analysis of " ++ path ++ " ===\n"⟩], false⟩
  listResults path (Lexer.ofSource source t)

/-- A run that did no more than complain. -/
def refuse (text : String) : Output := ⟨[⟨.err, text ++ "\n"⟩], 1⟩

/-- The program, given a way to read a source. The first argument is the path; further ones are ignored. -/
def run {m : Type → Type} [Monad m] (read : String → m (Except Failure String)) :
    List String → m Output
  | [] => pure (refuse "Usage: minilex <source.mml>")
  | path :: _ => do
    match ← read path with
    | .ok source => return list path source
    | .error e => return refuse ("Error: " ++ e.fault.message)

end CommandLine
end ExprLexer
