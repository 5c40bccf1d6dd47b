import ExprLexer.Cursor
import ExprLexer.Reading

/-!
# Lexers

A lexer reads a source from front to back. Each call of `next` passes the trivia before the next lexeme
and reads that lexeme, so it gets closer to the end of the source or has met it, which is
`length_rest_lt_of_next`. Every other way of reading is made of calls of `next`.
-/
namespace ExprLexer

class Sink (σ : Type) where
  report : σ → Diagnostic → σ

instance : Sink Unit := ⟨fun u _ => u⟩

/-- Keeps every diagnostic, in the order in which they come. -/
instance : Sink (Array Diagnostic) := ⟨Array.push⟩

structure Tally where
  count : Nat
  deriving DecidableEq, Repr

instance : Sink Tally := ⟨fun t _ => ⟨t.count + 1⟩⟩

/-- A source in the course of being read. -/
structure Lexer (σ : Type) where
  source : String
  cursor : Cursor
  /-- Whether the end of the source has been met. -/
  finished : Bool
  sink : σ
  log : Array Event

namespace Lexer

variable {σ : Type}

def ofSource (source : String) (sink : σ) : Lexer σ :=
  ⟨source, .ofText source.toList, false, sink, #[]⟩

/-- The end of the source, logged the first time that it is met. -/
def finish (l : Lexer σ) (p : Position) : Lexer σ :=
  { l with
    cursor := ⟨p, []⟩
    finished := true
    log := if l.finished then l.log else l.log.push (.endOfInput p) }

/-- Goes on to a cursor with what was reported and logged on the way there. -/
def proceed [Sink σ] (l : Lexer σ) (k : Cursor) (reading : Reading) : Lexer σ :=
  { l with
    cursor := k
    sink := reading.reports.foldl Sink.report l.sink
    log := l.log ++ reading.events }

/-- Reads one token. After a malformed number the lexer stands behind it and can read on; at the end of the
source it stays. -/
def next [Sink σ] (l : Lexer σ) : ScanResult × Lexer σ :=
  let place := l.cursor.skipTrivia
  match place.rest with
  | [] => (.ok (.endOfInput place.position), l.finish place.position)
  | c :: r =>
    let (lexeme, rest) := Lexeme.cut c r
    let stop := place.position.after lexeme.chars
    let reading := lexeme.read ⟨place.position, stop⟩
    (reading.result, l.proceed ⟨stop, rest⟩ reading)

theorem next_of_rest_nil [Sink σ] {l : Lexer σ} (h : l.cursor.skipTrivia.rest = []) :
    l.next = (.ok (.endOfInput l.cursor.skipTrivia.position), l.finish l.cursor.skipTrivia.position) := by
  simp only [next, h]

theorem next_of_rest_cons [Sink σ] {l : Lexer σ} {c : Char} {r : List Char}
    (h : l.cursor.skipTrivia.rest = c :: r) :
    l.next =
      let start := l.cursor.skipTrivia.position
      let stop := start.after (Lexeme.cut c r).1.chars
      let reading := (Lexeme.cut c r).1.read ⟨start, stop⟩
      (reading.result, l.proceed ⟨stop, (Lexeme.cut c r).2⟩ reading) := by
  simp only [next, h]

theorem length_rest_lt_of_next [Sink σ] {l l' : Lexer σ} {x : ScanResult} (h : l.next = (x, l'))
    (hx : x.isEnd = false) : l'.cursor.rest.length < l.cursor.rest.length := by
  have hs := l.cursor.length_rest_skipTrivia_le
  cases e : l.cursor.skipTrivia.rest with
  | nil =>
      rw [next_of_rest_nil e] at h
      cases h
      cases hx
  | cons c r =>
      rw [next_of_rest_cons e] at h
      cases h
      rw [e] at hs
      exact Nat.lt_of_lt_of_le (Lexeme.length_cut_lt c r) hs

/-- Reads on through the end of the source, or through the first result at which `stop` holds. -/
def readThrough [Sink σ] (stop : ScanResult → Bool) (l : Lexer σ) (results : Array ScanResult) :
    Array ScanResult × Lexer σ :=
  match h : l.next with
  | (x, l') =>
    if hx : x.isEnd || stop x then (results.push x, l')
    else
      have := length_rest_lt_of_next h (Bool.or_eq_false_iff.1 (Bool.eq_false_iff.2 hx)).1
      readThrough stop l' (results.push x)
termination_by l.cursor.rest.length

theorem readThrough_of_stop [Sink σ] {stop : ScanResult → Bool} {l l' : Lexer σ} {x : ScanResult}
    (results : Array ScanResult) (h : l.next = (x, l')) (hx : x.isEnd || stop x) :
    l.readThrough stop results = (results.push x, l') := by
  rw [readThrough]
  split
  next e =>
    cases h.symm.trans e
    rw [dif_pos hx]

theorem readThrough_of_go [Sink σ] {stop : ScanResult → Bool} {l l' : Lexer σ} {x : ScanResult}
    (results : Array ScanResult) (h : l.next = (x, l')) (hx : (x.isEnd || stop x) = false) :
    l.readThrough stop results = l'.readThrough stop (results.push x) := by
  rw [readThrough]
  split
  next e =>
    cases h.symm.trans e
    rw [dif_neg (Bool.eq_false_iff.1 hx)]

/-- Every result that is left, the end of the source included. -/
def drain [Sink σ] (l : Lexer σ) : Array ScanResult × Lexer σ := l.readThrough (fun _ => false) #[]

/-- All the tokens that are left, or the first failure; the tokens before a failure are given up. -/
def tokenizeAll [Sink σ] (l : Lexer σ) : Except Failure (List Token) × Lexer σ :=
  let (results, l') := l.readThrough ScanResult.isError #[]
  (results.toList.mapM id, l')

/-- The next result of an enumeration that ends with the end of the source. -/
def next? [Sink σ] (l : Lexer σ) : Option ScanResult × Lexer σ :=
  if l.finished then (none, l)
  else
    let (x, l') := l.next
    (some x, l')

def collect [Sink σ] (l : Lexer σ) : Array ScanResult × Lexer σ :=
  if l.finished then (#[], l) else l.drain

def peek (l : Lexer σ) (n : Nat) : Char := l.cursor.peek n

def current (l : Lexer σ) : Char := l.peek 0

def atEnd (l : Lexer σ) : Bool := l.cursor.atEnd

end Lexer

def tokenize (source : String) : Except Failure (List Token) :=
  (Lexer.ofSource source ()).tokenizeAll.1

end ExprLexer
