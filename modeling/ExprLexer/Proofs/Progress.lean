import ExprLexer.Proofs.Listing

/-!
# Progress

A call of `next` uses up a lexeme or meets the end, where the lexer stays as it is whatever is called on it. So every
loop over a lexer is over soon: it calls `next` at most once for each character and once for the end, as
`session_progress` says.
-/
namespace ExprLexer

/-! ## Loops -/

/-- A loop that ends with an outcome, and how many turns it takes. A turn leads to the next one or ends the loop. -/
inductive Stops {α β : Type} (turn : α → α ⊕ β) : α → Nat → β → Prop
  | last {a b} (h : turn a = .inr b) : Stops turn a 1 b
  | more {a a' n b} (h : turn a = .inl a') (hs : Stops turn a' n b) : Stops turn a (n + 1) b

/-- A loop whose turns use up a measure stops, with the outcome that a function has which agrees with its turns. -/
theorem Stops.exists_le {α β : Type} {turn : α → α ⊕ β} (measure : α → Nat) (outcome : α → β)
    (hless : ∀ a a', turn a = .inl a' → measure a' < measure a)
    (hagree : ∀ a, outcome a = (turn a).elim outcome id) (a : α) :
    ∃ n ≤ measure a, Stops turn a (n + 1) (outcome a) := by
  induction hm : measure a using Nat.strongRecOn generalizing a with
  | ind m ih =>
      rw [hagree]
      cases hturn : turn a with
      | inl a' =>
          have hlt := hless a a' hturn
          obtain ⟨n, hle, hstops⟩ := ih (measure a') (hm ▸ hlt) a' rfl
          exact ⟨n + 1, by omega, .more hturn hstops⟩
      | inr b => exact ⟨0, Nat.zero_le m, .last hturn⟩

namespace Lexer

variable {σ : Type} [Sink σ]

/-! ## One call -/

/-- A call of `next` that reads a lexeme, behind trivia, and leaves what is behind the lexeme. -/
structure Consumes (l : Lexer σ) (x : ScanResult) (l' : Lexer σ) : Prop where
  notEnd : x.isEnd = false
  malformed : ∀ e, x = .error e → e.fault = .malformedNumber x.lexeme
  lexeme : x.lexeme ≠ ""
  rest : ∃ gap, Trivia (x.lexeme.toList ++ l'.cursor.rest) gap ∧
    l.cursor.rest = gap ++ (x.lexeme.toList ++ l'.cursor.rest)
  offset : l.cursor.position.offset < l'.cursor.position.offset

/-- A lexer at the end of its source. It answers each call as it did the first time and stays as it is. -/
structure Ended (l : Lexer σ) (p : Position) : Prop where
  cursor : l.cursor = ⟨p, []⟩
  next : l.call .next = (.result (.ok (.endOfInput p)), l)
  next? : l.call .next? = (.item none, l)
  tokenizeAll : l.call .tokenizeAll = (.tokens (.ok [.endOfInput p]), l)
  session : ∀ calls, l.session calls = (calls.map fun c => (l.call c).1, l)

theorem session_eq_map {l : Lexer σ} (h : ∀ c, (l.call c).2 = l) (calls : List Call) :
    l.session calls = (calls.map fun c => (l.call c).1, l) := by
  induction calls with
  | nil => rfl
  | cons c calls ih => simp only [session, h, ih, List.map_cons]

theorem ended_finish (l : Lexer σ) (p : Position) : (l.finish p).Ended p := by
  have hnext := l.next_finish p
  have hstop : ReadsThrough ScanResult.isError (l.finish p) [.ok (.endOfInput p)] (l.finish p) := .last hnext rfl
  have hall : (l.finish p).call .tokenizeAll = (.tokens (.ok [.endOfInput p]), l.finish p) := by
    simp only [call, hstop.tokenizeAll_eq]
    rfl
  have hone : (l.finish p).call .next = (.result (.ok (.endOfInput p)), l.finish p) := by
    simp only [call, hnext]
    rfl
  constructor
  case cursor => rfl
  case next => exact hone
  case next? => rfl
  case tokenizeAll => exact hall
  case session =>
    apply session_eq_map
    intro c
    cases c with
    | next => rw [hone]
    | tokenizeAll => rw [hall]
    | _ => rfl

theorem next_consumes_or_finishes (l : Lexer σ) :
    l.Consumes l.next.1 l.next.2 ∨ l.next = (.ok (.endOfInput l.bottom), l.finish l.bottom) := by
  have hstep := l.step_next
  cases hend : l.next.1.isEnd with
  | true =>
      obtain ⟨hx, hl⟩ := next_of_isEnd rfl hend
      exact .inr (Prod.ext hx hl)
  | false =>
      left
      generalize l.next.1 = x at *
      generalize l.next.2 = l' at *
      cases hstep with
      | finish hgap => cases hend
      | @read gap x rest hrest hgap hopen hvalid hgrow start stop hstart hstop =>
          have hshows := hvalid.shows_read ⟨start, stop⟩
          have hlexeme := hshows.lexeme_eq
          have hpos := utf8Length_pos hvalid.ne_nil
          constructor
          case notEnd => exact hend
          case malformed =>
            intro e he
            rw [he] at hshows hlexeme ⊢
            obtain ⟨_, rfl, _⟩ := hshows
            rfl
          case lexeme => simpa [hlexeme, String.ofList_eq_empty_iff] using hvalid.ne_nil
          case rest =>
            rw [hlexeme, String.toList_ofList]
            exact ⟨gap, hgap, hrest⟩
          case offset =>
            change l.cursor.position.offset < stop.offset
            rw [hstop, hstart, Position.after_offset, Position.after_offset]
            omega

/-! ## Whole loops -/

/-- One turn of reading all tokens: a call of `next`, with the tokens before it in hand. -/
def tokenizeTurn (s : List Token × Lexer σ) : (List Token × Lexer σ) ⊕ (Except Failure (List Token) × Lexer σ) :=
  match s.2.next with
  | (.error e, l') => .inr (.error e, l')
  | (.ok t, l') => if ScanResult.isEnd (.ok t) then .inr (.ok (s.1 ++ [t]), l') else .inl (s.1 ++ [t], l')

/-- One turn of an enumeration: a call of `next`, or none when the enumeration is over. -/
def enumerateTurn (s : Array ScanResult × Lexer σ) :
    (Array ScanResult × Lexer σ) ⊕ (Array ScanResult × Lexer σ) :=
  match s.2.next? with
  | (none, l') => .inr (s.1, l')
  | (some x, l') => .inl (s.1.push x, l')

section Turns

variable {l l' : Lexer σ}

theorem tokenizeAll_of_error {e : Failure} (h : l.next = (.error e, l')) : l.tokenizeAll = (.error e, l') := by
  have hstop : ReadsThrough ScanResult.isError l [.error e] l' := .last h rfl
  exact hstop.tokenizeAll_eq

theorem tokenizeAll_of_isEnd {t : Token} (h : l.next = (.ok t, l')) (ht : ScanResult.isEnd (.ok t)) :
    l.tokenizeAll = (.ok [t], l') := by
  have hstop : ReadsThrough ScanResult.isError l [.ok t] l' := .last h (by rw [ht]; rfl)
  exact hstop.tokenizeAll_eq

/-- Reading all tokens, with some of them in hand already. -/
def tokenizeRest (s : List Token × Lexer σ) : Except Failure (List Token) × Lexer σ :=
  (s.2.tokenizeAll.1.map (s.1 ++ ·), s.2.tokenizeAll.2)

theorem tokenizeRest_eq (s : List Token × Lexer σ) : tokenizeRest s = (tokenizeTurn s).elim tokenizeRest id := by
  obtain ⟨ts, l⟩ := s
  cases h : l.next with
  | mk x l' =>
      cases x with
      | error e =>
          simp only [tokenizeRest, tokenizeTurn, h, tokenizeAll_of_error h]
          rfl
      | ok t =>
          cases ht : ScanResult.isEnd (.ok t) with
          | true =>
              simp only [tokenizeRest, tokenizeTurn, h, ht, tokenizeAll_of_isEnd h ht]
              rfl
          | false =>
              simp only [tokenizeRest, tokenizeTurn, h, ht, tokenizeAll_of_ok h ht, Bool.false_eq_true, if_false,
                Sum.elim_inl]
              cases l'.tokenizeAll.1 <;> simp [Except.map]

theorem tokenizeAll_stops (l : Lexer σ) :
    ∃ n ≤ l.cursor.rest.length, Stops tokenizeTurn ([], l) (n + 1) l.tokenizeAll := by
  have hless (s s' : List Token × Lexer σ) (hturn : tokenizeTurn s = .inl s') :
      s'.2.cursor.rest.length < s.2.cursor.rest.length := by
    obtain ⟨ts, m⟩ := s
    cases h : m.next with
    | mk x m' =>
        simp only [tokenizeTurn, h] at hturn
        cases x with
        | error e => cases hturn
        | ok t =>
            dsimp only at hturn
            split at hturn
            next => cases hturn
            next hplain =>
              cases hturn
              exact length_rest_lt_of_next h (Bool.eq_false_iff.2 hplain)
  have hwhole : tokenizeRest ([], l) = l.tokenizeAll := by
    cases h : l.tokenizeAll with
    | mk ts l' => cases ts <;> simp [tokenizeRest, h, Except.map]
  rw [← hwhole]
  exact Stops.exists_le (fun s => s.2.cursor.rest.length) tokenizeRest hless tokenizeRest_eq ([], l)

theorem collect_of_finished (h : l.finished) : l.collect = (#[], l) := if_pos h

theorem collect_of_next {x : ScanResult} (hl : l.finished = false) (h : l.next = (x, l')) :
    l.collect = (#[x] ++ l'.collect.1, l'.collect.2) := by
  rw [collect, if_neg (Bool.eq_false_iff.1 hl)]
  cases hx : x.isEnd with
  | true =>
      have hfinished : l'.finished := by
        rw [(next_of_isEnd h hx).2]
        rfl
      rw [collect_of_finished hfinished]
      exact readThrough_of_stop #[] h (by rw [hx]; rfl)
  | false =>
      have hopen : l'.finished = false := (next_of_not_isEnd h hx).1.trans hl
      obtain ⟨xs, m, hrun⟩ := exists_readsThrough (fun _ => false) l'
      have hmore : ReadsThrough (fun _ => false) l (x :: xs) m := .more h (by rw [hx]; rfl) hrun
      rw [collect, if_neg (Bool.eq_false_iff.1 hopen), drain, drain, hmore.readThrough_eq, hrun.readThrough_eq]
      simp

/-- An enumeration, with some results in hand already. -/
def collectRest (s : Array ScanResult × Lexer σ) : Array ScanResult × Lexer σ :=
  (s.1 ++ s.2.collect.1, s.2.collect.2)

theorem collectRest_eq (s : Array ScanResult × Lexer σ) : collectRest s = (enumerateTurn s).elim collectRest id := by
  obtain ⟨xs, l⟩ := s
  cases hl : l.finished with
  | true => simp [collectRest, enumerateTurn, next?, hl, collect_of_finished hl]
  | false =>
      cases h : l.next with
      | mk x l' => simp [collectRest, enumerateTurn, next?, hl, h, collect_of_next hl h]

/-- At most how many results an enumeration has left. -/
def resultsLeft (l : Lexer σ) : Nat := if l.finished then 0 else l.cursor.rest.length + 1

omit [Sink σ] in
theorem resultsLeft_le (l : Lexer σ) : l.resultsLeft ≤ l.cursor.rest.length + 1 := by
  unfold resultsLeft
  split <;> omega

theorem resultsLeft_lt_of_next {x : ScanResult} (h : l.next = (x, l')) (hl : l.finished = false) :
    l'.resultsLeft < l.resultsLeft := by
  cases hx : x.isEnd with
  | true =>
      obtain ⟨_, rfl⟩ := next_of_isEnd h hx
      simp [resultsLeft, hl, finish]
  | false =>
      have hlt := length_rest_lt_of_next h hx
      have hopen : l'.finished = false := (next_of_not_isEnd h hx).1.trans hl
      simpa [resultsLeft, hl, hopen] using hlt

theorem collect_stops (l : Lexer σ) :
    ∃ n ≤ l.cursor.rest.length + 1, Stops enumerateTurn (#[], l) (n + 1) l.collect := by
  have hless (s s' : Array ScanResult × Lexer σ) (hturn : enumerateTurn s = .inl s') :
      s'.2.resultsLeft < s.2.resultsLeft := by
    obtain ⟨xs, m⟩ := s
    cases hm : m.finished with
    | true =>
        simp only [enumerateTurn, next?, hm, if_true] at hturn
        cases hturn
    | false =>
        simp only [enumerateTurn, next?, hm, Bool.false_eq_true, if_false] at hturn
        cases hturn
        exact resultsLeft_lt_of_next rfl hm
  have hwhole : collectRest (#[], l) = l.collect := by simp [collectRest]
  obtain ⟨n, hle, hstops⟩ := Stops.exists_le (fun s => s.2.resultsLeft) collectRest hless collectRest_eq (#[], l)
  rw [hwhole] at hstops
  exact ⟨n, Nat.le_trans hle l.resultsLeft_le, hstops⟩

end Turns

end Lexer

namespace CommandLine

/-- One turn of a listing: a call of `next`, whose result is told. -/
def listTurn (path : String) (l : Lexer Transcript) : Lexer Transcript ⊕ Output :=
  let (x, l') := l.next
  if x.isEnd then
    .inr ((l'.sink.write .out "=== End of Tokens ===\n").finish (if l'.sink.failed then 1 else 0))
  else
    match l'.sink.tell l'.source path x with
    | .ok t => .inl { l' with sink := t }
    | .error error => .inr ((l'.sink.write .err (error.message ++ "\n")).finish 101)

theorem listResults_eq_turn (path : String) (l : Lexer Transcript) :
    listResults path l = (listTurn path l).elim (listResults path) id := by
  cases h : l.next with
  | mk x l' =>
      rw [listResults_eq h, listTurn, h]
      dsimp only
      split
      · rfl
      · cases l'.sink.tell l'.source path x <;> rfl

theorem listResults_stops (path : String) (l : Lexer Transcript) :
    ∃ n ≤ l.cursor.rest.length, Stops (listTurn path) l (n + 1) (listResults path l) := by
  refine Stops.exists_le (fun l => l.cursor.rest.length) _ ?_ (listResults_eq_turn path) l
  intro m m' hturn
  simp only [listTurn] at hturn
  split at hturn
  next => cases hturn
  next hplain =>
    split at hturn
    · cases hturn
      have hless : m.next.2.cursor.rest.length < m.cursor.rest.length :=
        Lexer.length_rest_lt_of_next rfl (Bool.eq_false_iff.2 hplain)
      exact hless
    · cases hturn

end CommandLine

namespace Lexer

variable {σ : Type} [Sink σ]

/-- Whatever was called on a lexer, the next call of `next` reads a lexeme and gets further, or meets the end with all
of the source behind it, and then nothing changes any more. From there, and for a listing from the beginning, each loop
ends after at most one call of `next` more than the source has characters, malformed numbers included. The last turn of
an enumeration calls `next` no more. -/
theorem session_progress (source : String) (sink : σ) (calls : List Call) :
    let l := ((ofSource source sink).session calls).2
    (l.Consumes l.next.1 l.next.2 ∨
      ∃ p, l.next.1 = .ok (.endOfInput p) ∧ p.offset = source.utf8ByteSize ∧ l.next.2.Ended p) ∧
    (∃ n ≤ source.length + 1, Stops tokenizeTurn ([], l) n l.tokenizeAll) ∧
    (∃ n ≤ source.length + 1, Stops enumerateTurn (#[], l) (n + 1) l.collect) ∧
    ∀ path, ∃ n ≤ source.length + 1, Stops (CommandLine.listTurn path)
      (ofSource source ⟨[⟨.out, "=== Lexical Analysis of " ++ path ++ " ===\n"⟩], false⟩) n
      (CommandLine.list path source) := by
  intro l
  obtain ⟨before, hsource, hposition⟩ : ∃ before, source.toList = before ++ l.cursor.rest ∧ _ :=
    cursor_session source sink calls
  have hlength := congrArg List.length hsource
  rw [String.length_toList, List.length_append] at hlength
  refine ⟨?_, ?_, ?_, ?_⟩
  · apply l.next_consumes_or_finishes.imp_right
    intro hnext
    rw [hnext]
    refine ⟨l.bottom, rfl, ?_, l.ended_finish _⟩
    rw [bottom, hposition, ← Position.after_append, ← hsource, Position.start_after_offset, utf8Length_toList]
  · obtain ⟨n, hle, hstops⟩ := l.tokenizeAll_stops
    exact ⟨n + 1, by omega, hstops⟩
  · obtain ⟨n, hle, hstops⟩ := l.collect_stops
    exact ⟨n, by omega, hstops⟩
  · intro path
    obtain ⟨n, hle, hstops⟩ := CommandLine.listResults_stops path (ofSource source _)
    have hrest : n ≤ source.length := hle
    exact ⟨n + 1, by omega, hstops⟩

end Lexer
end ExprLexer
