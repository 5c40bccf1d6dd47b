import ExprLexer.Proofs.Step

/-!
# Sessions

A session is any sequence of calls on one lexer. All calls that read are made of calls of `next`, so what
every call of `next` keeps, a session keeps.
-/
namespace ExprLexer
namespace Lexer

variable {σ : Type}

section Runs

variable [Sink σ]

/-- A run of `next` through the end of the source, or through the first result at which `stop` holds. -/
inductive ReadsThrough (stop : ScanResult → Bool) : Lexer σ → List ScanResult → Lexer σ → Prop
  | last {l l' x} (h : l.next = (x, l')) (hx : x.isEnd || stop x) : ReadsThrough stop l [x] l'
  | more {l l' l'' x xs} (h : l.next = (x, l')) (hx : (x.isEnd || stop x) = false)
      (hxs : ReadsThrough stop l' xs l'') : ReadsThrough stop l (x :: xs) l''

theorem exists_readsThrough (stop : ScanResult → Bool) (l : Lexer σ) :
    ∃ xs l', ReadsThrough stop l xs l' := by
  induction hn : l.cursor.rest.length using Nat.strongRecOn generalizing l with
  | ind n ih =>
      cases hx : l.next.1.isEnd || stop l.next.1 with
      | true => exact ⟨_, _, .last rfl hx⟩
      | false =>
          have hlt := length_rest_lt_of_next (l := l) rfl (Bool.or_eq_false_iff.1 hx).1
          obtain ⟨xs, l', h⟩ := ih _ (hn ▸ hlt) l.next.2 rfl
          exact ⟨_, _, .more rfl hx h⟩

theorem ReadsThrough.readThrough_eq {stop : ScanResult → Bool} {l l' : Lexer σ} {xs : List ScanResult}
    (h : ReadsThrough stop l xs l') (results : Array ScanResult) :
    l.readThrough stop results = (results ++ xs.toArray, l') := by
  induction h generalizing results with
  | last h hx => rw [readThrough_of_stop results h hx, Array.push_eq_append]
  | more h hx hxs ih =>
      rw [readThrough_of_go results h hx, ih]
      simp

theorem readsThrough_readThrough (stop : ScanResult → Bool) (l : Lexer σ) :
    ReadsThrough stop l (l.readThrough stop #[]).1.toList (l.readThrough stop #[]).2 := by
  obtain ⟨xs, l', h⟩ := exists_readsThrough stop l
  rw [h.readThrough_eq, Array.empty_append]
  exact h

/-- What every call of `next` keeps, a run keeps, and what it ensures of its result holds of all results. -/
theorem ReadsThrough.keeps {P : Lexer σ → Prop} {Q : ScanResult → Prop}
    (hnext : ∀ l, P l → Q l.next.1 ∧ P l.next.2) {stop : ScanResult → Bool} {l l' : Lexer σ}
    {xs : List ScanResult} (h : ReadsThrough stop l xs l') (hl : P l) : (∀ x ∈ xs, Q x) ∧ P l' := by
  induction h with
  | last h hx =>
      have hkeep := hnext _ hl
      rw [h] at hkeep
      exact ⟨fun y hy => List.mem_singleton.1 hy ▸ hkeep.1, hkeep.2⟩
  | more h hx hxs ih =>
      have hkeep := hnext _ hl
      rw [h] at hkeep
      obtain ⟨hrest, hl'⟩ := ih hkeep.2
      exact ⟨List.forall_mem_cons.2 ⟨hkeep.1, hrest⟩, hl'⟩

end Runs

/-- A call on a lexer. The last six only look. -/
inductive Call where
  | next | next? | tokenizeAll
  | current | peek (n : Nat) | atEnd | position | source | sink
  deriving DecidableEq, Repr

inductive Answer (σ : Type) where
  | result (x : ScanResult)
  | item (x : Option ScanResult)
  | tokens (ts : Except Failure (List Token))
  | character (c : Char)
  | truth (b : Bool)
  | position (p : Position)
  | text (s : String)
  | sink (s : σ)

namespace Answer

def results : Answer σ → List ScanResult
  | result x => [x]
  | item x => x.toList
  | tokens (.ok ts) => ts.map .ok
  | tokens (.error e) => [.error e]
  | _ => []

theorem mapM_id_cons (x : ScanResult) (xs : List ScanResult) :
    (x :: xs).mapM id = x.bind fun t => (xs.mapM id).map (t :: ·) := by
  rw [List.mapM_cons]
  cases x with
  | error e => rfl
  | ok t => cases xs.mapM id <;> simp [bind, Except.bind, Except.map, pure, Except.pure]

theorem mem_of_mem_tokens (xs : List ScanResult) :
    ∀ x ∈ (tokens (xs.mapM id) : Answer σ).results, x ∈ xs := by
  induction xs with
  | nil =>
      intro x hx
      exact absurd hx List.not_mem_nil
  | cons x xs ih =>
      rw [mapM_id_cons]
      cases x with
      | error e =>
          intro y hy
          exact List.mem_singleton.1 hy ▸ List.mem_cons_self
      | ok t =>
          cases h : xs.mapM id with
          | error e =>
              rw [h] at ih
              exact fun y hy => List.mem_cons_of_mem _ (ih y hy)
          | ok ts =>
              rw [h] at ih
              intro y hy
              rcases List.mem_cons.1 hy with rfl | hy
              · exact List.mem_cons_self
              · exact List.mem_cons_of_mem _ (ih y hy)

end Answer

variable [Sink σ]

def call (l : Lexer σ) : Call → Answer σ × Lexer σ
  | .next => l.next.map .result id
  | .next? => l.next?.map .item id
  | .tokenizeAll => l.tokenizeAll.map .tokens id
  | .current => (.character l.current, l)
  | .peek n => (.character (l.peek n), l)
  | .atEnd => (.truth l.atEnd, l)
  | .position => (.position l.cursor.position, l)
  | .source => (.text l.source, l)
  | .sink => (.sink l.sink, l)

/-- A session: the answers to a sequence of calls, and the lexer after them. -/
def session (l : Lexer σ) : List Call → List (Answer σ) × Lexer σ
  | [] => ([], l)
  | c :: cs => ((l.call c).1 :: ((l.call c).2.session cs).1, ((l.call c).2.session cs).2)

theorem call_keeps {P : Lexer σ → Prop} {Q : ScanResult → Prop} (hnext : ∀ l, P l → Q l.next.1 ∧ P l.next.2)
    {l : Lexer σ} (hl : P l) (c : Call) : (∀ x ∈ (l.call c).1.results, Q x) ∧ P (l.call c).2 := by
  cases c with
  | next => exact ⟨fun y hy => List.mem_singleton.1 hy ▸ (hnext l hl).1, (hnext l hl).2⟩
  | next? =>
      simp only [call, next?]
      split
      · exact ⟨fun x hx => absurd hx List.not_mem_nil, hl⟩
      · exact ⟨fun y hy => List.mem_singleton.1 hy ▸ (hnext l hl).1, (hnext l hl).2⟩
  | tokenizeAll =>
      have hrun := (readsThrough_readThrough ScanResult.isError l).keeps hnext hl
      exact ⟨fun x hx => hrun.1 x (Answer.mem_of_mem_tokens _ x hx), hrun.2⟩
  | _ => exact ⟨fun x hx => absurd hx List.not_mem_nil, hl⟩

theorem session_keeps {P : Lexer σ → Prop} {A : Answer σ → Prop}
    (hcall : ∀ l c, P l → A (l.call c).1 ∧ P (l.call c).2) {l : Lexer σ} (hl : P l) (calls : List Call) :
    (∀ a ∈ (l.session calls).1, A a) ∧ P (l.session calls).2 := by
  induction calls generalizing l with
  | nil => exact ⟨fun a ha => absurd ha List.not_mem_nil, hl⟩
  | cons c calls ih =>
      obtain ⟨ha, hl'⟩ := hcall l c hl
      obtain ⟨hrest, hend⟩ := ih hl'
      exact ⟨List.forall_mem_cons.2 ⟨ha, hrest⟩, hend⟩

end Lexer
end ExprLexer
