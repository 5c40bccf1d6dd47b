import Mathlib.Data.List.DropRight
import Mathlib.Data.List.Induction
import Mathlib.Logic.Function.Iterate
import ExprLexer.Proofs.Scans

/-!
# The stream of a source

All ways of reading a source share one stream: its results, and the end for ever after. Each call takes the
next entries of the stream, and what a lexer is after some calls depends only on how many it has taken.
-/
namespace ExprLexer

def ScanResult.failure? : ScanResult → Option Failure
  | .ok _ => none
  | .error e => some e

def ScanResult.token? : ScanResult → Option Token
  | .ok t => some t
  | .error _ => none

def stream (source : String) (n : Nat) : ScanResult :=
  (results source).getD n (.ok (.endOfInput (Position.start.after source.toList)))

theorem mapM_id_oks (ts : List Token) : (ts.map Except.ok : List ScanResult).mapM id = .ok ts := by
  induction ts with
  | nil => rfl
  | cons t ts ih =>
      rw [List.map_cons, Lexer.Answer.mapM_id_cons, ih]
      rfl

theorem mapM_id_failure (ts : List Token) (e : Failure) (xs : List ScanResult) :
    (ts.map Except.ok ++ Except.error e :: xs : List ScanResult).mapM id = .error e := by
  induction ts with
  | nil =>
      rw [List.map_nil, List.nil_append, Lexer.Answer.mapM_id_cons]
      rfl
  | cons t ts ih =>
      rw [List.map_cons, List.cons_append, Lexer.Answer.mapM_id_cons, ih]
      rfl

theorem exists_tokens {xs : List ScanResult} (h : ∀ x ∈ xs, x.isError = false) :
    ∃ ts : List Token, xs = ts.map .ok := by
  induction xs with
  | nil => exact ⟨[], rfl⟩
  | cons x xs ih =>
      obtain ⟨hx, hxs⟩ := List.forall_mem_cons.1 h
      obtain ⟨ts, rfl⟩ := ih hxs
      cases x with
      | ok t => exact ⟨t :: ts, rfl⟩
      | error e => cases hx

theorem filterMap_failure?_oks (ts : List Token) :
    (ts.map Except.ok : List ScanResult).filterMap ScanResult.failure? = [] := by
  rw [List.filterMap_map]
  exact List.filterMap_eq_nil_iff.2 fun t _ => rfl

theorem filterMap_failure?_error (ts : List Token) (e : Failure) (xs : List ScanResult) :
    (ts.map Except.ok ++ Except.error e :: xs).filterMap ScanResult.failure? =
      e :: xs.filterMap ScanResult.failure? := by
  rw [List.filterMap_append, filterMap_failure?_oks]
  rfl

theorem filterMap_token?_oks (ts : List Token) :
    (ts.map Except.ok : List ScanResult).filterMap ScanResult.token? = ts := by
  rw [List.filterMap_map]
  exact List.filterMap_some

theorem findSome?_failure?_oks (ts : List Token) :
    (ts.map Except.ok : List ScanResult).findSome? ScanResult.failure? = none := by
  refine List.findSome?_eq_none_iff.2 fun x hx => ?_
  obtain ⟨t, _, rfl⟩ := List.mem_map.1 hx
  rfl

theorem rtakeWhile_oks (ts : List Token) :
    (ts.map Except.ok : List ScanResult).rtakeWhile (fun x => !x.isError) = ts.map .ok := by
  refine List.rtakeWhile_eq_self_iff.2 fun x hx => ?_
  obtain ⟨t, _, rfl⟩ := List.mem_map.1 hx
  rfl

theorem rtakeWhile_error (xs : List ScanResult) (e : Failure) (ys : List ScanResult) :
    (xs ++ .error e :: ys).rtakeWhile (fun x => !x.isError) = ys.rtakeWhile (fun x => !x.isError) := by
  induction ys using List.reverseRecOn with
  | nil => exact List.rtakeWhile_concat_neg _ _ _ (by simp [ScanResult.isError])
  | append_singleton ys y ih =>
      rw [← List.cons_append, ← List.append_assoc, List.rtakeWhile_concat, List.rtakeWhile_concat, ih]

/-- The first place from `n` on where a stream has an error or the end. -/
structure FirstStop (R : Nat → ScanResult) (n m : Nat) : Prop where
  le : n ≤ m
  stop : (R m).isEnd || (R m).isError
  before : ∀ i, n ≤ i → i < m → ((R i).isEnd || (R i).isError) = false

namespace Lexer

variable {σ : Type}

def Call.isLook : Call → Bool
  | .next | .next? | .tokenizeAll => false
  | _ => true

variable [Sink σ]

/-- How a call is answered from a stream of which `n` entries have been read, and how many have been read then.
A look is answered by the lexer as it is after that many entries. -/
inductive Serves (R : Nat → ScanResult) (place : Nat → Lexer σ) : Nat → Call → Answer σ → Nat → Prop
  | next (n) : Serves R place n .next (.result (R n)) (n + 1)
  | item {n} (h : ∀ i < n, (R i).isEnd = false) : Serves R place n .next? (.item (some (R n))) (n + 1)
  | noItem {n} (h : ∃ i < n, (R i).isEnd) : Serves R place n .next? (.item none) n
  | tokens {n m ts} (h : FirstStop R n m) (hts : (List.range' n (m + 1 - n)).map R = ts.map .ok) :
      Serves R place n .tokenizeAll (.tokens (.ok ts)) (m + 1)
  | failure {n m e} (h : FirstStop R n m) (he : R m = .error e) :
      Serves R place n .tokenizeAll (.tokens (.error e)) (m + 1)
  | look (n) {c} (h : c.isLook) : Serves R place n c ((place n).call c).1 n

inductive ServesAll (R : Nat → ScanResult) (place : Nat → Lexer σ) :
    Nat → List Call → List (Answer σ) → Nat → Prop
  | nil (n) : ServesAll R place n [] [] n
  | cons {n m k c a cs as} (h : Serves R place n c a m) (hs : ServesAll R place m cs as k) :
      ServesAll R place n (c :: cs) (a :: as) k

def advance (l : Lexer σ) (n : Nat) : Lexer σ := (fun l => l.next.2)^[n] l

theorem advance_succ (l : Lexer σ) (n : Nat) : l.advance (n + 1) = l.next.2.advance n := rfl

theorem advance_succ' (l : Lexer σ) (n : Nat) : l.advance (n + 1) = (l.advance n).next.2 :=
  Function.iterate_succ_apply' _ n l

/-- A lexer that has met the end stays there. -/
theorem next_finish (l : Lexer σ) (p : Position) :
    (l.finish p).next = (.ok (.endOfInput p), l.finish p) := by
  have hrest : (l.finish p).cursor.skipTrivia.rest = [] := rfl
  rw [next_of_rest_nil hrest]
  rfl

theorem advance_finish (l : Lexer σ) (p : Position) (n : Nat) : (l.finish p).advance n = l.finish p := by
  induction n with
  | zero => rfl
  | succ n ih => rw [advance_succ, next_finish, ih]

/-- Where the source of a lexer ends. -/
def bottom (l : Lexer σ) : Position := l.cursor.position.after l.cursor.rest

theorem next_of_isEnd {l l' : Lexer σ} {x : ScanResult} (h : l.next = (x, l')) (hx : x.isEnd) :
    x = .ok (.endOfInput l.bottom) ∧ l' = l.finish l.bottom := by
  have hstep := l.step_next
  rw [h] at hstep
  cases hstep with
  | finish hgap => exact ⟨rfl, rfl⟩
  | read =>
      rw [Lexeme.isEnd_result_read] at hx
      cases hx

/-- Reading a token or an error leaves the end of the source to be met. -/
theorem next_of_not_isEnd {l l' : Lexer σ} {x : ScanResult} (h : l.next = (x, l')) (hx : x.isEnd = false) :
    l'.finished = l.finished ∧ l'.bottom = l.bottom := by
  have hstep := l.step_next
  rw [h] at hstep
  cases hstep with
  | finish hgap => cases hx
  | @read gap x rest hrest hgap hstop hvalid hgrow start stop hstart hend =>
      refine ⟨rfl, ?_⟩
      change stop.after rest = l.cursor.position.after l.cursor.rest
      rw [hrest, hend, hstart, Position.after_append, Position.after_append]

theorem ReadsThrough.next_end {l l' : Lexer σ} {xs : List ScanResult}
    (h : ReadsThrough (fun _ => false) l xs l') : l'.next = (.ok (.endOfInput l.bottom), l') := by
  induction h with
  | @last l l' x h hx =>
      rw [Bool.or_false] at hx
      obtain ⟨_, rfl⟩ := next_of_isEnd h hx
      exact next_finish _ _
  | @more l l' l'' x xs h hx hxs ih =>
      rw [Bool.or_false] at hx
      rw [← (next_of_not_isEnd h hx).2, ih]

theorem ReadsThrough.eq_append_stop {stop : ScanResult → Bool} {l l' : Lexer σ} {xs : List ScanResult}
    (h : ReadsThrough stop l xs l') :
    ∃ ys y, xs = ys ++ [y] ∧ (∀ x ∈ ys, (x.isEnd || stop x) = false) ∧ (y.isEnd || stop y) := by
  induction h with
  | @last l l' x h hx => exact ⟨[], x, rfl, nofun, hx⟩
  | @more l l' l'' x xs h hx hxs ih =>
      obtain ⟨ys, y, rfl, hys, hy⟩ := ih
      exact ⟨x :: ys, y, rfl, List.forall_mem_cons.2 ⟨hx, hys⟩, hy⟩

/-- A run that has not met the end reads the entries of its stream, and its lexer is finished from the entry
behind the end on. -/
theorem ReadsThrough.next_advance {l l' : Lexer σ} {xs : List ScanResult}
    (h : ReadsThrough (fun _ => false) l xs l') (hl : l.finished = false) (n : Nat) :
    (l.advance n).next.1 = xs.getD n (.ok (.endOfInput l.bottom)) ∧
      (l.advance n).finished = decide (xs.length ≤ n) := by
  induction h generalizing n with
  | @last l l' x h hx =>
      rw [Bool.or_false] at hx
      obtain ⟨rfl, rfl⟩ := next_of_isEnd h hx
      cases n with
      | zero => exact ⟨by rw [advance, Function.iterate_zero, id, h]; rfl, hl⟩
      | succ n =>
          rw [advance_succ, h, advance_finish, next_finish]
          exact ⟨by simp, by simp [finish]⟩
  | @more l l' l'' x xs h hx hxs ih =>
      rw [Bool.or_false] at hx
      obtain ⟨hfinished, hbottom⟩ := next_of_not_isEnd h hx
      cases n with
      | zero => exact ⟨by rw [advance, Function.iterate_zero, id, h]; rfl, hl⟩
      | succ n =>
          have hrest := ih (hfinished.trans hl) n
          rw [hbottom] at hrest
          rw [advance_succ, h]
          simpa using hrest

/-- Wherever a run begins, it reads the entries from there on. -/
theorem ReadsThrough.entries {l : Lexer σ} {R : Nat → ScanResult} (hR : ∀ i, (l.advance i).next.1 = R i)
    {stop : ScanResult → Bool} {n : Nat} {m l' : Lexer σ} {xs : List ScanResult}
    (h : ReadsThrough stop m xs l') (hm : m = l.advance n) :
    xs = (List.range' n xs.length).map R ∧ l' = l.advance (n + xs.length) := by
  induction h generalizing n with
  | @last m l' x h hx =>
      have hnext : (l.advance n).next = (x, l') := hm ▸ h
      have hentry := hR n
      rw [hnext] at hentry
      refine ⟨by simp [← hentry], ?_⟩
      rw [List.length_singleton, advance_succ', hnext]
  | @more m l' l'' x xs h hx hxs ih =>
      have hnext : (l.advance n).next = (x, l') := hm ▸ h
      have hentry := hR n
      rw [hnext] at hentry
      have hrest := ih (n := n + 1) (by rw [advance_succ', hnext])
      rw [List.length_cons, List.range'_succ, List.map_cons, ← hentry]
      refine ⟨congrArg _ hrest.1, ?_⟩
      rw [hrest.2]
      congr 1
      omega

theorem ReadsThrough.tokenizeAll_eq {l l' : Lexer σ} {xs : List ScanResult}
    (h : ReadsThrough ScanResult.isError l xs l') : l.tokenizeAll = (xs.mapM id, l') := by
  simp only [tokenizeAll, h.readThrough_eq, Array.empty_append]

theorem firstStop_of_entries {R : Nat → ScanResult} {n : Nat} {ys : List ScanResult} {y : ScanResult}
    (hentries : ys ++ [y] = (List.range' n (ys.length + 1)).map R)
    (hys : ∀ x ∈ ys, (x.isEnd || x.isError) = false) (hy : y.isEnd || y.isError) :
    FirstStop R n (n + ys.length) ∧ R (n + ys.length) = y := by
  rw [List.range'_1_concat, List.map_append, List.map_singleton] at hentries
  obtain ⟨hbefore, hlast⟩ := List.append_inj' hentries rfl
  obtain rfl := List.singleton_inj.1 hlast
  refine ⟨⟨Nat.le_add_right _ _, hy, ?_⟩, rfl⟩
  intro i hle hlt
  apply hys
  rw [hbefore]
  exact List.mem_map_of_mem (List.mem_range'_1.2 ⟨hle, hlt⟩)

theorem serves_tokenizeAll {l : Lexer σ} {R : Nat → ScanResult} (hR : ∀ i, (l.advance i).next.1 = R i) (n : Nat) :
    ∃ m, Serves R l.advance n .tokenizeAll (.tokens (l.advance n).tokenizeAll.1) m ∧
      (l.advance n).tokenizeAll.2 = l.advance m := by
  obtain ⟨xs, l', h⟩ := exists_readsThrough ScanResult.isError (l.advance n)
  obtain ⟨hxs, hl'⟩ := h.entries hR rfl
  obtain ⟨ys, y, rfl, hys, hy⟩ := h.eq_append_stop
  rw [List.length_append, List.length_singleton] at hxs hl'
  obtain ⟨hfirst, hlast⟩ := firstStop_of_entries hxs hys hy
  have hplain : ∀ x ∈ ys, x.isError = false := fun x hx => (Bool.or_eq_false_iff.1 (hys x hx)).2
  rw [h.tokenizeAll_eq, hl']
  refine ⟨n + ys.length + 1, ?_, rfl⟩
  cases y with
  | error e =>
      obtain ⟨ts, rfl⟩ := exists_tokens hplain
      rw [mapM_id_failure]
      exact .failure hfirst hlast
  | ok t =>
      obtain ⟨ts, rfl⟩ := exists_tokens hplain
      have hmap : (ts.map .ok ++ [.ok t] : List ScanResult) = (ts ++ [t]).map .ok := by
        rw [List.map_append, List.map_singleton]
      have hcount : n + (ts.map Except.ok : List ScanResult).length + 1 - n =
          (ts.map Except.ok : List ScanResult).length + 1 := by omega
      rw [hmap, mapM_id_oks]
      refine .tokens hfirst ?_
      rw [hcount, ← hxs, hmap]

theorem call_serves {l : Lexer σ} {R : Nat → ScanResult} (hR : ∀ i, (l.advance i).next.1 = R i)
    (hend : ∀ n, (l.advance n).finished = true ↔ ∃ i < n, (R i).isEnd) (n : Nat) (c : Call) :
    ∃ m, Serves R l.advance n c ((l.advance n).call c).1 m ∧ ((l.advance n).call c).2 = l.advance m := by
  cases c with
  | next =>
      refine ⟨n + 1, ?_, (advance_succ' l n).symm⟩
      have hserves : Serves R l.advance n .next (.result (R n)) (n + 1) := .next n
      rwa [← hR n] at hserves
  | next? =>
      cases hf : (l.advance n).finished with
      | true =>
          refine ⟨n, ?_, ?_⟩
          · simp only [call, next?, hf, if_true]
            exact .noItem ((hend n).1 hf)
          · simp only [call, next?, hf, if_true]
            rfl
      | false =>
          have hopen : ∀ i < n, (R i).isEnd = false := by
            intro i hi
            by_contra hR
            rw [(hend n).2 ⟨i, hi, Bool.eq_true_of_not_eq_false hR⟩] at hf
            cases hf
          have hitem : Serves R l.advance n .next? (.item (some (R n))) (n + 1) := .item hopen
          rw [← hR n] at hitem
          refine ⟨n + 1, ?_, ?_⟩
          · simp only [call, next?, hf, Bool.false_eq_true, if_false]
            exact hitem
          · simp only [call, next?, hf, Bool.false_eq_true, if_false]
            exact (advance_succ' l n).symm
  | tokenizeAll => exact serves_tokenizeAll hR n
  | _ => exact ⟨n, .look n rfl, rfl⟩

theorem session_serves {l : Lexer σ} {R : Nat → ScanResult} (hR : ∀ i, (l.advance i).next.1 = R i)
    (hend : ∀ n, (l.advance n).finished = true ↔ ∃ i < n, (R i).isEnd) (calls : List Call) (n : Nat) :
    ∃ m, ServesAll R l.advance n calls ((l.advance n).session calls).1 m ∧
      ((l.advance n).session calls).2 = l.advance m := by
  induction calls generalizing n with
  | nil => exact ⟨n, .nil n, rfl⟩
  | cons c calls ih =>
      obtain ⟨k, hcall, hk⟩ := call_serves hR hend n c
      obtain ⟨m, hcalls, hm⟩ := ih k
      rw [← hk] at hcalls hm
      exact ⟨m, .cons hcall hcalls, hm⟩

section Whole

variable {l l' : Lexer σ} {xs : List ScanResult}

theorem tokenizeAll_of_ok {t : Token} (h : l.next = (.ok t, l')) (ht : ScanResult.isEnd (.ok t) = false) :
    l.tokenizeAll = (l'.tokenizeAll.1.map (t :: ·), l'.tokenizeAll.2) := by
  obtain ⟨xs, m, hxs⟩ := exists_readsThrough ScanResult.isError l'
  have hrun := ReadsThrough.more h (by rw [ht]; rfl) hxs
  rw [hrun.tokenizeAll_eq, hxs.tokenizeAll_eq, Answer.mapM_id_cons]
  rfl

/-- Reading all tokens ends at the first error, with the rest of the results still to be read. -/
theorem ReadsThrough.tokenizeAll_cases (h : ReadsThrough (fun _ => false) l xs l') :
    (∃ ts : List Token, xs = ts.map .ok ∧ l.tokenizeAll = (.ok ts, l')) ∨
      ∃ (ts : List Token) (e : Failure) (ys : List ScanResult) (m : Lexer σ),
        xs = ts.map .ok ++ .error e :: ys ∧ l.tokenizeAll = (.error e, m) ∧
          ReadsThrough (fun _ => false) m ys l' := by
  induction h with
  | @last l l' x h hx =>
      rw [Bool.or_false] at hx
      have hstop : ReadsThrough ScanResult.isError l [x] l' := .last h (by rw [hx]; rfl)
      cases x with
      | ok t => exact .inl ⟨[t], rfl, hstop.tokenizeAll_eq⟩
      | error e => cases hx
  | @more l l' l'' x xs h hx hxs ih =>
      rw [Bool.or_false] at hx
      cases x with
      | error e =>
          have hstop : ReadsThrough ScanResult.isError l [.error e] l' := .last h rfl
          exact .inr ⟨[], e, xs, l', rfl, hstop.tokenizeAll_eq, hxs⟩
      | ok t =>
          have htokens := tokenizeAll_of_ok h hx
          rcases ih with ⟨ts, rfl, hall⟩ | ⟨ts, e, ys, m, rfl, hall, hys⟩
          · rw [hall] at htokens
            exact .inl ⟨t :: ts, rfl, htokens⟩
          · rw [hall] at htokens
            exact .inr ⟨t :: ts, e, ys, m, rfl, htokens, hys⟩

theorem session_cons (l : Lexer σ) (c : Call) (cs : List Call) :
    (l.session (c :: cs)).1 = (l.call c).1 :: ((l.call c).2.session cs).1 := rfl

/-- A call that gives the same answer and leaves the lexer as it is can be repeated. -/
theorem session_replicate {c : Call} {a : Answer σ} (h : l.call c = (a, l)) (k : Nat) :
    (l.session (List.replicate k c)).1 = List.replicate k a := by
  induction k with
  | zero => rfl
  | succ k ih => rw [List.replicate_succ, session_cons, h, ih, List.replicate_succ]

/-- The enumeration gives all results and is over then. -/
theorem ReadsThrough.session_next? (h : ReadsThrough (fun _ => false) l xs l') (hl : l.finished = false)
    (k : Nat) : (l.session (List.replicate (xs.length + k) .next?)).1 =
      xs.map (fun x => .item (some x)) ++ List.replicate k (.item none) := by
  induction h with
  | @last l l' x h hx =>
      have hcall : l.call .next? = (.item (some x), l') := by simp only [call, next?, hl, h]; rfl
      rw [Bool.or_false] at hx
      obtain ⟨rfl, rfl⟩ := next_of_isEnd h hx
      rw [List.length_singleton, Nat.add_comm, List.replicate_succ, session_cons, hcall, session_replicate rfl]
      rfl
  | @more l l' l'' x xs h hx hxs ih =>
      have hcall : l.call .next? = (.item (some x), l') := by simp only [call, next?, hl, h]; rfl
      rw [Bool.or_false] at hx
      have hfinished := (next_of_not_isEnd h hx).1
      rw [List.length_cons, Nat.add_right_comm, List.replicate_succ, session_cons, hcall,
        ih (hfinished.trans hl), List.map_cons, List.cons_append]

/-- One call after the other gives the errors one by one, then the tokens behind the last one, and then the end
again and again. -/
theorem ReadsThrough.session_tokenizeAll (h : ReadsThrough (fun _ => false) l xs l') {p : Position}
    (hstay : l'.next = (.ok (.endOfInput p), l')) (k : Nat) :
    (l.session (List.replicate ((xs.filterMap ScanResult.failure?).length + 1 + k) .tokenizeAll)).1 =
      (xs.filterMap ScanResult.failure?).map (fun e => .tokens (.error e)) ++
        .tokens (.ok ((xs.rtakeWhile fun x => !x.isError).filterMap ScanResult.token?)) ::
        List.replicate k (.tokens (.ok [.endOfInput p])) := by
  -- each call but the last two kinds uses up one error, so the induction is on how much is left to read
  induction hn : xs.length using Nat.strongRecOn generalizing l xs with
  | ind n ih =>
      rcases h.tokenizeAll_cases with ⟨ts, rfl, hall⟩ | ⟨ts, e, ys, m, rfl, hall, hys⟩
      · have hlast : ReadsThrough ScanResult.isError l' [.ok (.endOfInput p)] l' := .last hstay rfl
        have hrest : l'.call .tokenizeAll = (.tokens (.ok [.endOfInput p]), l') := by
          simp only [call, hlast.tokenizeAll_eq]
          rfl
        have hcall : l.call .tokenizeAll = (.tokens (.ok ts), l') := by simp only [call, hall]; rfl
        rw [filterMap_failure?_oks, rtakeWhile_oks, filterMap_token?_oks, List.length_nil, Nat.zero_add, Nat.add_comm,
          List.replicate_succ, session_cons, hcall, session_replicate hrest]
        rfl
      · have hcall : l.call .tokenizeAll = (.tokens (.error e), m) := by simp only [call, hall]; rfl
        have hless : ys.length < n := by
          rw [← hn, List.length_append, List.length_cons]
          omega
        rw [filterMap_failure?_error, rtakeWhile_error, List.length_cons, Nat.add_right_comm _ 1 1,
          Nat.add_right_comm _ 1 k, List.replicate_succ, session_cons, hcall, ih _ hless hys rfl]
        rfl

end Whole

theorem exists_isEnd_iff {ys : List ScanResult} {t : ScanResult} (hys : ∀ y ∈ ys, y.isEnd = false)
    (ht : t.isEnd) (n : Nat) : (∃ i < n, ((ys ++ [t]).getD i t).isEnd) ↔ (ys ++ [t]).length ≤ n := by
  rw [List.length_append, List.length_singleton]
  constructor
  · rintro ⟨i, hi, hend⟩
    by_contra hlong
    have hi' : i < ys.length := by omega
    rw [List.getD_eq_getElem?_getD, List.getElem?_append_left hi', List.getElem?_eq_getElem hi',
      Option.getD_some, hys _ (List.getElem_mem hi')] at hend
    cases hend
  · intro hlong
    refine ⟨ys.length, hlong, ?_⟩
    rw [List.getD_eq_getElem?_getD, List.getElem?_concat_length, Option.getD_some]
    exact ht

theorem tokenize_eq (source : String) : tokenize source =
    match (results source).findSome? ScanResult.failure? with
    | some e => .error e
    | none => .ok ((results source).filterMap ScanResult.token?) := by
  rcases (readsThrough_results source ()).tokenizeAll_cases with ⟨ts, hts, hall⟩ | ⟨ts, e, ys, m, hts, hall, _⟩
  · rw [tokenize, hall, hts, findSome?_failure?_oks, filterMap_token?_oks]
  · rw [tokenize, hall, hts, List.findSome?_append, findSome?_failure?_oks]
    rfl

theorem tokenize_eq_ok_iff {source : String} {ts : List Token} :
    tokenize source = .ok ts ↔ results source = ts.map .ok := by
  have hinj : Function.Injective (List.map (Except.ok : Token → ScanResult)) :=
    List.map_injective_iff.2 fun _ _ => Except.ok.inj
  rcases (readsThrough_results source ()).tokenizeAll_cases with ⟨us, hus, hall⟩ | ⟨us, e, ys, m, hus, hall, _⟩
  · rw [tokenize, hall, hus, hinj.eq_iff, Except.ok.injEq]
  · rw [tokenize, hall, hus]
    refine iff_of_false nofun fun heq => ?_
    have he : Except.error e ∈ (ts.map .ok : List ScanResult) := heq ▸ List.mem_append_right _ List.mem_cons_self
    obtain ⟨t, _, ht⟩ := List.mem_map.1 he
    cases ht

/-- However a lexer is driven, it reads one stream: the results of its source, and the end for ever. Each call
takes the next entries and leaves the lexer as it is after that many. Reading all tokens at once gives them or
the first error, the enumeration gives every result once, and reading all tokens again and again gives the errors
one by one. -/
theorem session_reads_stream (source : String) (sink : σ) (calls : List Call) :
    let l := ofSource source sink
    let ended : Token := .endOfInput (Position.start.after source.toList)
    (∃ xs, results source = xs ++ [.ok ended] ∧ ∀ x ∈ xs, x.isEnd = false) ∧
    (∃ n, ServesAll (stream source) l.advance 0 calls (l.session calls).1 n ∧
      (l.session calls).2 = l.advance n) ∧
    tokenize source = (match (results source).findSome? ScanResult.failure? with
      | some e => .error e
      | none => .ok ((results source).filterMap ScanResult.token?)) ∧
    l.collect.1.toList = results source ∧
    ∀ k, (l.session (List.replicate ((results source).length + k) .next?)).1 =
        (results source).map (fun x => .item (some x)) ++ List.replicate k (.item none) ∧
      (l.session (List.replicate (((results source).filterMap ScanResult.failure?).length + 1 + k)
          .tokenizeAll)).1 =
        ((results source).filterMap ScanResult.failure?).map (fun e => .tokens (.error e)) ++
          .tokens (.ok (((results source).rtakeWhile fun x => !x.isError).filterMap ScanResult.token?)) ::
          List.replicate k (.tokens (.ok [ended])) := by
  intro l ended
  obtain ⟨xs, hxs, hbefore⟩ := (scans_results source).eq_append_end
  have h := readsThrough_results source sink
  have hR (n : Nat) : (l.advance n).next.1 = stream source n := (h.next_advance rfl n).1
  have hfinished (n : Nat) : (l.advance n).finished = true ↔ ∃ i < n, (stream source i).isEnd := by
    have hended : ScanResult.isEnd (.ok ended) := rfl
    have hstream (i : Nat) : stream source i = (xs ++ [Except.ok ended]).getD i (Except.ok ended) := by
      rw [← hxs]
      rfl
    rw [(h.next_advance rfl n).2, decide_eq_true_iff, hxs]
    simp only [hstream]
    exact (exists_isEnd_iff hbefore hended n).symm
  refine ⟨⟨xs, hxs, hbefore⟩, session_serves hR hfinished calls 0, tokenize_eq source, ?_, fun k => ⟨?_, ?_⟩⟩
  · exact drain_results source sink
  · exact h.session_next? rfl k
  · exact h.session_tokenizeAll h.next_end k

end Lexer
end ExprLexer
