import ExprLexer.Cursor

/-!
# Trivia

What may stand between two lexemes. Passing over trivia ends behind the longest trivia at the front of
the text, and the place where it ends depends on the text only: `skipTrivia_eq`.
-/
namespace ExprLexer

/-- Blanks and comments in front of a text `next`. A comment ends where a newline or the end of the
source comes next. -/
inductive Trivia (next : List Char) : List Char → Prop
  | nil : Trivia next []
  | blank {c gap} (hc : isBlank c) (h : Trivia next gap) : Trivia next (c :: gap)
  | comment {body gap} (hb : '\n' ∉ body) (hend : ∀ c ∈ (gap ++ next).head?, c = '\n')
      (h : Trivia next gap) : Trivia next ('/' :: '/' :: body ++ gap)

/-- Blanks and comments where every comment has its newline, so that any text may follow. -/
inductive ClosedTrivia : List Char → Prop
  | nil : ClosedTrivia []
  | blank {c gap} (hc : isBlank c) (h : ClosedTrivia gap) : ClosedTrivia (c :: gap)
  | comment {body gap} (hb : '\n' ∉ body) (h : ClosedTrivia gap) :
      ClosedTrivia ('/' :: '/' :: body ++ '\n' :: gap)

theorem ClosedTrivia.trivia {gap : List Char} (h : ClosedTrivia gap) (next : List Char) :
    Trivia next gap := by
  induction h with
  | nil => exact .nil
  | blank hc h ih => exact .blank hc ih
  | comment hb h ih =>
      refine .comment hb ?_ (.blank rfl ih)
      intro c hc
      exact (Option.some.inj hc).symm

theorem Trivia.head {next gap : List Char} (h : Trivia next gap) : ∀ c ∈ gap.head?, isBlank c ∨ c = '/' := by
  intro c hc
  cases h with
  | nil => cases hc
  | blank hb h => exact .inl (Option.some.inj hc ▸ hb)
  | comment hb hend h => exact .inr (Option.some.inj hc).symm

theorem Trivia.comment_at_end {body : List Char} (h : '\n' ∉ body) : Trivia [] ('/' :: '/' :: body) := by
  have hcomment : Trivia [] ('/' :: '/' :: body ++ []) := .comment h nofun .nil
  rwa [List.append_nil] at hcomment

inductive StartsTrivia : List Char → Prop
  | blank {c r} (hc : isBlank c) : StartsTrivia (c :: r)
  | comment {r} : StartsTrivia ('/' :: '/' :: r)

namespace Cursor

theorem skip_comment {body : List Char} (hb : '\n' ∉ body) (p : Position) {cs : List Char}
    (hend : ∀ c ∈ cs.head?, c = '\n') : skip true p (body ++ cs) = skip false (p.after body) cs := by
  induction body generalizing p with
  | nil =>
      cases cs with
      | nil => rfl
      | cons c r =>
          obtain rfl : c = '\n' := hend c rfl
          rfl
  | cons c body ih =>
      have hc : c ≠ '\n' := fun h => hb (h ▸ List.mem_cons_self)
      simp only [List.cons_append, skip, if_true, bne_iff_ne.2 hc, Position.after_cons]
      exact ih (fun h => hb (List.mem_cons_of_mem c h)) (p.next c)

theorem skip_trivia {next gap : List Char} (h : Trivia next gap) (p : Position) :
    skip false p (gap ++ next) = skip false (p.after gap) next := by
  induction h generalizing p with
  | nil => rfl
  | @blank c gap hc h ih =>
      simp only [List.cons_append, skip, hc, if_true, Bool.false_eq_true, if_false, Position.after_cons]
      exact ih (p.next c)
  | @comment body gap hb hend h ih =>
      have hopen (r : List Char) : skip false p ('/' :: '/' :: r) = skip true ((p.next '/').next '/') r := rfl
      rw [List.append_assoc, List.cons_append, List.cons_append, hopen, skip_comment hb _ hend, ih]
      rw [List.cons_append, List.cons_append, Position.after_cons, Position.after_cons, Position.after_append]

theorem skip_of_not_startsTrivia {cs : List Char} (h : ¬ StartsTrivia cs) (p : Position) :
    skip false p cs = ⟨p, cs⟩ := by
  cases cs with
  | nil => rfl
  | cons c r =>
      have hblank : isBlank c = false := Bool.eq_false_iff.2 fun hc => h (.blank hc)
      have hslash : (c == '/' && r.head? == some '/') = false := by
        refine Bool.eq_false_iff.2 fun hc => h ?_
        simp only [Bool.and_eq_true, beq_iff_eq, List.head?_eq_some_iff] at hc
        obtain ⟨rfl, r, rfl⟩ := hc
        exact .comment
      simp only [skip, hblank, hslash, Bool.false_eq_true, if_false]

/-- The front of a text up to where neither a blank nor a comment comes next: outside a comment, and
inside one whose end is still to come. -/
theorem split_trivia (cs : List Char) :
    (∃ gap next, cs = gap ++ next ∧ Trivia next gap ∧ ¬ StartsTrivia next) ∧
    ∃ body gap next, cs = body ++ (gap ++ next) ∧ '\n' ∉ body ∧ (∀ c ∈ (gap ++ next).head?, c = '\n') ∧
      Trivia next gap ∧ ¬ StartsTrivia next := by
  -- a slash needs to know how the text behind it goes on inside a comment, so both halves are proved at once
  induction cs with
  | nil =>
      have hend : ¬ StartsTrivia [] := nofun
      exact ⟨⟨[], [], rfl, .nil, hend⟩, [], [], [], rfl, List.not_mem_nil, nofun, .nil, hend⟩
  | cons c r ih =>
      obtain ⟨⟨gap, next, hr, hgap, hstop⟩, body, gap', next', hr', hbody, hhead, hgap', hstop'⟩ := ih
      constructor
      · by_cases hc : isBlank c
        · exact ⟨c :: gap, next, by rw [hr, List.cons_append], .blank hc hgap, hstop⟩
        · by_cases hs : StartsTrivia (c :: r)
          · cases hs with
            | blank h => exact absurd h hc
            | @comment r =>
                cases body with
                | nil =>
                    rw [List.nil_append] at hr'
                    rw [← hr'] at hhead
                    exact absurd (hhead '/' rfl) (by decide)
                | cons d body =>
                    rw [List.cons_append, List.cons.injEq] at hr'
                    obtain ⟨rfl, rfl⟩ := hr'
                    refine ⟨'/' :: '/' :: body ++ gap', next', ?_, ?_, hstop'⟩
                    · rw [List.append_assoc, List.cons_append, List.cons_append]
                    · exact .comment (fun h => hbody (List.mem_cons_of_mem _ h)) hhead hgap'
          · exact ⟨[], c :: r, rfl, .nil, hs⟩
      · by_cases hc : c = '\n'
        · subst hc
          exact ⟨[], '\n' :: gap, next, by rw [hr]; rfl, List.not_mem_nil, by simp, .blank rfl hgap, hstop⟩
        · refine ⟨c :: body, gap', next', by rw [hr', List.cons_append], ?_, hhead, hgap', hstop'⟩
          rw [List.mem_cons, not_or]
          exact ⟨Ne.symm hc, hbody⟩

theorem skipTrivia_eq {k : Cursor} {gap next : List Char} (hrest : k.rest = gap ++ next)
    (hgap : Trivia next gap) (hstop : ¬ StartsTrivia next) :
    k.skipTrivia = ⟨k.position.after gap, next⟩ := by
  rw [skipTrivia, hrest, skip_trivia hgap, skip_of_not_startsTrivia hstop]

theorem skipTrivia_spec (k : Cursor) :
    ∃ gap, k.rest = gap ++ k.skipTrivia.rest ∧ Trivia k.skipTrivia.rest gap ∧
      ¬ StartsTrivia k.skipTrivia.rest ∧ k.skipTrivia.position = k.position.after gap := by
  obtain ⟨gap, next, hrest, hgap, hstop⟩ := (split_trivia k.rest).1
  rw [skipTrivia_eq hrest hgap hstop]
  exact ⟨gap, hrest, hgap, hstop, rfl⟩

end Cursor

/-- Trivia behind which no more comes is the longest at the front of its text. -/
theorem Trivia.length_le {gap next gap' next' : List Char} (hgap : Trivia next gap)
    (hstop : ¬ StartsTrivia next) (hgap' : Trivia next' gap') (h : gap ++ next = gap' ++ next') :
    gap'.length ≤ gap.length := by
  have hskip := Cursor.skip_trivia hgap .start
  rw [Cursor.skip_of_not_startsTrivia hstop, h, Cursor.skip_trivia hgap'] at hskip
  have hle := Cursor.length_rest_skip_le false (Position.start.after gap') next'
  rw [hskip] at hle
  have hlen := congrArg List.length h
  rw [List.length_append, List.length_append] at hlen
  dsimp only at hle
  omega

end ExprLexer
