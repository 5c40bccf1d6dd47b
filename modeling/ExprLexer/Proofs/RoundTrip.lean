import ExprLexer.Proofs.Bytes
import ExprLexer.Proofs.Clashes
import ExprLexer.Proofs.Session

/-!
# Printing and reading back

Tokens printed with trivia between them are read back as they were printed, each at its own place, exactly
if no two of them clash. Any spelling of any kind may be printed.
-/
namespace ExprLexer

/-- A token to be printed, with the trivia in front of it. -/
structure Item where
  gap : List Char
  kind : TokenKind
  text : List Char
  closed : ClosedTrivia gap
  spelling : Spelling kind text

/-- Items to be printed one after the other, with the trivia behind the last one; a comment there may run to
the end. -/
structure Printout where
  items : List Item
  tail : List Char
  closed : Trivia [] tail

def printed (tail : List Char) : List Item → List Char
  | [] => tail
  | i :: items => i.gap ++ (i.text ++ printed tail items)

/-- Two items of which the first is not read back if the second comes next. -/
def Collide (i j : Item) : Prop :=
  i.kind.OpensComment j.gap ∨ j.gap = [] ∧ Clash i.kind i.text j.kind j.text

/-- No two neighbours collide, and the last token makes no comment of the trivia behind it. -/
def Apart (items : List Item) (tail : List Char) : Prop :=
  items.IsChain (fun i j => ¬ Collide i j) ∧ ∀ i ∈ items.getLast?, ¬ i.kind.OpensComment tail

/-- Results that show printed items one by one, each where it was printed, and then the end. The text of the
items begins at an offset. -/
inductive Echoes (tail : List Char) : Nat → List Item → List ScanResult → Prop
  | last {offset p} (hp : p.offset = offset + utf8Length tail) :
      Echoes tail offset [] [.ok (.endOfInput p)]
  | item {offset start i items} {x : ScanResult} {xs} (hstart : start.offset = offset + utf8Length i.gap)
      (hx : x.Shows i.kind i.text start)
      (hxs : Echoes tail (start.offset + utf8Length i.text) items xs) :
      Echoes tail offset (i :: items) (x :: xs)

/-- The lexeme that the scanner has to find for an item. -/
structure Item.Wants (i : Item) (x : Lexeme) : Prop where
  valid : x.Valid
  kind : x.kind = i.kind
  chars : x.chars = i.text

theorem Item.exists_wants (i : Item) : ∃ x, i.Wants x := by
  obtain ⟨x, hx, hkind, hchars⟩ := Lexeme.exists_of_spelling i.spelling
  exact ⟨x, hx, hkind, hchars⟩

theorem Item.Wants.runsOn_iff {i j : Item} {x y : Lexeme} (hx : i.Wants x) (hy : j.Wants y) (more : List Char) :
    x.RunsOn (j.gap ++ (j.text ++ more)) ↔ Collide i j := by
  rw [Collide, ← hx.kind, ← hx.chars, ← hy.kind, ← hy.chars]
  cases hgap : j.gap with
  | nil =>
      rw [List.nil_append, hx.valid.runsOn_lexeme_iff hy.valid]
      constructor
      · intro h
        exact .inr ⟨rfl, h⟩
      · rintro (⟨_, h⟩ | ⟨_, h⟩)
        · cases h
        · exact h
  | cons c gap =>
      have hclosed := j.closed.trivia []
      rw [hgap] at hclosed
      rw [hx.valid.runsOn_trivia_iff hclosed nofun]
      constructor
      · exact .inl
      · rintro (h | ⟨h, _⟩)
        · exact h
        · cases h

theorem Item.Wants.apart_cons {i : Item} {x : Lexeme} (hx : i.Wants x) {tail : List Char}
    (htail : Trivia [] tail) (items : List Item) :
    Apart (i :: items) tail ↔ ¬ x.RunsOn (printed tail items) ∧ Apart items tail := by
  cases items with
  | nil =>
      have hruns : x.RunsOn (tail ++ []) ↔ _ := hx.valid.runsOn_trivia_iff htail fun _ => rfl
      rw [List.append_nil, hx.kind] at hruns
      rw [printed, hruns]
      constructor
      · rintro ⟨_, h⟩
        exact ⟨h i rfl, .nil, nofun⟩
      · rintro ⟨h, _⟩
        exact ⟨.singleton i, fun j hj => Option.some.inj hj ▸ h⟩
  | cons j items =>
      obtain ⟨y, hy⟩ := j.exists_wants
      rw [printed, hx.runsOn_iff hy, Apart, Apart, List.isChain_cons_cons, List.getLast?_cons_cons, and_assoc]

namespace Lexer

variable {σ : Type} [Sink σ]

theorem next_of_not_runsOn {l : Lexer σ} {x : Lexeme} {gap more : List Char}
    (hrest : l.cursor.rest = gap ++ (x.chars ++ more)) (hgap : ClosedTrivia gap) (hx : x.Valid)
    (h : ¬ x.RunsOn more) :
    let start := l.cursor.position.after gap
    l.next.1.Shows x.kind x.chars start ∧ l.next.1.isEnd = false ∧
      l.next.2.cursor = ⟨start.after x.chars, more⟩ := by
  intro start
  obtain ⟨hstop, hgrow⟩ := not_or.1 h
  have hstep : l.Step (x.read ⟨start, start.after x.chars⟩).result _ :=
    .read hrest (hgap.trivia _) hstop hx (fun d hd hg => hgrow ⟨d, hd, hg⟩) rfl rfl
  rw [hstep.next_eq]
  exact ⟨hx.shows_read _, x.isEnd_result_read _, rfl⟩

theorem not_runsOn_of_shows {l : Lexer σ} {x : Lexeme} {gap more : List Char} {start : Position}
    (hrest : l.cursor.rest = gap ++ (x.chars ++ more)) (hx : x.Valid)
    (hshows : l.next.1.Shows x.kind x.chars start)
    (hstart : start.offset = l.cursor.position.offset + utf8Length gap) : ¬ x.RunsOn more := by
  have hstep := l.step_next
  generalize l.next.1 = r at *
  generalize l.next.2 = l' at *
  cases hstep with
  | finish hgap =>
      have hkind : TokenKind.endOfInput = x.kind := hshows.1
      have hend : Spelling .endOfInput x.chars := hkind ▸ hx
      cases hend
  | @read gap' y rest hrest' hgap' hstop hy hgrow start' stop hstart' hend =>
      have hshows' := hy.shows_read ⟨start', stop⟩
      have htext := hshows.lexeme_eq.symm.trans hshows'.lexeme_eq
      have hchars : x.chars = y.chars := String.ofList_injective htext
      obtain rfl := hx.eq_of_chars hy hchars
      have hplace : start = start' := hshows.start_eq.symm.trans hshows'.start_eq
      rw [hplace, hstart', Position.after_offset, Nat.add_left_cancel_iff] at hstart
      obtain ⟨_, hbehind⟩ := prefix_eq_of_utf8Length_eq (hrest'.symm.trans hrest) hstart
      obtain rfl := List.append_cancel_left hbehind
      rintro (h | ⟨d, hd, h⟩)
      · exact hstop h
      · exact hgrow d hd h

theorem ReadsThrough.echoes_nil {tail : List Char} (htail : Trivia [] tail) {l l' : Lexer σ}
    {xs : List ScanResult} (h : ReadsThrough (fun _ => false) l xs l') (hrest : l.cursor.rest = tail) :
    Echoes tail l.cursor.position.offset [] xs := by
  have hstep : l.Step _ _ := .finish (hrest ▸ htail)
  have hnext := hstep.next_eq
  cases h with
  | last h hx =>
      cases h.symm.trans hnext
      rw [hrest]
      exact .last (Position.after_offset _ _)
  | more h hx hxs =>
      cases h.symm.trans hnext
      cases hx

theorem ReadsThrough.echoes_iff {tail : List Char} (htail : Trivia [] tail) (items : List Item)
    {l l' : Lexer σ} {xs : List ScanResult} (h : ReadsThrough (fun _ => false) l xs l')
    (hrest : l.cursor.rest = printed tail items) :
    Echoes tail l.cursor.position.offset items xs ↔ Apart items tail := by
  induction items generalizing l xs with
  | nil =>
      have happart : Apart [] tail := ⟨.nil, nofun⟩
      exact iff_of_true (h.echoes_nil htail hrest) happart
  | cons i items ih =>
      obtain ⟨x, hx⟩ := i.exists_wants
      rw [printed, ← hx.chars] at hrest
      rw [hx.apart_cons htail]
      -- both sides say that the first item is read as it is, and only then does the run go on behind it
      constructor
      · intro hechoes
        cases h with
        | last h hend =>
            cases hechoes with
            | item hstart hshows hxs => cases hxs
        | @more _ m _ r xs h hend hxs =>
            cases hechoes with
            | item hstart hshows hechoes =>
                rw [← hx.kind, ← hx.chars] at hshows
                rw [← hx.chars] at hechoes
                have hruns := not_runsOn_of_shows hrest hx.valid (by rw [h]; exact hshows) hstart
                obtain ⟨_, _, hcursor⟩ := next_of_not_runsOn hrest i.closed hx.valid hruns
                rw [h] at hcursor
                refine ⟨hruns, (ih hxs (by rw [hcursor])).1 ?_⟩
                rw [hcursor, Position.after_offset, Position.after_offset, ← hstart]
                exact hechoes
      · rintro ⟨hruns, happart⟩
        obtain ⟨hshows, hend, hcursor⟩ := next_of_not_runsOn hrest i.closed hx.valid hruns
        cases h with
        | last h hlast =>
            rw [h] at hend
            rw [hend] at hlast
            cases hlast
        | @more _ m _ r xs h hgo hxs =>
            rw [h] at hshows hcursor
            have hoffset := Position.after_offset l.cursor.position i.gap
            have hechoes := (ih hxs (by rw [hcursor])).2 happart
            rw [hcursor, Position.after_offset, hx.chars] at hechoes
            rw [hx.kind, hx.chars] at hshows
            exact .item hoffset hshows hechoes

/-- A printout is read back as it was printed, kind by kind and text by text at the places where they stand,
exactly if its items are apart. -/
theorem drain_printed_iff (p : Printout) (sink : σ) :
    Echoes p.tail 0 p.items (ofSource (String.ofList (printed p.tail p.items)) sink).drain.1.toList ↔
      Apart p.items p.tail := by
  let l := ofSource (String.ofList (printed p.tail p.items)) sink
  have hrun := readsThrough_readThrough (fun _ => false) l
  exact hrun.echoes_iff p.closed p.items String.toList_ofList

end Lexer

/-- Tokens of all classes with a comment between two of them, and one behind the last that runs to the end. -/
def Printout.commented : Printout where
  items := [
    ⟨[], .identifier, ['x'], .nil, .identifier rfl (List.forall_mem_nil _) fun k => by cases k <;> decide⟩,
    ⟨[], .operator .assign, ['='], .nil, .operator .assign⟩,
    ⟨[], .number, ['1', '.', '5'], .nil,
      .number (@Numeral.point ['1'] ['5'] (List.all_eq_true.1 rfl) (List.all_eq_true.1 rfl)
        (.inl (List.cons_ne_nil _ _)))⟩,
    ⟨[' ', '/', '/', ' ', 'c', '\n'], .keyword .ifWord, ['i', 'f'],
      .blank rfl (@ClosedTrivia.comment [' ', 'c'] [] (by decide) .nil), .keyword .ifWord⟩,
    ⟨[], .unknown, ['@'], .nil, .unknown ⟨rfl, rfl, fun o => by cases o <;> decide⟩⟩,
    ⟨[], .number, ['.', '5'], .nil, .number
      (@Numeral.point [] ['5'] (List.forall_mem_nil _) (List.all_eq_true.1 rfl) (.inr (List.cons_ne_nil _ _)))⟩]
  tail := ['/', '/', 'e', 'n', 'd']
  closed := .comment_at_end (by decide)

theorem Printout.apart_commented : Apart commented.items commented.tail := by
  constructor
  · simp only [commented, List.isChain_cons_cons, Collide, TokenKind.OpensComment]
    refine ⟨?_, ?_, ?_, ?_, ?_, .singleton _⟩ <;> grind only [cases Clash, cases TokenKind.IsWord]
  · rintro i hi ⟨hkind, _⟩
    cases hi
    cases hkind

theorem Lexer.drain_printed_commented :
    let p := Printout.commented
    String.ofList (printed p.tail p.items) = "x=1.5 // c\nif@.5//end" ∧ Apart p.items p.tail ∧
      Echoes p.tail 0 p.items (ofSource "x=1.5 // c\nif@.5//end" ()).drain.1.toList := by
  intro p
  have hprinted : String.ofList (printed p.tail p.items) = "x=1.5 // c\nif@.5//end" := by decide
  have hechoes := (drain_printed_iff p ()).2 Printout.apart_commented
  rw [hprinted] at hechoes
  exact ⟨hprinted, Printout.apart_commented, hechoes⟩

end ExprLexer
