import ExprLexer.Proofs.Lookup
import ExprLexer.Proofs.Stream

/-!
# The failures of a source

A malformed number and an unknown character are told of at the place where they begin. That place is in some line of
the source, at the column of the failure: `exists_line_of_mem_failures`.
-/
namespace ExprLexer

def Fault.text : Fault → String
  | unrecognised text => text
  | malformedNumber lexeme => lexeme
  | unreadable path _ => path

def malformedNumbers (source : String) : List Failure := (results source).filterMap ScanResult.failure?

/-- All failures of a source: its malformed numbers, and its unknown characters. -/
def failures (source : String) : List Failure :=
  malformedNumbers source ++ (diagnostics source).map Diagnostic.toFailure

theorem mem_malformedNumbers {source : String} {e : Failure} :
    e ∈ malformedNumbers source ↔ .error e ∈ results source := by
  rw [malformedNumbers, List.mem_filterMap]
  constructor
  · rintro ⟨x, hx, he⟩
    cases x with
    | ok t => cases he
    | error e' =>
        cases he
        exact hx
  · intro he
    exact ⟨_, he, rfl⟩

/-- The results of a lexeme and, behind a space, a numeral that is too large. -/
theorem results_before_malformed {x : Lexeme} {cs : List Char} (hx : x.Valid) (hcs : (Lexeme.numeral cs).Valid)
    (hvalue : numeralValue? cs = none) :
    results (String.ofList (x.chars ++ [' '] ++ cs)) =
      [(x.read ⟨.start, Position.start.after x.chars⟩).result,
        .error ⟨.malformedNumber (String.ofList cs), Position.start.after (x.chars ++ [' '])⟩,
        .ok (.endOfInput (Position.start.after (x.chars ++ [' '] ++ cs)))] := by
  have hblank : Trivia (cs ++ []) [' '] := .blank rfl .nil
  have hruns : ¬ x.RunsOn ([' '] ++ (cs ++ [])) := by
    rw [hx.runsOn_trivia_iff hblank nofun]
    rintro ⟨_, hslash⟩
    cases hslash
  have hscans : Scans .start ([] ++ (x.chars ++ ([' '] ++ (cs ++ [])))) _ :=
    .read .nil hx hruns rfl rfl (.read hblank hcs hcs.not_runsOn_nil rfl rfl (.last .nil))
  have hsource : (String.ofList (x.chars ++ [' '] ++ cs)).toList = [] ++ (x.chars ++ ([' '] ++ (cs ++ []))) := by simp
  rw [← hsource] at hscans
  rw [(scans_results _).unique hscans, Position.after_append, Position.after_append, Position.after_append]
  rcases Lexeme.read_numeral cs _ with ⟨value, hsome, _⟩ | ⟨_, hread⟩
  · rw [hvalue] at hsome
    cases hsome
  · rw [hread]
    rfl

/-- A failure whose text begins with `c` and stands behind a front part of a source. -/
structure Failure.LiesAt (e : Failure) (before : List Char) (c : Char) : Prop where
  position : e.position = Position.start.after before
  text : e.fault.text.toList.head? = some c
  notBlank : isBlank c = false

/-- Every result but the end is read from a lexeme at its place. -/
theorem Scans.exists_lexeme {p : Position} {cs : List Char} {xs : List ScanResult} (h : Scans p cs xs) :
    ∀ x ∈ xs, x.isEnd = false → ∃ (before : List Char) (lexeme : Lexeme) (rest : List Char) (stop : Position),
      cs = before ++ (lexeme.chars ++ rest) ∧ lexeme.Valid ∧ x = (lexeme.read ⟨p.after before, stop⟩).result := by
  induction h with
  | last hgap =>
      intro x hx hend
      rw [List.mem_singleton.1 hx] at hend
      cases hend
  | @read p start stop gap rest lexeme xs hgap hvalid hruns hstart hstop h ih =>
      intro x hx hend
      rcases List.mem_cons.1 hx with rfl | hx
      · exact ⟨gap, lexeme, rest, stop, rfl, hvalid, by rw [hstart]⟩
      · obtain ⟨before, lexeme', rest', stop', rfl, hvalid', rfl⟩ := ih x hx hend
        refine ⟨gap ++ (lexeme.chars ++ before), lexeme', rest', stop', ?_, hvalid', ?_⟩
        · simp only [List.append_assoc]
        · rw [Position.after_lexeme hstart hstop]

theorem Lexeme.eq_unknown_of_mem_reports {x : Lexeme} {span : Span} {d : Diagnostic}
    (h : d ∈ (x.read span).result.reports) : x = unknown d.character ∧ d.position = span.start := by
  rw [← reports_read] at h
  refine ⟨?_, position_of_mem_reports h⟩
  cases x with
  | numeral cs =>
      rcases read_numeral cs span with ⟨value, _, hread⟩ | ⟨_, hread⟩
      · rw [hread] at h
        cases h
      · rw [hread] at h
        cases h
  | operator o => cases h
  | word cs => cases h
  | unknown c => rw [List.mem_singleton.1 h]

/-- A text without blanks that stands in a source, behind the characters that a position is behind. -/
def StandsAt (source : String) (p : Position) (text : List Char) : Prop :=
  ∃ before rest, source.toList = before ++ (text ++ rest) ∧ p = Position.start.after before ∧
    text ≠ [] ∧ ∀ c ∈ text, isBlank c = false

theorem StandsAt.not_mem {source : String} {p : Position} {text : List Char} (h : StandsAt source p text) {c : Char}
    (hc : isBlank c) : c ∉ text := by
  obtain ⟨_, _, _, _, _, hblank⟩ := h
  intro hmem
  rw [hblank c hmem] at hc
  cases hc

section Reported

variable {source : String}

theorem standsAt_of_mem_results {x : ScanResult} (hx : x ∈ results source) (hplain : x.isEnd = false) :
    StandsAt source x.start x.lexeme.toList := by
  obtain ⟨before, lexeme, rest, stop, hsource, hvalid, rfl⟩ :=
    (scans_results source).exists_lexeme x hx hplain
  have hshows := hvalid.shows_read ⟨Position.start.after before, stop⟩
  rw [hshows.lexeme_eq, hshows.start_eq, String.toList_ofList]
  exact ⟨before, rest, hsource, rfl, hvalid.ne_nil, hvalid.isBlank_eq_false⟩

theorem standsAt_of_mem_diagnostics {d : Diagnostic} (hd : d ∈ diagnostics source) :
    StandsAt source d.position [d.character] := by
  rw [diagnostics_eq_pieces] at hd
  obtain ⟨x, hx, hd⟩ := List.mem_flatMap.1 hd
  obtain ⟨hx, hplain⟩ := List.mem_filter.1 hx
  obtain ⟨before, lexeme, rest, stop, hsource, hvalid, rfl⟩ :=
    (scans_results source).exists_lexeme x hx ((Bool.not_eq_true' _).mp hplain)
  obtain ⟨rfl, hposition⟩ := Lexeme.eq_unknown_of_mem_reports hd
  exact ⟨before, rest, hsource, hposition, hvalid.ne_nil, hvalid.isBlank_eq_false⟩

theorem standsAt_of_mem_failures {e : Failure} (he : e ∈ failures source) :
    StandsAt source e.position e.fault.text.toList := by
  rcases List.mem_append.1 he with he | he
  · have hstands := standsAt_of_mem_results (mem_malformedNumbers.1 he) rfl
    obtain ⟨fault, p⟩ := e
    cases fault with
    | malformedNumber text => exact hstands
    | _ =>
        obtain ⟨_, _, _, _, hne, _⟩ := hstands
        exact absurd rfl hne
  · obtain ⟨d, hd, rfl⟩ := List.mem_map.1 he
    have htext : d.toFailure.fault.text.toList = [d.character] := String.toList_singleton d.character
    rw [htext]
    exact standsAt_of_mem_diagnostics hd

theorem exists_liesAt {e : Failure} (he : e ∈ failures source) :
    ∃ before c rest, source.toList = before ++ c :: rest ∧ e.LiesAt before c := by
  obtain ⟨before, rest, hsource, hposition, hne, hblank⟩ := standsAt_of_mem_failures he
  obtain ⟨c, more, htext⟩ := List.exists_cons_of_ne_nil hne
  rw [htext] at hsource hblank
  exact ⟨before, c, more ++ rest, hsource, hposition, congrArg List.head? htext, hblank c List.mem_cons_self⟩

end Reported

/-- A failure lies on the line that is found for its offset. The first character of its text is behind those that its
column counts, if there are few enough to be counted. -/
theorem exists_line_of_mem_failures {source : String} {e : Failure} (he : e ∈ failures source) :
    ∃ (line : Line) (before : List Char) (c : Char) (after : List Char),
      lineAt? source e.position.offset = some line ∧ line.chars = before ++ c :: after ∧
      line.offset = utf8Length before ∧ e.fault.text.toList.head? = some c ∧ isBlank c = false ∧
      line.number ≤ 1 + source.length ∧
      (source.length ≤ 2 ^ 32 - 2 → e.position.column.toNat = before.length + 1) := by
  obtain ⟨before, c, rest, hsource, hplace⟩ := exists_liesAt he
  have hline : '\n' ∉ [c] := by
    intro hnewline
    rw [← List.mem_singleton.1 hnewline] at hplace
    cases hplace.notBlank
  have hlength := congrArg List.length hsource
  rw [String.length_toList, List.length_append, List.length_cons] at hlength
  have hfound := lineAt?_of_text hsource (List.cons_ne_nil c []) hline
  rw [← hplace.position] at hfound
  refine ⟨_, lastLine before, c, firstLine rest, hfound, rfl, rfl, hplace.text, hplace.notBlank, ?_, ?_⟩
  · have hcount := List.count_le_length (a := '\n') (l := before)
    dsimp only
    omega
  · intro hlen
    rw [hplace.position, (Position.marks_after (by omega)).column, Nat.add_comm]

end ExprLexer
