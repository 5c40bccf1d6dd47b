import Mathlib.Data.List.Nodup
import ExprLexer.Proofs.Listing

/-!
# Reading a listing back

A token's line in a listing determines its kind, its text and its place: `Token.listing_inj`. No text of a token holds
a newline, so the lines of a listing are those of its tokens: `CommandLine.listing_readable`.
-/
namespace ExprLexer

/-! ## One line -/

theorem Keyword.mem_all (k : Keyword) : k ∈ all := by
  cases k <;> decide

namespace TokenKind

theorem mem_all (k : TokenKind) : k ∈ all := by
  cases k with
  | operator o =>
      apply List.mem_append_left
      exact List.mem_append_right _ (List.mem_map_of_mem o.mem_all)
  | keyword k => exact List.mem_append_right _ (List.mem_map_of_mem k.mem_all)
  | _ => decide

theorem name_injective : Function.Injective name := by
  have hnodup : (all.map name).Nodup := by decide
  intro k k' h
  exact List.inj_on_of_nodup_map hnodup (mem_all k) (mem_all k') h

/-- Names are made of letters. -/
theorem not_mem_name {c : Char} (h : c.isAlpha = false) (k : TokenKind) : c ∉ k.name.toList := by
  have hall : ∀ k ∈ all, k.name.toList.all Char.isAlpha := by decide
  intro hc
  have hletter := List.all_eq_true.1 (hall k (mem_all k)) c hc
  rw [h] at hletter
  cases hletter

end TokenKind

namespace Token

/-- What a listing shows of a token: its kind, its text, its line and its column. -/
def shown (t : Token) : TokenKind × String × UInt32 × UInt32 :=
  (t.kind, t.lexeme, t.start.line, t.start.column)

theorem toList_listing (t : Token) : t.listing.toList =
    t.kind.name.toList ++
      '\t' :: ('\'' :: (t.lexeme.toList ++ ['\'', '\t']) ++ '(' :: (t.start.text.toList ++ [')'])) := by
  simp [listing]

/-- The kind ends at the first tab and the place begins at the last parenthesis, whatever the text of the token. -/
theorem listing_inj {t u : Token} : t.listing = u.listing ↔ t.shown = u.shown := by
  have htab (k : TokenKind) : '\t' ∉ k.name.toList := k.not_mem_name (by decide)
  have hplace (p : Position) : '(' ∉ p.text.toList ++ [')'] :=
    List.not_mem_append (p.not_mem_text (by decide) (by decide)) (by decide)
  constructor
  · intro h
    have hlines := congrArg String.toList h
    rw [toList_listing, toList_listing] at hlines
    obtain ⟨hname, hbehind⟩ := (append_cons_inj_first (htab t.kind) (htab u.kind)).1 hlines
    obtain ⟨hquoted, hplaces⟩ := (append_cons_inj_last (hplace t.start) (hplace u.start)).1 hbehind
    have hkind : t.kind = u.kind := TokenKind.name_injective (String.toList_injective hname)
    have hlexeme : t.lexeme = u.lexeme :=
      String.toList_injective (List.append_cancel_right (List.tail_eq_of_cons_eq hquoted))
    have hstart : t.start.text = u.start.text := String.toList_injective (List.append_cancel_right hplaces)
    obtain ⟨hline, hcolumn⟩ := Position.text_inj.1 hstart
    simp only [shown, hkind, hlexeme, hline, hcolumn]
  · intro h
    obtain ⟨hkind, hlexeme, hplaces⟩ : t.kind = u.kind ∧ t.lexeme = u.lexeme ∧
        t.start.line = u.start.line ∧ t.start.column = u.start.column := by simpa [shown] using h
    simp only [listing, hkind, hlexeme, Position.text_inj.2 hplaces]

theorem map_shown_of_listing {ts us : List Token}
    (h : ts.map (·.listing.toList) = us.map (·.listing.toList)) : ts.map shown = us.map shown := by
  rw [← List.forall₂_eq_eq_eq, List.forall₂_map_left_iff, List.forall₂_map_right_iff] at h ⊢
  refine h.imp ?_
  intro t u hline
  exact listing_inj.1 (String.toList_inj.1 hline)

theorem newline_not_mem_listing {t : Token} (h : '\n' ∉ t.lexeme.toList) : '\n' ∉ t.listing.toList := by
  have hname : '\n' ∉ t.kind.name.toList := t.kind.not_mem_name (by decide)
  have hplace : '\n' ∉ t.start.text.toList := t.start.not_mem_text (by decide) (by decide)
  simp [toList_listing, hname, hplace, h]

end Token

/-! ## All lines -/

def tokens (source : String) : List Token :=
  ((results source).filterMap ScanResult.token?).filter (·.kind != .endOfInput)

theorem mem_tokens {source : String} {t : Token} :
    t ∈ tokens source ↔ .ok t ∈ results source ∧ t.kind ≠ .endOfInput := by
  rw [tokens, List.mem_filter, List.mem_filterMap, bne_iff_ne]
  apply and_congr_left'
  constructor
  · rintro ⟨x, hx, ht⟩
    cases x with
    | ok u =>
        cases ht
        exact hx
    | error e => cases ht
  · intro ht
    exact ⟨_, ht, rfl⟩

theorem not_mem_lexeme {source : String} {t : Token} (ht : .ok t ∈ results source) {c : Char} (hc : isBlank c) :
    c ∉ t.lexeme.toList := by
  rw [results_eq, List.mem_append, List.mem_singleton] at ht
  rcases ht with ht | ht
  · obtain ⟨hresult, hplain⟩ := List.mem_filter.1 ht
    exact (standsAt_of_mem_results hresult ((Bool.not_eq_true' _).mp hplain)).not_mem hc
  · cases ht
    nofun

namespace CommandLine

theorem fits_of_exitCode_ne {path source : String} (h : (list path source).exitCode ≠ 101) :
    ∀ e, .error e ∈ results source → e.Fits source := by
  obtain ⟨ws, code, hlists, hlist⟩ := list_lists path source
  rw [hlist] at h
  rcases hlists.ends with ⟨hfits, _⟩ | ⟨_, _, hcode⟩
  · exact hfits
  · exact absurd hcode h

/-- The lines of a listing: its path between signs, its tokens and the end, with a newline behind the last line. -/
theorem splitOn_stdout {path source : String} (h : (list path source).exitCode ≠ 101) :
    (list path source).stdout.toList.splitOn '\n' =
      ("=== Lexical Analysis of " ++ path ++ " ===").toList.splitOn '\n' ++
        ((tokens source).map (·.listing.toList) ++ ["=== End of Tokens ===".toList, []]) := by
  have hrows : ∀ row ∈ (tokens source).map (·.listing.toList), '\n' ∉ row := by
    intro row hrow
    obtain ⟨t, ht, rfl⟩ := List.mem_map.1 hrow
    exact Token.newline_not_mem_listing (not_mem_lexeme (mem_tokens.1 ht).1 (by decide))
  have hstdout : (list path source).stdout.toList =
      ("=== Lexical Analysis of " ++ path ++ " ===").toList ++ '\n' ::
        (((tokens source).map (·.listing.toList)).flatMap (· ++ ['\n']) ++
          ("=== End of Tokens ===".toList ++ '\n' :: [])) := by
    rw [stdout_list path (fits_of_exitCode_ne h)]
    simp [listings, tokens, List.flatMap_map]
  rw [hstdout, List.splitOn_append_cons_self, splitOn_rows hrows, splitOn_append_newline (by decide)]
  rfl

/-- What is listed of the tokens of a source can be read off the listing. Each token has a line of its own there, and
a line shows what is shown of one token only, scanned or not. -/
theorem listing_readable :
    (∀ path source source' : String, (list path source).exitCode ≠ 101 → (list path source').exitCode ≠ 101 →
      (list path source).stdout = (list path source').stdout →
      (tokens source).map Token.shown = (tokens source').map Token.shown) ∧
    (∀ path source : String, (list path source).exitCode ≠ 101 →
      (list path source).stdout.toList.splitOn '\n' =
        ("=== Lexical Analysis of " ++ path ++ " ===").toList.splitOn '\n' ++
          ((tokens source).map (·.listing.toList) ++ ["=== End of Tokens ===".toList, []])) ∧
    (∀ (source : String) (t : Token), .ok t ∈ results source →
      '\n' ∉ t.lexeme.toList ∧ '\t' ∉ t.lexeme.toList ∧ '\n' ∉ t.listing.toList) ∧
    ∀ t u : Token, t.listing = u.listing ↔ t.shown = u.shown := by
  refine ⟨?_, ?_, ?_, ?_⟩
  · intro path source source' h h' hstdout
    have hlines := splitOn_stdout h
    rw [hstdout, splitOn_stdout h', List.append_right_inj, List.append_left_inj] at hlines
    exact Token.map_shown_of_listing hlines.symm
  · intro path source h
    exact splitOn_stdout h
  · intro source t ht
    have hnewline := not_mem_lexeme ht (show isBlank '\n' by decide)
    exact ⟨hnewline, not_mem_lexeme ht (by decide), Token.newline_not_mem_listing hnewline⟩
  · intro t u
    exact Token.listing_inj

theorem listing_readable_two_spellings :
    (list "f" "a b").exitCode ≠ 101 ∧ (list "f" "a\tb").exitCode ≠ 101 ∧
    (list "f" "a b").stdout = (list "f" "a\tb").stdout ∧
    (tokens "a b").map Token.shown = (tokens "a\tb").map Token.shown ∧
    (list "f" "a b").stdout.toList.splitOn '\n' =
      ["=== Lexical Analysis of f ===".toList, "Identifier\t'a'\t(1:1)".toList, "Identifier\t'b'\t(1:3)".toList,
        "=== End of Tokens ===".toList, []] := by
  have h : (list "f" "a b").exitCode ≠ 101 := by decide +kernel
  have h' : (list "f" "a\tb").exitCode ≠ 101 := by decide +kernel
  have hstdout : (list "f" "a b").stdout = (list "f" "a\tb").stdout := by decide +kernel
  refine ⟨h, h', hstdout, listing_readable.1 "f" "a b" "a\tb" h h' hstdout, ?_⟩
  exact (listing_readable.2.1 "f" "a b" h).trans (by decide +kernel)

end CommandLine
end ExprLexer
