import Mathlib.Tactic.SplitIfs
import ExprLexer.Failure
import ExprLexer.Proofs.Separators

/-!
# Messages tell faults apart

A quoted character is read off the front of any text, so a quoted text is quoted in one way only: `quoted_injective`.
The message of a failure determines its fault, up to the reason why a file could not be read, and its line and column:
`Failure.message_eq_iff`.
-/
namespace ExprLexer

/-! ## Code points -/

/-- The value of a hexadecimal digit; those behind 9 are small letters. -/
def hexDigitValue (c : Char) : Nat := if c.isDigit then c.toNat - '0'.toNat else c.toNat - 'a'.toNat + 10

def hexValue (cs : List Char) : Nat := cs.foldl (fun n c => 16 * n + hexDigitValue c) 0

theorem hexDigitValue_digitChar {d : Nat} (h : d < 16) : hexDigitValue d.digitChar = d := by
  revert d
  decide

/-- A number is one digit, or the digits of a sixteenth of it and one more. -/
theorem hexDigits_induction {P : Nat → List Char → Prop} (last : ∀ d < 16, P d [d.digitChar])
    (more : ∀ n d, d < 16 → P n (Nat.toDigits 16 n) → P (16 * n + d) (Nat.toDigits 16 n ++ [d.digitChar])) (n : Nat) :
    P n (Nat.toDigits 16 n) := by
  induction n using Nat.strongRecOn with
  | ind n ih =>
      rw [Nat.toDigits_eq_if (by decide)]
      split
      next hn => exact last n hn
      next hn =>
        have hquotient := ih (n / 16) (Nat.div_lt_self (by omega) (by decide))
        have hdigits := more (n / 16) (n % 16) (Nat.mod_lt n (by decide)) hquotient
        rwa [Nat.div_add_mod] at hdigits

theorem hexValue_toDigits (n : Nat) : hexValue (Nat.toDigits 16 n) = n := by
  refine hexDigits_induction (P := fun n cs => hexValue cs = n) ?_ ?_ n
  · intro d hd
    exact (Nat.zero_add _).trans (hexDigitValue_digitChar hd)
  · intro n d hd hread
    unfold hexValue at hread ⊢
    rw [List.foldl_append, hread, List.foldl_cons, List.foldl_nil, hexDigitValue_digitChar hd]

theorem brace_not_mem_toDigits (n : Nat) : '}' ∉ Nat.toDigits 16 n := by
  have hdigit : ∀ d < 16, '}' ∉ [d.digitChar] := by decide
  refine hexDigits_induction (P := fun _ cs => '}' ∉ cs) hdigit ?_ n
  intro n d hd hrest
  exact List.not_mem_append hrest (hdigit d hd)

/-! ## Quoted texts -/

/-- Reads one quoted character off the front of a text. -/
def readQuoted? : List Char → Option (Char × List Char)
  | '\\' :: 't' :: cs => some ('\t', cs)
  | '\\' :: 'n' :: cs => some ('\n', cs)
  | '\\' :: 'r' :: cs => some ('\r', cs)
  | '\\' :: '0' :: cs => some ('\x00', cs)
  | '\\' :: 'u' :: '{' :: cs =>
      some (Char.ofNat (hexValue (cs.takeWhile (· != '}'))), (cs.dropWhile (· != '}')).tail)
  | '\\' :: c :: cs => some (c, cs)
  | c :: cs => some (c, cs)
  | [] => none

theorem readQuoted?_codeEscape (c : Char) (rest : List Char) :
    readQuoted? (codeEscape c ++ rest) = some (c, rest) := by
  have hescape : codeEscape c ++ rest = '\\' :: 'u' :: '{' :: (Nat.toDigits 16 c.toNat ++ '}' :: rest) := by
    simp [codeEscape]
  have hdigits : ∀ d ∈ Nat.toDigits 16 c.toNat, (d != '}') = true := by
    intro d hd
    exact bne_iff_ne.2 (ne_of_mem_of_not_mem hd (brace_not_mem_toDigits _))
  rw [hescape, readQuoted?, List.takeWhile_append_of_pos hdigits, List.dropWhile_append_of_pos hdigits]
  simp [hexValue_toDigits]

theorem readQuoted?_cons {c : Char} (h : c ≠ '\\') (rest : List Char) : readQuoted? (c :: rest) = some (c, rest) := by
  rw [readQuoted?]
  all_goals simp [h]

theorem readQuoted?_append (c : Char) (rest : List Char) : readQuoted? (quotedChar c ++ rest) = some (c, rest) := by
  unfold quotedChar
  split_ifs with hsign htab hnewline hreturn hnull hinvisible
  · rcases hsign with rfl | rfl <;> rfl
  · subst htab
    rfl
  · subst hnewline
    rfl
  · subst hreturn
    rfl
  · subst hnull
    rfl
  · exact readQuoted?_codeEscape c rest
  · exact readQuoted?_cons (fun h => hsign (.inr h)) rest

/-- What is written for one character is not the beginning of what is written for another. -/
theorem quotedChar_append_inj {c d : Char} {rest rest' : List Char}
    (h : quotedChar c ++ rest = quotedChar d ++ rest') : c = d ∧ rest = rest' := by
  have hread := congrArg readQuoted? h
  rw [readQuoted?_append, readQuoted?_append] at hread
  exact Prod.mk.inj (Option.some.inj hread)

theorem quotedChar_ne_nil (c : Char) : quotedChar c ≠ [] := by
  intro h
  have hread := readQuoted?_append c []
  rw [h] at hread
  cases hread

theorem flatMap_quotedChar_injective : Function.Injective (List.flatMap quotedChar) := by
  intro cs
  induction cs with
  | nil =>
      intro ds h
      cases ds with
      | nil => rfl
      | cons d ds => exact absurd (List.append_eq_nil_iff.1 h.symm).1 (quotedChar_ne_nil d)
  | cons c cs ih =>
      intro ds h
      cases ds with
      | nil => exact absurd (List.append_eq_nil_iff.1 h).1 (quotedChar_ne_nil c)
      | cons d ds =>
          obtain ⟨rfl, hrest⟩ := quotedChar_append_inj h
          rw [ih hrest]

theorem quoted_injective : Function.Injective quoted := by
  intro s s' h
  have hbody := List.append_cancel_right (List.tail_eq_of_cons_eq (String.ofList_injective h))
  exact String.toList_injective (flatMap_quotedChar_injective hbody)

example : quoted "\n" = "\"\\n\"" ∧ quoted "\\n" = "\"\\\\n\"" := by decide

/-! ## Messages -/

/-- Faults of one kind with one text. Why a file cannot be read is left open. -/
inductive Fault.Alike : Fault → Fault → Prop
  | unrecognised (text) : Alike (.unrecognised text) (.unrecognised text)
  | malformedNumber (lexeme) : Alike (.malformedNumber lexeme) (.malformedNumber lexeme)
  | unreadable (path reason reason') : Alike (.unreadable path reason) (.unreadable path reason')

namespace Fault

theorem message_unrecognised (text : String) : (unrecognised text).message = "unrecognised token: " ++ quoted text :=
  rfl

theorem message_malformedNumber (lexeme : String) :
    (malformedNumber lexeme).message = "malformed number literal: " ++ quoted lexeme := rfl

theorem message_unreadable (path reason : String) :
    (unreadable path reason).message = "cannot open file '" ++ path ++ "'" := rfl

theorem message_eq_iff_alike {f f' : Fault} : f.message = f'.message ↔ f.Alike f' := by
  constructor
  · intro h
    have hfirst := congrArg (fun s => s.toList.head?) h
    cases f <;> cases f'
    case unrecognised.unrecognised text text' =>
      rw [message_unrecognised, message_unrecognised, String.append_right_inj] at h
      obtain rfl := quoted_injective h
      exact .unrecognised text
    case malformedNumber.malformedNumber lexeme lexeme' =>
      rw [message_malformedNumber, message_malformedNumber, String.append_right_inj] at h
      obtain rfl := quoted_injective h
      exact .malformedNumber lexeme
    case unreadable.unreadable path reason path' reason' =>
      rw [message_unreadable, message_unreadable, String.append_left_inj, String.append_right_inj] at h
      obtain rfl := h
      exact .unreadable path reason reason'
    -- Messages of different kinds differ in their first letters.
    all_goals simp [message_unrecognised, message_malformedNumber, message_unreadable] at hfirst
  · rintro (_ | _ | _) <;> rfl

end Fault

theorem Failure.toList_message (e : Failure) :
    e.message.toList = (e.fault.message.toList ++ [' ', 'a', 't']) ++ ' ' :: e.position.text.toList := by
  simp [message]

/-- The position begins behind the last space of a message, whatever the texts of the fault are. -/
theorem Failure.message_eq_iff (e e' : Failure) :
    e.message = e'.message ↔
      e.fault.Alike e'.fault ∧ e.position.line = e'.position.line ∧ e.position.column = e'.position.column := by
  have hspace (p : Position) : ' ' ∉ p.text.toList := p.not_mem_text (by decide) (by decide)
  rw [← Fault.message_eq_iff_alike, ← Position.text_inj]
  constructor
  · intro h
    have hmessages := congrArg String.toList h
    rw [toList_message, toList_message] at hmessages
    obtain ⟨hfaults, hplaces⟩ := (append_cons_inj_last (hspace e.position) (hspace e'.position)).1 hmessages
    exact ⟨String.toList_injective (List.append_cancel_right hfaults), String.toList_injective hplaces⟩
  · rintro ⟨hfault, hplace⟩
    rw [message, message, hfault, hplace]

end ExprLexer
