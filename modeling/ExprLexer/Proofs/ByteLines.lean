import ExprLexer.Proofs.Lookup

/-!
# Lines in bytes

An offset may point at any byte of a source, also into a character or at a newline. The line that is found for it is
the one whose bytes lie around that byte: `lineAt?_exact`.
-/
namespace ExprLexer

def bytes (s : String) : List UInt8 := s.toUTF8.data.toList

def newlineByte : UInt8 := 0x0a

def Line.text (line : Line) : String := String.ofList line.chars

/-- The bytes from `start` up to `stop` are a line of a text: they begin the text or follow a newline, no byte but the
last is a newline, and the text ends with them unless the last one is. -/
structure IsLineIn (bs : List UInt8) (start stop : Nat) : Prop where
  start_lt : start < stop
  stop_le : stop ≤ bs.length
  opens : start = 0 ∨ bs[start - 1]? = some newlineByte
  inner : ∀ i, start ≤ i → i + 1 < stop → bs[i]? ≠ some newlineByte
  closes : stop = bs.length ∨ bs[stop - 1]? = some newlineByte

/-- A line that a source has around the byte at `offset`, and the place of that byte in it. -/
structure Line.Surrounds (line : Line) (source : String) (offset : Nat) : Prop where
  number : line.number = 1 + ((bytes source).take offset).count newlineByte
  offset_le : line.offset ≤ offset
  offset_lt : line.offset < line.text.utf8ByteSize
  text : bytes line.text =
    (bytes source).extract (offset - line.offset) (offset - line.offset + line.text.utf8ByteSize)
  isLine : IsLineIn (bytes source) (offset - line.offset) (offset - line.offset + line.text.utf8ByteSize)

/-! ## Newlines among bytes -/

theorem newlineByte_eq_ofNat {n : Nat} : newlineByte = UInt8.ofNat n ↔ n % 256 = 10 := by
  rw [← UInt8.toNat_inj, UInt8.toNat_ofNat', eq_comm]
  rfl

/-- The bytes of other characters are never newlines, whichever byte of a character an offset points at. -/
theorem newlineByte_mem_utf8EncodeChar {c : Char} : newlineByte ∈ String.utf8EncodeChar c ↔ c = '\n' := by
  have hc : c = '\n' ↔ c.val.toNat = 10 := by
    rw [← Char.toNat_inj]
    rfl
  rw [hc, String.utf8EncodeChar.eq_def]
  generalize c.val.toNat = n
  dsimp only
  split_ifs <;> simp only [List.mem_cons, List.not_mem_nil, newlineByte_eq_ofNat, or_false]
  all_goals omega

theorem bytes_ofList (cs : List Char) : bytes (String.ofList cs) = cs.flatMap String.utf8EncodeChar := by
  rw [bytes, String.toUTF8_eq_toByteArray, String.toByteArray_ofList, List.utf8Encode, List.data_toByteArray]

theorem bytes_ofList_append (cs ds : List Char) :
    bytes (String.ofList (cs ++ ds)) = bytes (String.ofList cs) ++ bytes (String.ofList ds) := by
  simp only [bytes_ofList, List.flatMap_append]

theorem length_bytes (s : String) : (bytes s).length = s.utf8ByteSize := rfl

theorem bytes_injective : Function.Injective bytes := by
  intro s t h
  exact String.toByteArray_inj.1 (ByteArray.ext (Array.toList_inj.1 h))

theorem newlineByte_mem_bytes {cs : List Char} : newlineByte ∈ bytes (String.ofList cs) ↔ '\n' ∈ cs := by
  simp [bytes_ofList, List.mem_flatMap, newlineByte_mem_utf8EncodeChar]

theorem count_newlineByte (cs : List Char) : (bytes (String.ofList cs)).count newlineByte = cs.count '\n' := by
  induction cs with
  | nil => rfl
  | cons c cs ih =>
      have hone : (bytes (String.ofList [c])).count newlineByte = [c].count '\n' := by
        by_cases hc : c = '\n'
        · rw [hc]
          rfl
        · have hmem : '\n' ∉ [c] := fun h => hc (List.mem_singleton.1 h).symm
          rw [List.count_eq_zero.2 hmem, List.count_eq_zero.2 (newlineByte_mem_bytes.not.2 hmem)]
      rw [← List.singleton_append, bytes_ofList_append, List.count_append, List.count_append, ih, hone]

/-! ## The line that is found -/

section Split

variable {above bare line below : List UInt8}

theorem isLineIn_append (hopens : above = [] ∨ ∃ more, above = more ++ [newlineByte]) (hbare : newlineByte ∉ bare)
    (hcloses : line = bare ++ [newlineByte] ∨ line = bare ∧ below = []) (hne : line ≠ []) :
    IsLineIn (above ++ (line ++ below)) above.length (above.length + line.length) := by
  have hpos := List.length_pos_iff.2 hne
  constructor
  case start_lt => omega
  case stop_le => simp
  case opens =>
      rcases hopens with rfl | ⟨more, rfl⟩
      · exact .inl rfl
      · right
        simp
  case inner =>
      intro i hstart hstop hi
      rw [List.getElem?_append_right hstart, List.getElem?_append_left (by omega)] at hi
      apply hbare
      rcases hcloses with rfl | ⟨rfl, _⟩
      · rw [List.length_append, List.length_singleton] at hstop
        rw [List.getElem?_append_left (by omega)] at hi
        exact List.mem_of_getElem? hi
      · exact List.mem_of_getElem? hi
  case closes =>
      rcases hcloses with rfl | ⟨_, rfl⟩
      · right
        rw [List.getElem?_append_right (by omega)]
        simp
      · left
        simp

theorem count_take_line (hbare : newlineByte ∉ bare)
    (hcloses : line = bare ++ [newlineByte] ∨ line = bare ∧ below = []) {k : Nat} (hk : k < line.length) :
    ((above ++ (line ++ below)).take (above.length + k)).count newlineByte = above.count newlineByte := by
  have htake : (line ++ below).take k = bare.take k := by
    rcases hcloses with rfl | ⟨rfl, rfl⟩
    · rw [List.length_append, List.length_singleton] at hk
      rw [List.append_assoc, List.take_append_of_le_length (by omega)]
    · rw [List.append_nil]
  have hnone : newlineByte ∉ bare.take k := fun h => hbare (List.mem_of_mem_take h)
  rw [List.take_length_add_append, htake, List.count_append, List.count_eq_zero.2 hnone, Nat.add_zero]

end Split

theorem Line.StandsIn.surrounds {line : Line} {source : String} {offset : Nat} {above below : List Char}
    (h : line.StandsIn source.toList 1 offset above below) : line.Surrounds source offset := by
  have hbytes : bytes source = bytes (String.ofList above) ++ (bytes line.text ++ bytes (String.ofList below)) := by
    rw [← String.ofList_toList (s := source), h.chars, bytes_ofList_append, bytes_ofList_append]
    rfl
  have hinside : line.offset < (bytes line.text).length := by
    rw [length_bytes, text, utf8ByteSize_ofList]
    exact h.inside
  have hopens : bytes (String.ofList above) = [] ∨ ∃ more, bytes (String.ofList above) = more ++ [newlineByte] := by
    rcases h.opens with rfl | ⟨more, rfl⟩
    · exact .inl rfl
    · exact .inr ⟨_, bytes_ofList_append more ['\n']⟩
  obtain ⟨bare, hbare, hcloses⟩ : ∃ bare, newlineByte ∉ bare ∧ (bytes line.text = bare ++ [newlineByte] ∨
      bytes line.text = bare ∧ bytes (String.ofList below) = []) := by
    obtain ⟨bare, hbare, hchars⟩ := h.closes
    refine ⟨_, newlineByte_mem_bytes.not.2 hbare, ?_⟩
    rw [text]
    rcases hchars with hchars | ⟨hchars, hbelow⟩
    · rw [hchars]
      exact .inl (bytes_ofList_append bare ['\n'])
    · rw [hchars, hbelow]
      exact .inr ⟨rfl, rfl⟩
  have hne : bytes line.text ≠ [] := by
    intro hnil
    rw [hnil] at hinside
    cases hinside
  have hstart : offset - line.offset = (bytes (String.ofList above)).length := by
    rw [length_bytes, utf8ByteSize_ofList, h.offset, Nat.add_sub_cancel]
  have hoffset : offset = (bytes (String.ofList above)).length + line.offset := by
    rw [length_bytes, utf8ByteSize_ofList]
    exact h.offset
  constructor
  case number =>
      rw [h.number, hbytes, hoffset, count_take_line hbare hcloses hinside, count_newlineByte]
  case offset_le => omega
  case offset_lt => exact hinside
  case text =>
      rw [hstart, hbytes, ← length_bytes, List.extract_eq_take_drop, List.drop_left, Nat.add_sub_cancel_left,
        List.take_left]
  case isLine =>
      rw [hstart, hbytes, ← length_bytes]
      exact isLineIn_append hopens hbare hcloses hne

theorem surrounds_of_lineAt? {source : String} {offset : Nat} {line : Line}
    (h : lineAt? source offset = some line) : line.Surrounds source offset := by
  obtain ⟨above, below, hline⟩ := Line.exists_standsIn h
  exact hline.surrounds

/-! ## The only line around a byte -/

section Unique

variable {bs : List UInt8} {start stop start' stop' : Nat} (h : IsLineIn bs start stop)
  (h' : IsLineIn bs start' stop')

include h h'

theorem IsLineIn.start_le (hmeet : start' < stop) : start' ≤ start := by
  by_contra hlt
  have hnewline := h'.opens.resolve_left (by omega)
  exact h.inner (start' - 1) (by omega) (by omega) hnewline

theorem IsLineIn.stop_ge (hmeet : start < stop') : stop ≤ stop' := by
  by_contra hlt
  have hstop := h.stop_le
  have hnewline := h'.closes.resolve_left (by omega)
  exact h.inner (stop' - 1) (by omega) (by omega) hnewline

end Unique

theorem Line.Surrounds.unique {line line' : Line} {source : String} {offset : Nat} (h : line.Surrounds source offset)
    (h' : line'.Surrounds source offset) : line = line' := by
  have hle := h.offset_le
  have hle' := h'.offset_le
  have hlt := h.offset_lt
  have hlt' := h'.offset_lt
  have hstart := h.isLine.start_le h'.isLine (by omega)
  have hstart' := h'.isLine.start_le h.isLine (by omega)
  have hstop := h.isLine.stop_ge h'.isLine (by omega)
  have hstop' := h'.isLine.stop_ge h.isLine (by omega)
  have hoffset : line.offset = line'.offset := by omega
  have hsize : line.text.utf8ByteSize = line'.text.utf8ByteSize := by omega
  have htext : line.text = line'.text := by
    apply bytes_injective
    rw [h.text, h'.text, hoffset, hsize]
  have hnumber : line.number = line'.number := h.number.trans h'.number.symm
  obtain ⟨number, chars, offset⟩ := line
  obtain ⟨number', chars', offset'⟩ := line'
  obtain rfl : chars = chars' := String.ofList_injective htext
  cases hnumber
  cases hoffset
  rfl

theorem lineAt?_eq_some_iff {source : String} {offset : Nat} {line : Line} :
    lineAt? source offset = some line ↔ line.Surrounds source offset := by
  constructor
  · exact surrounds_of_lineAt?
  · intro h
    cases hfound : lineAt? source offset with
    | none =>
        have hsize := lineAt?_eq_none_iff.1 hfound
        have hstop := h.isLine.stop_le
        rw [length_bytes] at hstop
        have hlt := h.offset_lt
        have hle := h.offset_le
        omega
    | some found => rw [h.unique (surrounds_of_lineAt? hfound)]

theorem exists_surrounds_iff {source : String} {offset : Nat} :
    (∃ line : Line, line.Surrounds source offset) ↔ offset < source.utf8ByteSize := by
  rw [← Nat.not_le, ← lineAt?_eq_none_iff, Option.eq_none_iff_forall_ne_some]
  simp [lineAt?_eq_some_iff]

/-- For an offset at the end of a source or beyond there is no line. For any other one, on whichever byte it falls,
the line that is found is the one that the source has around that byte. -/
theorem lineAt?_exact (source : String) (offset : Nat) :
    (lineAt? source offset = none ↔ source.utf8ByteSize ≤ offset) ∧
    ∀ line, lineAt? source offset = some line ↔ line.Surrounds source offset :=
  ⟨lineAt?_eq_none_iff, fun _ => lineAt?_eq_some_iff⟩

/-- The second byte of a character. -/
example : lineAt? "é\nä" 4 = some ⟨2, ['ä'], 1⟩ := by decide

end ExprLexer
