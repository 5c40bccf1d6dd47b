import ExprLexer.Text.Utf8

/-!
# Bytes of a source

Offsets are counted on the characters of a source; here they are tied to its bytes.
-/
namespace ExprLexer

theorem utf8ByteSize_ofList (cs : List Char) : (String.ofList cs).utf8ByteSize = utf8Length cs := by
  induction cs with
  | nil => rfl
  | cons c cs ih =>
      rw [← List.singleton_append, String.ofList_append, String.utf8ByteSize_append, ih, utf8Length_append,
        ← String.singleton_eq_ofList, String.utf8ByteSize_singleton, utf8Length_cons, utf8Length_nil,
        Nat.add_zero]

theorem utf8Length_toList (s : String) : utf8Length s.toList = s.utf8ByteSize := by
  rw [← utf8ByteSize_ofList, String.ofList_toList]

def slice (source : String) (start stop : Nat) : ByteArray := source.toUTF8.extract start stop

theorem slice_eq {source : String} {pre cs rest : List Char} (h : source.toList = pre ++ (cs ++ rest)) :
    slice source (utf8Length pre) (utf8Length pre + utf8Length cs) = (String.ofList cs).toUTF8 := by
  have hsource : source = String.ofList pre ++ (String.ofList cs ++ String.ofList rest) := by
    rw [← String.ofList_append, ← String.ofList_append, ← h, String.ofList_toList]
  rw [slice, hsource]
  simp only [String.toUTF8_eq_toByteArray, String.toByteArray_append]
  have hsize (ds : List Char) : utf8Length ds = (String.ofList ds).toByteArray.size := by
    rw [← utf8ByteSize_ofList, String.size_toByteArray]
  rw [hsize, hsize]
  exact (ByteArray.extract_append_size_add (i := 0)).trans (ByteArray.extract_append_eq_left rfl)

/-- A front part of a text is determined by its length in bytes. -/
theorem prefix_eq_of_utf8Length_eq {as bs cs ds : List Char} (h : as ++ bs = cs ++ ds)
    (hlen : utf8Length as = utf8Length cs) : as = cs ∧ bs = ds := by
  rcases List.append_eq_append_iff.1 h with ⟨q, rfl, rfl⟩ | ⟨q, rfl, rfl⟩
  · cases q with
    | nil => simp
    | cons c q =>
        have := utf8Length_pos (List.cons_ne_nil c q)
        rw [utf8Length_append] at hlen
        omega
  · cases q with
    | nil => simp
    | cons c q =>
        have := utf8Length_pos (List.cons_ne_nil c q)
        rw [utf8Length_append] at hlen
        omega

end ExprLexer
