import TextTemplate.Proofs.Text.Place
import Mathlib.Data.List.Infix

namespace TextTemplate

theorem byteLength_eq_utf8ByteSize (text : List Char) :
    byteLength text = (String.ofList text).utf8ByteSize := by
  induction text with
  | nil => rfl
  | cons c text ih =>
    rw [String.ofList_cons, String.utf8ByteSize_append, String.utf8ByteSize_singleton, byteLength_cons, ih]

theorem byteLength_toList (source : String) : byteLength source.toList = source.utf8ByteSize := by
  rw [byteLength_eq_utf8ByteSize, String.ofList_toList]

theorem byteLength_lt_of_front {a b : List Char} (h : a <+: b) (hne : a ≠ b) :
    byteLength a < byteLength b := by
  obtain ⟨rest, rfl⟩ := h
  have hr : rest ≠ [] := by
    rintro rfl
    exact hne (List.append_nil a).symm
  have := byteLength_pos hr
  rw [byteLength_append]
  omega

theorem byteLength_le_of_front {a b : List Char} (h : a <+: b) : byteLength a ≤ byteLength b := by
  by_cases hne : a = b
  · rw [hne]
  · exact Nat.le_of_lt (byteLength_lt_of_front h hne)

theorem isValid_front {source : String} {front : List Char} (h : front <+: source.toList) :
    String.Pos.Raw.IsValid source ⟨byteLength front⟩ := by
  obtain ⟨rest, hr⟩ := h
  apply String.Pos.Raw.isValid_iff_exists_append.2
  refine ⟨String.ofList front, String.ofList rest, ?_, ?_⟩
  · rw [← String.ofList_append, hr, String.ofList_toList]
  · rw [byteLength_eq_utf8ByteSize]
    rfl

theorem front_of_byteLength_le {a b text : List Char} (ha : a <+: text) (hb : b <+: text)
    (h : byteLength a ≤ byteLength b) : a <+: b := by
  obtain hab | hba := List.prefix_or_prefix_of_prefix ha hb
  · exact hab
  · by_cases hne : b = a
    · rw [hne]
    · have := byteLength_lt_of_front hba hne
      omega

theorem front_eq_of_byteLength_eq {a b text : List Char} (ha : a <+: text) (hb : b <+: text)
    (h : byteLength a = byteLength b) : a = b :=
  (front_of_byteLength_le ha hb (Nat.le_of_eq h)).eq_of_length_le
    (front_of_byteLength_le hb ha (Nat.le_of_eq h.symm)).length_le

theorem splitBytes_append (front rest : List Char) :
    splitBytes (byteLength front) (front ++ rest) = (front, rest) := by
  induction front with
  | nil => rw [byteLength_nil, splitBytes, List.nil_append]
  | cons c front ih =>
    obtain ⟨n, hn⟩ := Nat.exists_eq_add_one.2 (byteLength_pos (List.cons_ne_nil c front))
    have hrest : n + 1 - c.utf8Size = byteLength front := by
      rw [← hn, byteLength_cons]
      omega
    rw [hn, List.cons_append, splitBytes, hrest, ih]

section Places

variable {source : String} {p q : source.Pos}

/-- What stands in front of a place of a text. -/
def textBefore (p : source.Pos) : List Char := (source.sliceTo p).copy.toList

theorem textBefore_front (p : source.Pos) : textBefore p <+: source.toList := by
  refine ⟨(source.sliceFrom p).copy.toList, ?_⟩
  rw [textBefore, ← String.toList_append, String.sliceTo_append_sliceFrom]

theorem byteLength_textBefore (p : source.Pos) : byteLength (textBefore p) = p.offset.byteIdx := by
  rw [textBefore, byteLength_toList]
  simp

theorem exists_textBefore_append (h : p ≤ q) : ∃ piece, textBefore q = textBefore p ++ piece := by
  have hb : byteLength (textBefore p) ≤ byteLength (textBefore q) := by
    rw [byteLength_textBefore, byteLength_textBefore]
    exact String.Pos.Raw.le_iff.1 (String.Pos.le_iff.1 h)
  obtain ⟨piece, hp⟩ := front_of_byteLength_le (textBefore_front p) (textBefore_front q) hb
  exact ⟨piece, hp.symm⟩

theorem exists_textBefore {front : List Char} (h : front <+: source.toList) :
    ∃ p : source.Pos, p.offset.byteIdx = byteLength front ∧ textBefore p = front := by
  let p : source.Pos := ⟨⟨byteLength front⟩, isValid_front h⟩
  refine ⟨p, rfl, ?_⟩
  exact front_eq_of_byteLength_eq (textBefore_front p) h (byteLength_textBefore p)

end Places

theorem frontBytes?_append (front rest : List Char) :
    frontBytes? (byteLength front) (front ++ rest) = some front := by
  have hv : String.Pos.Raw.IsValid (String.ofList (front ++ rest)) ⟨byteLength front⟩ := by
    apply isValid_front
    rw [String.toList_ofList]
    exact List.prefix_append _ _
  rw [frontBytes?, if_pos hv, splitBytes_append]

/-- That the bytes of a word stand in a text behind its first `i` bytes. -/
def OccursAt (word text : String) (i : Nat) : Prop :=
  text.toByteArray.extract i (i + word.utf8ByteSize) = word.toByteArray

instance (word text : String) (i : Nat) : Decidable (OccursAt word text i) :=
  inferInstanceAs (Decidable (text.toByteArray.extract i (i + word.utf8ByteSize) = word.toByteArray))

section Words

variable {word text : String} {i : Nat}

theorem OccursAt.isValid (h : OccursAt word text i) (hw : word ≠ "") :
    String.Pos.Raw.IsValid text ⟨i⟩ ∧ String.Pos.Raw.IsValid text ⟨i + word.utf8ByteSize⟩ := by
  have hpos : word.utf8ByteSize ≠ 0 := fun h0 => hw (String.utf8ByteSize_eq_zero_iff.1 h0)
  have hsize : min (i + word.utf8ByteSize) text.utf8ByteSize - i = word.utf8ByteSize := by
    have := congrArg ByteArray.size h
    rwa [ByteArray.size_extract, String.size_toByteArray, String.size_toByteArray] at this
  have hstart : (⟨i⟩ : String.Pos.Raw) ≤ ⟨i + word.utf8ByteSize⟩ :=
    String.Pos.Raw.le_iff.2 (Nat.le_add_right i _)
  have hle : i + word.utf8ByteSize ≤ text.utf8ByteSize := by omega
  have hend : (⟨i + word.utf8ByteSize⟩ : String.Pos.Raw) ≤ text.rawEndPos :=
    String.Pos.Raw.le_iff.2 hle
  have hutf : (text.toByteArray.extract i (i + word.utf8ByteSize)).IsValidUTF8 := by
    rw [h]
    exact word.isValidUTF8
  obtain he | hv := (String.Pos.Raw.isValidUTF8_extract_iff ⟨i⟩ _ hstart hend).1 hutf
  · have := congrArg String.Pos.Raw.byteIdx he
    dsimp only at this
    omega
  · exact hv

theorem OccursAt.exists_append (h : OccursAt word text i) (hw : word ≠ "") :
    ∃ front rest, text.toList = front ++ word.toList ++ rest ∧ byteLength front = i := by
  obtain ⟨hi, he⟩ := h.isValid hw
  let p : text.Pos := ⟨_, hi⟩
  let q : text.Pos := ⟨_, he⟩
  have hpq : p ≤ q := String.Pos.Raw.le_iff.2 (Nat.le_add_right i _)
  have hcopy : (text.slice p q hpq).copy = word := by
    rw [← String.toByteArray_inj, String.Slice.toByteArray_copy]
    simpa [OccursAt, p, q] using h
  obtain ⟨before, after, hs, -⟩ := String.copy_slice_eq_iff_splits.1 ⟨hpq, hcopy⟩
  refine ⟨before.toList, after.toList, ?_, ?_⟩
  · rw [hs.eq_append, String.toList_append, String.toList_append, List.append_assoc]
  · rw [byteLength_toList]
    exact (congrArg String.Pos.Raw.byteIdx hs.offset_eq_rawEndPos).symm

theorem occursAt_of_append {front rest : List Char} (h : text.toList = front ++ word.toList ++ rest) :
    OccursAt word text (byteLength front) := by
  have ht : text = String.ofList front ++ (word ++ String.ofList rest) := by
    apply String.toList_inj.1
    simpa using h
  have hi : byteLength front = (String.ofList front).toByteArray.size := by
    rw [String.size_toByteArray, byteLength_eq_utf8ByteSize]
  calc text.toByteArray.extract (byteLength front) (byteLength front + word.utf8ByteSize)
      = ((String.ofList front).toByteArray ++
          (word.toByteArray ++ (String.ofList rest).toByteArray)).extract
            (byteLength front + 0) (byteLength front + word.utf8ByteSize) := by
        rw [ht, String.toByteArray_append, String.toByteArray_append, Nat.add_zero]
    _ = (word.toByteArray ++ (String.ofList rest).toByteArray).extract 0 word.utf8ByteSize :=
        ByteArray.extract_append_size_add' hi
    _ = word.toByteArray := ByteArray.extract_append_eq_left String.size_toByteArray.symm

/-- The bytes of a word never stand across the border of two characters, nor within one. -/
theorem occursAt_iff (hw : word ≠ "") : OccursAt word text i ↔
    ∃ front rest, text.toList = front ++ word.toList ++ rest ∧ byteLength front = i := by
  constructor
  · intro h
    exact h.exists_append hw
  · rintro ⟨front, rest, h, rfl⟩
    exact occursAt_of_append h

end Words

end TextTemplate
