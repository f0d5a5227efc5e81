import TextTemplate.Token.Lexer

namespace TextTemplate

def WordChars (text : List Char) : Prop := ∀ c ∈ text, isNameChar c

def IsWord (text : List Char) : Prop := ∃ c rest, text = c :: rest ∧ isNameStart c ∧ WordChars rest

/-- Words parted by dots. Those after the first may begin with a digit. -/
def IsName (text : List Char) : Prop := ∃ (word : List Char) (segments : List (List Char)),
  IsWord word ∧ (∀ s ∈ segments, s ≠ [] ∧ WordChars s) ∧ text = word ++ segments.flatMap ('.' :: ·)

theorem isNameChar_of_isNameStart {c : Char} (h : isNameStart c) : isNameChar c := by
  simp only [isNameStart, isNameChar, Char.isAlphanum, Bool.or_eq_true] at *
  exact h.imp_left .inl

theorem nameLength_cons {c : Char} (h : isNameChar c) (text : List Char) :
    nameLength (c :: text) = nameLength text + 1 := by
  rw [nameLength]
  · rw [if_pos h]
  · rintro d rest rfl
    cases h

theorem nameLength_dot {c : Char} (h : isNameChar c) (text : List Char) :
    nameLength ('.' :: c :: text) = nameLength text + 2 := by
  rw [nameLength, if_pos h]

theorem nameLength_cons_eq_zero {c : Char} {text : List Char} (h : isNameChar c = false)
    (hd : c = '.' → ∀ d ∈ text.head?, isNameChar d = false) : nameLength (c :: text) = 0 := by
  cases text with
  | nil =>
    rw [nameLength, if_neg (by simp [h])]
    nofun
  | cons d text =>
    by_cases hc : c = '.'
    · rw [hc, nameLength, if_neg (by simp [hd hc d rfl])]
    · rw [nameLength, if_neg (by simp [h])]
      exact fun _ _ he => absurd he hc

theorem nameLength_le (text : List Char) : nameLength text ≤ text.length := by
  fun_induction nameLength text with
  | case1 c text hc ih =>
    simp only [List.length_cons]
    omega
  | case2 => exact Nat.zero_le _
  | case3 c text hd hc ih => exact Nat.succ_le_succ ih
  | case4 => exact Nat.zero_le _
  | case5 => exact Nat.zero_le _

theorem mem_take_nameLength {text : List Char} {d : Char} (h : d ∈ text.take (nameLength text)) :
    isNameChar d ∨ d = '.' := by
  fun_induction nameLength text with
  | case1 c text hc ih =>
    simp only [List.take_succ_cons, List.mem_cons] at h
    obtain rfl | rfl | h := h
    · exact .inr rfl
    · exact .inl hc
    · exact ih h
  | case2 => simp at h
  | case3 c text hd hc ih =>
    simp only [List.take_succ_cons, List.mem_cons] at h
    obtain rfl | h := h
    · exact .inl hc
    · exact ih h
  | case4 => simp at h
  | case5 => simp at h

theorem nameLength_append_brace (u x : List Char) : nameLength (u ++ '}' :: x) = nameLength u := by
  fun_induction nameLength u with
  | case1 c text hc ih => rw [List.cons_append, List.cons_append, nameLength_dot hc, ih]
  | case2 c text hc =>
    refine nameLength_cons_eq_zero rfl fun _ d hd => ?_
    obtain rfl := Option.some.inj hd
    simpa using hc
  | case3 c text hd hc ih => rw [List.cons_append, nameLength_cons hc, ih]
  | case4 c text hd hc =>
    refine nameLength_cons_eq_zero (by simpa using hc) fun he d hm => ?_
    cases text with
    | nil =>
      obtain rfl := Option.some.inj hm
      rfl
    | cons e text => exact absurd rfl (hd e text he)
  | case5 => rfl

/-- Where a whole text continues a name, what stands behind it may continue the name further. -/
theorem nameLength_append {a : List Char} (h : nameLength a = a.length) (b : List Char) :
    nameLength (a ++ b) = a.length + nameLength b := by
  fun_induction nameLength a with
  | case1 c text hc ih =>
    simp only [List.length_cons] at h ⊢
    rw [List.cons_append, List.cons_append, nameLength_dot hc, ih (by omega)]
    omega
  | case2 c text hc => simp at h
  | case3 c text hd hc ih =>
    simp only [List.length_cons] at h ⊢
    rw [List.cons_append, nameLength_cons hc, ih (by omega)]
    omega
  | case4 c text hd hc => simp at h
  | case5 => simp

theorem nameLength_of_wordChars {text : List Char} (h : WordChars text) :
    nameLength text = text.length := by
  induction text with
  | nil => rfl
  | cons c text ih =>
    rw [nameLength_cons (h c (by simp)), ih fun d hd => h d (by simp [hd]), List.length_cons]

theorem nameLength_segments {segments : List (List Char)}
    (h : ∀ s ∈ segments, s ≠ [] ∧ WordChars s) :
    nameLength (segments.flatMap ('.' :: ·)) = (segments.flatMap ('.' :: ·)).length := by
  induction segments with
  | nil => rfl
  | cons s segments ih =>
    obtain ⟨hne, hs⟩ := h s (by simp)
    obtain ⟨c, rest, rfl⟩ := List.exists_cons_of_ne_nil hne
    have hw : nameLength ('.' :: c :: rest) = ('.' :: c :: rest).length := by
      rw [nameLength_dot (hs c (by simp)), nameLength_of_wordChars fun d hd => hs d (by simp [hd])]
      rfl
    rw [List.flatMap_cons, nameLength_append hw, ih fun s hm => h s (by simp [hm]),
      List.length_append]

theorem IsName.nameLength_eq {c : Char} {text : List Char} (h : IsName (c :: text)) :
    isNameStart c ∧ nameLength text = text.length := by
  obtain ⟨word, segments, ⟨c', rest, rfl, hc, hr⟩, hs, he⟩ := h
  rw [List.cons_append] at he
  obtain ⟨rfl, rfl⟩ := List.cons.inj he
  refine ⟨hc, ?_⟩
  rw [nameLength_append (nameLength_of_wordChars hr), nameLength_segments hs, List.length_append]

theorem IsWord.isName {text : List Char} (h : IsWord text) : IsName text :=
  ⟨text, [], h, nofun, by simp⟩

theorem IsName.isWord {text : List Char} (h : IsName text) (hd : '.' ∉ text) : IsWord text := by
  obtain ⟨word, segments, hw, -, rfl⟩ := h
  cases segments with
  | nil => simpa using hw
  | cons s segments => simp at hd

theorem IsName.not_mem {text : List Char} (h : IsName text) {c : Char} (hc : isNameChar c = false)
    (hd : c ≠ '.') : c ∉ text := by
  obtain ⟨word, segments, ⟨d, rest, rfl, hs, hr⟩, hw, rfl⟩ := h
  have other : ∀ e, isNameChar e → c ≠ e := by
    rintro _ he rfl
    rw [hc] at he
    cases he
  intro hm
  obtain hm | hm := List.mem_append.1 hm
  · obtain rfl | hm := List.mem_cons.1 hm
    · exact other c (isNameChar_of_isNameStart hs) rfl
    · exact other c (hr c hm) rfl
  · obtain ⟨s, hsm, hm⟩ := List.mem_flatMap.1 hm
    obtain rfl | hm := List.mem_cons.1 hm
    · exact hd rfl
    · exact other c ((hw s hsm).2 c hm) rfl

/-- What continues a name is the rest of a word and further words, each behind a dot. -/
theorem exists_segments (text : List Char) : ∃ (rest : List Char) (segments : List (List Char)),
    WordChars rest ∧ (∀ s ∈ segments, s ≠ [] ∧ WordChars s) ∧
      text.take (nameLength text) = rest ++ segments.flatMap ('.' :: ·) := by
  fun_induction nameLength text with
  | case1 c text hc ih =>
    obtain ⟨rest, segments, hr, hs, he⟩ := ih
    refine ⟨[], (c :: rest) :: segments, List.forall_mem_nil _, ?_, ?_⟩
    · exact List.forall_mem_cons.2 ⟨⟨nofun, List.forall_mem_cons.2 ⟨hc, hr⟩⟩, hs⟩
    · rw [List.take_succ_cons, List.take_succ_cons, he]
      rfl
  | case2 => exact ⟨[], [], List.forall_mem_nil _, List.forall_mem_nil _, rfl⟩
  | case3 c text hd hc ih =>
    obtain ⟨rest, segments, hr, hs, he⟩ := ih
    refine ⟨c :: rest, segments, List.forall_mem_cons.2 ⟨hc, hr⟩, hs, ?_⟩
    rw [List.take_succ_cons, he]
    rfl
  | case4 => exact ⟨[], [], List.forall_mem_nil _, List.forall_mem_nil _, rfl⟩
  | case5 => exact ⟨[], [], List.forall_mem_nil _, List.forall_mem_nil _, rfl⟩

theorem isName_take {c : Char} (h : isNameStart c) (text : List Char) :
    IsName (c :: text.take (nameLength text)) := by
  obtain ⟨rest, segments, hr, hs, he⟩ := exists_segments text
  exact ⟨c :: rest, segments, ⟨c, rest, rfl, h, hr⟩, hs, congrArg (c :: ·) he⟩

end TextTemplate
