import TextTemplate.Proofs.Text.Place
import TextTemplate.Proofs.Token.Text

namespace TextTemplate

/-- That a word stands for a token: it is the token's text, but a number may have zeros in front. -/
def Token.Kind.WrittenAs (k : Token.Kind) (word : List Char) : Prop :=
  ∃ zeros, (∀ z ∈ zeros, z = '0') ∧ word = zeros ++ k.text.toList ∧ (zeros ≠ [] → ∃ n, k = .number n)

/-- A row of tokens as text, from the first character of the first word to the last one of the last. -/
inductive Written : List Token.Kind → List Char → Prop
  | last {k word} (hw : k.WrittenAs word) : Written [k] word
  | cons {k ks word gap text} (hw : k.WrittenAs word) (hg : Blank gap) (h : Written ks text) :
    Written (k :: ks) (word ++ (gap ++ text))

theorem digitValue_lt {d : Char} (h : d.isDigit) :
    digitValue d < 10 ∧ Nat.digitChar (digitValue d) = d := by
  simp only [Char.isDigit, Bool.and_eq_true, decide_eq_true_eq, UInt32.le_iff_toNat_le, ge_iff_le] at h
  obtain ⟨hl, hu⟩ : 48 ≤ d.toNat ∧ d.toNat ≤ 57 := h
  have hd : d = Char.ofNat d.toNat := d.ofNat_toNat.symm
  generalize d.toNat = n at hl hu hd
  subst hd
  interval_cases n <;> decide

theorem decimalValue_cons (c : Char) (digits : List Char) :
    decimalValue (c :: digits) = digitValue c * 10 ^ digits.length + decimalValue digits := by
  induction digits using List.reverseRecOn with
  | nil => simp [decimalValue]
  | append_singleton digits d ih =>
    rw [← List.cons_append, decimalValue_append_singleton, ih, decimalValue_append_singleton,
      List.length_append, List.length_singleton, pow_succ]
    ring

/-- Digits are the decimal text of their value with zeros in front. -/
theorem exists_zeros {digits : List Char} (hne : digits ≠ []) (h : ∀ d ∈ digits, d.isDigit) :
    ∃ zeros, (∀ z ∈ zeros, z = '0') ∧ digits = zeros ++ (decimalValue digits).repr.toList := by
  induction digits using List.reverseRecOn with
  | nil => exact absurd rfl hne
  | append_singleton digits d ih =>
    obtain ⟨hlt, hd⟩ := digitValue_lt (h d (by simp))
    rw [decimalValue_append_singleton, Nat.toList_repr]
    by_cases hz : decimalValue digits = 0
    · refine ⟨digits, ?_, ?_⟩
      · by_cases hn : digits = []
        · simp [hn]
        · obtain ⟨zeros, h0, he⟩ := ih hn fun c hc => h c (by simp [hc])
          rw [hz] at he
          intro z hm
          rw [he] at hm
          obtain hm | hm := List.mem_append.1 hm
          · exact h0 z hm
          · exact List.mem_singleton.1 hm
      · rw [hz, Nat.toDigits_of_lt_base (by omega)]
        simp [hd]
    · have hn : digits ≠ [] := fun he => hz (by rw [he]; rfl)
      obtain ⟨zeros, h0, he⟩ := ih hn fun c hc => h c (by simp [hc])
      refine ⟨zeros, h0, ?_⟩
      rw [← Nat.toDigits_append_toDigits (by decide) (Nat.pos_of_ne_zero hz) hlt,
        Nat.toDigits_of_lt_base hlt, hd, ← List.append_assoc, ← Nat.toList_repr, ← he]

theorem Token.Kind.writtenAs_text (k : Token.Kind) : k.WrittenAs k.text.toList :=
  ⟨[], List.forall_mem_nil _, rfl, fun h => absurd rfl h⟩

namespace Token

theorem ofName_text (text : List Char) : (Kind.ofName text).text.toList = text := by
  unfold Kind.ofName
  split
  · next h => rw [h]; rfl
  · split
    · next h => rw [h]; rfl
    · exact String.toList_ofList

theorem valid_ofName {text : List Char} (h : IsName text) : (Kind.ofName text).Valid := by
  unfold Kind.ofName
  split
  · trivial
  · next hf =>
    split
    · trivial
    · next he =>
      have ne : ∀ word : String, text ≠ word.toList → String.ofList text ≠ word := by
        rintro word hw rfl
        exact hw String.toList_ofList.symm
      exact ⟨by rwa [String.toList_ofList], ne "for" hf, ne "end" he⟩

theorem writtenAs_of_number? {text : List Char} {k : Kind} {n : Nat}
    (h : number? text = some (k, n)) : k.WrittenAs (text.take n) := by
  have hp : text.takeWhile Char.isDigit <+: text := List.takeWhile_prefix _
  simp only [number?] at h
  split at h
  · next hd =>
    cases h
    rw [← List.prefix_iff_eq_take.1 hp]
    obtain ⟨zeros, hz, he⟩ := exists_zeros hd.1 fun c hc => List.mem_takeWhile_imp hc
    exact ⟨zeros, hz, he, fun _ => ⟨_, rfl⟩⟩
  · cases h

theorem writtenAs_of_name? {text : List Char} {k : Kind} {n : Nat}
    (h : name? text = some (k, n)) : k.WrittenAs (text.take n) := by
  cases text with
  | nil => cases h
  | cons c text =>
    simp only [name?] at h
    split at h
    · cases h
      have hw := Kind.writtenAs_text (.ofName (c :: text.take (nameLength text)))
      rwa [ofName_text] at hw
    · cases h

theorem writtenAs_of_read? {text : List Char} {k : Kind} {n : Nat}
    (h : read? text = some (k, n)) : k.WrittenAs (text.take n) := by
  unfold read? at h
  split at h
  case h_7 =>
    obtain h | ⟨-, h⟩ := Option.or_eq_some_iff.1 h
    · exact writtenAs_of_number? h
    · exact writtenAs_of_name? h
  all_goals
    cases h
    exact Kind.writtenAs_text _

theorem valid_of_read? {text : List Char} {k : Kind} {n : Nat} (h : read? text = some (k, n)) :
    k.Valid := by
  unfold read? at h
  split at h
  case h_7 =>
    obtain h | ⟨-, h⟩ := Option.or_eq_some_iff.1 h
    · simp only [number?] at h
      split at h
      · next hd =>
        cases h
        exact hd.2
      · cases h
    · cases text with
      | nil => cases h
      | cons c text =>
        simp only [name?] at h
        split at h
        · next hc =>
          cases h
          exact valid_ofName (isName_take hc text)
        · cases h
  all_goals
    cases h
    trivial

theorem length_le_of_read? {text : List Char} {k : Kind} {n : Nat}
    (h : read? text = some (k, n)) : n ≤ text.length := by
  obtain ⟨-, rfl, rest, rfl⟩ | ⟨-, hn, -⟩ := read?_eq_some h
  · simp
  · exact hn

end Token

namespace Cursor

theorem skipBlanks_eq (c : Cursor) : ∃ gap, Blank gap ∧ c.rest = gap ++ c.skipBlanks.rest ∧
    c.skipBlanks.position = c.position.advance gap := by
  refine ⟨c.rest.takeWhile isBlank, blank_takeWhile _, ?_, ?_⟩
  · rw [rest_skipBlanks, List.takeWhile_append_dropWhile]
  · exact congrArg c.position.advance (List.prefix_iff_eq_take.1 (List.takeWhile_prefix _)).symm

theorem eq_of_next {c d : Cursor} {t : Token} (h : c.next = (.ok (some t), d)) :
    ∃ gap word, c.rest = gap ++ (word ++ d.rest) ∧ Blank gap ∧ word ≠ [] ∧
      Token.read? (word ++ d.rest) = some (t.kind, word.length) ∧
      t.range = ⟨c.position.advance gap, c.position.advance (gap ++ word)⟩ ∧
      d.position = c.position.advance (gap ++ word) := by
  obtain ⟨gap, hg, hc, hp⟩ := c.skipBlanks_eq
  simp only [next] at h
  split at h
  · cases h
  · split at h
    · next k n hr =>
      cases h
      have hn := Token.length_le_of_read? hr
      refine ⟨gap, c.skipBlanks.rest.take n, ?_, hg, ?_, ?_, ?_, ?_⟩
      · rw [rest_skip, List.take_append_drop]
        exact hc
      · have := Token.read?_pos hr
        rw [ne_eq, ← List.length_eq_zero_iff, List.length_take_of_le hn]
        omega
      · rw [rest_skip, List.take_append_drop, List.length_take_of_le hn, hr]
      · rw [Position.advance_append, ← hp, ahead, Range.ofPiece_eq]
      · rw [Position.advance_append, ← hp, skip]
    · cases h

theorem skipBlanks_of_append {c : Cursor} {gap text : List Char} (hc : c.rest = gap ++ text)
    (hg : Blank gap) (ht : ∀ d ∈ text.head?, isBlank d = false) : c.skipBlanks = c.skip gap.length := by
  have hw : c.rest.takeWhile isBlank = gap := by
    have hs := List.takeWhile_append_dropWhile (p := isBlank) (l := c.rest)
    rw [hc, dropWhile_blank_append hg ht] at hs
    rw [hc, List.append_cancel_right hs]
  rw [skipBlanks, hw]

theorem next_of_word {c : Cursor} {gap word rest : List Char} {k : Token.Kind}
    (hc : c.rest = gap ++ (word ++ rest)) (hg : Blank gap)
    (hr : Token.read? (word ++ rest) = some (k, word.length)) :
    c.next = (.ok (some ⟨k, ⟨c.position.advance gap, c.position.advance (gap ++ word)⟩⟩),
      c.skip (gap.length + word.length)) := by
  have hs := skipBlanks_of_append hc hg (Token.not_blank_of_read? hr)
  have hn := next_of_read? (c := c) (k := k) (n := word.length)
    (by rw [← rest_skipBlanks, hs, rest_skip_length hc, hr])
  rw [hn, hs, skip_skip, ahead, Range.ofPiece_eq, rest_skip_length hc, position_skip_length hc,
    List.take_left, Position.advance_append]

theorem exists_next {c : Cursor} {gap word rest : List Char} {k : Token.Kind}
    (hc : c.rest = gap ++ (word ++ rest)) (hg : Blank gap)
    (hr : Token.read? (word ++ rest) = some (k, word.length)) :
    ∃ d, c.next = (.ok (some ⟨k, ⟨c.position.advance gap, c.position.advance (gap ++ word)⟩⟩), d) ∧
      d.rest = rest ∧ d.position = c.position.advance (gap ++ word) := by
  refine ⟨_, next_of_word hc hg hr, ?_⟩
  rw [← List.append_assoc] at hc
  rw [← List.length_append]
  exact ⟨rest_skip_length hc, position_skip_length hc⟩

theorem eq_of_next_none {c d : Cursor} (h : c.next = (.ok none, d)) :
    Blank c.rest ∧ d.rest = [] ∧ d.position = c.position.advance c.rest := by
  obtain ⟨gap, hg, hc, hp⟩ := c.skipBlanks_eq
  simp only [next] at h
  split at h
  · next he =>
    cases h
    rw [he, List.append_nil] at hc
    rw [hc, he]
    exact ⟨hg, rfl, hp⟩
  · split at h <;> cases h

theorem eq_of_next_error {c d : Cursor} {fault : Fault} (h : c.next = (.error fault, d)) :
    ∃ gap, c.rest = gap ++ d.rest ∧ Blank gap ∧ d.position = c.position.advance gap ∧
      d.rest ≠ [] ∧ Token.read? d.rest = none ∧ fault = d.fault := by
  obtain ⟨gap, hg, hc, hp⟩ := c.skipBlanks_eq
  simp only [next] at h
  split at h
  · cases h
  · next hne =>
    split at h
    · cases h
    · next hr =>
      cases h
      exact ⟨gap, hc, hg, hp, hne, hr, rfl⟩

/-- What successive readings give, and where they lead. -/
inductive Gives : Cursor → List Token → Cursor → Prop
  | nil (c) : Gives c [] c
  | cons {c d e t toks} (h : c.next = (.ok (some t), d)) (hr : Gives d toks e) : Gives c (t :: toks) e

theorem gives_append_iff {as bs : List Token} {c e : Cursor} :
    c.Gives (as ++ bs) e ↔ ∃ d, c.Gives as d ∧ d.Gives bs e := by
  constructor
  · intro h
    induction as generalizing c with
    | nil => exact ⟨c, .nil c, h⟩
    | cons t as ih =>
      cases h with
      | cons hn hr =>
        obtain ⟨d, ha, hb⟩ := ih hr
        exact ⟨d, .cons hn ha, hb⟩
  · rintro ⟨d, ha, hb⟩
    induction ha with
    | nil c => exact hb
    | cons hn hr ih => exact .cons hn (ih hb)

theorem gives_of_reads {toks : List Token} {c : Cursor} {ts : Tokens}
    (h : Tokens.Reads toks (.ofCursor c) ts) : ∃ d, ts = .ofCursor d ∧ c.Gives toks d := by
  induction toks generalizing c with
  | nil =>
    cases h
    exact ⟨c, rfl, .nil c⟩
  | cons t toks ih =>
    cases hn : c.next with
    | mk outcome d =>
      match outcome with
      | .error fault =>
        rw [Tokens.ofCursor_broken hn] at h
        cases h
      | .ok none =>
        rw [Tokens.ofCursor_done hn] at h
        cases h
      | .ok (some t') =>
        rw [Tokens.ofCursor_more hn] at h
        cases h with
        | cons _ _ h =>
          obtain ⟨e, rfl, he⟩ := ih h
          exact ⟨e, rfl, .cons hn he⟩

theorem Gives.reads {c d : Cursor} {toks : List Token} (h : c.Gives toks d) :
    Tokens.Reads toks (.ofCursor c) (.ofCursor d) := by
  induction h with
  | nil c => exact .nil _
  | cons h hr ih =>
    rw [Tokens.ofCursor_more h]
    exact .cons _ _ ih

theorem Gives.valid {c d : Cursor} {toks : List Token} (h : c.Gives toks d) :
    ∀ t ∈ toks, t.kind.Valid := by
  induction h with
  | nil c => exact List.forall_mem_nil _
  | cons h hr ih =>
    obtain ⟨gap, word, -, -, -, hread, -⟩ := eq_of_next h
    exact List.forall_mem_cons.2 ⟨Token.valid_of_read? hread, ih⟩

theorem Gives.passes {c d : Cursor} {toks : List Token} (h : c.Gives toks d) :
    ∃ text, c.rest = text ++ d.rest ∧ d.position = c.position.advance text := by
  induction h with
  | nil c => exact ⟨[], rfl, rfl⟩
  | cons h hr ih =>
    obtain ⟨gap, word, hc, -, -, -, -, hd⟩ := eq_of_next h
    obtain ⟨text, ht, he⟩ := ih
    refine ⟨gap ++ word ++ text, ?_, ?_⟩
    · rw [hc, ht]
      simp
    · rw [he, hd, ← Position.advance_append]

theorem Gives.written {c d : Cursor} {toks : List Token} (h : c.Gives toks d) (hne : toks ≠ []) :
    ∃ gap text, c.rest = gap ++ (text ++ d.rest) ∧ Blank gap ∧ text ≠ [] ∧
      Written (toks.map Token.kind) text ∧
      Tokens.reach toks = some ⟨c.position.advance gap, c.position.advance (gap ++ text)⟩ ∧
      d.position = c.position.advance (gap ++ text) := by
  induction h with
  | nil c => exact absurd rfl hne
  | @cons c d e t toks h hr ih =>
    obtain ⟨gap, word, hc, hg, hne', hread, hrange, hd⟩ := eq_of_next h
    have hw : t.kind.WrittenAs word := by
      have := Token.writtenAs_of_read? hread
      rwa [List.take_left] at this
    by_cases ht : toks = []
    · subst ht
      cases hr
      exact ⟨gap, word, hc, hg, hne', .last hw, congrArg some hrange, hd⟩
    · obtain ⟨gap', text, hc', hg', -, hw', hreach, he⟩ := ih ht
      have hall : d.position.advance (gap' ++ text) =
          c.position.advance (gap ++ (word ++ (gap' ++ text))) := by
        rw [hd, ← Position.advance_append, List.append_assoc]
      refine ⟨gap, word ++ (gap' ++ text), ?_, hg, List.append_ne_nil_of_left_ne_nil hne' _,
        .cons hw hg' hw', ?_, ?_⟩
      · rw [hc, hc']
        simp
      · obtain ⟨t', toks, rfl⟩ := List.exists_cons_of_ne_nil ht
        simp only [Tokens.reach, List.head?_cons, Option.bind_some, List.getLast?_cons_cons] at hreach ⊢
        obtain ⟨u, hu, hr⟩ := Option.map_eq_some_iff.1 hreach
        rw [hu, Option.map_some, ← hall]
        congr 1
        have hstop : u.range.stop = d.position.advance (gap' ++ text) := congrArg Range.stop hr
        rw [Range.upTo, hstop, hrange]
      · rw [he, hall]

end Cursor

end TextTemplate
