import TextTemplate.Proofs.Token.Reading
import Mathlib

namespace TextTemplate

namespace Token.Kind

/-- That a token is read from its own text. -/
def Valid : Token.Kind → Prop
  | name x => IsName x.toList ∧ x ≠ "for" ∧ x ≠ "end"
  | number n => n < numberBound
  | _ => True

/-- Words and numbers, which may go on in what follows them. -/
def wordy : Token.Kind → Bool
  | endWord | forWord | name _ | number _ => true
  | _ => false

end Token.Kind

def WordsApart (ks : List Token.Kind) : Prop := ks.IsChain fun a b => a.wordy → b.wordy = false

/-- Tokens as text. -/
inductive Spaced : List Token.Kind → List Char → Prop
  | nil {gap} (hg : Blank gap) : Spaced [] gap
  | cons {gap text k ks} (hg : Blank gap) (h : Spaced ks text) :
    Spaced (k :: ks) (gap ++ (k.text.toList ++ text))

theorem isDigit_eq_false {c : Char} (h : isNameStart c) : c.isDigit = false := by
  have hz : 'Z'.val.toNat = 90 := rfl
  simp only [isNameStart, Char.isAlpha, Char.isUpper, Char.isLower, Bool.or_eq_true, Bool.and_eq_true,
    decide_eq_true_eq, UInt32.le_iff_toNat_le, ge_iff_le] at h
  simp only [Char.isDigit, Bool.and_eq_false_iff, decide_eq_false_iff_not, UInt32.le_iff_toNat_le,
    ge_iff_le]
  change ((65 ≤ c.val.toNat ∧ c.val.toNat ≤ 90) ∨ (97 ≤ c.val.toNat ∧ c.val.toNat ≤ 122)) ∨ c = '_' at h
  change ¬ 48 ≤ c.val.toNat ∨ ¬ c.val.toNat ≤ 57
  obtain h | rfl := h
  · omega
  · decide

theorem head_of_nameLength {c : Char} {text : List Char} (h : nameLength (c :: text) = 0) :
    c.isDigit = false := by
  by_contra hd
  have hc : isNameChar c := by
    simp only [isNameChar, Char.isAlphanum, Bool.or_eq_true]
    exact .inl (.inr (by simpa using hd))
  rw [nameLength_cons hc] at h
  cases h

theorem nameLength_of_blank {c : Char} (h : isBlank c) (text : List Char) :
    nameLength (c :: text) = 0 := by
  simp only [isBlank, Bool.or_eq_true, decide_eq_true_eq] at h
  obtain (((rfl | rfl) | rfl) | rfl) | rfl := h <;>
    exact nameLength_cons_eq_zero rfl fun h => absurd h (by decide)

theorem nameLength_gap {gap text : List Char} (hg : Blank gap) (h : nameLength text = 0) :
    nameLength (gap ++ text) = 0 := by
  cases gap with
  | nil => exact h
  | cons c gap => exact nameLength_of_blank (hg c (by simp)) (gap ++ text)

namespace Token

theorem number?_eq_none {c : Char} (h : c.isDigit = false) (text : List Char) :
    number? (c :: text) = none := by
  simp [number?, h]

theorem read?_word {c : Char} {rest text : List Char} (hc : isNameStart c)
    (hr : nameLength rest = rest.length) (ht : nameLength text = 0) :
    read? (c :: rest ++ text) = some (.ofName (c :: rest), rest.length + 1) := by
  have hd : number? (c :: rest ++ text) = none := number?_eq_none (isDigit_eq_false hc) _
  have hn : name? (c :: rest ++ text) = some (.ofName (c :: rest), rest.length + 1) := by
    simp [name?, hc, nameLength_append hr, ht]
  unfold read?
  split
  case h_7 => rw [hd, hn]; rfl
  all_goals
    next he =>
      obtain ⟨rfl, -⟩ := List.cons.inj he
      cases hc

theorem read?_number {n : Nat} (h : n < numberBound) {text : List Char} (ht : nameLength text = 0) :
    read? (n.repr.toList ++ text) = some (.number n, n.repr.toList.length) := by
  have hne := repr_ne_nil n
  have htext : text.takeWhile Char.isDigit = [] := by
    cases text with
    | nil => rfl
    | cons c text => simp [head_of_nameLength ht]
  have hds : (n.repr.toList ++ text).takeWhile Char.isDigit = n.repr.toList := by
    rw [List.takeWhile_append_of_pos fun c => isDigit_of_mem_repr, htext, List.append_nil]
  have hn : number? (n.repr.toList ++ text) = some (.number n, n.repr.toList.length) := by
    simp only [number?, hds, decimalValue_repr, if_pos (And.intro hne h)]
  have head : ∀ c rest, n.repr.toList ++ text = c :: rest → c.isDigit := by
    intro c rest he
    obtain ⟨d, ds, hd⟩ := List.exists_cons_of_ne_nil hne
    rw [hd, List.cons_append] at he
    obtain ⟨rfl, -⟩ := List.cons.inj he
    exact isDigit_of_mem_repr (by rw [hd]; exact List.mem_cons_self)
  unfold read?
  split
  case h_7 =>
    rw [hn]
    rfl
  all_goals
    next he => cases head _ _ he

theorem ofName_toList {x : String} (hf : x ≠ "for") (he : x ≠ "end") :
    Kind.ofName x.toList = .name x := by
  have hf' : x.toList ≠ ['f', 'o', 'r'] := fun h => hf (String.toList_inj.1 h)
  have he' : x.toList ≠ ['e', 'n', 'd'] := fun h => he (String.toList_inj.1 h)
  rw [Kind.ofName, if_neg hf', if_neg he', String.ofList_toList]

theorem read?_text {k : Kind} (hv : k.Valid) {text : List Char}
    (ht : k.wordy → nameLength text = 0) :
    read? (k.text.toList ++ text) = some (k, k.text.toList.length) := by
  cases k with
  | comma => rfl
  | endWord => exact read?_word (c := 'e') rfl rfl (ht rfl)
  | close => rfl
  | forWord => exact read?_word (c := 'f') rfl rfl (ht rfl)
  | name x =>
    obtain ⟨hx, hf, he⟩ := hv
    obtain ⟨c, rest, hc⟩ : ∃ c rest, x.toList = c :: rest := by
      obtain ⟨word, segments, ⟨c, rest, rfl, -⟩, -, hx⟩ := hx
      exact ⟨c, _, hx⟩
    rw [hc] at hx
    obtain ⟨hs, hr⟩ := hx.nameLength_eq
    rw [Kind.text, ← ofName_toList hf he, hc]
    exact read?_word hs hr (ht rfl)
  | leftParen => rfl
  | number n => exact read?_number hv (ht rfl)
  | pipe => rfl
  | rightParen => rfl
  | dots => rfl

end Token

theorem not_mem_repr {c : Char} (h : c.isDigit = false) (n : Nat) : c ∉ n.repr.toList := by
  intro hm
  rw [isDigit_of_mem_repr hm] at h
  cases h

theorem Spaced.nameLength_eq_zero {ks : List Token.Kind} {text : List Char} (h : Spaced ks text)
    (hk : ∀ k ∈ ks.head?, k.wordy = false) : nameLength text = 0 := by
  cases h with
  | nil hg =>
    have h0 : nameLength (text ++ []) = 0 := nameLength_gap hg rfl
    rwa [List.append_nil] at h0
  | @cons gap text k ks hg h =>
    refine nameLength_gap hg ?_
    have hk := hk k rfl
    cases k with
    | endWord | forWord | name _ | number _ => cases hk
    | dots =>
      refine nameLength_cons_eq_zero rfl fun _ d hd => ?_
      obtain rfl := Option.some.inj hd
      rfl
    | _ => exact nameLength_cons_eq_zero rfl nofun

/-- Tokens are read back from their text. -/
theorem Spaced.lexes {ks : List Token.Kind} {text : List Char} (h : Spaced ks text)
    (hv : ∀ k ∈ ks, k.Valid) (hc : WordsApart ks) :
    Lexes ks text := by
  induction h with
  | nil hg => exact .nil hg
  | @cons gap text k ks hg h ih =>
    obtain ⟨hk, hc⟩ := List.isChain_cons.1 hc
    have hl := ih (fun k hk => hv k (List.mem_cons_of_mem _ hk)) hc
    refine .cons hg (Token.read?_text (hv k List.mem_cons_self) fun hw => ?_) hl
    exact h.nameLength_eq_zero fun k' hk' => hk k' hk' hw

theorem spaced_row (row : List (List Char × Token.Kind)) (gap : List Char)
    (hr : ∀ p ∈ row, Blank p.1) (hg : Blank gap) :
    Spaced (row.map Prod.snd) (row.flatMap (fun p => p.1 ++ p.2.text.toList) ++ gap) := by
  induction row with
  | nil => exact .nil hg
  | cons p row ih =>
    obtain ⟨hp, hr⟩ := List.forall_mem_cons.1 hr
    rw [List.map_cons, List.flatMap_cons, List.append_assoc, List.append_assoc]
    exact .cons hp (ih hr)

end TextTemplate
