import TextTemplate.Proofs.Text.Cut
import TextTemplate.Text.Quoted

namespace TextTemplate.Quoted

def unescape : Char → Char
  | '0' => '\x00'
  | 't' => '\t'
  | 'r' => '\r'
  | 'n' => '\n'
  | c => c

/-- The forms in which a character may be shown. -/
inductive Form : Char → List Char → Prop
  | letter {c l} (hu : l ≠ 'u') (hn : l ≠ '\n') (hc : unescape l = c) : Form c ['\\', l]
  | number (c) : Form c (byNumber c)
  | plain {c} (hb : c ≠ '\\') (hq : c ≠ '"') (hn : c ≠ '\n') : Form c [c]

theorem form_encodeChar (c : Char) : Form c (encodeChar c) := by
  unfold encodeChar
  split_ifs with h0 ht hr hn hq hb he
  · exact .letter (by decide) (by decide) h0.symm
  · exact .letter (by decide) (by decide) ht.symm
  · exact .letter (by decide) (by decide) hr.symm
  · exact .letter (by decide) (by decide) hn.symm
  · exact .letter (by decide) (by decide) hq.symm
  · exact .letter (by decide) (by decide) hb.symm
  · exact .number c
  · exact .plain hb hq hn

theorem mem_toDigits {n : Nat} {c : Char} (h : c ∈ Nat.toDigits 16 n) : ∃ d, c = Nat.digitChar d := by
  induction n using Nat.strongRecOn with
  | ind n ih =>
    rw [Nat.toDigits_eq_if (by decide)] at h
    split at h
    · exact ⟨n, List.mem_singleton.1 h⟩
    · obtain h | h := List.mem_append.1 h
      · exact ih (n / 16) (Nat.div_lt_self (by omega) (by decide)) h
      · exact ⟨n % 16, List.mem_singleton.1 h⟩

def digitOf (c : Char) : Nat := if c.isDigit then c.toNat - '0'.toNat else c.toNat - 'a'.toNat + 10

def hexValue (digits : List Char) : Nat := digits.foldl (fun n c => 16 * n + digitOf c) 0

theorem digitOf_digitChar : ∀ d < 16, digitOf (Nat.digitChar d) = d := by decide

theorem hexValue_toDigits (n : Nat) : hexValue (Nat.toDigits 16 n) = n := by
  induction n using Nat.strongRecOn with
  | ind n ih =>
    rw [Nat.toDigits_eq_if (by decide)]
    split
    · next hn =>
      rw [hexValue, List.foldl_cons, List.foldl_nil, digitOf_digitChar n hn]
      omega
    · have hq : hexValue (Nat.toDigits 16 (n / 16)) = n / 16 :=
        ih (n / 16) (Nat.div_lt_self (by omega) (by decide))
      rw [hexValue] at hq ⊢
      rw [List.foldl_append, hq, List.foldl_cons, List.foldl_nil,
        digitOf_digitChar (n % 16) (Nat.mod_lt n (by decide))]
      omega

theorem byNumber_append_inj {c d : Char} {u v : List Char} (h : byNumber c ++ u = byNumber d ++ v) :
    c = d ∧ u = v := by
  have hne : ∀ n, '}' ∉ Nat.toDigits 16 n := by
    intro n hm
    obtain ⟨d, hd⟩ := mem_toDigits hm
    exact Nat.digitChar_ne '}' rfl hd.symm
  have h' : Nat.toDigits 16 c.toNat ++ '}' :: u = Nat.toDigits 16 d.toNat ++ '}' :: v := by
    simpa [byNumber] using h
  obtain ⟨hdigits, huv⟩ := append_cons_inj (hne _) (hne _) h'
  refine ⟨Char.toNat_inj.1 ?_, huv⟩
  rw [← hexValue_toDigits c.toNat, hdigits, hexValue_toDigits]

namespace Form

variable {c d : Char} {a b u v : List Char}

theorem append_inj (hc : Form c a) (hd : Form d b) (h : a ++ u = b ++ v) : c = d ∧ u = v := by
  cases hc with
  | letter hu hn hc =>
    cases hd with
    | letter hu' hn' hd =>
      subst hc hd
      simp only [List.cons_append, List.nil_append, List.cons.injEq, true_and] at h
      exact ⟨congrArg unescape h.1, h.2⟩
    | number => exact absurd (List.cons.inj (List.cons.inj h).2).1 hu
    | plain hb' hq' hn' => exact absurd (List.cons.inj h).1.symm hb'
  | number =>
    cases hd with
    | letter hu' hn' hd => exact absurd (List.cons.inj (List.cons.inj h).2).1.symm hu'
    | number => exact byNumber_append_inj h
    | plain hb' hq' hn' => exact absurd (List.cons.inj h).1.symm hb'
  | plain hb hq hn =>
    cases hd with
    | letter hu' hn' hd => exact absurd (List.cons.inj h).1 hb
    | number => exact absurd (List.cons.inj h).1 hb
    | plain hb' hq' hn' => exact List.cons.inj h

/-- A quote is never shown as itself, so the one behind the text ends it. -/
theorem ne_quote (h : Form c a) : a ++ u ≠ '"' :: v := by
  cases h with
  | letter hu hn hc => nofun
  | number => nofun
  | plain hb hq hn => exact fun h => hq (List.cons.inj h).1

theorem newline_not_mem (h : Form c a) : '\n' ∉ a := by
  cases h with
  | letter hu hn hc => simp [hn.symm]
  | number =>
    have hd : '\n' ∉ Nat.toDigits 16 c.toNat := by
      intro hm
      obtain ⟨d, hd⟩ := mem_toDigits hm
      exact Nat.digitChar_ne '\n' rfl hd.symm
    simp [byNumber, hd]
  | plain hb hq hn => simp [hn.symm]

end Form

theorem flatMap_encodeChar_inj {as bs u v : List Char}
    (h : as.flatMap encodeChar ++ '"' :: u = bs.flatMap encodeChar ++ '"' :: v) : as = bs ∧ u = v := by
  induction as generalizing bs with
  | nil =>
    cases bs with
    | nil => exact ⟨rfl, (List.cons.inj h).2⟩
    | cons b bs =>
      rw [List.flatMap_cons, List.append_assoc] at h
      exact absurd h.symm (form_encodeChar b).ne_quote
  | cons a as ih =>
    cases bs with
    | nil =>
      rw [List.flatMap_cons, List.append_assoc] at h
      exact absurd h (form_encodeChar a).ne_quote
    | cons b bs =>
      rw [List.flatMap_cons, List.flatMap_cons, List.append_assoc, List.append_assoc] at h
      obtain ⟨rfl, h'⟩ := (form_encodeChar a).append_inj (form_encodeChar b) h
      obtain ⟨rfl, huv⟩ := ih h'
      exact ⟨rfl, huv⟩

theorem encode_injective : Function.Injective encode := by
  intro a b h
  have h' := (List.cons.inj (String.ofList_injective h)).2
  obtain ⟨ht, -⟩ := flatMap_encodeChar_inj (u := []) (v := []) h'
  exact String.toList_inj.1 ht

theorem newline_not_mem_encode (text : String) : '\n' ∉ (encode text).toList := by
  rw [encode, String.toList_ofList]
  simp only [List.cons_append, List.mem_cons, List.mem_append, List.mem_flatMap, not_or]
  refine ⟨by decide, ?_, by decide⟩
  rintro ⟨c, -, hc⟩
  exact (form_encodeChar c).newline_not_mem hc

end TextTemplate.Quoted
