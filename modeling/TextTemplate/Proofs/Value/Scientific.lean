import TextTemplate.Proofs.Token.Source
import TextTemplate.Proofs.Value.Binary64
import TextTemplate.Proofs.Value.Rounding
import TextTemplate.Value
import Mathlib

namespace TextTemplate

theorem decimalValue_lt {digits : List Char} (h : ∀ c ∈ digits, c.isDigit) :
    decimalValue digits < 10 ^ digits.length := by
  induction digits using List.reverseRecOn with
  | nil => decide
  | append_singleton digits d ih =>
    have hd := (digitValue_lt (h d (by simp))).1
    have hdigits := ih fun c hc => h c (by simp [hc])
    rw [decimalValue_append_singleton, List.length_append, List.length_singleton, pow_succ]
    omega

theorem eq_zero_iff_decimalValue_lt {c : Char} {digits : List Char} (h : ∀ d ∈ c :: digits, d.isDigit) :
    c = '0' ↔ decimalValue (c :: digits) < 10 ^ digits.length := by
  obtain ⟨hc, hdigits⟩ := List.forall_mem_cons.1 h
  constructor
  · rintro rfl
    exact decimalValue_lt hdigits
  · intro hv
    have hzero : digitValue c = 0 := by
      by_contra hne
      have := Nat.le_mul_of_pos_left (10 ^ digits.length) (Nat.pos_of_ne_zero hne)
      rw [decimalValue_cons] at hv
      omega
    have hchar := (digitValue_lt hc).2
    rw [hzero] at hchar
    exact hchar.symm

theorem eq_zeros_of_decimalValue {digits : List Char} (h : ∀ c ∈ digits, c.isDigit)
    (hv : decimalValue digits = 0) : digits = List.replicate digits.length '0' := by
  induction digits with
  | nil => rfl
  | cons c digits ih =>
    have hc : c = '0' := (eq_zero_iff_decimalValue_lt h).2 (by rw [hv]; positivity)
    have hdigits := ih (List.forall_mem_cons.1 h).2 (by rw [decimalValue_cons] at hv; omega)
    rw [List.length_cons, List.replicate_succ, ← hdigits, hc]

namespace Scientific

section

variable {width n : ℕ}

theorem length_padded (width n : ℕ) : (padded width n).length = max width (Nat.toDigits 10 n).length := by
  rw [padded, List.length_append, List.length_replicate]
  omega

theorem length_padded_of_lt (hw : 0 < width) (h : n < 10 ^ width) : (padded width n).length = width := by
  have := (Nat.length_toDigits_le_iff (by norm_num) hw).2 h
  rw [length_padded]
  omega

theorem head?_padded (hw : 0 < width) (h : width < (padded width n).length) :
    (padded width n).head? ≠ some '0' := by
  have hv : ¬ n < 10 ^ ((padded width n).length - 1) := by
    rw [← Nat.length_toDigits_le_iff (by norm_num) (by omega)]
    rw [length_padded] at h ⊢
    omega
  have hvalue := decimalValue_padded width n
  have hall : ∀ c ∈ padded width n, c.isDigit := fun c hc => isDigit_of_mem_padded hc
  cases hp : padded width n with
  | nil => simp
  | cons c digits =>
    rw [hp] at hv hvalue hall
    rw [List.head?_cons]
    intro hc
    rw [Option.some_inj, eq_zero_iff_decimalValue_lt hall, hvalue] at hc
    exact hv hc

end

/-- A number in scientific notation: sixteen digits with a point behind the first of them, and an
exponent with zeros in front only where it would have less than two digits. -/
structure Numeral where
  negative : Bool
  first : Char
  others : List Char
  down : Bool
  exponent : List Char
  isDigit_first : first.isDigit
  isDigit_others : ∀ c ∈ others, c.isDigit
  length_others : others.length = 15
  isDigit_exponent : ∀ c ∈ exponent, c.isDigit
  length_exponent : 2 ≤ exponent.length
  padded_only : 2 < exponent.length → exponent.head? ≠ some '0'
  down_only : down → decimalValue exponent ≠ 0

namespace Numeral

def text (s : Numeral) : String :=
  .ofList ((if s.negative then ['-'] else []) ++ s.first :: '.' :: s.others
    ++ 'e' :: (if s.down then '-' else '+') :: s.exponent)

def significand (s : Numeral) : ℕ := decimalValue (s.first :: s.others)

def power (s : Numeral) : ℤ := if s.down then -decimalValue s.exponent else decimalValue s.exponent

/-- The number that a numeral denotes. -/
def value (s : Numeral) : ℚ :=
  (if s.negative then -1 else 1) * (s.significand / 10 ^ 15) * 10 ^ s.power

variable {s : Numeral}

/-- A text is that of one numeral. -/
theorem text_injective : Function.Injective text := by
  intro s s' h
  have hsign {s s' : Numeral} (h : s.text = s'.text) (hs : s.negative = true) : s'.negative = true := by
    by_contra hs'
    have hl := String.ofList_injective h
    rw [hs, if_pos rfl, if_neg hs'] at hl
    have hfirst : '-' = s'.first := (List.cons.inj hl).1
    have hdigit := s'.isDigit_first
    rw [← hfirst] at hdigit
    cases hdigit
  have hnegative : s.negative = s'.negative := Bool.eq_iff_iff.2 ⟨hsign h, hsign h.symm⟩
  have hl := String.ofList_injective h
  rw [hnegative, List.append_assoc, List.append_assoc, List.append_cancel_left_eq] at hl
  obtain ⟨hfirst, hl⟩ := List.cons.inj hl
  obtain ⟨hothers, hl⟩ := List.append_inj (List.cons.inj hl).2 (s.length_others.trans s'.length_others.symm)
  obtain ⟨hdown, hexponent⟩ := List.cons.inj (List.cons.inj hl).2
  have hd : s.down = s'.down := by
    revert hdown
    cases s.down <;> cases s'.down <;> decide
  cases s
  cases s'
  subst hnegative hfirst hothers hd hexponent
  rfl

theorem exponent_of_power_eq_zero (h : s.power = 0) : s.down = false ∧ s.exponent = ['0', '0'] := by
  have hv : decimalValue s.exponent = 0 := by
    rw [power] at h
    split at h <;> omega
  refine ⟨Bool.eq_false_iff.2 fun hd => s.down_only hd hv, ?_⟩
  have hzeros := eq_zeros_of_decimalValue s.isDigit_exponent hv
  have hlength : s.exponent.length = 2 := by
    refine Nat.le_antisymm (Nat.not_lt.1 fun h => s.padded_only h ?_) s.length_exponent
    rw [hzeros, List.head?_replicate, if_neg (by omega)]
  rw [hzeros, hlength]
  rfl

theorem value_eq (s : Numeral) : s.value =
    if s.negative then -((s.significand : ℚ) * 10 ^ (s.power - 15))
    else s.significand * 10 ^ (s.power - 15) := by
  have hp : (10 : ℚ) ^ s.power = 10 ^ 15 * 10 ^ (s.power - 15) := by
    rw [← zpow_natCast, ← zpow_add₀ (by norm_num)]
    congr 1
    ring
  rw [value, hp]
  split
  · ring
  · ring

end Numeral

theorem power?_eq {p : ℤ} (h : p.natAbs < 2 ^ 31) :
    power? ((if p < 0 then ['-'] else []) ++ Nat.toDigits 10 p.natAbs) = some p := by
  have hne : Nat.toDigits 10 p.natAbs ≠ [] := Nat.toDigits_ne_nil
  have hall : (Nat.toDigits 10 p.natAbs).all Char.isDigit :=
    List.all_eq_true.2 fun c => isDigit_of_mem_toDigits
  have hv := decimalValue_toDigits p.natAbs
  have hhalf : UInt32.size / 2 = 2 ^ 31 := rfl
  generalize Nat.toDigits 10 p.natAbs = digits at *
  rw [power?]
  by_cases hp : p < 0
  · simp only [hp, if_true, List.cons_append, List.nil_append, List.head?_cons, decide_true, true_or,
      List.tail_cons, hne, ne_eq, not_false_eq_true, hall, hv, hhalf, true_and]
    rw [if_pos (by omega)]
    exact congrArg some (by omega)
  · have hsign : ∀ c ∈ digits.head?, c ≠ '-' ∧ c ≠ '+' := by
      intro c hc
      have hdigit := List.all_eq_true.1 hall c (List.mem_of_mem_head? hc)
      constructor <;> rintro rfl <;> cases hdigit
    have hminus : digits.head? ≠ some '-' := fun hc => (hsign _ hc).1 rfl
    have hplus : digits.head? ≠ some '+' := fun hc => (hsign _ hc).2 rfl
    simp only [hp, if_false, List.nil_append, hminus, hplus, decide_false, Bool.false_eq_true, or_self,
      hne, ne_eq, not_false_eq_true, hall, hv, hhalf, true_and]
    rw [if_pos h]
    exact congrArg some (by omega)

/-- The exponent of what is printed for a fraction is no whole number that is too large. -/
theorem signed?_exponential (negative : Bool) {n d : ℕ} (h : (digits n d).2.natAbs < 2 ^ 31) :
    signed? (exponential negative n d) = some ((if negative then ['-'] else [])
      ++ pointed (padded 16 (digits n d).1) ++ 'e' :: (if (digits n d).2 < 0 then '-' else '+') ::
        padded 2 (digits n d).2.natAbs) := by
  rw [exponential]
  generalize digits n d = found at *
  obtain ⟨m, p⟩ := found
  dsimp only at *
  have hfront : ∀ c ∈ (if negative then ['-'] else []) ++ pointed (padded 16 m), decide (c ≠ 'e') := by
    intro c hc
    rw [decide_eq_true_eq]
    rintro rfl
    obtain hc | hc := List.mem_append.1 hc
    · cases negative <;> simp at hc
    · have hdigit : ∀ c ∈ padded 16 m, c.isDigit := fun c => isDigit_of_mem_padded
      cases hs : padded 16 m with
      | nil =>
        rw [hs] at hc
        cases hc
      | cons first others =>
        rw [hs] at hc hdigit
        obtain rfl | hc := List.mem_cons.1 hc
        · cases hdigit 'e' List.mem_cons_self
        · obtain hc | hc := List.mem_cons.1 hc
          · cases hc
          · cases hdigit 'e' (List.mem_cons_of_mem first hc)
  rw [signed?, List.dropWhile_append_of_pos hfront, List.takeWhile_append_of_pos hfront]
  simp [power?_eq h]

/-- What is written for a fraction is a numeral with the digits that are found for it. -/
theorem exists_numeral (negative : Bool) {n d : ℕ} (h : (digits n d).1 < 10 ^ 16)
    (hpower : (digits n d).2.natAbs < 2 ^ 31) :
    ∃ s : Numeral, String.ofList (ofFraction negative n d) = s.text ∧ s.negative = negative ∧
      s.significand = (digits n d).1 ∧ s.power = (digits n d).2 := by
  rw [ofFraction, signed?_exponential negative hpower, Option.getD_some]
  generalize digits n d = found at *
  obtain ⟨m, p⟩ := found
  have hlength : (padded 16 m).length = 16 := length_padded_of_lt (by norm_num) h
  have hvalue := decimalValue_padded 16 m
  have hdigits : ∀ c ∈ padded 16 m, c.isDigit := fun c hc => isDigit_of_mem_padded hc
  have hexponent := decimalValue_padded 2 p.natAbs
  dsimp only
  cases hs : padded 16 m with
  | nil =>
    rw [hs] at hlength
    cases hlength
  | cons first others =>
    rw [hs] at hlength hvalue hdigits
    refine ⟨⟨negative, first, others, p < 0, padded 2 p.natAbs, hdigits first List.mem_cons_self,
      fun c hc => hdigits c (List.mem_cons_of_mem first hc), Nat.succ.inj hlength,
      fun c hc => isDigit_of_mem_padded hc, ?_, head?_padded (by norm_num), ?_⟩, ?_, rfl, hvalue, ?_⟩
    · rw [length_padded]
      omega
    · rw [hexponent, decide_eq_true_eq]
      omega
    · simp [Numeral.text, pointed]
    · change (if decide (p < 0) = true then -(decimalValue (padded 2 p.natAbs) : ℤ) else _) = p
      rw [hexponent]
      simp only [decide_eq_true_eq]
      split
      · omega
      · omega

theorem ofFraction_nearest (negative : Bool) {n d : ℕ} (hd : 0 < d)
    (hpower : (digits n d).2.natAbs < 2 ^ 31) :
    ∃ s : Numeral, String.ofList (ofFraction negative n d) = s.text ∧ s.negative = negative ∧
      (s.first = '0' ↔ n = 0) ∧ (n = 0 → s.power = 0) ∧
      IsNearest (if negative then -(n / d : ℚ) else n / d) s.value s.significand := by
  obtain ⟨s, ht, hneg, hs, hp⟩ := exists_numeral negative (digits_lt (n := n) hd) hpower
  have hnear := digits_nearest (n := n) hd
  have hfirst := eq_zero_iff_decimalValue_lt (List.forall_mem_cons.2 ⟨s.isDigit_first, s.isDigit_others⟩)
  rw [s.length_others] at hfirst
  refine ⟨s, ht, hneg, ?_, ?_, ?_⟩
  · rw [hfirst, ← digits_lt_iff hd, ← hs]
    rfl
  · rintro rfl
    exact hp
  · rw [Numeral.value_eq, hneg, hs, hp]
    split
    · exact hnear.neg
    · exact hnear

theorem text_of_finite {x : Binary64} (hx : x.IsFinite) :
    ∃ s : Numeral, (Value.float (.ofBits x.bits)).text = s.text ∧ s.negative = x.negative ∧
      (s.first = '0' ↔ x.value = 0) ∧ (x.value = 0 → s.power = 0) ∧
      IsNearest x.value s.value s.significand := by
  obtain ⟨m, e, hdecode, hm, hlt, hlow, hhigh⟩ := Binary64.decode_finite hx
  have hd : 0 < 2 ^ (-e).toNat := by positivity
  have hmagnitude : x.magnitude = (m * 2 ^ e.toNat : ℕ) / (2 ^ (-e).toNat : ℕ) := by
    rw [hm, zpow_eq_div two_ne_zero]
    push_cast
    rw [mul_div_assoc]
  have hzero : m * 2 ^ e.toNat = 0 ↔ x.value = 0 := by
    rw [Binary64.value_eq_zero_iff, hmagnitude, div_eq_zero_iff, Nat.cast_eq_zero, Nat.cast_eq_zero,
      or_iff_left hd.ne']
  have hn : m * 2 ^ e.toNat < 2 ^ (53 + e.toNat) := by
    rw [pow_add]
    exact Nat.mul_lt_mul_of_pos_right hlt (by positivity)
  have hden : 2 ^ (-e).toNat < 2 ^ ((-e).toNat + 1) := Nat.pow_lt_pow_succ (by norm_num)
  have hpower := natAbs_power_le hn hden (by omega) (by omega)
  obtain ⟨s, ht, hneg, hfirst, hp, hnear⟩ :=
    ofFraction_nearest x.negative (n := m * 2 ^ e.toNat) hd (by omega)
  rw [← hmagnitude] at hnear
  refine ⟨s, ?_, hneg, hfirst.trans hzero, fun h => hp (hzero.2 h), hnear⟩
  rw [Value.text, ofFloat, hdecode]
  exact ht

end Scientific

/-- What is written for a double-precision number is told by its bits, whichever they are. Where the
fields are those of a number, it is a sign just for a negative one, be it a zero, a digit that is a zero
just for zero, a point, fifteen digits, and an exponent, `+00` for zero. The number that this denotes is
the one of sixteen digits nearest to the exact value, and the even one of two that are as near. -/
theorem text_float_nearest :
    Function.Surjective Binary64.bits ∧ ∀ x : Binary64,
      (x.IsNaN → (Value.float (.ofBits x.bits)).text = "nan") ∧
      (x.exponent = 2047 → x.fraction = 0 →
        (Value.float (.ofBits x.bits)).text = if x.negative then "-inf" else "inf") ∧
      (x.IsFinite → ∃! s : Scientific.Numeral, (Value.float (.ofBits x.bits)).text = s.text ∧
        s.negative = x.negative ∧ (s.first = '0' ↔ x.value = 0) ∧
        (x.value = 0 → s.down = false ∧ s.exponent = ['0', '0']) ∧
        Scientific.IsNearest x.value s.value s.significand) := by
  refine ⟨Binary64.bits_surjective, fun x => ⟨fun hx => ?_, fun he hf => ?_, fun hx => ?_⟩⟩
  · rw [Value.text, Scientific.ofFloat, Binary64.decode_nan hx]
    rfl
  · rw [Value.text, Scientific.ofFloat, Binary64.decode_infinite he hf]
    cases x.negative <;> rfl
  · obtain ⟨s, ht, hneg, hfirst, hp, hnear⟩ := Scientific.text_of_finite hx
    refine ⟨s, ⟨ht, hneg, hfirst, fun h => s.exponent_of_power_eq_zero (hp h), hnear⟩, ?_⟩
    rintro s' ⟨ht', -⟩
    exact Scientific.Numeral.text_injective (ht'.symm.trans ht)

/-- In the middle between two numbers of sixteen digits. -/
example : (Value.float (.ofBits 0x43118b54f22aeb02)).text = "1.234567890123456e+15" := by decide +kernel

end TextTemplate
