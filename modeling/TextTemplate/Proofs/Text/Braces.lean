import TextTemplate.Template.Pieces
import Mathlib.Data.List.Infix

namespace TextTemplate

def Braces.brace : Braces → Char
  | opening => '{'
  | closing => '}'

/-- That no double brace stands in a text. -/
def Plain (text : List Char) : Prop := ∀ b : Braces, ¬ [b.brace, b.brace] <:+: text

theorem plain_nil : Plain [] := by
  intro b h
  simpa using List.infix_nil.1 h

theorem plain_cons {c : Char} {text : List Char} :
    Plain (c :: text) ↔ Plain text ∧ ∀ b : Braces, c = b.brace → text.head? ≠ some b.brace := by
  constructor
  · intro h
    refine ⟨fun b hb => h b (List.infix_cons hb), ?_⟩
    rintro b rfl hb
    obtain ⟨rest, rfl⟩ := List.head?_eq_some_iff.1 hb
    exact h b ⟨[], rest, rfl⟩
  · rintro ⟨h, hc⟩ b hb
    obtain hp | hi := List.infix_cons_iff.1 hb
    · obtain ⟨rest, hr⟩ := hp
      obtain ⟨rfl, rfl⟩ := List.cons.inj hr
      exact hc b rfl rfl
    · exact h b hi

theorem literalBefore_braces (b : Braces) (rest : List Char) :
    literalBefore (b.brace :: b.brace :: rest) = ([], some b) := by
  cases b <;> rfl

theorem literalBefore_cons {c : Char} {text : List Char}
    (h : ∀ b : Braces, c = b.brace → text.head? ≠ some b.brace) :
    literalBefore (c :: text) = (c :: (literalBefore text).1, (literalBefore text).2) := by
  rw [literalBefore]
  · rintro rest rfl rfl
    exact h .opening rfl rfl
  · rintro rest rfl rfl
    exact h .closing rfl rfl

theorem literalBefore_of_plain {text : List Char} (h : Plain text) :
    literalBefore text = (text, none) := by
  induction text with
  | nil => rfl
  | cons c text ih =>
    obtain ⟨ht, hc⟩ := plain_cons.1 h
    rw [literalBefore_cons hc, ih ht]

theorem literalBefore_append {lit : List Char} {b : Braces} (h : Plain lit)
    (hl : lit.getLast? ≠ some b.brace) (rest : List Char) :
    literalBefore (lit ++ b.brace :: b.brace :: rest) = (lit, some b) := by
  induction lit with
  | nil => exact literalBefore_braces b rest
  | cons c lit ih =>
    obtain ⟨ht, hc⟩ := plain_cons.1 h
    cases lit with
    | nil =>
      rw [List.singleton_append, literalBefore_cons, literalBefore_braces]
      rintro b' rfl hb
      exact hl hb.symm
    | cons d lit =>
      rw [List.getLast?_cons_cons] at hl
      rw [List.cons_append, literalBefore_cons (by simpa using hc), ih ht hl]

/-- Behind text without double braces the search goes on as if it began there, unless a double brace
stands across the border. -/
theorem literalBefore_append_of_plain {lit more : List Char} (h : Plain lit)
    (hs : ∀ b : Braces, lit.getLast? = some b.brace → more.head? ≠ some b.brace) :
    literalBefore (lit ++ more) = (lit ++ (literalBefore more).1, (literalBefore more).2) := by
  induction lit with
  | nil => rfl
  | cons c lit ih =>
    obtain ⟨ht, hc⟩ := plain_cons.1 h
    cases lit with
    | nil =>
      rw [List.singleton_append, literalBefore_cons]
      · rfl
      · rintro b rfl
        exact hs b rfl
    | cons d lit =>
      rw [List.getLast?_cons_cons] at hs
      rw [List.cons_append, literalBefore_cons (by simpa using hc), ih ht hs]
      rfl

theorem plain_or_append (text : List Char) : Plain text ∨ ∃ lit b rest, Plain lit ∧
    lit.getLast? ≠ some b.brace ∧ text = lit ++ Braces.brace b :: Braces.brace b :: rest := by
  induction text with
  | nil => exact .inl plain_nil
  | cons c text ih =>
    by_cases hc : ∀ b : Braces, c = b.brace → text.head? ≠ some b.brace
    · obtain ht | ⟨lit, b, rest, hl, he, rfl⟩ := ih
      · exact .inl (plain_cons.2 ⟨ht, hc⟩)
      · refine .inr ⟨c :: lit, b, rest, ?_⟩
        cases lit with
        | nil =>
          refine ⟨plain_cons.2 ⟨hl, by simp⟩, ?_, rfl⟩
          intro hb
          exact hc b (Option.some.inj hb) rfl
        | cons d lit =>
          refine ⟨plain_cons.2 ⟨hl, by simpa using hc⟩, ?_, rfl⟩
          rwa [List.getLast?_cons_cons]
    · push Not at hc
      obtain ⟨b, rfl, hb⟩ := hc
      obtain ⟨rest, rfl⟩ := List.head?_eq_some_iff.1 hb
      exact .inr ⟨[], b, rest, plain_nil, nofun, rfl⟩

theorem literalBefore_eq_none_iff {text lit : List Char} :
    literalBefore text = (lit, none) ↔ Plain lit ∧ text = lit := by
  constructor
  · intro h
    obtain ht | ⟨lit', b, rest, hl, he, rfl⟩ := plain_or_append text
    · rw [literalBefore_of_plain ht] at h
      cases h
      exact ⟨ht, rfl⟩
    · rw [literalBefore_append hl he] at h
      cases h
  · rintro ⟨h, rfl⟩
    exact literalBefore_of_plain h

instance (text : List Char) : Decidable (Plain text) :=
  decidable_of_iff (literalBefore text = (text, none))
    ⟨fun h => (literalBefore_eq_none_iff.1 h).1, literalBefore_of_plain⟩

theorem literalBefore_eq_some_iff {text lit : List Char} {b : Braces} :
    literalBefore text = (lit, some b) ↔ Plain lit ∧ lit.getLast? ≠ some b.brace ∧
      ∃ rest, text = lit ++ b.brace :: b.brace :: rest := by
  constructor
  · intro h
    obtain ht | ⟨lit', b', rest, hl, he, rfl⟩ := plain_or_append text
    · rw [literalBefore_of_plain ht] at h
      cases h
    · rw [literalBefore_append hl he] at h
      cases h
      exact ⟨hl, he, rest, rfl⟩
  · rintro ⟨hl, he, rest, rfl⟩
    exact literalBefore_append hl he rest

end TextTemplate
