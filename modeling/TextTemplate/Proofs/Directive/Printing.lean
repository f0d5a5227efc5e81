import TextTemplate.Proofs.Directive.Grammar
import TextTemplate.Proofs.Token.Text

namespace TextTemplate

def Binder (x : String) : Prop := IsWord x.toList ∧ x ≠ "for" ∧ x ≠ "end"

/-- Names and numbers that can be read. -/
def Directive.Kind.Valid : Directive.Kind → Prop
  | field name => (Token.Kind.name name).Valid
  | forRange first stop names => first < numberBound ∧ stop < numberBound ∧ ∀ x ∈ names, Binder x
  | forList list item further => (Token.Kind.name list).Valid ∧ ∀ x ∈ item :: further, Binder x
  | endLoop => True

/-- Text that shows a directive, or an empty one, with any blanks between its tokens. -/
def Shows (kind : Option Directive.Kind) (text : List Char) : Prop :=
  ∃ ks body, Spells ks kind ∧ Spaced ks body ∧ text = '{' :: '{' :: (body ++ ['}', '}'])

theorem Binder.valid {x : String} (h : Binder x) : (Token.Kind.name x).Valid :=
  ⟨h.1.isName, h.2⟩

theorem Binder.dotless {x : String} (h : Binder x) : Dotless x := by
  obtain ⟨⟨c, rest, hx, hc, hr⟩, -⟩ := h
  intro hd
  rw [hx] at hd
  obtain rfl | hd := List.mem_cons.1 hd
  · cases hc
  · cases hr _ hd

theorem binder_append {index : Option String} {further : List String} (hm : ∀ i ∈ index, Binder i)
    (hb : ∀ x ∈ further, Binder x) : ∀ x ∈ index.toList ++ further, Binder x := by
  intro x hx
  obtain hx | hx := List.mem_append.1 hx
  · exact hm x (Option.mem_toList.1 hx)
  · exact hb x hx

theorem valid_binderKinds {names : List String} (h : ∀ x ∈ names, Binder x) :
    ∀ k ∈ binderKinds names, k.Valid := by
  cases names with
  | nil => nofun
  | cons x xs =>
    intro k hk
    simp only [binderKinds, List.cons_append, List.mem_cons, List.mem_append, List.mem_flatMap,
      List.not_mem_nil, or_false] at hk
    obtain rfl | rfl | ⟨y, hy, rfl | rfl⟩ | rfl := hk
    · trivial
    · exact (h x List.mem_cons_self).valid
    · trivial
    · exact (h y (List.mem_cons_of_mem x hy)).valid
    · trivial

theorem Spells.valid {ks : List Token.Kind} {kind : Directive.Kind} (h : Spells ks (some kind))
    (hv : kind.Valid) : ∀ k ∈ ks, k.Valid := by
  cases h with
  | field name =>
    intro k hk
    obtain rfl := List.mem_singleton.1 hk
    exact hv
  | endLoop =>
    intro k hk
    obtain rfl := List.mem_singleton.1 hk
    trivial
  | @loop s names kind hd hs =>
    have hp : (∀ k ∈ s.kinds, k.Valid) ∧ ∀ x ∈ names, Binder x := by
      cases s with
      | numbers first stop =>
        obtain rfl := Option.some.inj hs
        exact ⟨by simpa [Subject.kinds, Token.Kind.Valid] using ⟨hv.1, hv.2.1⟩, hv.2.2⟩
      | list name =>
        cases names with
        | nil => cases hs
        | cons x xs =>
          obtain rfl := Option.some.inj hs
          exact ⟨fun k hk => List.mem_singleton.1 hk ▸ hv.1, hv.2⟩
    intro k hk
    simp only [List.cons_append, List.mem_cons, List.mem_append] at hk
    obtain rfl | rfl | hk | rfl | hk := hk
    · trivial
    · trivial
    · exact hp.1 k hk
    · trivial
    · exact valid_binderKinds hp.2 k hk

theorem binder_of_valid {names : List String} (hd : ∀ x ∈ names, Dotless x)
    (hv : ∀ k ∈ binderKinds names, k.Valid) : ∀ x ∈ names, Binder x := by
  intro x hx
  have hk : .name x ∈ binderKinds names := by
    cases names with
    | nil => cases hx
    | cons y ys =>
      obtain rfl | hx := List.mem_cons.1 hx
      · simp [binderKinds]
      · simp [binderKinds, hx]
  obtain ⟨hn, hf⟩ := hv _ hk
  exact ⟨hn.isWord (hd x hx), hf⟩

theorem Spells.kind_valid {ks : List Token.Kind} {kind : Directive.Kind} (h : Spells ks (some kind))
    (hv : ∀ k ∈ ks, k.Valid) : kind.Valid := by
  cases h with
  | field name => exact hv _ List.mem_cons_self
  | endLoop => trivial
  | @loop s names kind hd hs =>
    have hb : ∀ x ∈ names, Binder x := binder_of_valid hd fun k hk => hv k (by simp [hk])
    have hk : ∀ k ∈ s.kinds, k.Valid := fun k hk => hv k (by simp [hk])
    cases s with
    | numbers first stop =>
      obtain rfl := Option.some.inj hs
      exact ⟨hk (.number first) (by simp [Subject.kinds]), hk (.number stop) (by simp [Subject.kinds]), hb⟩
    | list name =>
      cases names with
      | nil => cases hs
      | cons x xs =>
        obtain rfl := Option.some.inj hs
        exact ⟨hk (.name name) (by simp [Subject.kinds]), hb⟩

theorem wordsApart_binderKinds (names : List String) :
    WordsApart (.rightParen :: binderKinds names) := by
  have apart : ∀ x (xs : List String), WordsApart
      (.name x :: xs.flatMap (fun y => [.comma, .name y]) ++ [.pipe]) := by
    intro x xs
    induction xs generalizing x with
    | nil => simp [WordsApart, Token.Kind.wordy]
    | cons y ys ih =>
      simpa [WordsApart, Token.Kind.wordy] using ih y
  cases names with
  | nil => simp [WordsApart, binderKinds]
  | cons x xs =>
    simpa [WordsApart, binderKinds, Token.Kind.wordy] using apart x xs

theorem Spells.wordsApart {ks : List Token.Kind} {kind : Option Directive.Kind}
    (h : Spells ks kind) : WordsApart ks := by
  cases h with
  | empty => exact .nil
  | field name => exact .singleton _
  | endLoop => exact .singleton _
  | @loop s names kind hd hs =>
    have hb := wordsApart_binderKinds names
    cases s <;> simpa [WordsApart, Subject.kinds, Token.Kind.wordy] using hb

theorem Shows.makes {kind : Option Directive.Kind} {text : List Char} (h : Shows kind text)
    (hv : ∀ k ∈ kind, k.Valid) :
    ∃ body, text = '{' :: '{' :: (body ++ ['}', '}']) ∧ '}' ∉ body ∧ Makes body kind := by
  obtain ⟨ks, body, hs, hb, rfl⟩ := h
  have hks : ∀ k ∈ ks, k.Valid := by
    cases kind with
    | none =>
      cases hs
      nofun
    | some kind => exact hs.valid (hv kind rfl)
  have hl : Lexes ks body := hb.lexes hks hs.wordsApart
  have hn : '}' ∉ body := hl.brace_not_mem hs.close_not_mem
  exact ⟨body, rfl, hn, (makes_iff_lexes hn).2 ⟨ks, hl, hs⟩⟩

/-- Every row of the grammar can be written as text. -/
theorem Spells.exists_shows {kind : Directive.Kind} {ks : List Token.Kind} (h : Spells ks (some kind)) :
    ∃ text, Shows (some kind) text := by
  have hk : (ks.map fun k => (([] : List Char), k)).map Prod.snd = ks := by
    rw [List.map_map]
    exact List.map_id ks
  have hs := spaced_row (ks.map fun k => ([], k)) [] (by simp [Blank]) nofun
  rw [hk] at hs
  exact ⟨_, ks, _, h, hs, rfl⟩

end TextTemplate
