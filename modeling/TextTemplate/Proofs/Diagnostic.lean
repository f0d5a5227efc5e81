import TextTemplate.Template
import TextTemplate.Proofs.Text.Bytes
import Mathlib

namespace TextTemplate

namespace Position

/-- That both the line and the column of a position are reached behind `front`. -/
def ReachedBehind (p : Position) (front : List Char) : Prop :=
  p.line.toNat ≤ front.count '\n' + 1 ∧ p.column ≤ (advance {} front).column

/-- That a position is found behind `front`: nowhere before that is it reached, and it is reached there
unless the text is at its end. -/
structure FoundBehind (p : Position) (text front : List Char) : Prop where
  inside : front <+: text
  found : front = text ∨ p.ReachedBehind front
  first : ∀ earlier, earlier <+: front → p.ReachedBehind earlier → earlier = front

variable {p : Position} {text a b : List Char}

theorem FoundBehind.eq_of_front (ha : p.FoundBehind text a) (hb : p.FoundBehind text b) (h : a <+: b) :
    a = b := by
  obtain rfl | hr := ha.found
  · exact h.eq_of_length (Nat.le_antisymm h.length_le hb.inside.length_le)
  · exact hb.first a h hr

theorem FoundBehind.unique (ha : p.FoundBehind text a) (hb : p.FoundBehind text b) : a = b := by
  obtain h | h := List.prefix_or_prefix_of_prefix ha.inside hb.inside
  · exact ha.eq_of_front hb h
  · exact (hb.eq_of_front ha h).symm

theorem exists_foundBehind_append (p : Position) (front rest : List Char)
    (h : ∀ earlier, earlier <+: front → p.ReachedBehind earlier → earlier = front) :
    ∃ further, p.FoundBehind (front ++ rest) (front ++ further) ∧
      p.bytesFrom (front.count '\n' + 1) (advance {} front).column rest = byteLength further := by
  induction rest generalizing front with
  | nil => exact ⟨[], ⟨List.prefix_rfl, .inl rfl, by rwa [List.append_nil]⟩, rfl⟩
  | cons c rest ih =>
    by_cases hr : p.ReachedBehind front
    · refine ⟨[], ?_, if_pos hr⟩
      rw [List.append_nil]
      exact ⟨List.prefix_append _ _, .inr hr, h⟩
    · have hc : ∀ earlier, earlier <+: front ++ [c] → p.ReachedBehind earlier →
          earlier = front ++ [c] := by
        intro earlier hp he
        obtain hp | hp := List.prefix_concat_iff.1 hp
        · exact hp
        · rw [h earlier hp he] at he
          exact absurd he hr
      obtain ⟨further, hf, hb⟩ := ih (front ++ [c]) hc
      rw [List.append_assoc, List.append_assoc] at hf
      refine ⟨c :: further, hf, ?_⟩
      have hn : p.bytesFrom (front.count '\n' + 1) (advance {} front).column (c :: rest) =
          c.utf8Size + p.bytesFrom ((front ++ [c]).count '\n' + 1) (advance {} (front ++ [c])).column rest := by
        have hr' : ¬ (p.line.toNat ≤ front.count '\n' + 1 ∧ p.column ≤ (advance {} front).column) := hr
        rw [bytesFrom, if_neg hr', advance_append, advance_cons, advance_nil, next]
        by_cases hnl : c = '\n' <;> simp [hnl]
      rw [hn, hb, byteLength_cons]

theorem exists_offsetIn (p : Position) (text : List Char) :
    ∃ front, p.FoundBehind text front ∧ p.offsetIn text = byteLength front :=
  exists_foundBehind_append p [] text fun _ he _ => List.prefix_nil.1 he

theorem exists_foundBehind (p : Position) (text : List Char) : ∃ front, p.FoundBehind text front := by
  obtain ⟨front, h, -⟩ := p.exists_offsetIn text
  exact ⟨front, h⟩

theorem FoundBehind.offsetIn_eq (h : p.FoundBehind text a) : p.offsetIn text = byteLength a := by
  obtain ⟨front, hf, ho⟩ := p.exists_offsetIn text
  rwa [hf.unique h] at ho

end Position

/-- What a range marks whose ends are found behind `a` and behind `b`: the last character if it starts at
the end, what stands between its ends, or a single byte if it does not end behind its start. -/
inductive Span.Of (text a b : List Char) : Span → Prop
  | empty (ht : text = []) : Of text a b ⟨0, 0⟩
  | last {front c} (ha : a = text) (ht : text = front ++ [c]) : Of text a b ⟨byteLength front, c.utf8Size⟩
  | between {piece} (ha : a ≠ text) (hp : piece ≠ []) (hb : b = a ++ piece) :
    Of text a b ⟨byteLength a, byteLength piece⟩
  | single (ha : a ≠ text) (hb : b <+: a) : Of text a b ⟨byteLength a, 1⟩

theorem Range.spanIn_of_foundBehind {r : Range} {text a b : List Char}
    (ha : r.start.FoundBehind text a) (hb : r.stop.FoundBehind text b) :
    Span.Of text a b (r.spanIn text) := by
  have hoa := ha.offsetIn_eq
  have hob := hb.offsetIn_eq
  by_cases he : a = text
  · subst he
    rw [spanIn, hoa, if_pos (Nat.le_refl _), Span.ofLast]
    obtain rfl | ⟨front, c, rfl⟩ := a.eq_nil_or_concat
    · exact .empty rfl
    · have hl : byteLength (front ++ [c]) - c.utf8Size = byteLength front := by simp
      rw [List.concat_eq_append, List.getLast?_concat]
      dsimp only
      rw [hl]
      exact .last rfl rfl
  · have hlt := byteLength_lt_of_front ha.inside he
    rw [spanIn, hoa, hob, if_neg (by omega)]
    by_cases hba : b <+: a
    · have hle := byteLength_le_of_front hba
      rw [max_eq_right (by omega)]
      exact .single he hba
    · have hnested := List.prefix_or_prefix_of_prefix hb.inside ha.inside
      obtain ⟨piece, rfl⟩ := hnested.resolve_left hba
      have hp : piece ≠ [] := by
        rintro rfl
        exact hba (by rw [List.append_nil])
      rw [byteLength_append, Nat.add_sub_cancel_left, max_eq_left (byteLength_pos hp)]
      exact .between he hp rfl

namespace Span.Of

variable {source : String} {a b : List Char} {s : Span}

theorem isValid (h : Of source.toList a b s) (ha : a <+: source.toList) :
    String.Pos.Raw.IsValid source ⟨s.offset⟩ := by
  cases h with
  | empty => exact isValid_front List.nil_prefix
  | last ha ht => exact isValid_front ⟨_, ht.symm⟩
  | between => exact isValid_front ha
  | single => exact isValid_front ha

theorem isValid_end (h : Of source.toList a b s) (hb : b <+: source.toList) (hba : ¬ b <+: a) :
    String.Pos.Raw.IsValid source ⟨s.offset + s.length⟩ := by
  cases h with
  | empty => exact isValid_front List.nil_prefix
  | @last front c ha ht =>
    have he : byteLength source.toList = byteLength front + c.utf8Size := by
      rw [ht]
      simp
    rw [← he]
    exact isValid_front List.prefix_rfl
  | @between piece ha hp hab =>
    rw [← byteLength_append, ← hab]
    exact isValid_front hb
  | single ha h => exact absurd h hba

theorem end_le (h : Of source.toList a b s) (ha : a <+: source.toList) (hb : b <+: source.toList) :
    s.offset + s.length ≤ source.utf8ByteSize := by
  rw [← byteLength_toList]
  cases h with
  | empty => exact Nat.zero_le _
  | last ha ht =>
    rw [ht]
    simp
  | between ha hp hab =>
    rw [← byteLength_append, ← hab]
    exact byteLength_le_of_front hb
  | single hne => exact byteLength_lt_of_front ha hne

theorem length_pos (h : Of source.toList a b s) (hne : source ≠ "") : 1 ≤ s.length := by
  cases h with
  | empty ht => exact absurd (String.toList_eq_nil_iff.1 ht) hne
  | last => exact Char.utf8Size_pos _
  | between ha hp => exact byteLength_pos hp
  | single => exact Nat.le_refl 1

end Span.Of

/-- What a fault marks on any text, whatever text its range was taken from. Each end of the range is
found at one place, and these places tell what is marked. In each case that begins between two
characters, ends in the text and is not empty, but in an empty text; it also ends between two characters
unless the range does not end behind its start. -/
theorem Diagnostic.place_within_source (source : String) (fault : Fault) :
    let text := source.toList
    let span := (Diagnostic.place source fault).span
    ∃ a b, (∀ front, fault.range.start.FoundBehind text front ↔ front = a) ∧
      (∀ front, fault.range.stop.FoundBehind text front ↔ front = b) ∧ Span.Of text a b span ∧
      String.Pos.Raw.IsValid source ⟨span.offset⟩ ∧ span.offset + span.length ≤ source.utf8ByteSize ∧
      (source ≠ "" → 1 ≤ span.length) ∧
      (¬ b <+: a → String.Pos.Raw.IsValid source ⟨span.offset + span.length⟩) := by
  intro text span
  obtain ⟨a, ha⟩ := fault.range.start.exists_foundBehind text
  obtain ⟨b, hb⟩ := fault.range.stop.exists_foundBehind text
  have h : Span.Of text a b span := Range.spanIn_of_foundBehind ha hb
  exact ⟨a, b, fun front => ⟨fun hf => hf.unique ha, fun he => he ▸ ha⟩,
    fun front => ⟨fun hf => hf.unique hb, fun he => he ▸ hb⟩, h, h.isValid ha.inside,
    h.end_le ha.inside hb.inside, h.length_pos, h.isValid_end hb.inside⟩

/-- The first line has no fourth column, so the range starts on the second one, and there ends before
that. -/
example : (Range.mk ⟨1, 4⟩ ⟨1, 3⟩).spanIn "ab\nc名défg".toList = ⟨8, 1⟩ := by decide

end TextTemplate
