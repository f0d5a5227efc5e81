import TextTemplate.Proofs.Command.Shape
import TextTemplate.Proofs.Rendering.Meaning

namespace TextTemplate

/-- That a command has a fault of its own: what it names is not there, or cannot be used as it is. -/
def Command.Raises : Command → Fault → Prop
  | substitution name range, fault =>
    fault.range = range ∧ (fault.cause = .undefined name ∨ ∃ type, fault.cause = .noText name type)
  | forEach list _ _ _ range, fault =>
    fault.range = range ∧ (fault.cause = .undefined list ∨ ∃ type, fault.cause = .notSequence list type)
  | _, _ => False

theorem exists_of_concat_error {xs : List (Except Fault String)} {fault : Fault}
    (h : concat xs = .error fault) : .error fault ∈ xs := by
  induction xs with
  | nil => cases h
  | cons x xs ih =>
    cases x with
    | error e =>
      cases h
      exact List.mem_cons_self
    | ok text =>
      cases hx : concat xs with
      | ok further =>
        rw [concat, hx] at h
        cases h
      | error e =>
        rw [concat, hx] at h
        cases h
        exact List.mem_cons_of_mem _ (ih hx)

mutual

theorem Command.raises_of_meaning {strict : Bool} {env : Env} {fault : Fault} :
    ∀ {c : Command}, c.meaning strict env = .error fault → ∃ b ∈ c.preorder, b.Raises fault
  | .literal text, h => by cases h
  | .substitution name range, h => by
    refine ⟨.substitution name range, List.mem_singleton_self _, ?_⟩
    rw [Command.meaning] at h
    split at h
    · cases h
      exact ⟨rfl, .inl rfl⟩
    · cases h
      exact ⟨rfl, .inr ⟨_, rfl⟩⟩
    · cases h
      exact ⟨rfl, .inr ⟨_, rfl⟩⟩
    · cases h
  | .forRange count index body, h => by
    rw [Command.meaning] at h
    obtain ⟨k, -, hk⟩ := List.mem_map.1 (exists_of_concat_error h)
    obtain ⟨b, hb, hr⟩ := raises_of_meaningAll hk
    exact ⟨b, List.mem_cons_of_mem _ hb, hr⟩
  | .forEach list item index body range, h => by
    rw [Command.meaning] at h
    split at h
    · obtain ⟨k, -, hk⟩ := List.mem_map.1 (exists_of_concat_error h)
      obtain ⟨b, hb, hr⟩ := raises_of_meaningAll hk
      exact ⟨b, List.mem_cons_of_mem _ hb, hr⟩
    · split at h <;> cases h
      exact ⟨_, List.mem_cons_self, rfl, .inr ⟨_, rfl⟩⟩
    · split at h <;> cases h
      exact ⟨_, List.mem_cons_self, rfl, .inl rfl⟩

theorem raises_of_meaningAll {strict : Bool} {env : Env} {fault : Fault} :
    ∀ {cs : List Command}, meaningAll strict env cs = .error fault →
      ∃ b ∈ preorderAll cs, b.Raises fault
  | [], h => by cases h
  | c :: cs, h => by
    rw [meaningAll] at h
    cases hc : c.meaning strict env with
    | error e =>
      rw [hc] at h
      cases h
      obtain ⟨b, hb, hr⟩ := Command.raises_of_meaning hc
      exact ⟨b, List.mem_append_left _ hb, hr⟩
    | ok text =>
      rw [hc] at h
      cases hcs : meaningAll strict env cs with
      | ok further =>
        rw [hcs] at h
        cases h
      | error e =>
        rw [hcs] at h
        cases h
        obtain ⟨b, hb, hr⟩ := raises_of_meaningAll hcs
        exact ⟨b, List.mem_append_right _ hb, hr⟩

end

end TextTemplate
