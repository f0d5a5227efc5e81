import Mathlib.Data.List.TakeWhile

namespace TextTemplate

variable {α : Type}

theorem append_cons_inj {mark : α} {u v x y : List α} (hu : mark ∉ u) (hv : mark ∉ v)
    (h : u ++ mark :: x = v ++ mark :: y) : u = v ∧ x = y := by
  induction u generalizing v with
  | nil =>
    cases v with
    | nil => exact ⟨rfl, (List.cons.inj h).2⟩
    | cons d v =>
      obtain ⟨rfl, -⟩ := List.cons.inj h
      exact absurd List.mem_cons_self hv
  | cons c u ih =>
    cases v with
    | nil =>
      obtain ⟨rfl, -⟩ := List.cons.inj h
      exact absurd List.mem_cons_self hu
    | cons d v =>
      obtain ⟨rfl, h'⟩ := List.cons.inj h
      obtain ⟨rfl, rfl⟩ := ih (List.not_mem_of_not_mem_cons hu) (List.not_mem_of_not_mem_cons hv) h'
      exact ⟨rfl, rfl⟩

/-- What the rows tell of the things in them is the same where the rows that end with marks are. -/
theorem map_eq_of_rows {β γ : Type} {mark : β} {row : α → List β} {g : α → γ} {as bs : List α}
    (ha : ∀ a ∈ as, mark ∉ row a) (hb : ∀ b ∈ bs, mark ∉ row b)
    (hg : ∀ a ∈ as, ∀ b ∈ bs, row a = row b → g a = g b)
    (h : as.flatMap (fun a => row a ++ [mark]) = bs.flatMap (fun b => row b ++ [mark])) :
    as.map g = bs.map g := by
  induction as generalizing bs with
  | nil =>
    cases bs with
    | nil => rfl
    | cons b bs => simp at h
  | cons a as ih =>
    cases bs with
    | nil => simp at h
    | cons b bs =>
      obtain ⟨ha, has⟩ := List.forall_mem_cons.1 ha
      obtain ⟨hb, hbs⟩ := List.forall_mem_cons.1 hb
      rw [List.flatMap_cons, List.flatMap_cons, List.append_assoc, List.append_assoc] at h
      obtain ⟨hab, h⟩ := append_cons_inj ha hb h
      have hgab : g a = g b := hg a List.mem_cons_self b List.mem_cons_self hab
      have hrest : as.map g = bs.map g :=
        ih has hbs (fun a ha b hb => hg a (List.mem_cons_of_mem _ ha) b (List.mem_cons_of_mem _ hb)) h
      rw [List.map_cons, List.map_cons, hgab, hrest]

theorem takeWhile_append_eq {p : α → Bool} {u x : List α} (hu : ∀ a ∈ u, p a)
    (hx : ∀ a ∈ x.head?, p a = false) : (u ++ x).takeWhile p = u := by
  rw [List.takeWhile_append_of_pos hu]
  cases x with
  | nil => rw [List.takeWhile_nil, List.append_nil]
  | cons a x => rw [List.takeWhile_cons_of_neg (by simp [hx a rfl]), List.append_nil]

theorem append_inj_of_head {p : α → Bool} {u v x y : List α} (hu : ∀ a ∈ u, p a) (hv : ∀ a ∈ v, p a)
    (hx : ∀ a ∈ x.head?, p a = false) (hy : ∀ a ∈ y.head?, p a = false) (h : u ++ x = v ++ y) :
    u = v ∧ x = y := by
  have huv : u = v := by
    rw [← takeWhile_append_eq hu hx, h, takeWhile_append_eq hv hy]
  subst huv
  exact ⟨rfl, List.append_cancel_left h⟩

end TextTemplate
