import TextTemplate.Proofs.Command.Moved
import TextTemplate.Proofs.Command.Names
import TextTemplate.Proofs.Template.Outcome
import Mathlib

namespace TextTemplate

namespace Env

variable {e₁ e₂ : Env} {x : String}

theorem bind_congr {name : String} (v : Value) (h : x ≠ name → e₁ x = e₂ x) :
    e₁.bind name v x = e₂.bind name v x := by
  unfold bind
  by_cases hx : x = name
  · rw [hx, Function.update_self, Function.update_self]
  · rw [Function.update_of_ne hx, Function.update_of_ne hx, h hx]

theorem bindIndex_congr {index : Option String} (k : Nat) (h : x ∉ index.toList → e₁ x = e₂ x) :
    e₁.bindIndex index k x = e₂.bindIndex index k x := by
  cases index with
  | none => exact h List.not_mem_nil
  | some name => exact bind_congr (.uint k) fun hx => h (by simpa using hx)

end Env

mutual

theorem Command.meaning_congr (strict : Bool) {e₁ e₂ : Env} : ∀ {c : Command},
    (∀ x ∈ c.free, e₁ x = e₂ x) → c.meaning strict e₁ = c.meaning strict e₂
  | .literal _, _ => rfl
  | .substitution name range, h => by
    have hn : e₁ name = e₂ name := h name (List.mem_singleton_self name)
    rw [Command.meaning, Command.meaning, hn]
  | .forRange count index body, h => by
    have hb : ∀ k, meaningAll strict (e₁.bindIndex index k) body =
        meaningAll strict (e₂.bindIndex index k) body := by
      intro k
      apply meaningAll_congr strict
      intro x hx
      apply Env.bindIndex_congr
      intro hi
      exact h x (List.mem_filter.2 ⟨hx, decide_eq_true hi⟩)
    simp only [Command.meaning, hb]
  | .forEach list item index body range, h => by
    have hl : e₁ list = e₂ list := h list List.mem_cons_self
    have hb : ∀ v k, meaningAll strict ((e₁.bind item v).bindIndex index k) body =
        meaningAll strict ((e₂.bind item v).bindIndex index k) body := by
      intro v k
      apply meaningAll_congr strict
      intro x hx
      apply Env.bindIndex_congr
      intro hi
      apply Env.bind_congr
      intro hn
      have hi : x ∉ item :: index.toList := List.not_mem_cons_of_ne_of_not_mem hn hi
      exact h x (List.mem_cons_of_mem _ (List.mem_filter.2 ⟨hx, decide_eq_true hi⟩))
    simp only [Command.meaning, hl, hb]

theorem meaningAll_congr (strict : Bool) {e₁ e₂ : Env} : ∀ {cs : List Command},
    (∀ x ∈ freeAll cs, e₁ x = e₂ x) → meaningAll strict e₁ cs = meaningAll strict e₂ cs
  | [], _ => rfl
  | c :: cs, h => by
    have hc : c.meaning strict e₁ = c.meaning strict e₂ :=
      Command.meaning_congr strict fun x hx => h x (List.mem_append_left _ hx)
    have hcs : meaningAll strict e₁ cs = meaningAll strict e₂ cs :=
      meaningAll_congr strict fun x hx => h x (List.mem_append_right _ hx)
    rw [meaningAll_cons, meaningAll_cons, hc, hcs]

end

/-- Contexts in which the free names of a tree stand for the same give the same rendering. -/
theorem render_congr_free {a b : Context} {tree : List Command} (strict : Bool)
    (h : ∀ x ∈ freeAll tree, a.get x = b.get x) :
    (render strict a tree).outcome = (render strict b tree).outcome := by
  rw [outcome_render_map, outcome_render_map, meaningAll_congr strict h]

theorem render_congr_free_shadowed :
    let tree : List Command := [
      .forEach "x" "y" (some "i") [.forEach "y" "x" none [.substitution "x" {}, .substitution "i" {}] {}] {},
      .substitution "x.0" {}]
    let a : Context := .ofPairs [("x", .sequence [.sequence [.bool true]]), ("x.0", .bool false),
      ("y", .uint 7), ("i", .string "")]
    let b : Context := Context.orElse (.ofPairs [("x.0", .bool false)])
      (.ofJson (.object [("x", .array [.array [.bool true]]), ("i", .null)]))
    freeAll tree = ["x", "x.0"] ∧ a.get "x" = b.get "x" ∧ a.get "x.0" = b.get "x.0" ∧
      (render true a tree).outcome = (render true b tree).outcome := by
  intro tree a b
  have hfree : freeAll tree = ["x", "x.0"] := by decide
  have hx : a.get "x" = b.get "x" := by cbv
  have hx0 : a.get "x.0" = b.get "x.0" := by cbv
  refine ⟨hfree, hx, hx0, render_congr_free true ?_⟩
  rw [hfree]
  exact List.forall_mem_cons.2 ⟨hx, List.forall_mem_singleton.2 hx0⟩

def Cause.rename (x y : String) : Cause → Cause
  | undefined name => undefined (renamed x y name)
  | noText name type => noText (renamed x y name) type
  | notSequence name type => notSequence (renamed x y name) type
  | cause => cause

def Fault.rename (x y : String) (fault : Fault) : Fault := ⟨fault.range, fault.cause.rename x y⟩

/-- That two outcomes are the same, but for a fault that may name `y` where the other one names `x`. -/
def Alike (x y : String) (r s : Except Fault String) : Prop :=
  s = r ∨ s = r.mapError (Fault.rename x y)

namespace Alike

variable {x y : String}

theorem refl (r : Except Fault String) : Alike x y r r := .inl rfl

theorem joined {r r' s s' : Except Fault String} (hr : Alike x y r r') (hs : Alike x y s s') :
    Alike x y (joined r s) (joined r' s') := by
  cases r with
  | error fault =>
    obtain rfl | rfl := hr
    · exact refl _
    · exact .inr rfl
  | ok a =>
    obtain rfl : r' = .ok a := hr.elim id id
    obtain rfl | rfl := hs
    · exact refl _
    · exact .inr (mapError_joined _ (.ok a) s).symm

theorem concat {α : Type} {f g : α → Except Fault String} (h : ∀ a, Alike x y (f a) (g a)) (as : List α) :
    Alike x y (concat (as.map f)) (concat (as.map g)) := by
  induction as with
  | nil => exact refl _
  | cons a as ih => exact (h a).joined ih

theorem map_append (text : String) {r s : Except Fault String} (h : Alike x y r s) :
    Alike x y (r.map (text ++ ·)) (s.map (text ++ ·)) := by
  obtain rfl | rfl := h
  · exact refl _
  · cases r with
    | ok _ => exact refl _
    | error _ => exact .inr rfl

theorem loop {body body' : List Command} {strict : Bool}
    (h : ∀ env, Alike x y (meaningAll strict env body) (meaningAll strict env body')) (env : Env)
    (header : LoopHeader) :
    Alike x y ((header.command body).meaning strict env) ((header.command body').meaning strict env) := by
  cases header with
  | forRange count index range =>
    simp only [LoopHeader.command, Command.meaning]
    exact concat (fun k => h _) _
  | forEach list item index range =>
    simp only [LoopHeader.command, Command.meaning]
    split
    · exact concat (fun v => h _) _
    · exact refl _
    · exact refl _

theorem fill {c c' : Command} {strict : Bool}
    (h : ∀ env, Alike x y (c.meaning strict env) (c'.meaning strict env)) (p : Place) (env : Env) :
    Alike x y (meaningAll strict env (p.fill c)) (meaningAll strict env (p.fill c')) := by
  induction p generalizing env with
  | here before after =>
    simp only [Place.fill, meaningAll_append, meaningAll_cons]
    exact (refl _).joined ((h env).joined (refl _))
  | inside before header inner after ih =>
    simp only [Place.fill, meaningAll_append, meaningAll_cons]
    exact (refl _).joined ((loop ih env header).joined (refl _))

end Alike

/-- That `y` stands for the same in one environment as `x` in another, and all other names for the same
in both of them. -/
structure Env.Renames (x y : String) (e₁ e₂ : Env) : Prop where
  binder : e₂ y = e₁ x
  others : ∀ z, z ≠ x → z ≠ y → e₂ z = e₁ z

namespace Env.Renames

variable {x y : String} {e₁ e₂ : Env}

theorem of_bind (env : Env) (v : Value) : Renames x y (env.bind x v) (env.bind y v) where
  binder := by
    unfold Env.bind
    rw [Function.update_self, Function.update_self]
  others z hx hy := by
    unfold Env.bind
    rw [Function.update_of_ne hx, Function.update_of_ne hy]

theorem bind (h : Renames x y e₁ e₂) {name : String} (hx : x ≠ name) (hy : y ≠ name) (v : Value) :
    Renames x y (e₁.bind name v) (e₂.bind name v) where
  binder := by
    unfold Env.bind
    rw [Function.update_of_ne hx, Function.update_of_ne hy, h.binder]
  others z hzx hzy := Env.bind_congr v fun _ => h.others z hzx hzy

theorem bindIndex (h : Renames x y e₁ e₂) {index : Option String} (hx : x ∉ index.toList)
    (hy : y ∉ index.toList) (k : Nat) : Renames x y (e₁.bindIndex index k) (e₂.bindIndex index k) := by
  cases index with
  | none => exact h
  | some name => exact h.bind (by simpa using hx) (by simpa using hy) (.uint k)

theorem apply_renamed (h : Renames x y e₁ e₂) {name : String} (hy : name ≠ y) :
    e₂ (renamed x y name) = e₁ name := by
  unfold renamed
  by_cases hx : name = x
  · rw [if_pos hx, hx, h.binder]
  · rw [if_neg hx, h.others name hx hy]

/-- A loop in whose body no `y` stands. If it binds `x` itself its body stays as it is, and `x` stands
for the same in both environments there. -/
theorem alike_body {strict : Bool} {body : List Command} (hy : y ∉ namesAll body)
    (ih : ∀ {e₁ e₂ : Env}, Renames x y e₁ e₂ →
      Alike x y (meaningAll strict e₁ body) (meaningAll strict e₂ (renameAll x y body)))
    {binders : List String} (hin : x ∈ binders → ∀ z, z ≠ y → e₂ z = e₁ z)
    (hout : x ∉ binders → Renames x y e₁ e₂) :
    Alike x y (meaningAll strict e₁ body)
      (meaningAll strict e₂ (if x ∈ binders then body else renameAll x y body)) := by
  by_cases hx : x ∈ binders
  · rw [if_pos hx]
    apply Or.inl
    apply meaningAll_congr strict
    intro z hz
    apply hin hx
    rintro rfl
    exact hy (freeAll_subset body hz)
  · rw [if_neg hx]
    exact ih (hout hx)

end Env.Renames

mutual

theorem Command.meaning_rename (strict : Bool) {x y : String} {e₁ e₂ : Env}
    (h : Env.Renames x y e₁ e₂) : ∀ {c : Command}, y ∉ c.names →
      Alike x y (c.meaning strict e₁) ((c.rename x y).meaning strict e₂)
  | .literal _, _ => .refl _
  | .substitution name range, hy => by
    have hn : name ≠ y := fun hn => hy (List.mem_singleton.2 hn.symm)
    rw [Command.rename, Command.meaning, Command.meaning, h.apply_renamed hn]
    split <;> exact .inr rfl
  | .forRange count index body, hy => by
    obtain ⟨hi, hy⟩ := not_or.1 (mt List.mem_append.2 hy)
    rw [Command.rename, Command.meaning, Command.meaning]
    refine .concat (fun k => ?_) _
    refine Env.Renames.alike_body hy (fun h => meaningAll_rename strict h hy) ?_ ?_
    · intro hx z hz
      apply Env.bindIndex_congr
      intro hzi
      exact h.others z (fun he => hzi (he ▸ hx)) hz
    · intro hx
      exact h.bindIndex hx hi k
  | .forEach list item index body range, hy => by
    obtain ⟨hl, hy⟩ := List.ne_and_not_mem_of_not_mem_cons hy
    obtain ⟨hn, hy⟩ := List.ne_and_not_mem_of_not_mem_cons hy
    obtain ⟨hi, hy⟩ := not_or.1 (mt List.mem_append.2 hy)
    rw [Command.rename, Command.meaning, Command.meaning, h.apply_renamed hl.symm]
    split
    · refine .concat (fun ⟨v, k⟩ => ?_) _
      refine Env.Renames.alike_body hy (fun h => meaningAll_rename strict h hy) ?_ ?_
      · intro hx z hz
        apply Env.bindIndex_congr
        intro hzi
        apply Env.bind_congr
        intro hzn
        have hz' : z ∉ item :: index.toList := List.not_mem_cons_of_ne_of_not_mem hzn hzi
        exact h.others z (fun he => hz' (he ▸ hx)) hz
      · intro hx
        obtain ⟨hxn, hxi⟩ := List.ne_and_not_mem_of_not_mem_cons hx
        exact (h.bind hxn hn v).bindIndex hxi hi k
    · split <;> exact .inr rfl
    · split <;> exact .inr rfl

theorem meaningAll_rename (strict : Bool) {x y : String} {e₁ e₂ : Env}
    (h : Env.Renames x y e₁ e₂) : ∀ {cs : List Command}, y ∉ namesAll cs →
      Alike x y (meaningAll strict e₁ cs) (meaningAll strict e₂ (renameAll x y cs))
  | [], _ => .refl _
  | c :: cs, hy => by
    obtain ⟨hc, hcs⟩ := not_or.1 (mt List.mem_append.2 hy)
    rw [renameAll, meaningAll_cons, meaningAll_cons]
    exact (Command.meaning_rename strict h hc).joined (meaningAll_rename strict h hcs)

end

theorem Command.Rebinds.alike {x y : String} {loop loop' : Command} (h : loop.Rebinds x y loop')
    (strict : Bool) (env : Env) : Alike x y (loop.meaning strict env) (loop'.meaning strict env) := by
  cases h with
  | round hy =>
    rw [Command.meaning, Command.meaning]
    exact .concat (fun k => meaningAll_rename strict (.of_bind env (.uint k)) hy) _
  | item hx hi hy =>
    rw [Command.meaning, Command.meaning]
    split
    · refine .concat (fun ⟨v, k⟩ => ?_) _
      exact meaningAll_rename strict ((Env.Renames.of_bind env v).bindIndex hx hi k) hy
    · exact .refl _
    · exact .refl _
  | index hx hi hy =>
    rw [Command.meaning, Command.meaning]
    split
    · exact .concat (fun ⟨v, k⟩ => meaningAll_rename strict (.of_bind _ (.uint k)) hy) _
    · exact .refl _
    · exact .refl _

/-- Renaming what a loop binds, anywhere in a tree, leaves the rendering as it is. Only a fault may name
the binder by its new name. -/
theorem render_rebinds {x y : String} {loop loop' : Command} (h : loop.Rebinds x y loop') (p : Place)
    (strict : Bool) (context : Context) :
    Alike x y (render strict context (p.fill loop)).outcome
      (render strict context (p.fill loop')).outcome := by
  have hp : Alike x y (meaningAll strict context.get (p.fill loop))
      (meaningAll strict context.get (p.fill loop')) := Alike.fill (h.alike strict) p context.get
  rw [outcome_render_map, outcome_render_map]
  exact hp.map_append ""

theorem render_rebinds_shadowed :
    let place : Place := .inside [.literal "-"] (.forRange 2 none {}) (.here [] []) []
    let range : Range := ⟨⟨2, 3⟩, ⟨2, 4⟩⟩
    let loop : Command := .forEach "xs" "x" (some "i")
      [.forEach "x" "x" none [.substitution "x" {}] {}, .substitution "x" range] {}
    let loop' : Command := .forEach "xs" "xs" (some "i")
      [.forEach "xs" "x" none [.substitution "x" {}] {}, .substitution "xs" range] {}
    let context : Context := .ofPairs [("xs", .sequence [.sequence [.uint 1]])]
    loop.Rebinds "x" "xs" loop' ∧
      (render false context (place.fill loop)).outcome = .error ⟨range, .noText "x" "sequence"⟩ ∧
        Alike "x" "xs" (render false context (place.fill loop)).outcome
          (render false context (place.fill loop')).outcome := by
  intro place range loop loop' context
  have h : loop.Rebinds "x" "xs" loop' := .item (by decide) (by decide) (by decide)
  refine ⟨h, ?_, render_rebinds h place false context⟩
  unfold place loop context
  cbv

end TextTemplate
