import TextTemplate.Proofs.Rendering.Meaning
import TextTemplate.Template

namespace TextTemplate

theorem Traced.outcome_mapError {ε δ α : Type} (f : ε → δ) (x : Traced ε α) :
    (x.mapError f).outcome = x.outcome.mapError f := rfl

theorem outcome_render_map (strict : Bool) (context : Context) (cs : List Command) :
    (render strict context cs).outcome = (meaningAll strict context.get cs).map ("" ++ ·) := by
  have h : (renderAll strict context [] cs).textAfter {} =
      (meaningAll strict context.get cs).map ("" ++ ·) := renderAll_prints strict context [] cs {}
  rw [← h, render, Rendering.textAfter, EStateM.run]
  cases renderAll strict context [] cs {} <;> rfl

namespace Template

theorem outcome_compile (strict : Bool) (source : String) : (compile strict source).outcome =
    ((TextTemplate.compile strict source).outcome.map (Template.mk source · strict)).mapError
      (.place source) := by
  rw [compile, Traced.outcome_bind, Traced.outcome_mapError]
  cases (TextTemplate.compile strict source).outcome <;> rfl

theorem outcome_render (t : Template) (context : Context) : (t.render context).outcome =
    (meaningAll t.strict context.get t.commands).mapError (.place t.source) := by
  rw [render, Traced.outcome_bind, Traced.outcome_mapError, outcome_render_map]
  cases meaningAll t.strict context.get t.commands with
  | error fault => rfl
  | ok text => exact congrArg Except.ok String.empty_append

variable {strict : Bool} {source : String} {context : Context} {t : Template} {d : Diagnostic}

theorem compile_of_ok {tree : List Command}
    (h : (TextTemplate.compile strict source).outcome = .ok tree) :
    (compile strict source).outcome = .ok ⟨source, tree, strict⟩ := by
  rw [outcome_compile, h]
  rfl

theorem compile_eq_ok (h : (compile strict source).outcome = .ok t) :
    (TextTemplate.compile strict source).outcome = .ok t.commands ∧ t.source = source ∧
      t.strict = strict := by
  rw [outcome_compile] at h
  cases hc : (TextTemplate.compile strict source).outcome with
  | ok tree =>
    rw [hc] at h
    cases h
    exact ⟨rfl, rfl, rfl⟩
  | error fault =>
    rw [hc] at h
    cases h

theorem compile_eq_error (h : (compile strict source).outcome = .error d) :
    ∃ fault, (TextTemplate.compile strict source).outcome = .error fault ∧ d = .place source fault := by
  rw [outcome_compile] at h
  cases hc : (TextTemplate.compile strict source).outcome with
  | ok tree =>
    rw [hc] at h
    cases h
  | error fault =>
    rw [hc] at h
    cases h
    exact ⟨fault, rfl, rfl⟩

theorem render_eq_error (h : (t.render context).outcome = .error d) :
    ∃ fault, meaningAll t.strict context.get t.commands = .error fault ∧ d = .place t.source fault := by
  rw [outcome_render] at h
  cases hm : meaningAll t.strict context.get t.commands with
  | ok text =>
    rw [hm] at h
    cases h
  | error fault =>
    rw [hm] at h
    cases h
    exact ⟨fault, rfl, rfl⟩

end Template

end TextTemplate
