import TextTemplate.Proofs.Template.Strictness
import TextTemplate.Session

namespace TextTemplate.Session

inductive Operation
  | setStrict (strict : Bool)
  | reset
  | compile (slot source : String)
  | render (slot : String) (context : Context)

namespace Operation

/-- The session after an operation. The default strictness is that of a new session, and rendering leaves
everything as it is. -/
def apply (s : Session) : Operation → Session
  | setStrict strict => s.setStrict strict
  | reset => s.setStrict ({} : Session).strict
  | compile slot source => (s.compile slot source).1
  | render _ _ => s

/-- That an operation puts a template into a slot. -/
inductive Stores (s : Session) (slot : String) (t : Template) : Operation → Prop
  | compile {source} (h : (Template.compile s.strict source).outcome = .ok t) :
    Stores s slot t (.compile slot source)

end Operation

def run (strict : Bool) (ops : List Operation) : Session := ops.foldl Operation.apply { strict }

theorem run_append (strict : Bool) (ops : List Operation) (op : Operation) :
    run strict (ops ++ [op]) = op.apply (run strict ops) := by
  rw [run, List.foldl_append]
  rfl

theorem find?_store (s : Session) (slot slot' : String) (t : Template) :
    (s.store slot' t).find? slot = if slot = slot' then some t else s.find? slot := by
  rw [find?, store, List.lookup_cons]
  by_cases h : slot = slot'
  · rw [if_pos h, h, beq_self_eq_true]
  · rw [if_neg h, beq_false_of_ne h]
    rfl

theorem compile_of_ok {s : Session} {slot source : String} {t : Template}
    (h : (Template.compile s.strict source).outcome = .ok t) :
    (s.compile slot source).1 = s.store slot t := by
  simp only [compile, Traced.outcome_mapError, h, Except.mapError]

theorem compile_of_error {s : Session} {slot source : String} {d : Diagnostic}
    (h : (Template.compile s.strict source).outcome = .error d) : (s.compile slot source).1 = s := by
  simp only [compile, Traced.outcome_mapError, h, Except.mapError]

theorem find?_apply (s : Session) (op : Operation) (slot : String) (t : Template) :
    (op.apply s).find? slot = some t ↔
      op.Stores s slot t ∨ (∀ t', ¬ op.Stores s slot t') ∧ s.find? slot = some t := by
  have keeps : (∀ t', ¬ op.Stores s slot t') → (op.apply s).find? slot = s.find? slot →
      ((op.apply s).find? slot = some t ↔
        op.Stores s slot t ∨ (∀ t', ¬ op.Stores s slot t') ∧ s.find? slot = some t) := by
    intro hn hs
    rw [hs]
    exact ⟨fun h => .inr ⟨hn, h⟩, fun h => (h.resolve_left (hn t)).2⟩
  cases op with
  | setStrict strict => exact keeps nofun rfl
  | reset => exact keeps nofun rfl
  | render slot' context => exact keeps nofun rfl
  | compile slot' source =>
    cases hc : (Template.compile s.strict source).outcome with
    | error d =>
      refine keeps (fun t' h => ?_) (by rw [Operation.apply, compile_of_error hc])
      cases h with
      | compile h => cases hc.symm.trans h
    | ok t₀ =>
      have ha : ((Operation.compile slot' source).apply s).find? slot =
          if slot = slot' then some t₀ else s.find? slot := by
        rw [Operation.apply, compile_of_ok hc, find?_store]
      by_cases hslot : slot = slot'
      · subst hslot
        rw [ha, if_pos rfl]
        constructor
        · rintro ⟨⟩
          exact .inl (.compile hc)
        · rintro (h | ⟨hn, -⟩)
          · cases h with
            | compile h => exact congrArg some (Except.ok.inj (hc.symm.trans h))
          · exact absurd (.compile hc) (hn t₀)
      · refine keeps (fun t' h => ?_) (by rw [ha, if_neg hslot])
        cases h with
        | compile h => exact hslot rfl

theorem find?_run (strict : Bool) (ops : List Operation) (slot : String) (t : Template) :
    (run strict ops).find? slot = some t ↔ ∃ before op after, ops = before ++ op :: after ∧
      op.Stores (run strict before) slot t ∧ ∀ mid op' rest t', after = mid ++ op' :: rest →
        ¬ op'.Stores (run strict (before ++ op :: mid)) slot t' := by
  induction ops using List.reverseRecOn with
  | nil =>
    constructor
    · intro h
      cases h
    · rintro ⟨before, op, after, h, -⟩
      cases before <;> cases h
  | append_singleton ops last ih =>
    -- The last operation stores to the slot itself, or it leaves what an earlier one has stored.
    rw [run_append, find?_apply, ih]
    constructor
    · rintro (h | ⟨hn, before, op, after, rfl, hs, hlater⟩)
      · refine ⟨ops, last, [], rfl, h, fun mid op' rest t' he => ?_⟩
        cases mid <;> cases he
      · refine ⟨before, op, after ++ [last], by simp, hs, fun mid op' rest t' he => ?_⟩
        obtain rfl | ⟨rest, z, rfl⟩ := List.eq_nil_or_concat rest
        · obtain ⟨rfl, hl⟩ := List.append_inj' he rfl
          obtain rfl := List.singleton_inj.1 hl
          exact hn t'
        · rw [List.concat_eq_append, ← List.cons_append, ← List.append_assoc] at he
          obtain ⟨rfl, -⟩ := List.append_inj' he rfl
          exact hlater mid op' rest t' rfl
    · rintro ⟨before, op, after, he, hs, hlater⟩
      obtain rfl | ⟨after, z, rfl⟩ := List.eq_nil_or_concat after
      · obtain ⟨rfl, hl⟩ := List.append_inj' he rfl
        obtain rfl := List.singleton_inj.1 hl
        exact .inl hs
      · rw [List.concat_eq_append] at he hlater
        rw [← List.cons_append, ← List.append_assoc] at he
        obtain ⟨rfl, hl⟩ := List.append_inj' he rfl
        obtain rfl := List.singleton_inj.1 hl
        refine .inr ⟨fun t' => hlater after last [] t' rfl, before, op, after, rfl, hs, ?_⟩
        rintro mid op' rest t' rfl
        exact hlater mid op' (rest ++ [last]) t' (by simp)

theorem compile_of_find? {strict : Bool} {ops : List Operation} {slot : String} {t : Template}
    (h : (run strict ops).find? slot = some t) : (Template.compile t.strict t.source).outcome = .ok t := by
  obtain ⟨before, op, after, -, hs, -⟩ := (find?_run strict ops slot t).1 h
  cases hs with
  | compile hc =>
    obtain ⟨-, rfl, hstrict⟩ := Template.compile_eq_ok hc
    rwa [hstrict]

theorem render_of_find? {s : Session} {slot : String} {t : Template} (h : s.find? slot = some t)
    (context : Context) : s.render slot context = (t.render context).mapError .template := by
  simp only [render, find, h]
  rfl

theorem eq_of_find? {strict strict' : Bool} {ops ops' : List Operation} {slot slot' : String}
    {t t' : Template} (h : (run strict ops).find? slot = some t)
    (h' : (run strict' ops').find? slot' = some t') (hs : t.source = t'.source)
    (hb : t.strict = t'.strict) : t = t' := by
  have hc := compile_of_find? h
  rw [hs, hb] at hc
  exact Except.ok.inj (hc.symm.trans (compile_of_find? h'))

/-- Compiled templates do not change. Whatever is done in a session, in any order and with any faults, a
slot holds what has been put there last, with the strictness of that moment. Its commands are those that
its source compiles to, rendering it is compiling its source anew and rendering that, and it is told from
others by its source and its strictness. -/
theorem run_keeps_templates (strict : Bool) (ops : List Operation) (slot : String) :
    (∀ t, (run strict ops).find? slot = some t ↔ ∃ before source after,
      ops = before ++ .compile slot source :: after ∧ t.strict = (run strict before).strict ∧
      (Template.compile (run strict before).strict source).outcome = .ok t ∧
      ∀ mid op rest t', after = mid ++ op :: rest →
        ¬ op.Stores (run strict (before ++ .compile slot source :: mid)) slot t') ∧
    ∀ t, (run strict ops).find? slot = some t →
      (TextTemplate.compile t.strict t.source).outcome = .ok t.commands ∧
      (∀ context, (run strict ops).render slot context = (t.render context).mapError .template ∧
        (t.render context).outcome = (Template.run t.strict t.source context).outcome) ∧
      ∀ strict' ops' slot' t', (run strict' ops').find? slot' = some t' →
        (t = t' ↔ t.source = t'.source ∧ t.strict = t'.strict) := by
  refine ⟨fun t => (find?_run strict ops slot t).trans ⟨?_, ?_⟩,
    fun t h => ⟨?_, fun context => ⟨render_of_find? h context, ?_⟩, ?_⟩⟩
  · rintro ⟨before, op, after, he, hs, hlater⟩
    cases hs with
    | @compile source hc => exact ⟨before, source, after, he, (Template.compile_eq_ok hc).2.2, hc, hlater⟩
  · rintro ⟨before, source, after, he, -, hc, hlater⟩
    exact ⟨before, .compile slot source, after, he, .compile hc, hlater⟩
  · exact (Template.compile_eq_ok (compile_of_find? h)).1
  · rw [Template.run, Traced.outcome_bind, compile_of_find? h]
    rfl
  · intro strict' ops' slot' t' h'
    constructor
    · rintro rfl
      exact ⟨rfl, rfl⟩
    · rintro ⟨hs, hb⟩
      exact eq_of_find? h h' hs hb

theorem run_keeps_templates_lenient :
    let ops : List Operation := [.compile "a" "x{{end}}", .setStrict true, .compile "a" "{{end}}"]
    let t : Template := ⟨"x{{end}}", [.literal "x"], false⟩
    (run false ops).find? "a" = some t ∧
      (t.render ∅).outcome = (Template.run false "x{{end}}" ∅).outcome := by
  intro ops t
  have hf : (run false ops).find? "a" = some t := by
    unfold ops t
    cbv
  exact ⟨hf, (((run_keeps_templates false ops "a").2 t hf).2.1 ∅).2⟩

end TextTemplate.Session
