import TextTemplate.Proofs.Rendering.Faults
import TextTemplate.Proofs.Rendering.Strictness
import TextTemplate.Proofs.Template.Brackets
import TextTemplate.Proofs.Template.Outcome

namespace TextTemplate

namespace Nesting

open Traced

variable {source : String}

theorem add_follows (n : Nesting) (d : Directive) :
    Follows (Event.AnsweredBy source) (n.add true d) (n.add false d) := by
  obtain ⟨kind, range⟩ := d
  cases kind with
  | field name => exact follows_self unbending_nil
  | forRange first stop names => exact follows_self unbending_nil
  | forList list item further => exact follows_self unbending_nil
  | endLoop =>
    cases hc : n.close? with
    | some m =>
      have h : ∀ strict, n.add strict ⟨.endLoop, range⟩ = pure m := fun strict => by simp [add, hc]
      rw [h, h]
      exact follows_self unbending_nil
    | none =>
      have ht : n.add true ⟨.endLoop, range⟩ = ⟨[], .error ⟨range, .strayEnd⟩⟩ := by
        simp only [add, hc]
        rfl
      have hf : (n.add false ⟨.endLoop, range⟩).log = [.endIgnored range.start] := by
        simp only [add, hc]
        rfl
      exact .parted ht hf unbending_nil trivial ⟨rfl, rfl⟩

theorem addAll_follows (ps : Pieces) (n : Nesting) :
    Follows (Event.AnsweredBy source) (addAll true ps n) (addAll false ps n) := by
  induction ps generalizing n with
  | done => exact follows_self unbending_nil
  | broken fault => exact follows_self unbending_nil
  | literal text rest ih => exact ih _
  | directive d rest ih =>
    refine Follows.bind (follows_self (unbending_singleton id)) fun _ _ => ?_
    exact (add_follows n d).bind fun m _ => ih m

theorem complete_follows (n : Nesting) :
    Follows (Event.AnsweredBy source) (n.complete true) (n.complete false) := by
  obtain ⟨current, outer⟩ := n
  cases outer with
  | nil => exact follows_self unbending_nil
  | cons loop outer =>
    have ht : complete true ⟨current, loop :: outer⟩ = ⟨[], .error ⟨loop.1.range, .unclosedLoop⟩⟩ := rfl
    have hf : (complete false ⟨current, loop :: outer⟩).log = [.loopsClosed (outer.length + 1)] := rfl
    exact .parted ht hf unbending_nil trivial rfl

theorem loopsClosed_not_mem_addAll (count : Nat) (strict : Bool) (ps : Pieces) (n : Nesting) :
    .loopsClosed count ∉ (addAll strict ps n).log := by
  induction ps generalizing n with
  | done => exact List.not_mem_nil
  | broken fault => exact List.not_mem_nil
  | literal text rest ih => exact ih _
  | directive d rest ih =>
    have ha : .loopsClosed count ∉ (n.add strict d).log := by
      obtain ⟨kind, range⟩ := d
      cases kind with
      | endLoop =>
        rw [add]
        cases n.close? with
        | some m => exact List.not_mem_nil
        | none => cases strict <;> simp [Traced.fail, Traced.report, bind, pure]
      | _ => exact List.not_mem_nil
    rw [addAll, bind_ok rfl]
    intro hm
    obtain hm | hm := List.mem_append.1 hm
    · cases List.mem_singleton.1 hm
    · cases ho : (n.add strict d).outcome with
      | error fault =>
        rw [bind_error ho] at hm
        exact ha hm
      | ok m =>
        rw [bind_ok ho] at hm
        exact (List.mem_append.1 hm).elim ha (ih m)

end Nesting

open Nesting Traced

theorem compile_follows (source : String) :
    Follows (Event.AnsweredBy source) (compile true source) (compile false source) :=
  (addAll_follows _ _).bind fun n _ => complete_follows n

theorem loopsClosed_not_mem_compile {source : String} {fault : Fault}
    (h : (compile false source).outcome = .error fault) (count : Nat) :
    .loopsClosed count ∉ (compile false source).log := by
  rw [compile] at h ⊢
  cases hn : (addAll false (.ofText source) {}).outcome with
  | error e =>
    rw [bind_error hn]
    exact loopsClosed_not_mem_addAll count false _ _
  | ok n =>
    rw [outcome_bind, hn] at h
    cases (outcome_complete_false n).symm.trans h

theorem Command.Raises.stage {c : Command} {fault : Fault} (h : c.Raises fault) :
    fault.cause.stage = .rendering := by
  cases c with
  | substitution name range | forEach list item index body range =>
    obtain ⟨-, hc | ⟨type, hc⟩⟩ := h <;> rw [hc] <;> rfl
  | _ => exact h.elim

namespace Template

def run (strict : Bool) (source : String) (context : Context) : Traced Diagnostic String := do
  let t ← compile strict source
  t.render context

theorem run_eq (strict : Bool) (source : String) (context : Context) : run strict source context = (do
    let tree ← (TextTemplate.compile strict source).mapError (.place source)
    .report (.compiled source.utf8ByteSize tree.length)
    let output ← (TextTemplate.render strict context tree).mapError (.place source)
    .report (.rendered output.utf8ByteSize)
    return output) := by
  simp only [run, compile, render, bind_assoc, pure_bind]

theorem run_follows (source : String) (context : Context) :
    Follows (fun event (d : Diagnostic) => event.AnsweredBy source d.fault) (run true source context)
      (run false source context) := by
  have place : ∀ {α : Type} {x y : Traced Fault α}, Follows (Event.AnsweredBy source) x y →
      Follows (fun event (d : Diagnostic) => event.AnsweredBy source d.fault)
        (x.mapError (.place source)) (y.mapError (.place source)) := by
    intro α x y h
    refine h.mapError (Diagnostic.place source) ?_
    exact fun event fault ha => ha
  rw [run_eq, run_eq]
  refine (place (compile_follows source)).bind fun tree ht => ?_
  have ht : (TextTemplate.compile false source).outcome = .ok tree := by
    simp only [Traced.mapError] at ht
    cases hc : (TextTemplate.compile false source).outcome with
    | error fault =>
      rw [hc] at ht
      cases ht
    | ok tree' =>
      rw [hc] at ht
      cases ht
      rfl
  refine Follows.bind (follows_self (unbending_singleton id)) fun _ _ => ?_
  refine (place (render_follows ht context)).bind fun output _ => ?_
  exact Follows.bind (follows_self (unbending_singleton id)) fun _ _ => follows_self unbending_nil

/-- An event of loops that are closed at the end of the template is in the log only of a run that
compiles, and what fails later is rendering. -/
theorem stage_of_loopsClosed {source : String} {context : Context} {d : Diagnostic} {count : Nat}
    (h : (run false source context).outcome = .error d)
    (hm : .loopsClosed count ∈ (run false source context).log) : d.fault.cause.stage = .rendering := by
  rw [run] at h hm
  cases hc : (compile false source).outcome with
  | error e =>
    obtain ⟨fault, hf, -⟩ := compile_eq_error hc
    rw [bind_error hc] at hm
    simp only [compile] at hm
    have he : ((TextTemplate.compile false source).mapError (.place source)).outcome =
        .error (Diagnostic.place source fault) := by
      rw [Traced.mapError, hf]
      rfl
    rw [bind_error he] at hm
    exact absurd hm (loopsClosed_not_mem_compile hf count)
  | ok t =>
    rw [outcome_bind, hc] at h
    obtain ⟨fault, hf, rfl⟩ := render_eq_error h
    obtain ⟨c, -, hr⟩ := raises_of_meaningAll hf
    exact hr.stage

/-- Strictness takes nothing away but leniency, and all leniency is reported. A strict run succeeds, with
the same output, just where the lenient one does and reports nothing that it lets pass; the trees are the
same; and where the lenient run fails the strict one fails likewise, or before, at the first thing that
the lenient run lets pass. -/
theorem strictness_only_rejects (source : String) (context : Context) :
    let strictly := run true source context
    let leniently := run false source context
    (∀ o, strictly.outcome = .ok o ↔
      leniently.outcome = .ok o ∧ ∀ event ∈ leniently.log, ¬ event.Lenient) ∧
    (∀ t t', (compile true source).outcome = .ok t → (compile false source).outcome = .ok t' →
      t.commands = t'.commands) ∧
    ∀ d, leniently.outcome = .error d → strictly.outcome = .error d ∨
      ∃ d' pre event post, strictly = ⟨pre, .error d'⟩ ∧ leniently.log = pre ++ event :: post ∧
        (∀ e ∈ pre, ¬ e.Lenient) ∧ event.Lenient ∧ event.AnsweredBy source d'.fault ∧
        (d'.fault.cause = .unclosedLoop → d.fault.cause.stage = .rendering) := by
  intro strictly leniently
  have hfollows := run_follows source context
  refine ⟨fun o => hfollows.outcome_eq_ok_iff, ?_, ?_⟩
  · intro t t' h h'
    obtain ⟨hc, -⟩ := compile_eq_ok h
    obtain ⟨hc', -⟩ := compile_eq_ok h'
    exact Except.ok.inj ((compile_false_of_ok hc).symm.trans hc')
  · intro d hd
    cases hfollows with
    | together h hu =>
      left
      exact (congrArg Traced.outcome h).trans hd
    | @parted pre event post d' hs hl hpre he hP =>
      refine .inr ⟨d', pre, event, post, hs, hl, hpre, he, hP, fun hc => ?_⟩
      cases event with
      | loopsClosed count =>
        have hm : .loopsClosed count ∈ leniently.log := by
          rw [hl]
          simp
        exact stage_of_loopsClosed hd hm
      | endIgnored place | listUndefined list | listRejected list type =>
        cases hP.1.symm.trans hc
      | _ => exact he.elim

theorem strictness_only_rejects_unclosed :
    let source := "{{for(0..1)}}{{x}}"
    (run false source ∅).outcome = .error ⟨⟨⟨⟨1, 16⟩, ⟨1, 17⟩⟩, .undefined "x"⟩, source, ⟨15, 1⟩⟩ ∧
      ∃ d pre event post, run true source ∅ = ⟨pre, .error d⟩ ∧ d.fault.cause = .unclosedLoop ∧
        (run false source ∅).log = pre ++ event :: post ∧ event.AnsweredBy source d.fault := by
  intro source
  have hl : (run false source ∅).outcome =
      .error ⟨⟨⟨⟨1, 16⟩, ⟨1, 17⟩⟩, .undefined "x"⟩, source, ⟨15, 1⟩⟩ := by
    unfold source
    cbv
  have hs : (run true source ∅).outcome =
      .error ⟨⟨⟨⟨1, 3⟩, ⟨1, 12⟩⟩, .unclosedLoop⟩, source, ⟨2, 9⟩⟩ := by
    unfold source
    cbv
  refine ⟨hl, ?_⟩
  obtain h | ⟨d, pre, event, post, hr, hlog, -, -, ha, -⟩ := (strictness_only_rejects source ∅).2.2 _ hl
  · cases hs.symm.trans h
  · rw [hr] at hs
    obtain rfl := Except.error.inj hs
    exact ⟨_, pre, event, post, hr, rfl, hlog, ha⟩

end Template

end TextTemplate
