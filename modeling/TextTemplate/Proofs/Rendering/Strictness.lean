import TextTemplate.Proofs.Command.Shape
import TextTemplate.Proofs.Traced
import TextTemplate.Render
import TextTemplate.Template.Nesting
import Mathlib.Data.List.Basic

namespace TextTemplate

/-- That a loop over a list, with its header at `range`, begins in the tree that a template compiles to
leniently. -/
def LoopBegins (source list : String) (range : Range) : Prop :=
  ∃ tree item index, (compile false source).outcome = .ok tree ∧
    .forEach list item index [] range ∈ preorderAll tree

/-- That a fault of a strict run tells of the same thing as an event of a lenient one. -/
def Event.AnsweredBy (source : String) : Event → Fault → Prop
  | endIgnored place, fault => fault.cause = .strayEnd ∧ fault.range.start = place
  | loopsClosed _, fault => fault.cause = .unclosedLoop
  | listUndefined list, fault => fault.cause = .undefined list ∧ LoopBegins source list fault.range
  | listRejected list type, fault =>
    fault.cause = .notSequence list type ∧ LoopBegins source list fault.range
  | _, _ => False

namespace Rendering

variable {α β : Type} {P : Event → Fault → Prop} {p : Printout}

def logAfter (r : Rendering α) (p : Printout) : List Event :=
  match r p with
  | .ok _ q | .error _ q => q.log.toList

/-- That a step does from a printout on as another one does, as long as that lets nothing pass, and fails
at the first thing that it lets pass. -/
inductive Follows (P : Event → Fault → Prop) (r s : Rendering α) (p : Printout) : Prop
  | together {events} (h : r p = s p) (hs : s.logAfter p = p.log.toList ++ events)
    (hu : Unbending events)
  | parted {pre event post fault q} (hr : r p = .error fault q) (hq : q.log.toList = p.log.toList ++ pre)
    (hs : s.logAfter p = p.log.toList ++ (pre ++ event :: post)) (hpre : Unbending pre)
    (he : event.Lenient) (hP : P event fault)

theorem Follows.exists_append {r s : Rendering α} (h : Follows P r s p) :
    ∃ events, s.logAfter p = p.log.toList ++ events := by
  cases h with
  | together h hs hu => exact ⟨_, hs⟩
  | parted hr hq hs hpre he hP => exact ⟨_, hs⟩

theorem bind_apply_ok {r : Rendering α} {a : α} {q : Printout} (h : r p = .ok a q)
    (f : α → Rendering β) : (r >>= f) p = f a q := by
  simp only [bind, EStateM.bind, h]

theorem bind_apply_error {r : Rendering α} {fault : Fault} {q : Printout} (h : r p = .error fault q)
    (f : α → Rendering β) : (r >>= f) p = .error fault q := by
  simp only [bind, EStateM.bind, h]

theorem Follows.bind {r s : Rendering α} {f g : α → Rendering β} (h : Follows P r s p)
    (hfg : ∀ a q, Follows P (f a) (g a) q) : Follows P (r >>= f) (s >>= g) p := by
  cases h with
  | @together events h hs hu =>
    cases hsp : s p with
    | error fault q =>
      have hlog : (s >>= g).logAfter p = p.log.toList ++ events := by
        rw [← hs, logAfter, logAfter, bind_apply_error hsp, hsp]
      refine .together ?_ hlog hu
      rw [bind_apply_error (h.trans hsp), bind_apply_error hsp]
    | ok a q =>
      have hq : q.log.toList = p.log.toList ++ events := by
        rw [← hs, logAfter, hsp]
      have hl : (s >>= g).logAfter p = (g a).logAfter q := by
        rw [logAfter, logAfter, bind_apply_ok hsp]
      have hr : (r >>= f) p = f a q := bind_apply_ok (h.trans hsp) f
      cases hfg a q with
      | together h' hs' hu' =>
        refine .together ?_ ?_ (hu.append hu')
        · rw [hr, bind_apply_ok hsp, h']
        · rw [hl, hs', hq, List.append_assoc]
      | @parted pre event post fault q' hr' hq' hs' hpre he hP =>
        have hlog : (s >>= g).logAfter p = p.log.toList ++ (events ++ pre ++ event :: post) := by
          rw [hl, hs', hq, List.append_assoc, List.append_assoc]
        refine .parted (hr.trans hr') ?_ hlog (hu.append hpre) he hP
        rw [hq', hq, List.append_assoc]
  | @parted pre event post fault q hr hq hs hpre he hP =>
    -- Whatever the lenient step goes on to report stands behind the event.
    obtain ⟨more, hm⟩ : ∃ more, (s >>= g).logAfter p = s.logAfter p ++ more := by
      cases hsp : s p with
      | error fault q =>
        refine ⟨[], ?_⟩
        rw [logAfter, logAfter, bind_apply_error hsp, hsp, List.append_nil]
      | ok a q =>
        obtain ⟨events, hg⟩ := (hfg a q).exists_append
        refine ⟨events, ?_⟩
        rw [logAfter, bind_apply_ok hsp, ← logAfter, hg, logAfter, hsp]
    have hlog : (s >>= g).logAfter p = p.log.toList ++ (pre ++ event :: (post ++ more)) := by
      rw [hm, hs]
      simp
    exact .parted (bind_apply_error hr f) hq hlog hpre he hP

theorem follows_pure (a : α) : Follows P (pure a) (pure a) p :=
  .together rfl (List.append_nil _).symm unbending_nil

theorem follows_print (text : String) : Follows P (print text) (print text) p :=
  .together rfl (List.append_nil _).symm unbending_nil

theorem follows_throw (fault : Fault) : Follows P (throw fault : Rendering α) (throw fault) p :=
  .together rfl (List.append_nil _).symm unbending_nil

theorem follows_report {event : Event} (h : ¬ event.Lenient) :
    Follows P (report event) (report event) p :=
  .together rfl (Array.toList_push ..) (unbending_singleton h)

theorem follows_substitute (name : String) (range : Range) (v : Option Value) :
    Follows P (substitute name range v) (substitute name range v) p := by
  cases v with
  | none => exact follows_throw _
  | some v =>
    cases v with
    | sequence vs => exact follows_throw _
    | unsupported type => exact follows_throw _
    | _ => exact follows_print _

theorem follows_elements {source list : String} {range : Range} (h : LoopBegins source list range)
    (v : Option Value) :
    Follows (Event.AnsweredBy source) (elements true list range v) (elements false list range v) p := by
  cases v with
  | none =>
    have hl : (elements false list range none).logAfter p =
        p.log.toList ++ ([] ++ .listUndefined list :: []) := Array.toList_push ..
    exact .parted rfl (List.append_nil _).symm hl unbending_nil trivial ⟨rfl, h⟩
  | some v =>
    cases hv : v.elements? with
    | some vs =>
      have he : ∀ strict, elements strict list range (some v) = pure vs := fun strict => by
        simp [elements, hv]
      rw [he, he]
      exact follows_pure vs
    | none =>
      have ht : elements true list range (some v) p =
          .error ⟨range, .notSequence list v.typeName⟩ p := by
        simp only [elements, hv]
        rfl
      have hf : elements false list range (some v) =
          (do report (.listRejected list v.typeName); pure []) := by
        simp [elements, hv]
      have hl : (elements false list range (some v)).logAfter p =
          p.log.toList ++ ([] ++ .listRejected list v.typeName :: []) := by
        rw [hf]
        exact Array.toList_push ..
      exact .parted ht (List.append_nil _).symm hl unbending_nil trivial ⟨rfl, h⟩

theorem follows_rounds {r s : Nat → Rendering Unit} (h : ∀ k p, Follows P (r k) (s k) p)
    (count k : Nat) : ∀ p, Follows P (rounds r count k) (rounds s count k) p := by
  induction count generalizing k with
  | zero => exact fun p => follows_pure ()
  | succ count ih => exact fun p => (h k p).bind fun _ q => ih (k + 1) q

theorem follows_roundsOver {r s : Nat → Value → Rendering Unit}
    (h : ∀ k v p, Follows P (r k v) (s k v) p) (vs : List Value) (k : Nat) :
    ∀ p, Follows P (roundsOver r vs k) (roundsOver s vs k) p := by
  induction vs generalizing k with
  | nil => exact fun p => follows_pure ()
  | cons v vs ih => exact fun p => (h k v p).bind fun _ q => ih (k + 1) q

end Rendering

open Rendering

section

variable {source : String} {tree : List Command}

mutual

theorem Command.render_follows (ht : (compile false source).outcome = .ok tree) (context : Context) :
    ∀ (c : Command) (bound : Bindings) (p : Printout), c.preorder ⊆ preorderAll tree →
      Rendering.Follows (Event.AnsweredBy source) (c.render true context bound)
        (c.render false context bound) p
  | .literal text, bound, p, _ => by
    rw [Command.render, Command.render]
    exact follows_print text
  | .substitution name range, bound, p, _ => by
    rw [Command.render, Command.render]
    exact follows_substitute name range _
  | .forRange count index body, bound, p, h => by
    rw [Command.render, Command.render]
    refine follows_rounds (fun k q => ?_) count 0 p
    exact renderAll_follows ht context body _ q (List.cons_subset.1 h).2
  | .forEach list item index body range, bound, p, h => by
    rw [Command.render, Command.render]
    obtain ⟨hc, hb⟩ := List.cons_subset.1 h
    refine (follows_elements ⟨tree, item, index, ht, hc⟩ _).bind fun vs q => ?_
    refine follows_roundsOver (fun k v q => ?_) vs 0 q
    have hi : ¬ (Event.iteration k list).Lenient := id
    exact (follows_report hi).bind fun _ q => renderAll_follows ht context body _ q hb

theorem renderAll_follows (ht : (compile false source).outcome = .ok tree) (context : Context) :
    ∀ (cs : List Command) (bound : Bindings) (p : Printout), preorderAll cs ⊆ preorderAll tree →
      Rendering.Follows (Event.AnsweredBy source) (renderAll true context bound cs)
        (renderAll false context bound cs) p
  | [], bound, p, _ => by
    rw [renderAll, renderAll]
    exact follows_pure ()
  | c :: cs, bound, p, h => by
    rw [renderAll, renderAll]
    obtain ⟨hc, hcs⟩ := List.append_subset.1 h
    exact (Command.render_follows ht context c bound p hc).bind fun _ q =>
      renderAll_follows ht context cs bound q hcs

end

theorem log_render (strict : Bool) (context : Context) (cs : List Command) :
    (render strict context cs).log = (renderAll strict context [] cs).logAfter {} := by
  rw [render, logAfter, EStateM.run]
  cases renderAll strict context [] cs {} <;> rfl

theorem render_follows (ht : (compile false source).outcome = .ok tree) (context : Context) :
    Traced.Follows (Event.AnsweredBy source) (render true context tree) (render false context tree) := by
  cases renderAll_follows ht context tree [] {} (List.Subset.refl _) with
  | together h hs hu =>
    refine .together ?_ ?_
    · rw [render, render, EStateM.run, EStateM.run, h]
    · rw [log_render, hs]
      exact hu
  | @parted pre event post fault q hr hq hs hpre he hP =>
    refine .parted ?_ ((log_render _ _ _).trans hs) hpre he hP
    rw [render, EStateM.run, hr]
    exact congrArg (Traced.mk · _) hq

end

end TextTemplate
