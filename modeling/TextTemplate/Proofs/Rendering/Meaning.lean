import TextTemplate.Render
import Mathlib.Logic.Function.Basic

namespace TextTemplate

/-- What the names at one place of a template stand for. -/
abbrev Env := String → Option Value

namespace Env

def bind (env : Env) (name : String) (v : Value) : Env := Function.update env name (some v)

def bindIndex (env : Env) (index : Option String) (k : Nat) : Env :=
  match index with
  | some name => env.bind name (.uint k)
  | none => env

end Env

def concat : List (Except Fault String) → Except Fault String
  | [] => .ok ""
  | x :: xs => do
    let text ← x
    let further ← concat xs
    return text ++ further

mutual

def Command.meaning (strict : Bool) (env : Env) : Command → Except Fault String
  | .literal text => .ok text
  | .substitution name range =>
    match env name with
    | none => .error ⟨range, .undefined name⟩
    | some (.sequence vs) => .error ⟨range, .noText name (Value.sequence vs).typeName⟩
    | some (.unsupported type) => .error ⟨range, .noText name (Value.unsupported type).typeName⟩
    | some v => .ok v.text
  | .forRange count index body =>
    concat ((List.range count).map fun k => meaningAll strict (env.bindIndex index k) body)
  | .forEach list item index body range =>
    match env list with
    | some (.sequence vs) =>
      concat (vs.zipIdx.map fun (v, k) => meaningAll strict ((env.bind item v).bindIndex index k) body)
    | some v => if strict then .error ⟨range, .notSequence list v.typeName⟩ else .ok ""
    | none => if strict then .error ⟨range, .undefined list⟩ else .ok ""

def meaningAll (strict : Bool) (env : Env) : List Command → Except Fault String
  | [] => .ok ""
  | c :: cs => do
    let text ← c.meaning strict env
    let further ← meaningAll strict env cs
    return text ++ further

end

namespace Rendering

def textAfter (r : Rendering Unit) (p : Printout) : Except Fault String :=
  match r p with
  | .ok () q => .ok q.text
  | .error fault _ => .error fault

/-- That a step adds a text to whatever is printed already, or fails. -/
def Prints (r : Rendering Unit) (x : Except Fault String) : Prop :=
  ∀ p, r.textAfter p = x.map (p.text ++ ·)

theorem prints_pure : Prints (pure ()) (.ok "") := by
  intro p
  simp [textAfter, pure, EStateM.pure, Except.map]

theorem prints_print (text : String) : Prints (print text) (.ok text) := fun _ => rfl

theorem prints_throw (fault : Fault) : Prints (throw fault) (.error fault) := fun _ => rfl

theorem textAfter_bind_ok {r s : Rendering Unit} {p q : Printout} (h : r p = .ok () q) :
    textAfter (do r; s) p = s.textAfter q := by
  simp only [textAfter, bind, EStateM.bind, h]

theorem textAfter_bind_error {r s : Rendering Unit} {p q : Printout} {fault : Fault}
    (h : r p = .error fault q) : textAfter (do r; s) p = .error fault := by
  simp only [textAfter, bind, EStateM.bind, h]

theorem Prints.bind {r s : Rendering Unit} {x y : Except Fault String} (hr : Prints r x)
    (hs : Prints s y) :
    Prints (do r; s) (do let a ← x; let b ← y; return a ++ b) := by
  intro p
  have hp := hr p
  cases h : r p with
  | error fault q =>
    rw [textAfter_bind_error h]
    cases x with
    | error fault' =>
      simp only [textAfter, h] at hp
      exact hp
    | ok a => simp [textAfter, h, Except.map] at hp
  | ok u q =>
    rw [textAfter_bind_ok h, hs q]
    cases x with
    | error fault => simp [textAfter, h, Except.map] at hp
    | ok a =>
      have hq : q.text = p.text ++ a := by simpa [textAfter, h, Except.map] using hp
      cases y with
      | error fault => rfl
      | ok b =>
        rw [hq]
        exact congrArg Except.ok (String.append_assoc ..)

theorem Prints.report {r : Rendering Unit} {x : Except Fault String} (event : Event)
    (hr : Prints r x) : Prints (do report event; r) x := by
  intro p
  exact hr { p with log := p.log.push event }

theorem rounds_prints {round : Nat → Rendering Unit} {x : Nat → Except Fault String}
    (h : ∀ k, Prints (round k) (x k)) (count k : Nat) :
    Prints (rounds round count k) (concat ((List.range' k count).map x)) := by
  induction count generalizing k with
  | zero => exact prints_pure
  | succ count ih => exact (h k).bind (ih (k + 1))

theorem roundsOver_prints {round : Nat → Value → Rendering Unit} {x : Value × Nat → Except Fault String}
    (h : ∀ k v, Prints (round k v) (x (v, k))) (vs : List Value) (k : Nat) :
    Prints (roundsOver round vs k) (concat ((vs.zipIdx k).map x)) := by
  induction vs generalizing k with
  | nil => exact prints_pure
  | cons v vs ih => exact (h k v).bind (ih (k + 1))

end Rendering

def Bindings.env (bound : Bindings) (context : Context) : Env := bound.find? context

namespace Bindings

theorem env_cons (f : Frame) (bound : Bindings) (context : Context) :
    Bindings.env (f :: bound) context = ((match f.item with
      | some (item, v) => (bound.env context).bind item v
      | none => bound.env context).bindIndex f.index f.number) := by
  funext x
  obtain ⟨index, number, item⟩ := f
  have hitem : (resolve? (⟨none, number, item⟩ :: bound) x).or (context.get x) = (match item with
      | some (item, v) => (bound.env context).bind item v
      | none => bound.env context) x := by
    cases item with
    | none => rfl
    | some item =>
      obtain ⟨y, v⟩ := item
      by_cases hy : x = y
      · simp [resolve?, Env.bind, hy]
      · simp [resolve?, Env.bind, env, find?, hy, Ne.symm hy]
  cases index with
  | none => exact hitem
  | some name =>
    by_cases hx : x = name
    · simp [env, find?, resolve?, Env.bindIndex, Env.bind, hx]
    · have hr : resolve? (⟨some name, number, item⟩ :: bound) x =
          resolve? (⟨none, number, item⟩ :: bound) x := by
        simp [resolve?, Ne.symm hx]
      rw [env, find?, hr, hitem, Env.bindIndex, Env.bind, Function.update_of_ne hx]

end Bindings

open Rendering

theorem substitute_prints (strict : Bool) (env : Env) (name : String) (range : Range) :
    Prints (substitute name range (env name)) ((Command.substitution name range).meaning strict env) := by
  rw [Command.meaning]
  cases env name with
  | none => exact prints_throw _
  | some v =>
    cases v with
    | sequence vs => exact prints_throw _
    | unsupported type => exact prints_throw _
    | _ => exact prints_print _

theorem elements_prints (strict : Bool) (name : String) (range : Range) (value : Option Value)
    {steps : List Value → Rendering Unit} {x : List Value → Except Fault String}
    (h₀ : steps [] = pure ()) (h : ∀ vs, Prints (steps vs) (x vs)) :
    Prints (do let vs ← elements strict name range value; steps vs) (match value with
      | some (.sequence vs) => x vs
      | some v => if strict then .error ⟨range, .notSequence name v.typeName⟩ else .ok ""
      | none => if strict then .error ⟨range, .undefined name⟩ else .ok "") := by
  have skip : ∀ event, Prints (do report event; steps []) (.ok "") := by
    intro event
    rw [h₀]
    exact prints_pure.report event
  cases value with
  | none =>
    cases strict with
    | true => exact prints_throw _
    | false => exact skip _
  | some v =>
    cases v with
    | sequence vs => exact h vs
    | _ =>
      cases strict with
      | true => exact prints_throw _
      | false => exact skip _

mutual

theorem Command.render_prints (strict : Bool) (context : Context) (bound : Bindings) :
    ∀ c : Command, Prints (c.render strict context bound) (c.meaning strict (bound.env context))
  | .literal text => by
    rw [Command.render, Command.meaning]
    exact prints_print text
  | .substitution name range => by
    rw [Command.render]
    exact substitute_prints strict (bound.env context) name range
  | .forRange count index body => by
    rw [Command.render, Command.meaning, List.range_eq_range']
    refine rounds_prints (fun k => ?_) count 0
    have h := renderAll_prints strict context (.range index k :: bound) body
    rwa [Bindings.env_cons] at h
  | .forEach list item index body range => by
    rw [Command.render, Command.meaning]
    refine elements_prints strict list range (bound.env context list) rfl fun vs => ?_
    refine roundsOver_prints (fun k v => ?_) vs 0
    have h := renderAll_prints strict context (.each item v index k :: bound) body
    rw [Bindings.env_cons] at h
    exact h.report _

theorem renderAll_prints (strict : Bool) (context : Context) (bound : Bindings) :
    ∀ cs : List Command,
      Prints (renderAll strict context bound cs) (meaningAll strict (bound.env context) cs)
  | [] => by
    rw [renderAll, meaningAll]
    exact prints_pure
  | c :: cs => by
    rw [renderAll, meaningAll]
    exact (Command.render_prints strict context bound c).bind (renderAll_prints strict context bound cs)

end

/-- Rendering gives what the commands mean where names stand for what the context says. -/
theorem render_outcome (strict : Bool) (context : Context) (commands : List Command) :
    (render strict context commands).outcome = meaningAll strict context.get commands := by
  have h : textAfter (renderAll strict context [] commands) {} =
      (meaningAll strict context.get commands).map ("" ++ ·) :=
    renderAll_prints strict context [] commands {}
  have hm : (meaningAll strict context.get commands).map ("" ++ ·) =
      meaningAll strict context.get commands := by
    cases meaningAll strict context.get commands with
    | ok text => exact congrArg Except.ok String.empty_append
    | error fault => rfl
  rw [hm] at h
  rw [← h, render, textAfter, EStateM.run]
  cases renderAll strict context [] commands {} <;> rfl

end TextTemplate
