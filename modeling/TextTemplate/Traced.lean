import TextTemplate.Event

namespace TextTemplate

structure Traced (ε α : Type) where
  log : List Event := []
  outcome : Except ε α

namespace Traced

variable {ε δ α β : Type}

instance : Monad (Traced ε) where
  pure a := { outcome := .ok a }
  bind x f :=
    match x.outcome with
    | .ok a => ⟨x.log ++ (f a).log, (f a).outcome⟩
    | .error e => ⟨x.log, .error e⟩

def fail (e : ε) : Traced ε α := { outcome := .error e }

def report (event : Event) : Traced ε Unit := ⟨[event], .ok ()⟩

def ofExcept (outcome : Except ε α) : Traced ε α := { outcome }

def mapError (f : ε → δ) (x : Traced ε α) : Traced δ α := ⟨x.log, x.outcome.mapError f⟩

@[simp]
theorem outcome_pure (a : α) : (pure a : Traced ε α).outcome = .ok a := rfl

@[simp]
theorem outcome_fail (e : ε) : (fail e : Traced ε α).outcome = .error e := rfl

@[simp]
theorem outcome_bind (x : Traced ε α) (f : α → Traced ε β) :
    (x >>= f).outcome = x.outcome >>= fun a => (f a).outcome := by
  obtain ⟨log, outcome⟩ := x
  cases outcome <;> rfl

@[simp]
theorem outcome_report_bind (event : Event) (f : Unit → Traced ε α) :
    (report event >>= f).outcome = (f ()).outcome := rfl

end Traced

end TextTemplate
