import TextTemplate.Traced
import Mathlib.Data.List.Basic

namespace TextTemplate

def Event.Lenient : Event → Prop
  | endIgnored _ | loopsClosed _ | listUndefined _ | listRejected _ _ => True
  | _ => False

namespace Event

inductive TellsLeniency : String → Prop
  | strayEnd (place : Position) : TellsLeniency s!"ignoring `end` without an open loop at {place.shown}"
  | openLoops (count : Nat) : TellsLeniency s!"closing {count} unterminated loop(s) at end of template"
  | undefined (name : String) : TellsLeniency s!"`{name}` is not defined, skipping loop"
  | rejected (name type : String) : TellsLeniency s!"`{name}` is a {type}, not a sequence, skipping loop"

theorem TellsLeniency.begins {text : String} (h : TellsLeniency text) :
    text.toList.head? = some '`' ∨ ['i', 'g'] <+: text.toList ∨ ['c', 'l'] <+: text.toList := by
  cases h with
  | strayEnd place => simp [toString]
  | openLoops count => simp [toString]
  | undefined name => simp [toString]
  | rejected name type => simp [toString]

/-- A run is lenient about something just where it says so: the records are those with these texts. -/
theorem lenient_iff (event : Event) : event.Lenient ↔ event.level = .debug ∧ TellsLeniency event.message := by
  constructor
  · intro h
    cases event with
    | endIgnored place => exact ⟨rfl, .strayEnd place⟩
    | loopsClosed count => exact ⟨rfl, .openLoops count⟩
    | listUndefined name => exact ⟨rfl, .undefined name⟩
    | listRejected name type => exact ⟨rfl, .rejected name type⟩
    | _ => exact h.elim
  · rintro ⟨hlevel, htext⟩
    have hbegins := htext.begins
    cases event with
    | directive | iteration => cases hlevel
    | compiled bytes commands =>
      have hm : (compiled bytes commands).message =
          s!"compiled template of {bytes} bytes into {commands} top-level command(s)" := rfl
      rw [hm] at hbegins
      simp [toString] at hbegins
    | rendered bytes =>
      have hm : (rendered bytes).message = s!"rendered {bytes} bytes" := rfl
      rw [hm] at hbegins
      simp [toString] at hbegins
    | arguments count json =>
      obtain ⟨context, hm⟩ : ∃ context : String, (arguments count json).message =
          s!"rendering with {count} argument(s) and a {context} JSON context" := ⟨_, rfl⟩
      rw [hm] at hbegins
      simp [toString] at hbegins
    | _ => trivial

end Event

def Unbending (log : List Event) : Prop := ∀ event ∈ log, ¬ event.Lenient

theorem unbending_nil : Unbending [] := nofun

theorem unbending_singleton {event : Event} (h : ¬ event.Lenient) : Unbending [event] := by
  intro e he
  rwa [List.mem_singleton.1 he]

theorem Unbending.append {as bs : List Event} (ha : Unbending as) (hb : Unbending bs) :
    Unbending (as ++ bs) := by
  intro e he
  obtain he | he := List.mem_append.1 he
  · exact ha e he
  · exact hb e he

theorem not_unbending {pre post : List Event} {event : Event} (h : event.Lenient) :
    ¬ Unbending (pre ++ event :: post) :=
  fun hu => hu event (List.mem_append_right _ List.mem_cons_self) h

namespace Traced

variable {ε δ α β : Type}

theorem bind_ok {x : Traced ε α} {a : α} (h : x.outcome = .ok a) (f : α → Traced ε β) :
    x >>= f = ⟨x.log ++ (f a).log, (f a).outcome⟩ := by
  simp only [bind, h]

theorem bind_error {x : Traced ε α} {e : ε} (h : x.outcome = .error e) (f : α → Traced ε β) :
    x >>= f = ⟨x.log, .error e⟩ := by
  simp only [bind, h]

instance : LawfulMonad (Traced ε) := by
  refine .mk' _ ?_ ?_ ?_
  · rintro α ⟨log, outcome⟩
    cases outcome with
    | error e => rfl
    | ok a => exact congrArg (Traced.mk · _) (List.append_nil log)
  · intro α β a f
    rfl
  · rintro α β γ ⟨log, outcome⟩ f g
    cases outcome with
    | error e => rfl
    | ok a =>
      have hl : ∀ {δ} (k : α → Traced ε δ),
          (⟨log, .ok a⟩ : Traced ε α) >>= k = ⟨log ++ (k a).log, (k a).outcome⟩ := fun k => rfl
      rw [hl, hl]
      cases h : (f a).outcome with
      | error e =>
        rw [bind_error h]
        rfl
      | ok b =>
        rw [bind_ok h]
        exact congrArg (Traced.mk · _) (List.append_assoc ..)

/-- That a computation does as another one as long as that lets nothing pass, and fails at the first
thing that it lets pass, with a fault that `P` ties to the event. -/
inductive Follows (P : Event → ε → Prop) (x y : Traced ε α) : Prop
  | together (h : x = y) (hy : Unbending y.log)
  | parted {pre event post fault} (hx : x = ⟨pre, .error fault⟩) (hy : y.log = pre ++ event :: post)
    (hpre : Unbending pre) (he : event.Lenient) (hP : P event fault)

variable {P : Event → ε → Prop}

theorem Follows.bind {x y : Traced ε α} {f g : α → Traced ε β} (h : Follows P x y)
    (hfg : ∀ a, y.outcome = .ok a → Follows P (f a) (g a)) : Follows P (x >>= f) (y >>= g) := by
  cases h with
  | together h hu =>
    subst h
    cases hx : x.outcome with
    | error e =>
      rw [bind_error hx, bind_error hx]
      exact .together rfl hu
    | ok a =>
      rw [bind_ok hx, bind_ok hx]
      cases hfg a hx with
      | together h' hu' =>
        rw [h']
        exact .together rfl (hu.append hu')
      | @parted pre event post fault hf hg hpre he hP =>
        rw [hf]
        exact .parted rfl (by rw [hg, List.append_assoc]) (hu.append hpre) he hP
  | @parted pre event post fault hx hy hpre he hP =>
    subst hx
    rw [bind_error rfl]
    -- Whatever the lenient computation goes on to report stands behind the event.
    obtain ⟨more, hm⟩ : ∃ more, (y >>= g).log = y.log ++ more := by
      cases ho : y.outcome with
      | error e =>
        rw [bind_error ho]
        exact ⟨[], (List.append_nil _).symm⟩
      | ok a =>
        rw [bind_ok ho]
        exact ⟨(g a).log, rfl⟩
    exact .parted rfl (by rw [hm, hy, List.append_assoc, List.cons_append]) hpre he hP

theorem follows_self {x : Traced ε α} (h : Unbending x.log) : Follows P x x := .together rfl h

theorem Follows.mapError {Q : Event → δ → Prop} {x y : Traced ε α} (h : Follows P x y) (t : ε → δ)
    (hPQ : ∀ e fault, P e fault → Q e (t fault)) : Follows Q (x.mapError t) (y.mapError t) := by
  cases h with
  | together h hu =>
    rw [h]
    exact .together rfl hu
  | parted hx hy hpre he hP =>
    rw [hx]
    exact .parted rfl hy hpre he (hPQ _ _ hP)

theorem Follows.outcome_eq_ok_iff {x y : Traced ε α} (h : Follows P x y) {a : α} :
    x.outcome = .ok a ↔ y.outcome = .ok a ∧ Unbending y.log := by
  cases h with
  | together h hu =>
    rw [h]
    exact ⟨fun ho => ⟨ho, hu⟩, And.left⟩
  | parted hx hy hpre he hP =>
    rw [hx, hy]
    refine ⟨nofun, ?_⟩
    rintro ⟨-, hu⟩
    exact absurd hu (not_unbending he)

end Traced

end TextTemplate
