import TextTemplate.CommandLine.Run
import TextTemplate.Json.Reader
import TextTemplate.Proofs.Template.Outcome
import Mathlib

namespace TextTemplate.CommandLine

/-- The steps of a run, in their order. -/
inductive Step
  | reading
  | compiling
  | parsing
  | checking
  | rendering
  | creating
  | writing
deriving DecidableEq

def Step.all : List Step := [reading, compiling, parsing, checking, rendering, creating, writing]

def Step.before (step : Step) : List Step := all.takeWhile (· ≠ step)

theorem Step.trichotomy (a b : Step) : a = b ∨ a ∈ b.before ∨ b ∈ a.before := by
  cases a <;> cases b <;> decide

theorem Step.ne_of_mem_before {a b : Step} (h : a ∈ b.before) : a ≠ b := by
  rintro rfl
  revert h
  cases a <;> decide

namespace Settings

def ownFields (s : Settings) : Context :=
  .ofPairs (s.pairs.map fun (name, value) => (name, .string value))

/-- The context that a template is rendered against. The fields of a JSON object stand behind those that
the command line sets itself. -/
inductive Supplies (readJson : String → Option Json) (s : Settings) : Context → Prop
  | own (hc : s.context = none) : Supplies readJson s s.ownFields
  | layered {text j} (hc : s.context = some text) (hj : readJson text = some j) (ho : j.isObject) :
    Supplies readJson s (s.ownFields.orElse (.ofJson j))

end Settings

namespace World

inductive Reads (w : World) (s : Settings) : String → Prop
  | template {source} (ht : s.template = some source) : Reads w s source
  | input {bytes source} (ht : s.template = none) (hi : w.input = some bytes)
    (hu : String.fromUTF8? bytes = some source) : Reads w s source

/-- The text that a run without faults writes: a listing of the compiled template, or what the template
renders to. -/
inductive Writes (readJson : String → Option Json) (w : World) (s : Settings) : String → Prop
  | dump {source t} (hs : w.Reads s source) (hc : (Template.compile s.strict source).outcome = .ok t)
    (hd : s.dump = true) : Writes readJson w s (dumpAll 0 t.commands)
  | render {source t context text} (hs : w.Reads s source)
    (hc : (Template.compile s.strict source).outcome = .ok t) (hd : s.dump = false)
    (hx : s.Supplies readJson context) (hr : (t.render context).outcome = .ok text) : Writes readJson w s text

/-- That a place can take bytes. What a file held before is gone when it is opened. -/
def HasRoom (w : World) (place : Option String) (bytes : ByteArray) : Prop :=
  ∀ n ∈ w.limit place, bytes.size ≤ n - if place = none then w.output.size else 0

/-- That a step of a run has something to fail at. Where the template is only listed no context is
needed. -/
inductive Fails (readJson : String → Option Json) (w : World) (s : Settings) : Step → Failure → Prop
  | reading (ht : s.template = none) (hu : ∀ bytes ∈ w.input, String.fromUTF8? bytes = none) :
    Fails readJson w s .reading .inputNotText
  | compiling {source d} (hs : w.Reads s source)
    (hc : (Template.compile s.strict source).outcome = .error d) : Fails readJson w s .compiling (.template d)
  | parsing {text} (hd : s.dump = false) (hc : s.context = some text) (hj : readJson text = none) :
    Fails readJson w s .parsing .contextNotJson
  | checking {text j} (hd : s.dump = false) (hc : s.context = some text) (hj : readJson text = some j)
    (ho : j.isObject = false) : Fails readJson w s .checking .contextNotObject
  | rendering {source t context d} (hs : w.Reads s source)
    (hc : (Template.compile s.strict source).outcome = .ok t) (hd : s.dump = false)
    (hx : s.Supplies readJson context) (hr : (t.render context).outcome = .error d) :
    Fails readJson w s .rendering (.template d)
  | creating {file} (ho : s.output = some file) (hf : w.creatable file = false) :
    Fails readJson w s .creating .outputNotCreatable
  | writing {text} (hw : w.Writes readJson s text) (hr : ¬ w.HasRoom s.output text.toUTF8) :
    Fails readJson w s .writing .outputNotWritable

def FailsFirst (readJson : String → Option Json) (w : World) (s : Settings) (step : Step)
    (failure : Failure) : Prop :=
  w.Fails readJson s step failure ∧ ∀ earlier ∈ step.before, ∀ f, ¬ w.Fails readJson s earlier f

end World

variable {readJson : String → Option Json} {w : World} {s : Settings}

theorem World.Reads.unique {a b : String} (ha : w.Reads s a) (hb : w.Reads s b) : a = b := by
  cases ha with
  | template ht =>
    cases hb with
    | template ht' => exact Option.some.inj (ht.symm.trans ht')
    | input ht' => cases ht.symm.trans ht'
  | input ht hi hu =>
    cases hb with
    | template ht' => cases ht.symm.trans ht'
    | input ht' hi' hu' =>
      obtain rfl := Option.some.inj (hi.symm.trans hi')
      exact Option.some.inj (hu.symm.trans hu')

theorem Settings.Supplies.unique {a b : Context} (ha : s.Supplies readJson a)
    (hb : s.Supplies readJson b) : a = b := by
  cases ha with
  | own hc =>
    cases hb with
    | own hc' => rfl
    | layered hc' => cases hc.symm.trans hc'
  | layered hc hj =>
    cases hb with
    | own hc' => cases hc.symm.trans hc'
    | layered hc' hj' =>
      obtain rfl := Option.some.inj (hc.symm.trans hc')
      obtain rfl := Option.some.inj (hj.symm.trans hj')
      rfl

namespace World

theorem Fails.unique {step : Step} {f f' : Failure} (h : w.Fails readJson s step f)
    (h' : w.Fails readJson s step f') : f = f' := by
  cases h with
  | compiling hs hc =>
    cases h' with
    | compiling hs' hc' =>
      obtain rfl := hs.unique hs'
      obtain rfl := Except.error.inj (hc.symm.trans hc')
      rfl
  | rendering hs hc hd hx hr =>
    cases h' with
    | rendering hs' hc' hd' hx' hr' =>
      obtain rfl := hs.unique hs'
      obtain rfl := Except.ok.inj (hc.symm.trans hc')
      obtain rfl := hx.unique hx'
      obtain rfl := Except.error.inj (hr.symm.trans hr')
      rfl
  | _ =>
    cases h'
    rfl

theorem Fails.ne_outputNotWritable {step : Step} {f : Failure} (h : w.Fails readJson s step f)
    (hs : step ≠ .writing) : f ≠ .outputNotWritable := by
  cases h with
  | writing => exact absurd rfl hs
  | _ => nofun

theorem FailsFirst.unique {a b : Step} {f f' : Failure} (h : w.FailsFirst readJson s a f)
    (h' : w.FailsFirst readJson s b f') : f = f' := by
  obtain rfl | hab | hba := Step.trichotomy a b
  · exact h.1.unique h'.1
  · exact absurd h.1 (h'.2 a hab f)
  · exact absurd h'.1 (h.2 b hba f')

theorem Reads.not_reading {source : String} (h : w.Reads s source) (f : Failure) :
    ¬ w.Fails readJson s .reading f := by
  intro hf
  cases hf with
  | reading ht hu =>
    cases h with
    | template ht' => cases ht.symm.trans ht'
    | input ht' hi hu' => cases (hu _ hi).symm.trans hu'

theorem Reads.not_compiling {source : String} {t : Template} (h : w.Reads s source)
    (hc : (Template.compile s.strict source).outcome = .ok t) (f : Failure) :
    ¬ w.Fails readJson s .compiling f := by
  intro hf
  cases hf with
  | compiling hs hc' =>
    obtain rfl := h.unique hs
    cases hc.symm.trans hc'

theorem not_parsing {context : Context} (h : s.Supplies readJson context) (f : Failure) :
    ¬ w.Fails readJson s .parsing f := by
  intro hf
  cases hf with
  | parsing hd hc hj =>
    cases h with
    | own hc' => cases hc.symm.trans hc'
    | layered hc' hj' =>
      obtain rfl := Option.some.inj (hc.symm.trans hc')
      cases hj.symm.trans hj'

theorem not_checking {context : Context} (h : s.Supplies readJson context) (f : Failure) :
    ¬ w.Fails readJson s .checking f := by
  intro hf
  cases hf with
  | checking hd hc hj ho =>
    cases h with
    | own hc' => cases hc.symm.trans hc'
    | layered hc' hj' ho' =>
      obtain rfl := Option.some.inj (hc.symm.trans hc')
      obtain rfl := Option.some.inj (hj.symm.trans hj')
      cases ho.symm.trans ho'

theorem Writes.not_rendering {text : String} (h : w.Writes readJson s text) (f : Failure) :
    ¬ w.Fails readJson s .rendering f := by
  intro hf
  cases hf with
  | rendering hs hc hd hx hr =>
    cases h with
    | dump hs' hc' hd' => cases hd.symm.trans hd'
    | render hs' hc' hd' hx' hr' =>
      obtain rfl := hs.unique hs'
      obtain rfl := Except.ok.inj (hc.symm.trans hc')
      obtain rfl := hx.unique hx'
      cases hr.symm.trans hr'

theorem Writes.unique {a b : String} (ha : w.Writes readJson s a) (hb : w.Writes readJson s b) : a = b := by
  cases ha with
  | dump hs hc hd =>
    cases hb with
    | dump hs' hc' =>
      obtain rfl := hs.unique hs'
      rw [Except.ok.inj (hc.symm.trans hc')]
    | render hs' hc' hd' => cases hd.symm.trans hd'
  | render hs hc hd hx hr =>
    cases hb with
    | dump hs' hc' hd' => cases hd.symm.trans hd'
    | render hs' hc' hd' hx' hr' =>
      obtain rfl := hs.unique hs'
      obtain rfl := Except.ok.inj (hc.symm.trans hc')
      obtain rfl := hx.unique hx'
      exact Except.ok.inj (hr.symm.trans hr')

theorem Writes.eq_creating_or_writing {text : String} (h : w.Writes readJson s text) {step : Step}
    {f : Failure} (hf : w.Fails readJson s step f) : step = .creating ∨ step = .writing := by
  have listed : s.dump = true → step ≠ .parsing ∧ step ≠ .checking := by
    intro hd
    refine ⟨?_, ?_⟩ <;> rintro rfl
    · cases hf with
      | parsing hd' => cases hd.symm.trans hd'
    · cases hf with
      | checking hd' => cases hd.symm.trans hd'
  cases step with
  | creating => exact .inl rfl
  | writing => exact .inr rfl
  | rendering => exact absurd hf (h.not_rendering f)
  | reading =>
    cases h with
    | dump hs => exact absurd hf (hs.not_reading f)
    | render hs => exact absurd hf (hs.not_reading f)
  | compiling =>
    cases h with
    | dump hs hc => exact absurd hf (hs.not_compiling hc f)
    | render hs hc => exact absurd hf (hs.not_compiling hc f)
  | parsing =>
    cases h with
    | dump hs hc hd => exact absurd rfl (listed hd).1
    | render hs hc hd hx => exact absurd hf (not_parsing hx f)
  | checking =>
    cases h with
    | dump hs hc hd => exact absurd rfl (listed hd).2
    | render hs hc hd hx => exact absurd hf (not_checking hx f)

/-- What a run comes to before it turns to the output: the text to write, or the first failure. -/
inductive Comes (readJson : String → Option Json) (w : World) (s : Settings) : Except Failure String → Prop
  | writes {text} (h : w.Writes readJson s text) : Comes readJson w s (.ok text)
  | fails {step failure} (h : w.FailsFirst readJson s step failure) (hs : step ≠ .writing) :
    Comes readJson w s (.error failure)

theorem exists_reads (readJson : String → Option Json) (w : World) (s : Settings) :
    (∃ source, w.Reads s source ∧ s.source w.input = .ok source) ∨
      w.Fails readJson s .reading .inputNotText ∧ s.source w.input = .error .inputNotText := by
  cases ht : s.template with
  | some source => exact .inl ⟨source, .template ht, by rw [Settings.source, ht]⟩
  | none =>
    cases hu : w.input.bind String.fromUTF8? with
    | some source =>
      obtain ⟨bytes, hi, hb⟩ := Option.bind_eq_some_iff.1 hu
      exact .inl ⟨source, .input ht hi hb, by rw [Settings.source, ht, hu]⟩
    | none => exact .inr ⟨.reading ht (Option.bind_eq_none_iff.1 hu), by rw [Settings.source, ht, hu]⟩

theorem exists_supplies (w : World) {s : Settings} (hd : s.dump = false) :
    (∃ context, s.Supplies readJson context ∧ s.fields readJson = .ok context) ∨
      (w.Fails readJson s .parsing .contextNotJson ∧ s.fields readJson = .error .contextNotJson) ∨
      (∀ f, ¬ w.Fails readJson s .parsing f) ∧
        w.Fails readJson s .checking .contextNotObject ∧ s.fields readJson = .error .contextNotObject := by
  cases hc : s.context with
  | none => exact .inl ⟨s.ownFields, .own hc, by rw [Settings.fields, hc]; rfl⟩
  | some text =>
    cases hj : readJson text with
    | none => exact .inr (.inl ⟨.parsing hd hc hj, by simp only [Settings.fields, hc, hj]⟩)
    | some j =>
      cases ho : j.isObject with
      | true =>
        refine .inl ⟨_, .layered hc hj ho, ?_⟩
        simp only [Settings.fields, hc, hj, ho]
        rfl
      | false =>
        refine .inr (.inr ⟨fun f hf => ?_, .checking hd hc hj ho, ?_⟩)
        · cases hf with
          | parsing hd' hc' hj' =>
            obtain rfl := Option.some.inj (hc.symm.trans hc')
            cases hj.symm.trans hj'
        · simp [Settings.fields, hc, hj, ho]

end World

theorem Settings.outcome_render (s : Settings) (t : Template) : (s.render readJson t).outcome =
    s.fields readJson >>= fun context => (t.render context).outcome.mapError .template := by
  rw [Settings.render, Traced.outcome_bind]
  rfl

theorem Settings.outcome_text (s : Settings) (input : Option ByteArray) : (s.text readJson input).outcome =
    s.source input >>= fun source => (Template.compile s.strict source).outcome.mapError .template >>=
      fun t => if s.dump then .ok (dumpAll 0 t.commands) else (s.render readJson t).outcome := by
  rw [Settings.text, Traced.outcome_bind]
  congr 1
  funext source
  rw [Traced.outcome_bind]
  congr 1
  funext t
  cases s.dump <;> rfl

namespace World

theorem failsFirst_rendering {source : String} {t : Template} {context : Context} {d : Diagnostic}
    (hs : w.Reads s source) (hc : (Template.compile s.strict source).outcome = .ok t) (hd : s.dump = false)
    (hx : s.Supplies readJson context) (hr : (t.render context).outcome = .error d) :
    w.FailsFirst readJson s .rendering (.template d) := by
  refine ⟨.rendering hs hc hd hx hr, fun earlier he => ?_⟩
  cases earlier with
  | reading => exact hs.not_reading
  | compiling => exact hs.not_compiling hc
  | parsing => exact not_parsing hx
  | checking => exact not_checking hx
  | _ => exact absurd he (by decide)

theorem Writes.failsFirst_creating {text file : String} (h : w.Writes readJson s text)
    (ho : s.output = some file) (hf : w.creatable file = false) :
    w.FailsFirst readJson s .creating .outputNotCreatable := by
  refine ⟨.creating ho hf, fun earlier hb f hfails => ?_⟩
  obtain rfl | rfl := h.eq_creating_or_writing hfails
  · exact Step.ne_of_mem_before hb rfl
  · exact absurd hb (by decide)

theorem Writes.failsFirst_writing {text : String} (h : w.Writes readJson s text)
    (hf : ∀ file ∈ s.output, w.creatable file = true) (hr : ¬ w.HasRoom s.output text.toUTF8) :
    w.FailsFirst readJson s .writing .outputNotWritable := by
  refine ⟨.writing h hr, fun earlier hb f hfails => ?_⟩
  obtain rfl | rfl := h.eq_creating_or_writing hfails
  · cases hfails with
    | creating ho hfile => cases hfile.symm.trans (hf _ ho)
  · exact Step.ne_of_mem_before hb rfl

theorem comes_render {source : String} {t : Template} (hs : w.Reads s source)
    (hc : (Template.compile s.strict source).outcome = .ok t) (hd : s.dump = false) :
    w.Comes readJson s (s.render readJson t).outcome := by
  rw [Settings.outcome_render]
  obtain ⟨context, hx, hf⟩ | ⟨hfails, hf⟩ | ⟨hp, hfails, hf⟩ := exists_supplies w hd
  · rw [hf]
    cases hr : (t.render context).outcome with
    | ok text =>
      change w.Comes readJson s ((t.render context).outcome.mapError .template)
      rw [hr]
      exact .writes (.render hs hc hd hx hr)
    | error d =>
      change w.Comes readJson s ((t.render context).outcome.mapError .template)
      rw [hr]
      exact .fails (failsFirst_rendering hs hc hd hx hr) nofun
  · rw [hf]
    refine .fails ⟨hfails, fun earlier he => ?_⟩ nofun
    cases earlier with
    | reading => exact hs.not_reading
    | compiling => exact hs.not_compiling hc
    | _ => exact absurd he (by decide)
  · rw [hf]
    refine .fails ⟨hfails, fun earlier he => ?_⟩ nofun
    cases earlier with
    | reading => exact hs.not_reading
    | compiling => exact hs.not_compiling hc
    | parsing => exact hp
    | _ => exact absurd he (by decide)

theorem comes_text (readJson : String → Option Json) (w : World) (s : Settings) :
    w.Comes readJson s (s.text readJson w.input).outcome := by
  rw [Settings.outcome_text]
  obtain ⟨source, hs, hsource⟩ | ⟨hfails, hsource⟩ := exists_reads readJson w s
  · rw [hsource]
    change w.Comes readJson s ((Template.compile s.strict source).outcome.mapError .template >>= _)
    cases hc : (Template.compile s.strict source).outcome with
    | error d =>
      refine .fails ⟨.compiling hs hc, fun earlier he => ?_⟩ nofun
      cases earlier with
      | reading => exact hs.not_reading
      | _ => exact absurd he (by decide)
    | ok t =>
      change w.Comes readJson s (if s.dump then .ok (dumpAll 0 t.commands) else (s.render readJson t).outcome)
      cases hd : s.dump with
      | true => exact .writes (.dump hs hc hd)
      | false => exact comes_render hs hc hd
  · rw [hsource]
    exact .fails ⟨hfails, fun earlier he => absurd he (by revert he; cases earlier <;> decide)⟩ nofun

/-- The world with bytes in a file, or at the end of the output if no file is named. -/
def written (w : World) (place : Option String) (bytes : ByteArray) : World :=
  match place with
  | none => { w with output := w.output ++ bytes }
  | some file => w.fill (some file) bytes

section

variable {place : Option String} {bytes : ByteArray}

theorem held_fill (w : World) (place : Option String) (bytes : ByteArray) :
    (w.fill place bytes).held place = bytes := by
  cases place with
  | none => rfl
  | some file => exact congrArg (Option.getD · ByteArray.empty) (if_pos rfl)

theorem fill_fill (w : World) (place : Option String) (bytes bytes' : ByteArray) :
    (w.fill place bytes).fill place bytes' = w.fill place bytes' := by
  cases place with
  | none => rfl
  | some file =>
    simp only [fill]
    congr 1
    funext name
    split <;> rfl

def taking (w : World) (place : Option String) (bytes : ByteArray) : World :=
  w.fill place (w.held place ++ bytes.extract 0 (w.fitting place bytes))

theorem run_bind {α β : Type} (x : ExceptT Failure (StateM World) α)
    (f : α → ExceptT Failure (StateM World) β) (w : World) : (x >>= f).run.run w =
      match x.run.run w with
      | (.ok a, w) => (f a).run.run w
      | (.error failure, w) => (.error failure, w) := by
  rw [ExceptT.run_bind, StateT.run_bind]
  cases h : x.run.run w with
  | mk outcome w' => cases outcome <;> rfl

theorem run_send (w : World) (place : Option String) (bytes : ByteArray) :
    (host.send place bytes).run.run w =
      (if w.fitting place bytes = bytes.size then .ok () else .error .outputNotWritable,
        w.taking place bytes) := by
  have hw : (liftM (host.write place bytes) : ExceptT Failure (StateM World) Bool).run.run w =
      (.ok (decide (w.fitting place bytes = bytes.size)), w.taking place bytes) := rfl
  rw [Host.send, run_bind, hw]
  by_cases h : w.fitting place bytes = bytes.size
  · rw [if_pos h, decide_eq_true h]
    rfl
  · rw [if_neg h, decide_eq_false h]
    rfl

theorem run_send_empty (w : World) (place : Option String) (bytes : ByteArray) :
    (host.send place .empty).run.run (w.taking place bytes) = (.ok (), w.taking place bytes) := by
  have hfits : (w.taking place bytes).fitting place .empty = ByteArray.empty.size := by
    rw [fitting]
    split
    · rfl
    · exact Nat.zero_min _
  have htaken : (w.taking place bytes).taking place .empty = w.taking place bytes := by
    rw [taking, hfits, taking, held_fill, fill_fill]
    exact congrArg (w.fill place) ByteArray.append_empty
  rw [run_send, if_pos hfits, htaken]

/-- Whether bytes are held back or not makes no difference once they are flushed. -/
theorem run_put_flush (w : World) (place : Option String) (buffered : Bool) (bytes : ByteArray) :
    (host.put { handle := place, buffered } bytes >>= host.flush).run.run w =
      (host.send place bytes).run.run w := by
  have hnone : ByteArray.empty ++ bytes = bytes := ByteArray.empty_append
  rw [Host.put]
  simp only [hnone]
  split
  · rfl
  · rw [bind_assoc, run_bind]
    have hs := run_send w place bytes
    split at hs
    · rw [hs]
      exact run_send_empty w place bytes
    · rw [hs]

def opened (w : World) (place : Option String) : World :=
  match place with
  | none => w
  | some file => w.fill (some file) .empty

theorem run_create (w : World) (file : String) :
    (liftM (host.create? file) : ExceptT Failure (StateM World) (Option (Option String))).run.run w =
      if w.creatable file then (.ok (some (some file)), w.opened (some file)) else (.ok none, w) := by
  have hc : (host.create? file).run w =
      (if w.creatable file then do
        modify (World.fill · (some file) .empty)
        return some (some file)
      else return none : StateM World (Option (Option String))).run w := rfl
  rw [ExceptT.run_liftM, StateT.run_map]
  rw [hc]
  cases w.creatable file <;> rfl

theorem run_emit (w : World) (s : Settings) (text : String) : (host.emit s text).run.run w =
    if ∀ file ∈ s.output, w.creatable file = true then
      (host.send s.output text.toUTF8).run.run (w.opened s.output)
    else (.error .outputNotCreatable, w) := by
  have hemit : host.emit s text =
      host.writer s >>= fun writer => host.put writer text.toUTF8 >>= host.flush := rfl
  rw [hemit, run_bind]
  cases ho : s.output with
  | none =>
    have hw : (host.writer s).run.run w = (.ok { handle := none, buffered := !s.unbuffered }, w) := by
      rw [Host.writer, ho]
      rfl
    rw [hw, if_pos (by simp)]
    exact run_put_flush w none _ _
  | some file =>
    cases hf : w.creatable file with
    | true =>
      have hw : (host.writer s).run.run w =
          (.ok { handle := some file, buffered := true }, w.fill (some file) .empty) := by
        simp only [Host.writer, ho]
        rw [run_bind, run_create, if_pos hf]
        rfl
      rw [hw, if_pos (by simpa using hf)]
      exact run_put_flush _ (some file) _ _
    | false =>
      have hw : (host.writer s).run.run w = (.error .outputNotCreatable, w) := by
        simp only [Host.writer, ho]
        rw [run_bind, run_create, hf, if_neg Bool.false_ne_true]
        rfl
      rw [hw, if_neg (by simp [hf])]

end

theorem size_held_opened (w : World) (place : Option String) :
    ((w.opened place).held place).size = if place = none then w.output.size else 0 := by
  cases place with
  | none => rfl
  | some file =>
    rw [opened, held_fill]
    rfl

theorem fitting_opened_iff {place : Option String} {bytes : ByteArray} :
    (w.opened place).fitting place bytes = bytes.size ↔ w.HasRoom place bytes := by
  have hlimit : (w.opened place).limit = w.limit := by
    cases place <;> rfl
  rw [fitting, size_held_opened, hlimit, HasRoom]
  cases w.limit place with
  | none => simp
  | some n =>
    change min _ _ = _ ↔ ∀ m, some n = some m → _
    rw [min_eq_left_iff]
    exact ⟨fun h m hm => Option.some.inj hm ▸ h, fun h => h n rfl⟩

theorem taking_opened (w : World) (place : Option String) (bytes : ByteArray) :
    (w.opened place).taking place bytes =
      w.written place (bytes.extract 0 ((w.opened place).fitting place bytes)) := by
  cases place with
  | none => rfl
  | some file =>
    rw [taking, opened, held_fill, fill_fill, written]
    exact congrArg (w.fill (some file)) ByteArray.empty_append

/-- A file is emptied before it is written to. Only what finds room is written. -/
theorem emit_cases (w : World) (s : Settings) (text : String) :
    (∀ file ∈ s.output, w.creatable file = true) ∧ w.HasRoom s.output text.toUTF8 ∧
        (host.emit s text).run.run w = (.ok (), w.written s.output text.toUTF8) ∨
      (∃ file, s.output = some file ∧ w.creatable file = false) ∧
        (host.emit s text).run.run w = (.error .outputNotCreatable, w) ∨
      (∀ file ∈ s.output, w.creatable file = true) ∧ ¬ w.HasRoom s.output text.toUTF8 ∧
        ∃ n < text.toUTF8.size, (host.emit s text).run.run w =
          (.error .outputNotWritable, w.written s.output (text.toUTF8.extract 0 n)) := by
  rw [run_emit]
  by_cases hf : ∀ file ∈ s.output, w.creatable file = true
  · rw [if_pos hf, run_send, taking_opened]
    by_cases hr : w.HasRoom s.output text.toUTF8
    · have hfits := fitting_opened_iff.2 hr
      rw [if_pos hfits, hfits, ByteArray.extract_zero_size]
      exact .inl ⟨hf, hr, rfl⟩
    · have hfits := fun h => hr (fitting_opened_iff.1 h)
      rw [if_neg hfits]
      refine .inr (.inr ⟨hf, hr, _, lt_of_le_of_ne ?_ hfits, rfl⟩)
      rw [fitting]
      split
      · exact le_rfl
      · exact min_le_left _ _
  · rw [if_neg hf]
    obtain ⟨file, hf⟩ := not_forall.1 hf
    obtain ⟨ho, hf⟩ := Classical.not_imp.1 hf
    exact .inr (.inl ⟨⟨file, ho, by simpa using hf⟩, rfl⟩)

theorem run_eq (readJson : String → Option Json) (w : World) (s : Settings) : w.run readJson s =
    match (s.text readJson w.input).outcome with
    | .error failure => (⟨(s.text readJson w.input).log, .error failure⟩, w)
    | .ok output => (⟨(s.text readJson w.input).log, ((host.emit s output).run.run w).1⟩,
        ((host.emit s output).run.run w).2) := by
  have hwrite (text : Traced Failure String) : (match text.outcome with
      | .error failure => return ⟨text.log, .error failure⟩
      | .ok output => return ⟨text.log, ← host.emit s output⟩ : StateM World (Traced Failure Unit)).run w =
        match text.outcome with
        | .error failure => (⟨text.log, .error failure⟩, w)
        | .ok output =>
          (⟨text.log, ((host.emit s output).run.run w).1⟩, ((host.emit s output).run.run w).2) := by
    cases text.outcome <;> rfl
  refine Eq.trans ?_ (hwrite (s.text readJson w.input))
  rw [run, Host.run]
  cases ht : s.template with
  | none => rfl
  | some source =>
    have hinput : s.text readJson w.input = s.text readJson none := by
      simp only [Settings.text, Settings.source, ht]
    rw [hinput]
    rfl

theorem run_cases (readJson : String → Option Json) (w : World) (s : Settings) :
    (∃ text, w.Writes readJson s text ∧ (∀ file ∈ s.output, w.creatable file = true) ∧
      w.HasRoom s.output text.toUTF8 ∧ (w.run readJson s).1.outcome = .ok () ∧
      (w.run readJson s).2 = w.written s.output text.toUTF8) ∨
    (∃ step failure, w.FailsFirst readJson s step failure ∧ failure ≠ .outputNotWritable ∧
      (w.run readJson s).1.outcome = .error failure ∧ (w.run readJson s).2 = w) ∨
    ∃ text n, w.Writes readJson s text ∧ w.FailsFirst readJson s .writing .outputNotWritable ∧
      n < text.toUTF8.size ∧ (w.run readJson s).1.outcome = .error .outputNotWritable ∧
      (w.run readJson s).2 = w.written s.output (text.toUTF8.extract 0 n) := by
  have hcomes := comes_text readJson w s
  rw [run_eq]
  cases ho : (s.text readJson w.input).outcome with
  | error failure =>
    rw [ho] at hcomes
    cases hcomes with
    | fails h hs => exact .inr (.inl ⟨_, failure, h, h.1.ne_outputNotWritable hs, rfl, rfl⟩)
  | ok text =>
    rw [ho] at hcomes
    cases hcomes with
    | writes h =>
      dsimp only
      obtain ⟨hf, hr, he⟩ | ⟨⟨file, hout, hf⟩, he⟩ | ⟨hf, hr, n, hn, he⟩ := emit_cases w s text
      · rw [he]
        exact .inl ⟨text, h, hf, hr, rfl, rfl⟩
      · rw [he]
        exact .inr (.inl ⟨.creating, _, h.failsFirst_creating hout hf, nofun, rfl, rfl⟩)
      · rw [he]
        exact .inr (.inr ⟨text, n, h, h.failsFirst_writing hf hr, hn, rfl, rfl⟩)

theorem Writes.not_failsFirst {text : String} (h : w.Writes readJson s text)
    (hf : ∀ file ∈ s.output, w.creatable file = true) (hr : w.HasRoom s.output text.toUTF8) {step : Step}
    {failure : Failure} : ¬ w.FailsFirst readJson s step failure := by
  rintro ⟨hfails, -⟩
  obtain rfl | rfl := h.eq_creating_or_writing hfails
  · cases hfails with
    | creating ho hc => cases hc.symm.trans (hf _ ho)
  · cases hfails with
    | writing h' hr' =>
      obtain rfl := h.unique h'
      exact hr' hr

/-- A run succeeds just where each of its steps does, and then it has written the compiled template or
what that renders to, to the output or to a file that held something else or nothing. Where it fails
before it writes it leaves everything as it was. Where writing fails the first bytes are written, and a
file has lost what it held. What a run reports is the first step that fails. Where the template is only
listed the context makes no difference, and buffering makes none at all. -/
theorem run_outcome (readJson : String → Option Json) (w : World) (s : Settings) :
    ((w.run readJson s).1.outcome = .ok () ↔ ∃ text, w.Writes readJson s text ∧
      (∀ file ∈ s.output, w.creatable file = true) ∧ w.HasRoom s.output text.toUTF8) ∧
    (∀ text, (w.run readJson s).1.outcome = .ok () → w.Writes readJson s text →
      (w.run readJson s).2 = w.written s.output text.toUTF8) ∧
    (∀ failure, (w.run readJson s).1.outcome = .error failure → failure ≠ .outputNotWritable →
      (w.run readJson s).2 = w) ∧
    ((w.run readJson s).1.outcome = .error .outputNotWritable → ∃ text n, w.Writes readJson s text ∧
      n < text.toUTF8.size ∧ (w.run readJson s).2 = w.written s.output (text.toUTF8.extract 0 n)) ∧
    (∀ failure, (w.run readJson s).1.outcome = .error failure ↔
      ∃ step, w.FailsFirst readJson s step failure) ∧
    (s.dump = true → ∀ context arguments,
      w.run readJson { s with context, arguments } = w.run readJson s) ∧
    ∀ unbuffered, w.run readJson { s with unbuffered } = w.run readJson s := by
  -- Each part is read off the three ways that a run can go.
  have hcases := run_cases readJson w s
  refine ⟨⟨fun h => ?_, ?_⟩, fun text h hw => ?_, fun failure h hne => ?_, fun h => ?_,
    fun failure => ⟨fun h => ?_, ?_⟩, fun hd context arguments => ?_, fun unbuffered => ?_⟩
  · obtain ⟨text, hw, hf, hr, -⟩ | ⟨step, failure, -, -, he, -⟩ | ⟨text, n, -, -, -, he, -⟩ := hcases
    · exact ⟨text, hw, hf, hr⟩
    · cases h.symm.trans he
    · cases h.symm.trans he
  · rintro ⟨text, hw, hf, hr⟩
    obtain ⟨-, -, -, -, ho, -⟩ | ⟨step, failure, hfirst, -⟩ | ⟨text', n, -, hfirst, -⟩ := hcases
    · exact ho
    · exact absurd hfirst (hw.not_failsFirst hf hr)
    · exact absurd hfirst (hw.not_failsFirst hf hr)
  · obtain ⟨text', hw', -, -, -, hafter⟩ | ⟨step, failure, -, -, he, -⟩ | ⟨text', n, -, -, -, he, -⟩ := hcases
    · obtain rfl := hw.unique hw'
      exact hafter
    · cases h.symm.trans he
    · cases h.symm.trans he
  · obtain ⟨text, -, -, -, ho, -⟩ | ⟨step, failure, -, -, -, hw⟩ | ⟨text, n, -, -, -, he, -⟩ := hcases
    · cases h.symm.trans ho
    · exact hw
    · exact absurd (Except.error.inj (h.symm.trans he)) hne
  · obtain ⟨text, -, -, -, ho, -⟩ | ⟨step, failure, -, hne, he, -⟩ | ⟨text, n, hw, -, hn, -, hafter⟩ := hcases
    · cases h.symm.trans ho
    · exact absurd (Except.error.inj (he.symm.trans h)) hne
    · exact ⟨text, n, hw, hn, hafter⟩
  · obtain ⟨text, -, -, -, ho, -⟩ | ⟨step, failure', hfirst, -, he, -⟩ | ⟨text, n, -, hfirst, -, he, -⟩ := hcases
    · cases h.symm.trans ho
    · obtain rfl := Except.error.inj (h.symm.trans he)
      exact ⟨step, hfirst⟩
    · obtain rfl := Except.error.inj (h.symm.trans he)
      exact ⟨.writing, hfirst⟩
  · rintro ⟨step, hfirst⟩
    obtain ⟨text, hw, hf, hr, -⟩ | ⟨step', failure', hfirst', -, he, -⟩ | ⟨text, n, -, hfirst', -, he, -⟩ := hcases
    · exact absurd hfirst (hw.not_failsFirst hf hr)
    · rw [hfirst.unique hfirst', he]
    · rw [hfirst.unique hfirst', he]
  · have ht : ({ s with context, arguments } : Settings).text readJson w.input = s.text readJson w.input := by
      simp only [Settings.text, hd, if_true]
      rfl
    rw [run_eq, run_eq, ht]
    rfl
  · have ht : ({ s with unbuffered } : Settings).text readJson w.input = s.text readJson w.input := rfl
    simp only [run_eq, ht, run_emit]

theorem run_outcome_page :
    let w : World := { files := fun _ => some "old".toUTF8 }
    let full : World := { w with limit := fun _ => some 3 }
    let s : Settings :=
      { template := some "Hi {{a}}!", context := some "\x7b\"a\":\"x\"\x7d", output := some "page" }
    (w.run Json.read? s).2.files "page" = some "Hi x!".toUTF8 ∧
      (w.run Json.read? { s with context := none }).2 = w ∧
      ∃ n < 5, (full.run Json.read? s).2.files "page" = some ("Hi x!".toUTF8.extract 0 n) := by
  intro w full s
  have hc : (Template.compile false "Hi {{a}}!").outcome =
      .ok ⟨"Hi {{a}}!", [.literal "Hi ", .substitution "a" ⟨⟨1, 6⟩, ⟨1, 7⟩⟩, .literal "!"], false⟩ := by
    cbv
  have hj : Json.read? "\x7b\"a\":\"x\"\x7d" = some (.object [("a", .string "x")]) := by
    cbv
  have hwrites : ∀ w : World, w.Writes Json.read? s "Hi x!" := by
    intro w
    refine .render (.template rfl) hc rfl (.layered rfl hj rfl) ?_
    unfold s
    cbv
  have hroom : w.HasRoom s.output "Hi x!".toUTF8 := fun n h => absurd h (Option.not_mem_none n)
  have hfull : ¬ full.HasRoom s.output "Hi x!".toUTF8 := fun h => absurd (h 3 rfl) (by decide)
  have hunbound : w.FailsFirst Json.read? { s with context := none } .rendering
      (.template (.place "Hi {{a}}!" ⟨⟨⟨1, 6⟩, ⟨1, 7⟩⟩, .undefined "a"⟩)) := by
    refine failsFirst_rendering (.template rfl) hc rfl (.own rfl) ?_
    unfold s
    cbv
  have hok := (run_outcome Json.read? w s).1.2 ⟨_, hwrites w, fun _ _ => rfl, hroom⟩
  have herror := ((run_outcome Json.read? w _).2.2.2.2.1 _).2 ⟨_, hunbound⟩
  have hlost := ((run_outcome Json.read? full s).2.2.2.2.1 _).2
    ⟨_, (hwrites full).failsFirst_writing (fun _ _ => rfl) hfull⟩
  refine ⟨?_, (run_outcome Json.read? w _).2.2.1 _ herror Failure.noConfusion, ?_⟩
  · rw [(run_outcome Json.read? w s).2.1 _ hok (hwrites w)]
    rfl
  · obtain ⟨text, n, htext, hn, hafter⟩ := (run_outcome Json.read? full s).2.2.2.1 hlost
    obtain rfl := (hwrites full).unique htext
    refine ⟨n, hn, ?_⟩
    rw [hafter]
    rfl

/-- A file can be created that takes no bytes, and what it held is gone. -/
theorem run_loses_file :
    let w : World := { files := fun _ => some "old".toUTF8, limit := fun _ => some 0 }
    let s : Settings := { template := some "x", output := some "page" }
    w.Writes Json.read? s "x" ∧ (∀ file ∈ s.output, w.creatable file = true) ∧
      (w.run Json.read? s).1.outcome ≠ .ok () ∧ (w.run Json.read? s).2.files "page" ≠ w.files "page" := by
  intro w s
  have hc : (Template.compile false "x").outcome = .ok ⟨"x", [.literal "x"], false⟩ := by
    cbv
  have hwrites : w.Writes Json.read? s "x" := by
    refine .render (.template rfl) hc rfl (.own rfl) ?_
    unfold s
    cbv
  have hfull : ¬ w.HasRoom s.output "x".toUTF8 := fun h => absurd (h 0 rfl) (by decide)
  refine ⟨hwrites, fun _ _ => rfl, ?_⟩
  obtain ⟨text, htext, -, hroom, -⟩ | ⟨step, failure, hfirst, hne, -⟩ |
    ⟨text, n, htext, -, hn, he, hafter⟩ := run_cases Json.read? w s
  · exact absurd (hwrites.unique htext ▸ hroom) hfull
  · have := hfirst.unique (hwrites.failsFirst_writing (fun _ _ => rfl) hfull)
    exact absurd this hne
  · obtain rfl := hwrites.unique htext
    -- Fewer than the one byte of the text is none.
    obtain rfl : n = 0 := Nat.lt_one_iff.1 hn
    rw [he, hafter]
    refine ⟨by simp, ?_⟩
    unfold w
    decide

end World

end TextTemplate.CommandLine
