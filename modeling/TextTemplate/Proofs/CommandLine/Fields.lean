import TextTemplate.Proofs.CommandLine.Run
import TextTemplate.Proofs.Json.Path
import TextTemplate.Proofs.Rendering.Lookup
import Mathlib

namespace TextTemplate

theorem lookup_reverse_eq_getLast? {β : Type} (entries : List (String × β)) (x : String) :
    entries.reverse.lookup x = ((entries.filter (·.1 = x)).map Prod.snd).getLast? := by
  induction entries using List.reverseRecOn with
  | nil => rfl
  | append_singleton entries entry ih =>
    obtain ⟨y, v⟩ := entry
    rw [List.reverse_append, List.filter_append, List.map_append]
    by_cases hy : y = x
    · subst hy
      simp
    · have hxy : (x == y) = false := beq_eq_false_iff_ne.2 (Ne.symm hy)
      simpa [List.lookup_cons, hxy, hy] using ih

namespace CommandLine

def flat (pairs : List (String × String)) : List String := pairs.flatMap fun (name, value) => [name, value]

/-- By twos the names and values come together again. A name at the end without a value is dropped. -/
theorem filterMap_pair?_byTwos (pairs : List (String × String)) {further : List String}
    (h : further.length < 2) : (byTwos (flat pairs ++ further)).filterMap pair? = pairs := by
  induction pairs with
  | nil =>
    match further with
    | [] => rfl
    | [_] => rfl
  | cons pair pairs ih => exact congrArg (pair :: ·) ih

namespace Settings

variable {readJson : String → Option Json} {s s' : Settings} {context : Context}

theorem pairs_eq {pairs : List (String × String)} {further : List String} (h : further.length < 2)
    (hs : s.arguments = some (flat pairs ++ further)) : s.pairs = pairs := by
  rw [Settings.pairs, hs]
  exact filterMap_pair?_byTwos pairs h

def values (s : Settings) (name : String) : List String :=
  (s.pairs.filter (·.1 = name)).map Prod.snd

/-- What a name stands for: the last of its values on the command line, or else what the JSON object has
at the end of the path that it spells. -/
inductive Provides (readJson : String → Option Json) (s : Settings) (name : String) : Value → Prop
  | argument {value} (hv : (s.values name).getLast? = some value) : Provides readJson s name (.string value)
  | field {text j j' v} (hv : s.values name = []) (hc : s.context = some text)
    (hj : readJson text = some j) (hw : j.Walks name.toList j') (hj' : Value.ofJson? j' = some v) :
    Provides readJson s name v

theorem fields_eq_ok_iff : s.fields readJson = .ok context ↔ s.Supplies readJson context := by
  constructor
  · intro h
    cases hc : s.context with
    | none =>
      rw [fields, hc] at h
      cases h
      exact .own hc
    | some text =>
      cases hj : readJson text with
      | none => simp [fields, hc, hj] at h
      | some j =>
        cases ho : j.isObject with
        | false => simp [fields, hc, hj, ho] at h
        | true =>
          have he : s.fields readJson = .ok (s.ownFields.orElse (.ofJson j)) := by
            simp [fields, hc, hj, ho, ownFields]
          obtain rfl := Except.ok.inj (he.symm.trans h)
          exact .layered hc hj ho
  · intro h
    cases h with
    | own hc =>
      rw [fields, hc]
      rfl
    | layered hc hj ho => simp [fields, hc, hj, ho, ownFields]

theorem get_ownFields (s : Settings) (name : String) :
    s.ownFields.get name = (s.values name).getLast?.map Value.string := by
  have hv : ((s.pairs.map fun pair => (pair.1, Value.string pair.2)).filter (·.1 = name)).map Prod.snd =
      (s.values name).map Value.string := by
    rw [List.filter_map, List.map_map, values, List.map_map]
    rfl
  change (s.pairs.map fun pair => (pair.1, Value.string pair.2)).reverse.lookup name = _
  rw [lookup_reverse_eq_getLast?, hv, List.getLast?_map]

theorem Supplies.get_eq_some_iff (h : s.Supplies readJson context) {name : String} {v : Value} :
    context.get name = some v ↔ s.Provides readJson name v := by
  cases h with
  | own hc =>
    rw [get_ownFields, Option.map_eq_some_iff]
    constructor
    · rintro ⟨value, hv, rfl⟩
      exact .argument hv
    · intro hp
      cases hp with
      | argument hv => exact ⟨_, hv, rfl⟩
      | field _ hc' => cases hc.symm.trans hc'
  | @layered text j hc hj ho =>
    change (s.ownFields.get name).or ((j.path? name.toList).bind Value.ofJson?) = some v ↔ _
    rw [Option.or_eq_some_iff, get_ownFields, Option.map_eq_some_iff, Option.map_eq_none_iff,
      List.getLast?_eq_none_iff, Option.bind_eq_some_iff]
    constructor
    · rintro (⟨value, hv, rfl⟩ | ⟨hv, j', hw, hj'⟩)
      · exact .argument hv
      · exact .field hv hc hj (Json.path?_eq_some_iff.1 hw) hj'
    · intro hp
      cases hp with
      | argument hv => exact .inl ⟨_, hv, rfl⟩
      | field hv hc' hr hw hj' =>
        obtain rfl := Option.some.inj (hc.symm.trans hc')
        obtain rfl := Option.some.inj (hj.symm.trans hr)
        exact .inr ⟨hv, _, Json.path?_eq_some_iff.2 hw, hj'⟩

theorem Supplies.exists_of_values (h : s.Supplies readJson context) (hc : s'.context = s.context) :
    ∃ context', s'.Supplies readJson context' ∧ ∀ name, s'.values name = s.values name →
      context'.get name = context.get name := by
  have hown : ∀ name, s'.values name = s.values name → s'.ownFields.get name = s.ownFields.get name := by
    intro name hv
    rw [get_ownFields, get_ownFields, hv]
  cases h with
  | own hs => exact ⟨_, .own (hc.trans hs), hown⟩
  | @layered text j hs hj ho =>
    refine ⟨_, .layered (hc.trans hs) hj ho, fun name hv => ?_⟩
    exact congrArg (Option.or · ((Context.ofJson j).get name)) (hown name hv)

end Settings

/-- Names and values come in pairs however many there are, and one token left over is nothing. A context
comes about just where the text that is given for it is that of a JSON object. A name then stands for the
last of the values that the command line gives for it, or else for what is at the path in the object. So
it is only what is looked up as `x` that other values for `x` change, and a rendering that they change
looks `x` up somewhere where no loop has bound it. What order the names are given in is all the same. -/
theorem fields_layered (readJson : String → Option Json) (s : Settings) :
    ((s.arguments = none → s.pairs = []) ∧ ∀ pairs further, further.length < 2 →
      s.arguments = some (flat pairs ++ further) → s.pairs = pairs) ∧
    ((∃ context, s.fields readJson = .ok context) ↔ ∀ text ∈ s.context, ∃ j ∈ readJson text, j.isObject) ∧
    ∀ context, s.fields readJson = .ok context →
      (∀ name v, context.get name = some v ↔ s.Provides readJson name v) ∧
      ∀ s' : Settings, s'.context = s.context →
        (∀ x, (∀ name ≠ x, s'.values name = s.values name) → ∃ context', s'.fields readJson = .ok context' ∧
          (∀ name ≠ x, context'.get name = context.get name) ∧
          (∀ bound : Bindings, bound.resolve? x ≠ none → ∀ name,
            bound.find? context' name = bound.find? context name) ∧
          ∀ t : Template, t.render context' ≠ t.render context →
            ∃ a : Rendering.Point, a.Arises t.strict context t.commands ∧ a.Asks x) ∧
        ((∀ name, s'.values name = s.values name) → s'.fields readJson = .ok context) := by
  refine ⟨⟨fun h => ?_, fun pairs further hf hs => Settings.pairs_eq hf hs⟩, ⟨?_, ?_⟩, ?_⟩
  · rw [Settings.pairs, h]
    rfl
  · rintro ⟨context, h⟩ text ht
    cases Settings.fields_eq_ok_iff.1 h with
    | own hc => cases hc.symm.trans ht
    | layered hc hj ho =>
      obtain rfl := Option.some.inj (hc.symm.trans ht)
      exact ⟨_, hj, ho⟩
  · intro h
    cases hc : s.context with
    | none => exact ⟨_, Settings.fields_eq_ok_iff.2 (.own hc)⟩
    | some text =>
      obtain ⟨j, hj, ho⟩ := h text hc
      exact ⟨_, Settings.fields_eq_ok_iff.2 (.layered hc hj ho)⟩
  · intro context h
    have hs := Settings.fields_eq_ok_iff.1 h
    refine ⟨fun name v => hs.get_eq_some_iff, fun s' hc => ?_⟩
    obtain ⟨context', hs', hget⟩ := hs.exists_of_values hc
    refine ⟨fun x hx => ?_, fun hall => ?_⟩
    · have hothers : ∀ name ≠ x, context'.get name = context.get name := fun name hn => hget name (hx name hn)
      refine ⟨context', Settings.fields_eq_ok_iff.2 hs', hothers, fun bound hb name => ?_, fun t ht => ?_⟩
      · exact Rendering.Point.find?_congr hothers fun _ => hb
      · apply Rendering.exists_asks_of_render_ne fun name hn => (hothers name hn).symm
        intro hr
        apply ht
        rw [Template.render, Template.render, hr]
    · have he : context' = context := congrArg Context.mk (funext fun name => hget name (hall name))
      rw [Settings.fields_eq_ok_iff, ← he]
      exact hs'

theorem fields_layered_twice :
    let s : Settings := {
      context := some "\x7b\"a\":\x7b\"b\":1,\"d\":2\x7d\x7d"
      arguments := some ["a.b", "x", "c", "y", "a.b", "z", "e"] }
    s.pairs = [("a.b", "x"), ("c", "y"), ("a.b", "z")] ∧ ∃ context, s.fields Json.read? = .ok context ∧
      context.get "a.b" = some (.string "z") ∧ context.get "a.d" = some (.uint 2) := by
  intro s
  let inner : Json := .object [("b", .number (.nat 1)), ("d", .number (.nat 2))]
  have hj : Json.read? "\x7b\"a\":\x7b\"b\":1,\"d\":2\x7d\x7d" = some (.object [("a", inner)]) := by
    unfold inner
    cbv
  obtain ⟨⟨-, hpairs⟩, ⟨-, hfields⟩, hnames⟩ := fields_layered Json.read? s
  have hp : s.pairs = [("a.b", "x"), ("c", "y"), ("a.b", "z")] := hpairs _ ["e"] (by decide) rfl
  have hlast : (s.values "a.b").getLast? = some "z" := by
    rw [Settings.values, hp]
    rfl
  have hnone : s.values "a.d" = [] := by
    rw [Settings.values, hp]
    rfl
  obtain ⟨context, hc⟩ := hfields (by rintro _ ⟨⟩; exact ⟨_, hj, rfl⟩)
  obtain ⟨hget, -⟩ := hnames context hc
  have ha : (Json.object ([] ++ [("a", inner)])).Child "a".toList inner := .field (by decide)
  have hd : (Json.object ([("b", .number (.nat 1))] ++ [("d", .number (.nat 2))])).Child "d".toList
      (.number (.nat 2)) := .field (by decide)
  have hw : (Json.object [("a", inner)]).Walks ("a".toList ++ '.' :: "d".toList) (.number (.nat 2)) :=
    .step (by decide) ha (.last (by decide) hd)
  exact ⟨hp, context, hc, (hget _ _).2 (.argument hlast), (hget _ _).2 (.field hnone rfl hj hw rfl)⟩

end CommandLine

end TextTemplate
