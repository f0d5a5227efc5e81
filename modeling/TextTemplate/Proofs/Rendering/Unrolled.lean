import TextTemplate.Proofs.Command.Moved
import TextTemplate.Proofs.Json.Path
import TextTemplate.Proofs.Template.Directives
import TextTemplate.Proofs.Template.Outcome
import Mathlib

namespace TextTemplate

mutual

theorem Command.erase_eq_mapRanges : ∀ c : Command, c.erase = c.mapRanges fun _ => {}
  | .literal _ | .substitution _ _ => rfl
  | .forRange _ _ body | .forEach _ _ _ body _ => by
    rw [Command.erase, Command.mapRanges, eraseAll_eq_mapRangesAll body]

theorem eraseAll_eq_mapRangesAll : ∀ cs : List Command, eraseAll cs = mapRangesAll (fun _ => {}) cs
  | [] => rfl
  | c :: cs => by rw [eraseAll, mapRangesAll, c.erase_eq_mapRanges, eraseAll_eq_mapRangesAll cs]

end

section

variable {ε δ α : Type}

theorem toOption_eq_some_iff {x : Except ε α} {a : α} : x.toOption = some a ↔ x = .ok a := by
  cases x <;> simp [Except.toOption]

theorem toOption_mapError (f : ε → δ) (x : Except ε α) : (x.mapError f).toOption = x.toOption := by
  cases x <;> rfl

theorem toOption_joined (x y : Except Fault String) :
    (joined x y).toOption = x.toOption.bind fun a => y.toOption.map (a ++ ·) := by
  cases x <;> cases y <;> rfl

theorem toOption_concat_congr {xs ys : List (Except Fault String)}
    (h : xs.map Except.toOption = ys.map Except.toOption) : (concat xs).toOption = (concat ys).toOption := by
  induction xs generalizing ys with
  | nil =>
    obtain rfl := List.map_eq_nil_iff.1 h.symm
    rfl
  | cons x xs ih =>
    obtain ⟨y, ys, rfl, hy, hys⟩ := List.map_eq_cons_iff.1 h.symm
    calc (concat (x :: xs)).toOption
        = x.toOption.bind fun a => (concat xs).toOption.map (a ++ ·) := toOption_joined x (concat xs)
      _ = y.toOption.bind fun a => (concat ys).toOption.map (a ++ ·) := by rw [hy, ih hys.symm]
      _ = (concat (y :: ys)).toOption := (toOption_joined y (concat ys)).symm

end

section

variable (strict : Bool) (env : Env)

theorem meaningAll_eq_concat (cs : List Command) :
    meaningAll strict env cs = concat (cs.map (Command.meaning strict env)) := by
  induction cs with
  | nil => rfl
  | cons c cs ih =>
    rw [meaningAll_cons, ih]
    rfl

theorem meaningAll_singleton (c : Command) : meaningAll strict env [c] = c.meaning strict env := by
  rw [meaningAll_cons, meaningAll]
  cases c.meaning strict env with
  | error fault => rfl
  | ok text => exact congrArg Except.ok String.append_empty

theorem toOption_meaningAll_erase (cs : List Command) :
    (meaningAll strict env (eraseAll cs)).toOption = (meaningAll strict env cs).toOption := by
  rw [eraseAll_eq_mapRangesAll, meaningAll_mapRanges, toOption_mapError]

theorem toOption_meaning_substitution (name : String) (range : Range) :
    ((Command.substitution name range).meaning strict env).toOption = (env name).bind Value.text? := by
  rw [Command.meaning]
  cases env name with
  | none => rfl
  | some v => cases v <;> rfl

end

def looped (list item : String) : String :=
  braced ("for(" ++ list ++ ")|" ++ item ++ "|") ++ braced item ++ braced "end"

def unrolled (list : String) (count : Nat) : String :=
  String.join ((List.range count).map fun i => braced (elementName list i))

variable {list item : String}

theorem valid_elementName (h : (Token.Kind.name list).Valid) (i : Nat) :
    (Token.Kind.name (elementName list i)).Valid := by
  obtain ⟨⟨word, segments, hw, hs, he⟩, -⟩ := h
  have hother : ∀ x : String, '.' ∉ x.toList → elementName list i ≠ x := by
    rintro x hx rfl
    exact hx (by simp [toList_elementName])
  have hchars : WordChars i.repr.toList := by
    intro c hc
    simp [isNameChar, Char.isAlphanum, isDigit_of_mem_repr hc]
  refine ⟨⟨word, segments ++ [i.repr.toList], hw, ?_, ?_⟩, hother "for" (by decide),
    hother "end" (by decide)⟩
  · exact List.forall_mem_append.2 ⟨hs, List.forall_mem_singleton.2 ⟨repr_ne_nil i, hchars⟩⟩
  · rw [toList_elementName, he]
    simp

def substitutions (names : List String) : List Command := names.map (.substitution · {})

theorem marksAll_substitutions (names : List String) :
    marksAll (substitutions names) = names.map fun x => .leaf (.field x {}) := by
  induction names with
  | nil => rfl
  | cons x names ih =>
    rw [substitutions, List.map_cons, marksAll, ← substitutions, ih]
    rfl

theorem eraseAll_substitutions (names : List String) :
    eraseAll (substitutions names) = substitutions names := by
  induction names with
  | nil => rfl
  | cons x names ih =>
    rw [substitutions, List.map_cons, eraseAll, ← substitutions, ih]
    rfl

theorem exists_compile_looped (hl : (Token.Kind.name list).Valid) (hi : Binder item) :
    ∃ tree, eraseAll tree = [.forEach list item none (substitutions [item]) {}] ∧
      ∀ strict, (compile strict (looped list item)).outcome = .ok tree := by
  let header := "for(" ++ list ++ ")|" ++ item ++ "|"
  let rows : List (String × Directive.Kind) :=
    [(header, .forList list item []), (item, .field item), ("end", .endLoop)]
  have hw : ∀ r ∈ rows, Writes r.1 r.2 := by
    refine List.forall_mem_cons.2 ⟨writes_forList hl hi, ?_⟩
    exact List.forall_mem_cons.2 ⟨writes_field hi.valid, List.forall_mem_singleton.2 writes_end⟩
  have hm : (rows.map fun r => r.2.mark) =
      (marksAll [.forEach list item none (substitutions [item]) {}]).map Mark.erase := rfl
  obtain ⟨tree, he, hc⟩ := exists_compile_of_writes hw hm
  have ht : String.join (rows.map fun r => braced r.1) = looped list item := by
    simp [rows, header, looped, String.join_cons, String.append_assoc]
  rw [ht] at hc
  exact ⟨tree, he, hc⟩

theorem exists_compile_unrolled (hl : (Token.Kind.name list).Valid) (count : Nat) :
    ∃ tree, eraseAll tree = substitutions ((List.range count).map (elementName list)) ∧
      ∀ strict, (compile strict (unrolled list count)).outcome = .ok tree := by
  let names := (List.range count).map (elementName list)
  let rows : List (String × Directive.Kind) := names.map fun x => (x, .field x)
  have hw : ∀ r ∈ rows, Writes r.1 r.2 := by
    intro r hr
    obtain ⟨x, hx, rfl⟩ := List.mem_map.1 hr
    obtain ⟨i, -, rfl⟩ := List.mem_map.1 hx
    exact writes_field (valid_elementName hl i)
  have hm : (rows.map fun r => r.2.mark) = (marksAll (substitutions names)).map Mark.erase := by
    simp only [rows, marksAll_substitutions, List.map_map]
    rfl
  obtain ⟨tree, he, hc⟩ := exists_compile_of_writes hw hm
  have ht : String.join (rows.map fun r => braced r.1) = unrolled list count := by
    rw [List.map_map, List.map_map]
    rfl
  rw [ht] at hc
  rw [eraseAll_substitutions] at he
  exact ⟨tree, he, hc⟩

section

variable (strict : Bool) {env : Env}

theorem meaningAll_substitutions (names : List String) :
    meaningAll strict env (substitutions names) =
      concat (names.map fun x => (Command.substitution x {}).meaning strict env) := by
  rw [meaningAll_eq_concat, substitutions, List.map_map]
  rfl

theorem toOption_looped (item : String) {vs : List Value} (hvs : env list = some (.sequence vs))
    (h : ∀ i v, vs[i]? = some v → (env (elementName list i)).bind Value.text? = v.text?) :
    (meaningAll strict env [.forEach list item none (substitutions [item]) {}]).toOption =
      (meaningAll strict env (substitutions ((List.range vs.length).map (elementName list)))).toOption := by
  have hloop : meaningAll strict env [.forEach list item none (substitutions [item]) {}] =
      concat (vs.zipIdx.map fun p =>
        (Command.substitution item {}).meaning strict (env.bind item p.1)) := by
    rw [meaningAll_singleton, Command.meaning, hvs]
    dsimp only
    congr 2
    funext p
    exact meaningAll_singleton strict _ _
  rw [hloop, meaningAll_substitutions, List.map_map]
  apply toOption_concat_congr
  rw [List.map_map, List.map_map]
  refine List.ext_getElem (by simp) fun i hi hi' => ?_
  have hlen : i < vs.length := by simpa using hi
  have hitem : env.bind item vs[i] item = some vs[i] := Function.update_self ..
  simp only [List.getElem_map, List.getElem_zipIdx, List.getElem_range, Function.comp_apply,
    toOption_meaning_substitution, hitem, h i vs[i] (List.getElem?_eq_getElem hlen)]
  rfl

end

/-- A loop over a list may be unrolled where the names of its elements give the texts that the elements
have in the list, and no text for those without one. -/
theorem exists_render_looped_iff {context : Context} {vs : List Value} (hl : (Token.Kind.name list).Valid)
    (hi : Binder item) (hvs : context.get list = some (.sequence vs))
    (h : ∀ i v, vs[i]? = some v → (context.get (elementName list i)).bind Value.text? = v.text?)
    (strict : Bool) : ∃ loop row, (Template.compile strict (looped list item)).outcome = .ok loop ∧
      (Template.compile strict (unrolled list vs.length)).outcome = .ok row ∧
      ∀ text, (loop.render context).outcome = .ok text ↔ (row.render context).outcome = .ok text := by
  obtain ⟨loop, heloop, hloop⟩ := exists_compile_looped hl hi
  obtain ⟨row, herow, hrow⟩ := exists_compile_unrolled hl vs.length
  refine ⟨_, _, Template.compile_of_ok (hloop strict), Template.compile_of_ok (hrow strict), fun text => ?_⟩
  have ho := toOption_looped strict item hvs h
  rw [← heloop, ← herow, toOption_meaningAll_erase, toOption_meaningAll_erase] at ho
  simp only [Template.outcome_render, ← toOption_eq_some_iff, toOption_mapError, ho]

/-- An array can be run over and its elements can be named, and both lead to the same values: only of a
null there is none by itself. Printing all elements in a loop or one by one therefore is the same. The
length of an array is a machine word, and so are the indices in paths. -/
theorem indexing_agrees_with_iteration {j : Json} {p : String} {a : List Json}
    (hp : j.path? p.toList = some (.array a)) (ha : a.length ≤ UInt64.size) :
    ∃ vs, (Context.ofJson j).get p = some (.sequence vs) ∧ vs.length = a.length ∧
      (∀ i (hi : i < a.length),
        (a[i] ≠ .null → ∃ v, vs[i]? = some v ∧ (Context.ofJson j).get (elementName p i) = some v) ∧
        (a[i] = .null → vs[i]? = some (.unsupported "null") ∧
          (Context.ofJson j).get (elementName p i) = none)) ∧
      (∀ i, a.length ≤ i → (Context.ofJson j).get (elementName p i) = none) ∧
      ((Token.Kind.name p).Valid → ∀ item, Binder item → ∀ strict, ∃ loop row,
        (Template.compile strict (looped p item)).outcome = .ok loop ∧
        (Template.compile strict (unrolled p a.length)).outcome = .ok row ∧
        ∀ text, (loop.render (.ofJson j)).outcome = .ok text ↔
          (row.render (.ofJson j)).outcome = .ok text) := by
  have hlen : (Value.ofElements a).length = a.length := by rw [Value.ofElements_eq_map, List.length_map]
  have hvs := Value.getElem?_ofElements a
  have helement := Context.get_ofJson_element hp ha
  refine ⟨Value.ofElements a, Context.get_ofJson_array hp, hlen, fun i hi => ⟨fun hne => ?_, fun hnull => ?_⟩,
    fun i hi => ?_, fun hname item hitem strict => ?_⟩
  · obtain ⟨v, hv⟩ := Option.ne_none_iff_exists'.1 (mt Value.ofJson?_eq_none_iff.1 hne)
    refine ⟨v, ?_, ?_⟩
    · simp [hvs, hi, hv]
    · simp [helement, hi, hv]
  · have hnone := Value.ofJson?_eq_none_iff.2 hnull
    simp [hvs, helement, hi, hnone]
  · rw [helement, List.getElem?_eq_none hi]
    rfl
  · rw [← hlen]
    refine exists_render_looped_iff hname hitem (Context.get_ofJson_array hp) (fun i v hv => ?_) strict
    rw [hvs] at hv
    obtain ⟨e, he, rfl⟩ := Option.map_eq_some_iff.1 hv
    -- Neither null, as an element, nor nothing has a text.
    rw [helement, he, Option.bind_some]
    cases Value.ofJson? e <;> rfl

theorem indexing_agrees_with_iteration_nested :
    let a : List Json := [.string "p", .number (.nat 4)]
    let b : List Json := [.bool true, .null]
    let j : Json := .object [("rows", .array [.array a, .array b])]
    j.path? "rows.0".toList = some (.array a) ∧ j.path? "rows.1".toList = some (.array b) ∧
      (∃ v, (Context.ofJson j).get "rows.0.1" = some v) ∧ (Context.ofJson j).get "rows.1.1" = none ∧
      ∃ row, (Template.compile true (unrolled "rows.0" 2)).outcome = .ok row ∧
        (row.render (.ofJson j)).outcome = .ok "p4" := by
  intro a b j
  have ha : j.path? "rows.0".toList = some (.array a) := by
    unfold j a b
    cbv
  have hb : j.path? "rows.1".toList = some (.array b) := by
    unfold j a b
    cbv
  have hx : Binder "x" := ⟨⟨'x', [], rfl, rfl, List.forall_mem_nil _⟩, by decide, by decide⟩
  have hrows : Binder "rows" :=
    ⟨⟨'r', ['o', 'w', 's'], rfl, rfl, fun c => List.all_eq_true.1 rfl c⟩, by decide, by decide⟩
  obtain ⟨vs, -, -, hget, -, hprint⟩ := indexing_agrees_with_iteration ha (by decide)
  obtain ⟨ws, -, -, hget', -, -⟩ := indexing_agrees_with_iteration hb (by decide)
  obtain ⟨v, -, hv⟩ := (hget 1 (by decide)).1 (by intro h; cases h)
  refine ⟨ha, hb, ⟨v, hv⟩, ((hget' 1 (by decide)).2 rfl).2, ?_⟩
  obtain ⟨loop, row, hl, hr, h⟩ := hprint (valid_elementName hrows.valid 0) "x" hx true
  have hloop : (Template.compile true (looped "rows.0" "x")).outcome = .ok ⟨looped "rows.0" "x",
      [.forEach "rows.0" "x" none [.substitution "x" ⟨⟨1, 21⟩, ⟨1, 22⟩⟩] ⟨⟨1, 3⟩, ⟨1, 17⟩⟩], true⟩ := by
    cbv
  obtain rfl := Except.ok.inj (hl.symm.trans hloop)
  refine ⟨row, hr, (h "p4").1 ?_⟩
  unfold j a b
  cbv

end TextTemplate
