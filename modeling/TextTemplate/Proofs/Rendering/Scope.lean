import TextTemplate.Proofs.Rendering.Strictness
import TextTemplate.Proofs.Template.WellFormed
import Mathlib

namespace TextTemplate

namespace Command

def binders : Command → List String
  | forRange _ index _ => index.toList
  | forEach _ item index _ _ => item :: index.toList
  | _ => []

def subject? : Command → Option String
  | substitution name _ => some name
  | forEach list _ _ _ _ => some list
  | _ => none

end Command

/-- That no loop of a tree binds a name with a dot. -/
def BindsDotless (tree : List Command) : Prop := ∀ c ∈ preorderAll tree, ∀ x ∈ c.binders, Dotless x

theorem Command.binders_emptied (c : Command) : c.emptied.binders = c.binders := by
  cases c <;> rfl

theorem BindsDotless.of_cons {c : Command} {cs : List Command} (h : BindsDotless (c :: cs)) :
    (∀ x ∈ c.binders, Dotless x) ∧ BindsDotless c.inner ∧ BindsDotless cs := by
  rw [BindsDotless, preorderAll, c.preorder_cons] at h
  obtain ⟨hc, hcs⟩ := List.forall_mem_append.1 h
  obtain ⟨hb, hi⟩ := List.forall_mem_cons.1 hc
  rw [c.binders_emptied] at hb
  exact ⟨hb, hi, hcs⟩

theorem Mark.Printable.dotless {m : Mark} (h : m.Printable) {c : Command} (hc : m.command? = some c) :
    ∀ x ∈ c.binders, Dotless x := by
  cases m with
  | leaf l => cases l <;> cases hc <;> exact List.forall_mem_nil _
  | opening loop =>
    cases hc
    match c, h with
    | .forRange count index [], h => exact fun x hx => (h.2 x (Option.mem_toList.1 hx)).dotless
    | .forEach list item index [] range, h =>
      exact List.forall_mem_cons.2 ⟨h.2.1.dotless, fun x hx => (h.2.2 x (Option.mem_toList.1 hx)).dotless⟩
  | closing => cases hc

theorem bindsDotless_of_compile {strict : Bool} {source : String} {tree : List Command}
    (h : (compile strict source).outcome = .ok tree) : BindsDotless tree := by
  intro c hc
  obtain ⟨b, hb, hbc⟩ := exists_bracket h hc
  exact (Pieces.printable_ofCursor _ b hb).dotless hbc

namespace Bindings

theorem dotless_cons {f : Frame} {bound : Bindings} (hi : ∀ x ∈ f.index, Dotless x)
    (he : ∀ e ∈ f.item, Dotless e.1) (h : ∀ f ∈ bound, ∀ e ∈ f.bindings, Dotless e.1) :
    ∀ g ∈ f :: bound, ∀ e ∈ g.bindings, Dotless e.1 := by
  refine List.forall_mem_cons.2 ⟨fun e hf => ?_, h⟩
  obtain hf | hf := List.mem_append.1 hf
  · obtain ⟨x, hx, rfl⟩ := List.mem_map.1 hf
    exact hi x (Option.mem_toList.1 hx)
  · exact he e (Option.mem_toList.1 hf)

theorem find?_of_dotless {bound : Bindings} (h : ∀ f ∈ bound, ∀ e ∈ f.bindings, Dotless e.1)
    (context : Context) {name : String} (hn : ¬ Dotless name) : bound.find? context name = context.get name := by
  have hl : (bound.flatMap Frame.bindings).lookup name = none := by
    rw [List.lookup_eq_none_iff]
    intro e he
    obtain ⟨f, hf, he⟩ := List.mem_flatMap.1 he
    simp only [bne_iff_ne]
    rintro rfl
    exact hn (h f hf e he)
  rw [find?, resolve?_eq_lookup, hl, Option.none_or]

end Bindings

namespace Rendering

section

variable {p r : Printout} {fault : Fault}

theorem roundsOver_error_iff {round : Nat → Value → Rendering Unit} {vs : List Value} {j : Nat} :
    roundsOver round vs j p = .error fault r ↔ ∃ k v q, vs[k]? = some v ∧
      roundsOver round (vs.take k) j p = .ok () q ∧ round (j + k) v q = .error fault r := by
  induction vs generalizing j p with
  | nil =>
    refine iff_of_false (fun h => by cases h) ?_
    rintro ⟨k, v, q, hv, -⟩
    cases hv
  | cons w vs ih =>
    rw [roundsOver]
    -- The first round fails, or it is done and one of the others fails.
    cases hj : round j w p with
    | error e s =>
      rw [bind_apply_error hj]
      constructor
      · intro h
        cases h
        exact ⟨0, w, p, rfl, rfl, hj⟩
      · rintro ⟨k | k, v, q, hv, hp, hr⟩
        · cases hv
          cases hp
          exact hj.symm.trans hr
        · rw [List.take_succ_cons, roundsOver, bind_apply_error hj] at hp
          cases hp
    | ok u s =>
      rw [bind_apply_ok hj, ih]
      constructor
      · rintro ⟨k, v, q, hv, hp, hr⟩
        refine ⟨k + 1, v, q, hv, ?_, by rwa [← Nat.add_assoc, Nat.add_right_comm]⟩
        rw [List.take_succ_cons, roundsOver, bind_apply_ok hj, hp]
      · rintro ⟨k | k, v, q, hv, hp, hr⟩
        · cases hv
          cases hp
          rw [Nat.add_zero, hj] at hr
          cases hr
        · rw [List.take_succ_cons, roundsOver, bind_apply_ok hj] at hp
          exact ⟨k, v, q, hv, hp, by rwa [Nat.add_right_comm, Nat.add_assoc]⟩

theorem rounds_eq_roundsOver (round : Nat → Rendering Unit) (count j : Nat) (v : Value) :
    rounds round count j = roundsOver (fun k _ => round k) (List.replicate count v) j := by
  induction count generalizing j with
  | zero => rfl
  | succ count ih => rw [rounds, List.replicate_succ, roundsOver, ih]

theorem rounds_error_iff {round : Nat → Rendering Unit} {count j : Nat} :
    rounds round count j p = .error fault r ↔
      ∃ k < count, ∃ q, rounds round k j p = .ok () q ∧ round (j + k) q = .error fault r := by
  have htake : ∀ k < count, (List.replicate count (Value.uint 0)).take k = List.replicate k (.uint 0) := by
    intro k hk
    rw [List.take_replicate, Nat.min_eq_left (Nat.le_of_lt hk)]
  rw [rounds_eq_roundsOver round count j (.uint 0), roundsOver_error_iff]
  constructor
  · rintro ⟨k, v, q, hv, hp, hr⟩
    obtain ⟨hk, -⟩ := List.getElem?_eq_some_iff.1 hv
    rw [List.length_replicate] at hk
    rw [htake k hk, ← rounds_eq_roundsOver] at hp
    exact ⟨k, hk, q, hp, hr⟩
  · rintro ⟨k, hk, q, hp, hr⟩
    rw [rounds_eq_roundsOver round k j (.uint 0), ← htake k hk] at hp
    exact ⟨k, .uint 0, q, List.getElem?_replicate_of_lt hk, hp, hr⟩

end

/-- A point of a rendering: what is bound there, what is still to be rendered with it, and what has been
printed. -/
structure Point where
  bound : Bindings
  commands : List Command
  printout : Printout

namespace Point

/-- How rendering goes on from a point: past its first command, or into a round of it. -/
inductive Step (strict : Bool) (context : Context) : Point → Point → Prop
  | past {bound c cs p q} (hc : c.render strict context bound p = .ok () q) :
    Step strict context ⟨bound, c :: cs, p⟩ ⟨bound, cs, q⟩
  | round {bound count index body cs p q k} (hk : k < count)
    (hp : rounds (fun k => renderAll strict context (.range index k :: bound) body) k 0 p = .ok () q) :
    Step strict context ⟨bound, .forRange count index body :: cs, p⟩ ⟨.range index k :: bound, body, q⟩
  | element {bound list item index body range cs p p' q vs k v}
    (hl : elements strict list range (Bindings.find? bound context list) p = .ok vs p')
    (hv : vs[k]? = some v)
    (hp : roundsOver (fun k v => do
      report (.iteration k list)
      renderAll strict context (.each item v index k :: bound) body) (vs.take k) 0 p' = .ok () q) :
    Step strict context ⟨bound, .forEach list item index body range :: cs, p⟩
      ⟨.each item v index k :: bound, body, { q with log := q.log.push (.iteration k list) }⟩

/-- That the first command of a point fails of itself: what it looks up there is missing or of no use. -/
inductive Raises (strict : Bool) (context : Context) : Point → Fault → Prop
  | text {bound name range cs p r fault}
    (h : substitute name range (Bindings.find? bound context name) p = .error fault r) :
    Raises strict context ⟨bound, .substitution name range :: cs, p⟩ fault
  | list {bound list item index body range cs p r fault}
    (h : elements strict list range (Bindings.find? bound context list) p = .error fault r) :
    Raises strict context ⟨bound, .forEach list item index body range :: cs, p⟩ fault

/-- That rendering a tree comes by a point. -/
def Arises (strict : Bool) (context : Context) (tree : List Command) : Point → Prop :=
  Relation.ReflTransGen (Step strict context) ⟨[], tree, {}⟩

variable {strict : Bool} {context : Context} {a b : Point} {fault : Fault}

theorem Raises.fails (h : a.Raises strict context fault) :
    ∃ r, renderAll strict context a.bound a.commands a.printout = .error fault r := by
  cases h with
  | @text bound name range cs p r fault h =>
    refine ⟨r, ?_⟩
    rw [renderAll, Command.render]
    exact bind_apply_error h _
  | @list bound list item index body range cs p r fault h =>
    refine ⟨r, ?_⟩
    rw [renderAll, Command.render]
    exact bind_apply_error (bind_apply_error h _) _

theorem Step.fails (h : Step strict context a b) {r : Printout}
    (hb : renderAll strict context b.bound b.commands b.printout = .error fault r) :
    renderAll strict context a.bound a.commands a.printout = .error fault r := by
  cases h with
  | past hc =>
    rw [renderAll, bind_apply_ok hc]
    exact hb
  | @round bound count index body cs p q k hk hp =>
    rw [renderAll, Command.render]
    refine bind_apply_error (rounds_error_iff.2 ⟨k, hk, q, hp, ?_⟩) _
    rw [Nat.zero_add]
    exact hb
  | @element bound list item index body range cs p p' q vs k v hl hv hp =>
    rw [renderAll, Command.render]
    refine bind_apply_error ?_ _
    rw [bind_apply_ok hl]
    refine roundsOver_error_iff.2 ⟨k, v, q, hv, hp, ?_⟩
    rw [Nat.zero_add]
    exact hb

theorem fails_of_steps (h : Relation.ReflTransGen (Step strict context) a b) {r : Printout}
    (hb : renderAll strict context b.bound b.commands b.printout = .error fault r) :
    renderAll strict context a.bound a.commands a.printout = .error fault r := by
  induction h using Relation.ReflTransGen.head_induction_on with
  | refl => exact hb
  | head hstep _ ih => exact hstep.fails ih

theorem exists_raises_of_render {c : Command} {bound : Bindings} {p r : Printout}
    (h : c.render strict context bound p = .error fault r)
    (hin : ∀ {bound p r}, renderAll strict context bound c.inner p = .error fault r →
      ∃ b, Relation.ReflTransGen (Step strict context) ⟨bound, c.inner, p⟩ b ∧ b.Raises strict context fault)
    (cs : List Command) :
    ∃ b, Relation.ReflTransGen (Step strict context) ⟨bound, c :: cs, p⟩ b ∧
      b.Raises strict context fault := by
  cases c with
  | literal text =>
    rw [Command.render] at h
    cases h
  | substitution name range =>
    rw [Command.render] at h
    exact ⟨_, .refl, .text h⟩
  | forRange count index body =>
    rw [Command.render] at h
    obtain ⟨k, hk, q, hp, hr⟩ := rounds_error_iff.1 h
    obtain ⟨b, hb, hf⟩ := hin hr
    rw [Nat.zero_add] at hb
    exact ⟨b, .head (.round hk hp) hb, hf⟩
  | forEach list item index body range =>
    rw [Command.render] at h
    cases hl : elements strict list range (Bindings.find? bound context list) p with
    | error e s =>
      rw [bind_apply_error hl] at h
      cases h
      exact ⟨_, .refl, .list hl⟩
    | ok vs p' =>
      rw [bind_apply_ok hl] at h
      obtain ⟨k, v, q, hv, hp, hr⟩ := roundsOver_error_iff.1 h
      obtain ⟨b, hb, hf⟩ := hin hr
      rw [Nat.zero_add] at hb
      exact ⟨b, .head (.element hl hv hp) hb, hf⟩

theorem exists_raises_of_renderAll {cs : List Command} {bound : Bindings} {p r : Printout}
    (h : renderAll strict context bound cs p = .error fault r) :
    ∃ b, Relation.ReflTransGen (Step strict context) ⟨bound, cs, p⟩ b ∧ b.Raises strict context fault := by
  induction cs using tree_induction generalizing bound p r with
  | nil => cases h
  | cons c cs hinner hcs =>
    cases hc : c.render strict context bound p with
    | error e s =>
      rw [renderAll, bind_apply_error hc] at h
      cases h
      exact exists_raises_of_render hc hinner cs
    | ok u q =>
      rw [renderAll, bind_apply_ok hc] at h
      obtain ⟨b, hb, hf⟩ := hcs h
      exact ⟨b, .head (.past hc) hb, hf⟩

/-- That neither the names that are bound at a point nor those that are bound from there on have dots. -/
def Undotted (a : Point) : Prop :=
  (∀ f ∈ a.bound, ∀ e ∈ f.bindings, Dotless e.1) ∧ BindsDotless a.commands

theorem Step.undotted (h : Step strict context a b) (ha : a.Undotted) : b.Undotted := by
  obtain ⟨hbound, hcommands⟩ := ha
  cases h with
  | past =>
    obtain ⟨-, -, hcs⟩ := hcommands.of_cons
    exact ⟨hbound, hcs⟩
  | round =>
    obtain ⟨hindex, hinner, -⟩ := hcommands.of_cons
    refine ⟨Bindings.dotless_cons (fun x hx => hindex x (Option.mem_toList.2 hx)) nofun hbound, hinner⟩
  | element =>
    obtain ⟨hbinders, hinner, -⟩ := hcommands.of_cons
    obtain ⟨hitem, hindex⟩ := List.forall_mem_cons.1 hbinders
    refine ⟨Bindings.dotless_cons (fun x hx => hindex x (Option.mem_toList.2 hx)) ?_ hbound, hinner⟩
    rintro e ⟨rfl⟩
    exact hitem

theorem Arises.undotted {tree : List Command} (h : BindsDotless tree) (ha : Arises strict context tree a) :
    a.Undotted := by
  induction ha with
  | refl => exact ⟨List.forall_mem_nil _, h⟩
  | tail _ hstep ih => exact hstep.undotted ih

end Point

/-- A rendering fails at a point that it comes by, and at every point that it comes by and that fails. -/
theorem render_error_iff {strict : Bool} {context : Context} {tree : List Command} {fault : Fault} :
    (render strict context tree).outcome = .error fault ↔
      ∃ b : Point, b.Arises strict context tree ∧ b.Raises strict context fault := by
  have hrun : (render strict context tree).outcome = .error fault ↔
      ∃ r, renderAll strict context [] tree {} = .error fault r := by
    rw [render, EStateM.run]
    cases renderAll strict context [] tree {} <;> simp
  rw [hrun]
  constructor
  · rintro ⟨r, h⟩
    exact Point.exists_raises_of_renderAll h
  · rintro ⟨b, hb, hf⟩
    obtain ⟨r, hr⟩ := hf.fails
    exact ⟨r, Point.fails_of_steps hb hr⟩

end Rendering

/-- Wherever rendering a compiled template comes by, no loop has bound a name with a dot, and a command
that looks up a name with a dot gets what the context has for the whole of it. What rendering fails of is
looked up at one of these points, and what is looked up there in vain is what rendering fails of. -/
theorem dotted_names_reach_context {strict : Bool} {source : String} {tree : List Command}
    (h : (compile strict source).outcome = .ok tree) (strict' : Bool) (context : Context) :
    (∀ a : Rendering.Point, a.Arises strict' context tree →
      (∀ f ∈ a.bound, ∀ e ∈ f.bindings, Dotless e.1) ∧
        ∀ c ∈ a.commands.head?, ∀ name ∈ c.subject?, ¬ Dotless name →
          Bindings.find? a.bound context name = context.get name) ∧
      ∀ fault, (render strict' context tree).outcome = .error fault ↔
        ∃ a : Rendering.Point, a.Arises strict' context tree ∧ a.Raises strict' context fault := by
  refine ⟨fun a ha => ?_, fun fault => Rendering.render_error_iff⟩
  obtain ⟨hbound, -⟩ := Rendering.Point.Arises.undotted (bindsDotless_of_compile h) ha
  exact ⟨hbound, fun c _ name _ hn => Bindings.find?_of_dotless hbound context hn⟩

theorem dotted_names_reach_context_nested :
    let source := "{{for(xs)|x|}}{{for(x.b)|y|}}{{x.a}}{{end}}{{end}}"
    let context : Context := .ofPairs [("xs", .sequence [.unsupported "object"]), ("x.a", .string "A"),
      ("x.b", .sequence [.uint 1])]
    let a : Rendering.Point := ⟨[.each "y" (.uint 1) none 0, .each "x" (.unsupported "object") none 0],
      [.substitution "x.a" ⟨⟨1, 32⟩, ⟨1, 35⟩⟩], ⟨"", #[.iteration 0 "xs", .iteration 0 "x.b"]⟩⟩
    ∃ tree, (compile true source).outcome = .ok tree ∧ a.Arises true context tree ∧
      (∀ f ∈ a.bound, ∀ e ∈ f.bindings, Dotless e.1) ∧
        Bindings.find? a.bound context "x.a" = some (.string "A") := by
  intro source context a
  let outer : Range := ⟨⟨1, 3⟩, ⟨1, 13⟩⟩
  let inner : Range := ⟨⟨1, 17⟩, ⟨1, 28⟩⟩
  let tree : List Command :=
    [.forEach "xs" "x" none [.forEach "x.b" "y" none a.commands inner] outer]
  have h : (compile true source).outcome = .ok tree := by
    unfold source tree a outer inner
    cbv
  have ha : a.Arises true context tree := by
    have hxs : Rendering.elements true "xs" outer (Bindings.find? [] context "xs") {} =
        .ok [.unsupported "object"] {} := rfl
    have hxb : Rendering.elements true "x.b" inner
        (Bindings.find? [.each "x" (.unsupported "object") none 0] context "x.b") ⟨"", #[.iteration 0 "xs"]⟩ =
          .ok [.uint 1] ⟨"", #[.iteration 0 "xs"]⟩ := rfl
    exact .tail (.single (.element hxs (k := 0) rfl rfl)) (.element hxb (k := 0) rfl rfl)
  obtain ⟨hbound, hfind⟩ := (dotted_names_reach_context h true context).1 a ha
  exact ⟨tree, h, ha, hbound, hfind _ rfl "x.a" rfl (by unfold Dotless; decide)⟩

end TextTemplate
