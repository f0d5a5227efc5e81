import TextTemplate.Proofs.Rendering.Scope

namespace TextTemplate.Rendering

section

variable {p : Printout}

theorem roundsOver_congr {r r' : Nat → Value → Rendering Unit} {vs : List Value} {j : Nat}
    (h : ∀ k v q, vs[k]? = some v → roundsOver r (vs.take k) j p = .ok () q → r (j + k) v q = r' (j + k) v q) :
    roundsOver r vs j p = roundsOver r' vs j p := by
  induction vs generalizing j p with
  | nil => rfl
  | cons w vs ih =>
    have hw : r j w p = r' j w p := h 0 w p rfl rfl
    rw [roundsOver, roundsOver]
    cases hj : r j w p with
    | error e s => rw [bind_apply_error hj, bind_apply_error (hw ▸ hj)]
    | ok u s =>
      rw [bind_apply_ok hj, bind_apply_ok (hw ▸ hj)]
      apply ih
      intro k v q hv hq
      have hk : j + (k + 1) = j + 1 + k := by omega
      rw [← hk]
      apply h (k + 1) v q hv
      rw [List.take_succ_cons, roundsOver, bind_apply_ok hj, hq]

theorem rounds_congr {r r' : Nat → Rendering Unit} {count j : Nat}
    (h : ∀ k < count, ∀ q, rounds r k j p = .ok () q → r (j + k) q = r' (j + k) q) :
    rounds r count j p = rounds r' count j p := by
  rw [rounds_eq_roundsOver r count j (.uint 0), rounds_eq_roundsOver r' count j (.uint 0)]
  apply roundsOver_congr
  intro k v q hv hq
  obtain ⟨hk, -⟩ := List.getElem?_eq_some_iff.1 hv
  rw [List.length_replicate] at hk
  rw [List.take_replicate, Nat.min_eq_left (Nat.le_of_lt hk), ← rounds_eq_roundsOver] at hq
  exact h k hk q hq

end

namespace Point

/-- That the first command of a point looks up `x`, and no loop has bound it there. -/
def Asks (x : String) (a : Point) : Prop :=
  ∃ c ∈ a.commands.head?, x ∈ c.subject? ∧ a.bound.resolve? x = none

variable {strict : Bool} {e e' : Context} {x : String} {bound : Bindings}

theorem find?_congr (he : ∀ y ≠ x, e.get y = e'.get y) {name : String}
    (hx : name = x → bound.resolve? x ≠ none) :
    Bindings.find? bound e name = Bindings.find? bound e' name := by
  unfold Bindings.find?
  by_cases hn : name = x
  · obtain ⟨v, hv⟩ := Option.ne_none_iff_exists'.1 (hx hn)
    rw [hn, hv, Option.some_or, Option.some_or]
  · rw [he name hn]

theorem render_congr (he : ∀ y ≠ x, e.get y = e'.get y) {c : Command} {cs : List Command} {p : Printout}
    (hin : ∀ {bound p}, (∀ b, Relation.ReflTransGen (Step strict e) ⟨bound, c.inner, p⟩ b → ¬ b.Asks x) →
      renderAll strict e bound c.inner p = renderAll strict e' bound c.inner p)
    (h : ∀ b, Relation.ReflTransGen (Step strict e) ⟨bound, c :: cs, p⟩ b → ¬ b.Asks x) :
    c.render strict e bound p = c.render strict e' bound p := by
  have hfind : ∀ name ∈ c.subject?, Bindings.find? bound e name = Bindings.find? bound e' name := by
    intro name hname
    apply find?_congr he
    rintro rfl hl
    exact h _ .refl ⟨c, rfl, hname, hl⟩
  cases c with
  | literal text => rfl
  | substitution name range =>
    rw [Command.render, Command.render, hfind name rfl]
  | forRange count index body =>
    rw [Command.render, Command.render]
    apply rounds_congr
    intro k hk q hq
    rw [Nat.zero_add]
    apply hin
    intro b hb
    exact h b (.head (.round hk hq) hb)
  | forEach list item index body range =>
    rw [Command.render, Command.render, ← hfind list rfl]
    cases hl : elements strict list range (Bindings.find? bound e list) p with
    | error f s => rw [bind_apply_error hl, bind_apply_error hl]
    | ok vs s =>
      rw [bind_apply_ok hl, bind_apply_ok hl]
      apply roundsOver_congr
      intro k v q hv hq
      rw [Nat.zero_add]
      apply hin (p := { q with log := q.log.push (.iteration k list) })
      intro b hb
      exact h b (.head (.element hl hv hq) hb)

theorem renderAll_congr (he : ∀ y ≠ x, e.get y = e'.get y) {cs : List Command} {p : Printout}
    (h : ∀ b, Relation.ReflTransGen (Step strict e) ⟨bound, cs, p⟩ b → ¬ b.Asks x) :
    renderAll strict e bound cs p = renderAll strict e' bound cs p := by
  induction cs using tree_induction generalizing bound p with
  | nil => rfl
  | cons c cs hinner hcs =>
    have hc := render_congr he (fun h => hinner h) h
    rw [renderAll, renderAll]
    cases hr : c.render strict e bound p with
    | error f s => rw [bind_apply_error hr, bind_apply_error (hc ▸ hr)]
    | ok u q =>
      rw [bind_apply_ok hr, bind_apply_ok (hc ▸ hr)]
      apply hcs
      intro b hb
      exact h b (.head (.past hr) hb)

end Point

/-- Where contexts that differ for one name only are rendered to different effect, rendering has come by
a point that asks for that name. -/
theorem exists_asks_of_render_ne {strict : Bool} {e e' : Context} {x : String} {tree : List Command}
    (he : ∀ y ≠ x, e.get y = e'.get y) (h : render strict e tree ≠ render strict e' tree) :
    ∃ a : Point, a.Arises strict e tree ∧ a.Asks x := by
  by_contra hn
  apply h
  have hr : renderAll strict e [] tree {} = renderAll strict e' [] tree {} := by
    apply Point.renderAll_congr he
    intro b hb hx
    exact hn ⟨b, hb, hx⟩
  rw [render, render, EStateM.run, EStateM.run, hr]

end TextTemplate.Rendering
