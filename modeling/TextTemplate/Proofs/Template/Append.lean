import TextTemplate.Proofs.Template.Layout
import TextTemplate.Proofs.Template.Moved
import TextTemplate.Proofs.Template.Outcome

namespace TextTemplate

namespace Layout

def trailing : Layout → List Char
  | last literal => literal
  | braced _ _ _ rest => rest.trailing

theorem text_eq_append_trailing (l : Layout) : ∃ front, l.text = front ++ l.trailing := by
  induction l with
  | last literal => exact ⟨[], rfl⟩
  | braced literal body kind rest ih =>
    obtain ⟨front, hf⟩ := ih
    refine ⟨literal ++ '{' :: '{' :: (body ++ '}' :: '}' :: front), ?_⟩
    simp [text, trailing, hf]

theorem getLast?_of_trailing {l : Layout} {c : Char} (h : l.trailing.getLast? = some c) :
    l.text.getLast? = some c := by
  obtain ⟨front, hfront⟩ := l.text_eq_append_trailing
  have hne : l.trailing ≠ [] := by
    intro he
    rw [he] at h
    cases h
  rw [hfront, List.getLast?_append_of_ne_nil _ hne, h]

theorem plain_trailing {l : Layout} (h : l.WellFormed) : Plain l.trailing := by
  induction l with
  | last literal => exact h
  | braced _ _ _ _ ih => exact ih h.2.2.2.2

end Layout

/-- Two rows of brackets as one, in which literal text at the border may have become one piece. -/
inductive Joined : List Bracket → List Bracket → List Bracket → Prop
  | apart (as bs) : Joined as bs (as ++ bs)
  | merged (as x y bs) : Joined (as ++ [.leaf (.literal x)]) (.leaf (.literal y) :: bs)
    (as ++ .leaf (.literal (x ++ y)) :: bs)

theorem Joined.append_left {as bs w : List Bracket} (h : Joined as bs w) (front : List Bracket) :
    Joined (front ++ as) bs (front ++ w) := by
  cases h with
  | apart =>
    rw [← List.append_assoc]
    exact .apart _ _
  | merged as x y bs =>
    rw [← List.append_assoc, ← List.append_assoc]
    exact .merged _ x y bs

theorem Joined.eq_of_nil {as w : List Bracket} (h : Joined as [] w) : w = as := by
  cases h with
  | apart => exact List.append_nil as

namespace Pieces

theorem joined_literals (lit more : List Char) (bs : List Bracket) :
    Joined (literalBrackets lit) (literalBrackets more ++ bs) (literalBrackets (lit ++ more) ++ bs) := by
  cases lit with
  | nil => exact .apart [] _
  | cons c lit =>
    cases more with
    | nil =>
      rw [List.append_nil]
      exact .apart _ bs
    | cons d more =>
      have hm := Joined.merged [] (String.ofList (c :: lit)) (String.ofList (d :: more)) bs
      rw [← String.ofList_append] at hm
      exact hm

theorem exists_withLiteral {c : Cursor} {lit more : List Char} (hc : c.rest = lit ++ more)
    (hl : literalBefore (lit ++ more) = (lit ++ (literalBefore more).1, (literalBefore more).2)) :
    ∃ text ps, ofCursor (c.skip lit.length) = withLiteral text ps ∧
      ofCursor c = withLiteral (lit ++ text) ps := by
  have hr : (c.skip lit.length).rest = more := Cursor.rest_skip_length hc
  have hskip : ∀ text n, (c.skip lit.length).skip (List.length text + n) =
      c.skip ((lit ++ text).length + n) := by
    intro text n
    rw [Cursor.skip_skip, List.length_append, Nat.add_assoc]
  rw [← hc, ← hr] at hl
  cases hb : literalBefore (c.skip lit.length).rest with
  | mk text braces =>
    rw [hb] at hl
    refine ⟨text, ?_⟩
    match braces with
    | none => exact ⟨.done, ofCursor_last hb, ofCursor_last hl⟩
    | some .closing =>
      refine ⟨_, ofCursor_stray hb, ?_⟩
      rw [ofCursor_stray hl, ← Nat.add_zero (lit ++ text).length, ← hskip, Nat.add_zero]
    | some .opening =>
      cases hd : ((c.skip lit.length).skip (text.length + 2)).directive with
      | mk outcome d =>
        have hd' := hd
        rw [hskip] at hd'
        cases outcome with
        | error fault => exact ⟨_, ofCursor_failed hb hd, ofCursor_failed hl hd'⟩
        | ok o => exact ⟨_, ofCursor_braced hb hd, ofCursor_braced hl hd'⟩

variable {source more : List Char} {origin : Position}

theorem mapRange_literalBrackets (f : Range → Range) (lit : List Char) :
    (literalBrackets lit).map (Bracket.mapRange f) = literalBrackets lit := by
  cases lit <;> rfl

theorem mapRange_directive (f : Range → Range) (o : Option Directive) :
    (o.map Directive.bracket).toList.map (Bracket.mapRange f) =
      ((o.map (Directive.mapRange f)).map Directive.bracket).toList := by
  cases o with
  | none => rfl
  | some d => exact congrArg (· :: []) (d.bracket_mapRange f).symm

theorem exists_trailing {l : Layout} (hl : l.WellFormed) {c c' : Cursor}
    (h : c.Echoes source origin more c') (hc : c.rest = l.text) :
    ∃ (init : List Bracket) (e e' : Cursor), e.rest = l.trailing ∧ e.Echoes source origin more e' ∧
      (ofCursor c).brackets = init.map (Bracket.mapRange (.told {} source)) ++ (ofCursor e).brackets ∧
      (ofCursor c').brackets = init.map (Bracket.mapRange (.told origin source)) ++ (ofCursor e').brackets ∧
      (ofCursor c').fault? = (ofCursor e').fault? := by
  induction l generalizing c c' with
  | last lit => exact ⟨[], c, c', hc, h, rfl, rfl, rfl⟩
  | braced lit body kind rest ih =>
    have hlit : literalBefore c.rest = (lit, some .opening) := by
      rw [hc, Layout.literalBefore_text hl]
    have hlit' : literalBefore c'.rest = (lit, some .opening) := by
      rw [h.rest, hc, Layout.text, List.append_assoc]
      exact literalBefore_append (b := .opening) hl.1 hl.2.1 _
    obtain ⟨-, -, hbb, hm, hw⟩ := hl
    obtain ⟨o, d, hd, -, hdr⟩ := (makes_iff (rest_skip_braces hc) hbb).1 hm
    obtain ⟨a, d', rfl, hd', hecho⟩ := (h.skip (length_literalBefore_lt hlit)).directive hd
    obtain ⟨init, e, e', her, he, hb, hb', hf⟩ := ih hw hecho hdr
    refine ⟨literalBrackets lit ++ ((a.map Directive.bracket).toList ++ init), e, e', her, he, ?_, ?_, ?_⟩
    · rw [ofCursor_braced hlit hd, brackets_withLiteral, brackets_withDirective, hb, List.map_append,
        List.map_append, mapRange_literalBrackets, mapRange_directive]
      simp only [List.append_assoc]
    · rw [ofCursor_braced hlit' hd', brackets_withLiteral, brackets_withDirective, hb', List.map_append,
        List.map_append, mapRange_literalBrackets, mapRange_directive]
      simp only [List.append_assoc]
    · rw [ofCursor_braced hlit' hd', fault?_withLiteral, fault?_withDirective, hf]

/-- What stands behind a text with a layout makes the pieces that it makes where reading begins with
it. -/
theorem joined_ofCursor {l : Layout} (hl : l.WellFormed) {c c' : Cursor}
    (h : c.Echoes source origin more c') (hc : c.rest = l.text)
    (hs : ∀ b : Braces, l.trailing.getLast? = some b.brace → more.head? ≠ some b.brace) :
    ∃ (w : List Bracket) (e : Cursor), e.rest = more ∧ e.position = origin.advance source ∧
      (ofCursor c').fault? = (ofCursor e).fault? ∧
      (ofCursor c).brackets = w.map (Bracket.mapRange (.told {} source)) ∧
      Joined (w.map (Bracket.mapRange (.told origin source))) (ofCursor e).brackets
        (ofCursor c').brackets := by
  have hplain := Layout.plain_trailing hl
  obtain ⟨init, e, e', her, he, hb, hb', hf⟩ := exists_trailing hl h hc
  have he' : e'.rest = l.trailing ++ more := by rw [he.rest, her]
  obtain ⟨text, ps, hps, hp⟩ := exists_withLiteral he' (literalBefore_append_of_plain hplain hs)
  obtain ⟨front, hfront, -, hpos⟩ := he.passed
  refine ⟨init ++ literalBrackets l.trailing, e'.skip l.trailing.length, Cursor.rest_skip_length he',
    ?_, ?_, ?_, ?_⟩
  · rw [Cursor.position_skip_length he', hpos, ← Position.advance_append, hfront, her]
  · rw [hf, hps, hp, fault?_withLiteral, fault?_withLiteral]
  · rw [hb, ofCursor_last (literalBefore_eq_none_iff.2 ⟨hplain, her⟩), brackets_withLiteral, brackets,
      List.append_nil, List.map_append, mapRange_literalBrackets]
  · rw [hb', List.map_append, mapRange_literalBrackets, hps, hp, brackets_withLiteral, brackets_withLiteral]
    exact (joined_literals l.trailing text ps.brackets).append_left _

theorem brackets_behind {source : String} (hf : (ofText source).fault? = none) {e : Cursor}
    (hr : e.rest = source.toList) :
    (ofCursor e).fault? = none ∧ ∃ w : List Bracket,
      (ofText source).brackets = w.map (Bracket.mapRange (.told {} source.toList)) ∧
        (ofCursor e).brackets = w.map (Bracket.mapRange (.told e.position source.toList)) := by
  obtain ⟨l, hl, ht⟩ := exists_layout hf
  have h : (Cursor.ofText source).Echoes source.toList e.position [] e :=
    ⟨hr.trans (List.append_nil _).symm, [], rfl, rfl, rfl⟩
  obtain ⟨w, e', he', -, hfault, hw, hj⟩ := joined_ofCursor hl h ht.symm (by simp)
  have hdone : ofCursor e' = .done := by
    have hl : literalBefore e'.rest = ([], none) := by
      rw [he']
      rfl
    rw [ofCursor_last hl]
    rfl
  rw [hdone] at hfault hj
  exact ⟨hfault, w, hw, hj.eq_of_nil⟩

theorem joined_ofText {t₁ t₂ : String} {l : Layout} (hl : l.WellFormed) (ht : l.text = t₁.toList)
    (hs : ∀ b : Braces, l.trailing.getLast? = some b.brace → t₂.toList.head? ≠ some b.brace)
    (hf : (ofText t₂).fault? = none) :
    (ofText (t₁ ++ t₂)).fault? = none ∧ ∃ w : List Bracket,
      (ofText t₂).brackets = w.map (Bracket.mapRange (.told {} t₂.toList)) ∧
      Joined (ofText t₁).brackets
        (w.map (Bracket.mapRange (.told (Position.advance {} t₁.toList) t₂.toList)))
        (ofText (t₁ ++ t₂)).brackets := by
  have h : (Cursor.ofText t₁).Echoes t₁.toList {} t₂.toList (.ofText (t₁ ++ t₂)) :=
    ⟨String.toList_append, [], rfl, rfl, rfl⟩
  obtain ⟨v, e, her, hep, hef, hv, hej⟩ := joined_ofCursor hl h ht.symm hs
  obtain ⟨hfe, w, hw, hbe⟩ := brackets_behind hf her
  refine ⟨hef.trans hfe, w, hw, ?_⟩
  rw [hbe, hep, ← hv] at hej
  exact hej

end Pieces

namespace Nesting

theorem exists_of_joined {strict : Bool} {f : Range → Range} {as bs w : List Bracket}
    {cs tree : List Command} {m : Nesting} (hj : Joined as (bs.map (Bracket.mapRange f)) w)
    (ha : as.foldlM (read strict) {} = .ok ⟨cs, []⟩) (hb : bs.foldlM (read strict) {} = .ok m)
    (hm : (m.complete strict).outcome = .ok tree) :
    ∃ n whole, w.foldlM (read strict) {} = .ok n ∧ (n.complete strict).outcome = .ok whole ∧
      ∀ strict env, meaningAll strict env whole =
        meaningAll strict env (cs.reverse ++ mapRangesAll f tree) := by
  generalize hbs : bs.map (Bracket.mapRange f) = bs' at hj
  cases hj with
  | apart =>
    refine ⟨m.behind f cs, _, ?_, complete_moved cs hm, fun strict env => rfl⟩
    rw [List.foldlM_append, ha, ← hbs]
    exact foldlM_read_moved cs hb
  | merged as x y bs' =>
    -- The border cuts a literal in two: `x` ends the first tree and `y` begins the second one.
    obtain ⟨b, bs, rfl, hy, rfl⟩ := List.map_eq_cons_iff.1 hbs
    obtain rfl : b = .leaf (.literal y) := by
      cases b with
      | leaf l =>
        cases l with
        | literal text =>
          cases hy
          rfl
        | field name range => cases hy
      | _ => cases hy
    obtain ⟨k, rest, hk, hrest, rfl⟩ := exists_of_literal_first hb hm
    obtain ⟨front, hfront, rfl⟩ := exists_of_literal_last ha
    refine ⟨k.behind f (.literal (x ++ y) :: front), _, ?_, complete_moved _ hrest, ?_⟩
    · rw [List.foldlM_append, hfront]
      exact foldlM_read_moved (.literal (x ++ y) :: front) hk
    · intro strict env
      have hl : (.literal (x ++ y) :: front : List Command).reverse ++ mapRangesAll f rest =
          front.reverse ++ ([.literal (x ++ y)] ++ mapRangesAll f rest) := by simp
      have hr : (.literal x :: front : List Command).reverse ++ mapRangesAll f (.literal y :: rest) =
          front.reverse ++ ([.literal x, .literal y] ++ mapRangesAll f rest) := by
        simp [mapRangesAll, Command.mapRanges]
      rw [hl, hr, meaningAll_append, meaningAll_append, meaningAll_literals, ← meaningAll_append,
        ← meaningAll_append]

end Nesting

open Nesting

theorem exists_of_compile_true {source : String} {tree : List Command}
    (h : (compile true source).outcome = .ok tree) :
    ∃ cs, (Pieces.ofText source).brackets.foldlM (read true) {} = .ok ⟨cs, []⟩ ∧ tree = cs.reverse := by
  obtain ⟨-, ⟨cs, outer⟩, hm, hc⟩ := compile_eq_ok_iff.1 h
  cases outer with
  | nil =>
    cases hc
    exact ⟨cs, hm, rfl⟩
  | cons loop outer => cases hc

/-- Behind a template that compiles strictly another one compiles as it does alone, and the whole means
what the first and then the second mean, at ranges that are told from the end of the first. -/
theorem exists_compile_append {t₁ t₂ : String} {strict : Bool} {tree₁ tree₂ : List Command}
    (h₁ : (compile true t₁).outcome = .ok tree₁) (h₂ : (compile strict t₂).outcome = .ok tree₂)
    (hopen : ¬ (t₁.toList.getLast? = some '{' ∧ t₂.toList.head? = some '{'))
    (hclose : ∀ l : Layout, l.WellFormed → l.text = t₁.toList →
      ¬ (l.trailing.getLast? = some '}' ∧ t₂.toList.head? = some '}')) :
    ∃ tree more, (compile strict (t₁ ++ t₂)).outcome = .ok tree ∧
      tree₂ = mapRangesAll (.told {} t₂.toList) more ∧ ∀ strict env,
        meaningAll strict env tree = joined (meaningAll strict env tree₁) ((meaningAll strict env more).mapError
          (Fault.mapRange (.told (Position.advance {} t₁.toList) t₂.toList))) := by
  obtain ⟨cs, hcs, rfl⟩ := exists_of_compile_true h₁
  obtain ⟨hf₂, m, hm, hmc⟩ := compile_eq_ok_iff.1 h₂
  obtain ⟨l, hl, ht⟩ := Pieces.exists_layout (compile_eq_ok h₁)
  have hs : ∀ b : Braces, l.trailing.getLast? = some b.brace → t₂.toList.head? ≠ some b.brace := by
    intro b hb hd
    cases b with
    | opening =>
      have hlast : l.text.getLast? = some '{' := Layout.getLast?_of_trailing hb
      exact hopen ⟨(congrArg List.getLast? ht).symm.trans hlast, hd⟩
    | closing => exact hclose l hl ht ⟨hb, hd⟩
  have hstrict : (Pieces.ofText t₁).brackets.foldlM (read strict) {} = .ok ⟨cs, []⟩ := by
    cases strict with
    | true => exact hcs
    | false => exact foldlM_read_ok hcs
  obtain ⟨hf, w, hw, hj⟩ := Pieces.joined_ofText hl ht hs hf₂
  rw [hw] at hm
  obtain ⟨k, more, hk, hkc, htree⟩ := exists_of_foldlM_read_behind hm hmc
  obtain ⟨n, tree, hn, hnc, hmeans⟩ := exists_of_joined hj hstrict hk hkc
  refine ⟨tree, more, compile_eq_ok_iff.2 ⟨hf, n, hn, hnc⟩, htree, fun strict env => ?_⟩
  rw [hmeans, meaningAll_append, meaningAll_mapRanges]

namespace Template

/-- Rendering takes templates one behind the other to texts one behind the other, if the first compiles
strictly and no double brace stands across the border. If the first one fails the whole fails at the same
range. If only the second one fails the whole fails for the same cause, at its range moved by the end of
the first: on the first line of the second one columns are shifted, and later lines keep them. -/
theorem render_append {t₁ t₂ : String} {strict : Bool} {first second : Template}
    (h₁ : (compile true t₁).outcome = .ok first) (h₂ : (compile strict t₂).outcome = .ok second)
    (hopen : ¬ (t₁.toList.getLast? = some '{' ∧ t₂.toList.head? = some '{'))
    (hclose : ∀ l : Layout, l.WellFormed → l.text = t₁.toList →
      ¬ (l.trailing.getLast? = some '}' ∧ t₂.toList.head? = some '}')) :
    ∃ front whole, (compile strict t₁).outcome = .ok front ∧
      (compile strict (t₁ ++ t₂)).outcome = .ok whole ∧ ∀ context,
        (∀ d, (front.render context).outcome = .error d →
          ∃ d', (whole.render context).outcome = .error d' ∧ d'.fault = d.fault) ∧
        (∀ o₁ o₂, (front.render context).outcome = .ok o₁ → (second.render context).outcome = .ok o₂ →
          (whole.render context).outcome = .ok (o₁ ++ o₂)) ∧
        (∀ o₁ d, (front.render context).outcome = .ok o₁ → (second.render context).outcome = .error d →
          ∃ d', (whole.render context).outcome = .error d' ∧ d'.fault.cause = d.fault.cause ∧
            d.fault.range.Moves t₂.toList (.advance {} t₁.toList) d'.fault.range ∧
            (t₂.toList.count '\n' + 1 < UInt32.size →
              d'.fault = d.fault.after (.advance {} t₁.toList))) := by
  obtain ⟨hc₁, -, -⟩ := compile_eq_ok h₁
  obtain ⟨hc₂, -, rfl⟩ := compile_eq_ok h₂
  have hfront : (TextTemplate.compile second.strict t₁).outcome = .ok first.commands := by
    cases second.strict with
    | true => exact hc₁
    | false => exact compile_false_of_ok hc₁
  obtain ⟨tree, more, htree, hmore, hmeans⟩ := exists_compile_append hc₁ hc₂ hopen hclose
  refine ⟨_, _, compile_of_ok hfront, compile_of_ok htree, fun context => ?_⟩
  simp only [outcome_render, hmeans, hmore, meaningAll_mapRanges]
  generalize meaningAll second.strict context.get first.commands = x
  generalize meaningAll second.strict context.get more = y
  refine ⟨?_, ?_, ?_⟩
  · intro d hx
    cases x with
    | error fault =>
      cases hx
      exact ⟨_, rfl, rfl⟩
    | ok o => cases hx
  · intro o₁ o₂ hx hy
    cases x with
    | error fault => cases hx
    | ok a =>
      cases y with
      | error fault => cases hy
      | ok b =>
        cases hx
        cases hy
        rfl
  · intro o₁ d hx hy
    cases x with
    | error fault => cases hx
    | ok a =>
      cases y with
      | error fault =>
        cases hy
        have hmoves := Range.moves_told (.advance {} t₁.toList) t₂.toList fault.range
        refine ⟨_, rfl, rfl, hmoves, fun hlines => ?_⟩
        have hfits : Position.Fits {} t₂.toList := by rwa [Nat.add_comm] at hlines
        exact congrArg (Fault.mk · fault.cause) (hmoves.eq_after hfits)
      | ok b => cases hy

theorem render_append_line :
    let t₁ := "{{a}}x\n"
    let t₂ := "y{{b}}"
    ∃ whole d, (compile false (t₁ ++ t₂)).outcome = .ok whole ∧
      (whole.render (.ofPairs [("a", .string "1")])).outcome = .error d ∧
        d.fault = ⟨⟨⟨2, 4⟩, ⟨2, 5⟩⟩, .undefined "b"⟩ := by
  intro t₁ t₂
  let tree : List Command := [.substitution "a" ⟨⟨1, 3⟩, ⟨1, 4⟩⟩, .literal "x\n"]
  have h₁ : (compile true t₁).outcome = .ok ⟨t₁, tree, true⟩ := by
    unfold t₁ tree
    cbv
  have h₂ : (compile false t₂).outcome =
      .ok ⟨t₂, [.literal "y", .substitution "b" ⟨⟨1, 4⟩, ⟨1, 5⟩⟩], false⟩ := by
    unfold t₂
    cbv
  obtain ⟨front, whole, hf, hw, h⟩ := render_append h₁ h₂ (by decide) (by
    rintro l - - ⟨-, hd⟩
    revert hd
    decide)
  have hfront : (compile false t₁).outcome = .ok ⟨t₁, tree, false⟩ := by
    unfold t₁ tree
    cbv
  obtain rfl := Except.ok.inj (hfront.symm.trans hf)
  have ho : (render ⟨t₁, tree, false⟩ (.ofPairs [("a", .string "1")])).outcome = .ok "1x\n" := by
    unfold t₁ tree
    cbv
  have hd : (render ⟨t₂, [.literal "y", .substitution "b" ⟨⟨1, 4⟩, ⟨1, 5⟩⟩], false⟩
      (.ofPairs [("a", .string "1")])).outcome =
        .error ⟨⟨⟨⟨1, 4⟩, ⟨1, 5⟩⟩, .undefined "b"⟩, t₂, ⟨3, 1⟩⟩ := by
    unfold t₂
    cbv
  have hmoved : Fault.after ⟨⟨⟨1, 4⟩, ⟨1, 5⟩⟩, .undefined "b"⟩ (Position.advance {} t₁.toList) =
      ⟨⟨⟨2, 4⟩, ⟨2, 5⟩⟩, .undefined "b"⟩ := by
    unfold t₁
    cbv
  obtain ⟨d, hr, -, -, he⟩ := (h _).2.2 _ _ ho hd
  exact ⟨whole, d, hw, hr, (he (by decide)).trans hmoved⟩

end Template

end TextTemplate
