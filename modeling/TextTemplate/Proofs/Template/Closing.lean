import TextTemplate.Proofs.Template.Append
import TextTemplate.Proofs.Template.Directives

namespace TextTemplate

def ends (k : Nat) : String := String.join (List.replicate k "{{end}}")

theorem Bracket.exists_closing {b : Bracket} (h : b.mark.erase = .closing) : ∃ range, b = .closing range := by
  cases b with
  | leaf l => cases l <;> cases h
  | opening header => cases h
  | closing range => exact ⟨range, rfl⟩

def closings (ranges : List Range) : List Bracket := ranges.map .closing

theorem eq_closings_of_marks {w : List Bracket} {k : Nat}
    (h : (w.map Bracket.mark).map Mark.erase = List.replicate k .closing) :
    ∃ ranges, ranges.length = k ∧ w = closings ranges := by
  induction k generalizing w with
  | zero =>
    rw [List.map_map] at h
    exact ⟨[], rfl, List.map_eq_nil_iff.1 h⟩
  | succ k ih =>
    rw [List.map_map] at h
    obtain ⟨b, w, rfl, hb, hw⟩ := List.map_eq_cons_iff.1 h
    obtain ⟨range, rfl⟩ := Bracket.exists_closing hb
    obtain ⟨ranges, rfl, rfl⟩ := ih (by rw [List.map_map, hw])
    exact ⟨range :: ranges, rfl, rfl⟩

theorem length_closings (ranges : List Range) : (closings ranges).length = ranges.length :=
  List.length_map _

theorem kept_closings (depth : Nat) (ranges : List Range) :
    kept depth (closings ranges) = closings (ranges.take depth) := by
  induction ranges generalizing depth with
  | nil => rw [List.take_nil, closings, List.map_nil, kept]
  | cons range ranges ih =>
    cases depth with
    | zero =>
      have h := ih 0
      rw [List.take_zero] at h
      exact h
    | succ depth => exact congrArg (.closing range :: ·) (ih depth)

theorem openAfter_closings (depth : Nat) (ranges : List Range) :
    openAfter depth (closings ranges) = depth - ranges.length := by
  induction ranges generalizing depth with
  | nil => rfl
  | cons range ranges ih =>
    rw [closings, List.map_cons, openAfter, ← closings, ih, List.length_cons]
    omega

theorem kept_append_closings_iff {w : List Bracket} {ranges : List Range} :
    kept 0 (w ++ closings ranges) = w ++ closings ranges ↔
      kept 0 w = w ∧ ranges.length ≤ openAfter 0 w := by
  rw [kept_append, kept_closings]
  constructor
  · intro h
    have hl := congrArg List.length h
    have hw := length_kept_le 0 w
    have ht := List.length_take_le' (openAfter 0 w) ranges
    simp only [List.length_append, length_closings, List.length_take] at hl ht
    have hk : (kept 0 w).length = w.length := by omega
    exact ⟨(List.append_inj h hk).1, by omega⟩
  · rintro ⟨hw, hle⟩
    rw [hw, List.take_of_length_le hle]

namespace Nesting

/-- Leniently a close ends the innermost loop, which would otherwise end later, or does nothing. -/
theorem finish_read_closings (n : Nesting) (ranges : List Range) :
    ∃ m, (closings ranges).foldlM (read false) n = .ok m ∧ m.finish = n.finish := by
  induction ranges generalizing n with
  | nil => exact ⟨n, rfl, rfl⟩
  | cons range ranges ih =>
    cases hc : n.close? with
    | none =>
      obtain ⟨m, hm, hf⟩ := ih n
      refine ⟨m, ?_, hf⟩
      rw [closings, List.map_cons, List.foldlM_cons, read, hc]
      exact hm
    | some n' =>
      obtain ⟨m, hm, hf⟩ := ih n'
      refine ⟨m, ?_, hf.trans (finish_close hc)⟩
      rw [closings, List.map_cons, List.foldlM_cons, read, hc]
      exact hm

end Nesting

theorem brackets_ends (k : Nat) : (Pieces.ofText (ends k)).fault? = none ∧
    ∃ ranges, ranges.length = k ∧ (Pieces.ofText (ends k)).brackets = closings ranges := by
  have hw : ∀ r ∈ List.replicate k ("end", Directive.Kind.endLoop), Writes r.1 r.2 := by
    intro r hr
    rw [List.eq_of_mem_replicate hr]
    exact writes_end
  obtain ⟨hf, hm⟩ := marks_of_writes hw
  simp only [List.map_replicate] at hf hm
  exact ⟨hf, eq_closings_of_marks hm⟩

theorem head?_ends {k : Nat} {c : Char} (h : (ends k).toList.head? = some c) : c = '{' := by
  cases k with
  | zero => cases h
  | succ k =>
    rw [ends, List.replicate_succ, String.join_cons, String.toList_append] at h
    cases h
    rfl

theorem Joined.eq_append_closings {as w : List Bracket} {ranges : List Range}
    (h : Joined as (closings ranges) w) : w = as ++ closings ranges := by
  generalize hc : closings ranges = bs at h
  cases h with
  | apart => rfl
  | merged as x y bs =>
    -- No literal text begins the row.
    obtain ⟨range, ranges, rfl, hr, -⟩ := List.map_eq_cons_iff.1 hc
    cases hr

theorem closings_of_mapRange {w : List Bracket} {f g : Range → Range} {ranges : List Range}
    (h : closings ranges = w.map (Bracket.mapRange f)) :
    ∃ others, others.length = ranges.length ∧ w.map (Bracket.mapRange g) = closings others := by
  induction ranges generalizing w with
  | nil =>
    obtain rfl := List.map_eq_nil_iff.1 h.symm
    exact ⟨[], rfl, rfl⟩
  | cons range ranges ih =>
    obtain ⟨b, w, rfl, hb, hw⟩ := List.map_eq_cons_iff.1 h.symm
    obtain ⟨others, hlen, hothers⟩ := ih hw.symm
    cases b with
    | closing r =>
      refine ⟨g r :: others, congrArg (· + 1) hlen, ?_⟩
      rw [List.map_cons, hothers]
      rfl
    | _ => cases hb

theorem brackets_append_ends {source : String} (hf : (Pieces.ofText source).fault? = none)
    (hb : source.toList.getLast? ≠ some '{') (k : Nat) :
    (Pieces.ofText (source ++ ends k)).fault? = none ∧ ∃ ranges, ranges.length = k ∧
      (Pieces.ofText (source ++ ends k)).brackets =
        (Pieces.ofText source).brackets ++ closings ranges := by
  obtain ⟨l, hl, ht⟩ := Pieces.exists_layout hf
  have hs : ∀ b : Braces, l.trailing.getLast? = some b.brace → (ends k).toList.head? ≠ some b.brace := by
    intro b hlast hhead
    rw [head?_ends hhead] at hlast
    exact hb ((congrArg List.getLast? ht).symm.trans (Layout.getLast?_of_trailing hlast))
  obtain ⟨hfe, ranges, hlen, hranges⟩ := brackets_ends k
  obtain ⟨hfw, w, hw, hj⟩ := Pieces.joined_ofText hl ht hs hfe
  obtain ⟨others, hothers, he⟩ := closings_of_mapRange (hranges.symm.trans hw)
  rw [he] at hj
  exact ⟨hfw, others, hothers.trans hlen, hj.eq_append_closings⟩

section

variable {source : String} {tree : List Command}

theorem compile_false_append_ends (h : (compile false source).outcome = .ok tree)
    (hb : source.toList.getLast? ≠ some '{') (k : Nat) :
    (compile false (source ++ ends k)).outcome = .ok tree := by
  obtain ⟨hf, n, hn, hfin⟩ := compile_false_eq_ok_iff.1 h
  obtain ⟨hfw, ranges, -, hbrackets⟩ := brackets_append_ends hf hb k
  obtain ⟨m, hm, hmf⟩ := Nesting.finish_read_closings n ranges
  refine compile_false_eq_ok_iff.2 ⟨hfw, m, ?_, hmf.trans hfin⟩
  rw [hbrackets, List.foldlM_append, hn]
  exact hm

/-- Strictly there are too many ends, too few of them, or as many as are needed. -/
theorem compile_true_append_ends (h : (compile false source).outcome = .ok tree)
    (hb : source.toList.getLast? ≠ some '{') (k : Nat) :
    let w := (Pieces.ofText source).brackets
    ((openAfter 0 w < k ∨ kept 0 w ≠ w) ∧
        ∃ range, (compile true (source ++ ends k)).outcome = .error ⟨range, .strayEnd⟩) ∨
      ((k < openAfter 0 w ∧ kept 0 w = w) ∧
        ∃ range, (compile true (source ++ ends k)).outcome = .error ⟨range, .unclosedLoop⟩) ∨
      ((k = openAfter 0 w ∧ kept 0 w = w) ∧ (compile true (source ++ ends k)).outcome = .ok tree) := by
  intro w
  obtain ⟨hf, ranges, hlen, hbrackets⟩ := brackets_append_ends (compile_eq_ok h) hb k
  have hopen : openAfter 0 (Pieces.ofText (source ++ ends k)).brackets = openAfter 0 w - k := by
    rw [hbrackets, openAfter_append, openAfter_closings, hlen]
  by_cases hk : kept 0 (Pieces.ofText (source ++ ends k)).brackets =
      (Pieces.ofText (source ++ ends k)).brackets
  · have hmatched := compile_true_matched (compile_false_append_ends h hb k) hk
    rw [hopen] at hmatched
    rw [hbrackets] at hk
    obtain ⟨hw, hle⟩ := kept_append_closings_iff.1 hk
    rw [hlen] at hle
    obtain ⟨hz, ht⟩ | ⟨hn, -, header, -, -, -, -, he⟩ := hmatched
    · exact .inr (.inr ⟨⟨Nat.le_antisymm hle (Nat.le_of_sub_eq_zero hz), hw⟩, ht⟩)
    · exact .inr (.inl ⟨⟨Nat.lt_of_sub_ne_zero hn, hw⟩, header.range, he⟩)
  · obtain ⟨-, range, -, -, -, -, he⟩ := compile_true_stray hf hk
    refine .inl ⟨?_, range, he⟩
    by_contra hn
    obtain ⟨hle, hw⟩ := not_or.1 hn
    rw [hbrackets] at hk
    exact hk (kept_append_closings_iff.2 ⟨not_not.1 hw, hlen ▸ Nat.le_of_not_lt hle⟩)

/-- Ends behind a template that compiles leniently leave its tree as it is, however many there are.
Strictly the whole compiles just where each loop that was open gets its end and no `end` was stray
before. With fewer of them a loop is unclosed, and with more of them, or where one was stray before,
there is a stray `end`. -/
theorem compile_append_ends (h : (compile false source).outcome = .ok tree)
    (hb : source.toList.getLast? ≠ some '{') :
    let w := (Pieces.ofText source).brackets
    (∀ k, (compile false (source ++ ends k)).outcome = .ok tree) ∧
      ∀ k, (∀ tree', (compile true (source ++ ends k)).outcome = .ok tree' ↔
          (k = openAfter 0 w ∧ kept 0 w = w) ∧ tree' = tree) ∧
        (k < openAfter 0 w → kept 0 w = w →
          ∃ range, (compile true (source ++ ends k)).outcome = .error ⟨range, .unclosedLoop⟩) ∧
        (openAfter 0 w < k ∨ kept 0 w ≠ w →
          ∃ range, (compile true (source ++ ends k)).outcome = .error ⟨range, .strayEnd⟩) := by
  intro w
  refine ⟨compile_false_append_ends h hb, fun k => ?_⟩
  obtain ⟨hw, range, he⟩ | ⟨⟨hlt, hk⟩, range, he⟩ | ⟨⟨heq, hk⟩, ht⟩ := compile_true_append_ends h hb k
  · refine ⟨fun tree' => ⟨fun ht => ?_, ?_⟩, fun hlt hk => ?_, fun _ => ⟨range, he⟩⟩
    · cases he.symm.trans ht
    · rintro ⟨⟨rfl, hk⟩, -⟩
      exact (hw.elim (Nat.lt_irrefl _) (absurd hk ·)).elim
    · exact (hw.elim (fun hgt => Nat.lt_asymm hlt hgt) (absurd hk ·)).elim
  · refine ⟨fun tree' => ⟨fun ht => ?_, ?_⟩, fun _ _ => ⟨range, he⟩, fun hw => ?_⟩
    · cases he.symm.trans ht
    · rintro ⟨⟨rfl, -⟩, -⟩
      exact absurd hlt (Nat.lt_irrefl _)
    · exact (hw.elim (fun hgt => Nat.lt_asymm hlt hgt) (absurd hk ·)).elim
  · refine ⟨fun tree' => ⟨fun ht' => ?_, ?_⟩, fun hlt _ => ?_, fun hw => ?_⟩
    · exact ⟨⟨heq, hk⟩, Except.ok.inj (ht'.symm.trans ht)⟩
    · rintro ⟨-, rfl⟩
      exact ht
    · exact absurd hlt (heq ▸ Nat.lt_irrefl _)
    · exact (hw.elim (fun hgt => Nat.lt_irrefl _ (heq ▸ hgt)) (absurd hk ·)).elim

theorem compile_append_ends_nested :
    let source := "{{for(0..2)|i|}}a{{for(xs)|x|}}{{x}}\x7d"
    let tree : List Command := [.forRange 2 (some "i") [.literal "a",
      .forEach "xs" "x" none [.substitution "x" ⟨⟨1, 34⟩, ⟨1, 35⟩⟩, .literal "\x7d"] ⟨⟨1, 20⟩, ⟨1, 30⟩⟩]]
    (compile false source).outcome = .ok tree ∧
      (compile false (source ++ ends 3)).outcome = .ok tree ∧
      (compile true (source ++ ends 2)).outcome = .ok tree ∧
      (∃ range, (compile true (source ++ ends 1)).outcome = .error ⟨range, .unclosedLoop⟩) ∧
      ∃ range, (compile true (source ++ ends 3)).outcome = .error ⟨range, .strayEnd⟩ := by
  intro source tree
  have h : (compile false source).outcome = .ok tree := by
    unfold source tree
    cbv
  have hw : (Pieces.ofText source).brackets = [.opening (.forRange 2 (some "i") ⟨⟨1, 3⟩, ⟨1, 15⟩⟩),
      .leaf (.literal "a"), .opening (.forEach "xs" "x" none ⟨⟨1, 20⟩, ⟨1, 30⟩⟩),
      .leaf (.field "x" ⟨⟨1, 34⟩, ⟨1, 35⟩⟩), .leaf (.literal "\x7d")] := by
    unfold source
    cbv
  have hends := compile_append_ends h (by unfold source; decide)
  rw [hw] at hends
  obtain ⟨hlenient, hstrict⟩ := hends
  exact ⟨h, hlenient 3, ((hstrict 2).1 tree).2 ⟨⟨rfl, rfl⟩, rfl⟩, (hstrict 1).2.1 (by decide) rfl,
    (hstrict 3).2.2 (.inl (by decide))⟩

end

end TextTemplate
