import TextTemplate.Proofs.Command.Shape
import TextTemplate.Template.Nesting
import Mathlib

namespace TextTemplate

inductive Bracket
  | leaf (l : Leaf)
  | opening (header : LoopHeader)
  | closing (range : Range)
deriving DecidableEq, Inhabited

def Bracket.mark : Bracket → Mark
  | leaf l => .leaf l
  | opening header => .opening (header.command [])
  | closing _ => .closing

/-- A loop over numbers runs as often as its bounds are apart, and its first name counts the rounds.
A loop over a list gives its first name to the element and its second one to the count. -/
def Directive.bracket (d : Directive) : Bracket :=
  match d.kind with
  | .field name => .leaf (.field name d.range)
  | .forRange first stop names => .opening (.forRange (stop - first) names.head? d.range)
  | .forList list item further => .opening (.forEach list item further.head? d.range)
  | .endLoop => .closing d.range

namespace Pieces

def brackets : Pieces → List Bracket
  | done | broken _ => []
  | literal text rest => .leaf (.literal text) :: rest.brackets
  | directive d rest => d.bracket :: rest.brackets

def fault? : Pieces → Option Fault
  | done => none
  | broken fault => some fault
  | literal _ rest | directive _ rest => rest.fault?

end Pieces

/-- The number of loops that are open after a word, if `depth` are open before it. -/
def openAfter : Nat → List Bracket → Nat
  | depth, [] => depth
  | depth, .leaf _ :: w => openAfter depth w
  | depth, .opening _ :: w => openAfter (depth + 1) w
  | depth, .closing _ :: w => openAfter (depth - 1) w

/-- A word less the closes that are met where no loop is open. -/
def kept : Nat → List Bracket → List Bracket
  | _, [] => []
  | depth, .leaf l :: w => .leaf l :: kept depth w
  | depth, .opening header :: w => .opening header :: kept (depth + 1) w
  | 0, .closing _ :: w => kept 0 w
  | depth + 1, .closing range :: w => .closing range :: kept depth w

theorem openAfter_append (depth : Nat) (u v : List Bracket) :
    openAfter depth (u ++ v) = openAfter (openAfter depth u) v := by
  fun_induction openAfter depth u with
  | case1 => rfl
  | case2 depth l w ih => exact ih
  | case3 depth header w ih => exact ih
  | case4 depth range w ih => exact ih

theorem kept_append (depth : Nat) (u v : List Bracket) :
    kept depth (u ++ v) = kept depth u ++ kept (openAfter depth u) v := by
  fun_induction kept depth u with
  | case1 => rfl
  | case2 depth l w ih => simpa [kept, openAfter] using ih
  | case3 depth header w ih => simpa [kept, openAfter] using ih
  | case4 range w ih => simpa [kept, openAfter] using ih
  | case5 depth range w ih => simpa [kept, openAfter] using ih

theorem length_kept_le (depth : Nat) (w : List Bracket) : (kept depth w).length ≤ w.length := by
  fun_induction kept depth w <;> simp only [List.length_nil, List.length_cons] <;> omega

theorem kept_cons_eq {depth : Nat} {b : Bracket} {w : List Bracket} (h : kept depth (b :: w) = b :: w) :
    kept depth [b] = [b] ∧ kept (openAfter depth [b]) w = w := by
  have hw : kept depth [b] ++ kept (openAfter depth [b]) w = b :: w := by
    rw [← kept_append]
    exact h
  cases b with
  | leaf l => exact ⟨rfl, by simpa [kept] using hw⟩
  | opening header => exact ⟨rfl, by simpa [kept] using hw⟩
  | closing range =>
    cases depth with
    | zero =>
      have hl := congrArg List.length hw
      have := length_kept_le 0 w
      simp [kept, openAfter] at hl
      omega
    | succ depth => exact ⟨rfl, by simpa [kept] using hw⟩

theorem exists_stray {depth : Nat} {w : List Bracket} (h : kept depth w ≠ w) :
    ∃ u range v, w = u ++ .closing range :: v ∧ kept depth u = u ∧ openAfter depth u = 0 := by
  fun_induction kept depth w with
  | case1 => exact absurd rfl h
  | case2 depth l w ih =>
    obtain ⟨u, range, v, rfl, hk, ho⟩ := ih fun he => h (by rw [he])
    exact ⟨.leaf l :: u, range, v, rfl, by rw [kept, hk], ho⟩
  | case3 depth header w ih =>
    obtain ⟨u, range, v, rfl, hk, ho⟩ := ih fun he => h (by rw [he])
    exact ⟨.opening header :: u, range, v, rfl, by rw [kept, hk], ho⟩
  | case4 range w ih => exact ⟨[], range, w, rfl, rfl, rfl⟩
  | case5 depth range' w ih =>
    obtain ⟨u, range, v, rfl, hk, ho⟩ := ih fun he => h (by rw [he])
    exact ⟨.closing range' :: u, range, v, rfl, by rw [kept, hk], ho⟩

namespace Nesting

def marks (n : Nesting) : List Mark :=
  n.outer.reverse.flatMap (fun (header, before) =>
    marksAll before.reverse ++ [.opening (header.command [])]) ++ marksAll n.current.reverse

theorem marks_push (n : Nesting) (c : Command) : (n.push c).marks = n.marks ++ c.marks := by
  simp [marks, push, marksAll_append, marksAll]

theorem marks_enter (n : Nesting) (header : LoopHeader) :
    (n.enter header).marks = n.marks ++ [.opening (header.command [])] := by
  simp [marks, enter, marksAll]

theorem marks_command (header : LoopHeader) (body : List Command) :
    (header.command body).marks = .opening (header.command []) :: marksAll body ++ [.closing] := by
  cases header <;> rfl

theorem marks_close {n m : Nesting} (h : n.close? = some m) : m.marks = n.marks ++ [.closing] := by
  obtain ⟨current, outer⟩ := n
  cases outer with
  | nil => cases h
  | cons loop outer =>
    cases h
    simp [marks, marksAll_append, marksAll, marks_command]

theorem finish_close {n m : Nesting} (h : n.close? = some m) : m.finish = n.finish := by
  obtain ⟨current, outer⟩ := n
  cases outer with
  | nil => cases h
  | cons loop outer =>
    cases h
    rfl

theorem close?_eq_none {n : Nesting} (h : n.close? = none) : n.outer = [] := by
  obtain ⟨current, outer⟩ := n
  cases outer with
  | nil => rfl
  | cons loop outer => cases h

theorem length_outer_close {n m : Nesting} (h : n.close? = some m) :
    m.outer.length + 1 = n.outer.length := by
  obtain ⟨current, outer⟩ := n
  cases outer with
  | nil => cases h
  | cons loop outer =>
    cases h
    rfl

theorem marks_finish (n : Nesting) :
    marksAll n.finish = n.marks ++ List.replicate n.outer.length .closing := by
  obtain ⟨current, outer⟩ := n
  induction outer generalizing current with
  | nil => simp [finish, marks]
  | cons loop outer ih =>
    have hc : close? ⟨current, loop :: outer⟩ =
        some ⟨loop.1.command current.reverse :: loop.2, outer⟩ := rfl
    rw [← finish_close hc, ih, marks_close hc, List.length_cons, List.replicate_succ,
      List.append_assoc, List.singleton_append]

def read (strict : Bool) (n : Nesting) : Bracket → Except Fault Nesting
  | .leaf l => .ok (n.push l.command)
  | .opening header => .ok (n.enter header)
  | .closing range =>
    match n.close? with
    | some n => .ok n
    | none => if strict then .error ⟨range, .strayEnd⟩ else .ok n

theorem outcome_add (strict : Bool) (n : Nesting) (d : Directive) :
    (n.add strict d).outcome = n.read strict d.bracket := by
  obtain ⟨kind, range⟩ := d
  cases kind with
  | field name => rfl
  | forRange first stop names => rfl
  | forList list item further => rfl
  | endLoop =>
    rw [add, Directive.bracket, read]
    cases n.close? with
    | some m => rfl
    | none => cases strict <;> rfl

theorem outcome_addAll (strict : Bool) (ps : Pieces) (n : Nesting) :
    (addAll strict ps n).outcome = (do
      let m ← ps.brackets.foldlM (read strict) n
      match ps.fault? with
      | some fault => .error fault
      | none => .ok m) := by
  induction ps generalizing n with
  | done => rfl
  | broken fault => rfl
  | literal text rest ih =>
    rw [addAll, ih]
    rfl
  | directive d rest ih =>
    rw [addAll, Traced.outcome_report_bind, Traced.outcome_bind, outcome_add, Pieces.brackets,
      List.foldlM_cons, bind_assoc]
    simp only [ih]
    rfl

theorem read_false (n : Nesting) (b : Bracket) :
    ∃ m, n.read false b = .ok m ∧ m.marks = n.marks ++ (kept n.outer.length [b]).map Bracket.mark ∧
      m.outer.length = openAfter n.outer.length [b] := by
  cases b with
  | leaf l =>
    refine ⟨n.push l.command, rfl, ?_, rfl⟩
    rw [marks_push]
    cases l <;> rfl
  | opening header => exact ⟨n.enter header, rfl, marks_enter n header, rfl⟩
  | closing range =>
    cases hc : n.close? with
    | none =>
      have ho : n.outer = [] := close?_eq_none hc
      exact ⟨n, by simp [read, hc], by simp [ho, kept], by simp [ho, openAfter]⟩
    | some m =>
      have ho := length_outer_close hc
      refine ⟨m, by simp [read, hc], ?_, by simp [openAfter, ← ho]⟩
      rw [marks_close hc, ← ho]
      rfl

theorem read_true {n : Nesting} {b : Bracket} (h : kept n.outer.length [b] = [b]) :
    n.read true b = n.read false b := by
  cases b with
  | leaf l => rfl
  | opening header => rfl
  | closing range =>
    cases hc : n.close? with
    | none => simp [close?_eq_none hc, kept] at h
    | some m => simp [read, hc]

theorem foldlM_read_false (n : Nesting) (w : List Bracket) :
    ∃ m, w.foldlM (read false) n = .ok m ∧
      m.marks = n.marks ++ (kept n.outer.length w).map Bracket.mark ∧
      m.outer.length = openAfter n.outer.length w := by
  induction w generalizing n with
  | nil => exact ⟨n, rfl, by simp [kept], rfl⟩
  | cons b w ih =>
    obtain ⟨k, hk, hkm, hko⟩ := read_false n b
    obtain ⟨m, hm, hmm, hmo⟩ := ih k
    refine ⟨m, ?_, ?_, ?_⟩
    · rw [List.foldlM_cons, hk]
      exact hm
    · rw [hmm, hkm, hko, List.append_assoc, ← List.map_append, ← kept_append]
      rfl
    · rw [hmo, hko, ← openAfter_append]
      rfl

theorem foldlM_read_true {n : Nesting} {w : List Bracket} (h : kept n.outer.length w = w) :
    w.foldlM (read true) n = w.foldlM (read false) n := by
  induction w generalizing n with
  | nil => rfl
  | cons b w ih =>
    obtain ⟨hb, hw⟩ := kept_cons_eq h
    obtain ⟨k, hk, -, hko⟩ := read_false n b
    rw [List.foldlM_cons, List.foldlM_cons, read_true hb, hk]
    exact ih (by rw [hko, hw])

theorem read_ok {strict : Bool} {n m : Nesting} {b : Bracket} (h : n.read strict b = .ok m) :
    n.read false b = .ok m := by
  cases b with
  | leaf l => exact h
  | opening header => exact h
  | closing range =>
    rw [read] at h ⊢
    cases hc : n.close? with
    | some k => rwa [hc] at h
    | none =>
      rw [hc] at h
      cases strict with
      | true => cases h
      | false => exact h

theorem foldlM_read_ok {strict : Bool} {n m : Nesting} {w : List Bracket}
    (h : w.foldlM (read strict) n = .ok m) : w.foldlM (read false) n = .ok m := by
  induction w generalizing n with
  | nil => exact h
  | cons b w ih =>
    rw [List.foldlM_cons] at h ⊢
    cases hb : n.read strict b with
    | error fault =>
      rw [hb] at h
      cases h
    | ok k =>
      rw [hb] at h
      rw [read_ok hb]
      exact ih h

theorem foldlM_read_error {strict : Bool} {n : Nesting} {w : List Bracket} {fault : Fault}
    (h : w.foldlM (read strict) n = .error fault) :
    ∃ range, .closing range ∈ w ∧ fault = ⟨range, .strayEnd⟩ := by
  induction w generalizing n with
  | nil => cases h
  | cons b w ih =>
    rw [List.foldlM_cons] at h
    cases hb : n.read strict b with
    | ok k =>
      rw [hb] at h
      obtain ⟨range, hr, hf⟩ := ih h
      exact ⟨range, List.mem_cons_of_mem b hr, hf⟩
    | error e =>
      rw [hb] at h
      cases h
      cases b with
      | leaf l => cases hb
      | opening header => cases hb
      | closing range =>
        rw [read] at hb
        refine ⟨range, List.mem_cons_self, ?_⟩
        split at hb
        · cases hb
        · split at hb <;> cases hb
          rfl

theorem foldlM_read_stray {n : Nesting} {u : List Bracket} (hk : kept n.outer.length u = u)
    (ho : openAfter n.outer.length u = 0) (range : Range) (v : List Bracket) :
    (u ++ .closing range :: v).foldlM (read true) n = .error ⟨range, .strayEnd⟩ := by
  obtain ⟨m, hm, -, hmo⟩ := foldlM_read_false n u
  rw [List.foldlM_append, foldlM_read_true hk, hm]
  have hc : m.close? = none := by
    rw [close?, List.eq_nil_of_length_eq_zero (hmo.trans ho)]
  change ((m.read true (.closing range)).bind fun m => v.foldlM (read true) m) = _
  rw [read, hc]
  rfl

/-- Each loop that is open after a word was opened in it, and what follows there leaves as many loops
open as are inside that one. -/
theorem exists_opening {m : Nesting} {w : List Bracket} (h : w.foldlM (read false) {} = .ok m)
    {i : Nat} {header : LoopHeader} (hi : (m.outer.map Prod.fst)[i]? = some header) :
    ∃ u v, w = u ++ .opening header :: v ∧ kept 0 v = v ∧ openAfter 0 v = i := by
  induction w using List.reverseRecOn generalizing m i with
  | nil =>
    cases h
    simp at hi
  | append_singleton w b ih =>
    obtain ⟨n, hn, -⟩ := foldlM_read_false {} w
    have hb : n.read false b = .ok m := by
      rw [List.foldlM_append, hn] at h
      change (n.read false b).bind Except.ok = .ok m at h
      cases hr : n.read false b <;> simp_all [Except.bind]
    -- A loop that was open before `b` keeps its place in the word and may change its depth.
    have keep : ∀ {j}, (n.outer.map Prod.fst)[j]? = some header → kept j [b] = [b] →
        openAfter j [b] = i → ∃ u v, w ++ [b] = u ++ .opening header :: v ∧ kept 0 v = v ∧
          openAfter 0 v = i := by
      intro j hj hk ho
      obtain ⟨u, v, rfl, hkv, hov⟩ := ih hn hj
      refine ⟨u, v ++ [b], by simp, ?_, ?_⟩
      · rw [kept_append, hkv, hov, hk]
      · rw [openAfter_append, hov, ho]
    cases b with
    | leaf l =>
      cases hb
      exact keep hi rfl rfl
    | opening header' =>
      cases hb
      cases i with
      | zero =>
        obtain rfl : header' = header := by simpa [enter] using hi
        exact ⟨w, [], rfl, rfl, rfl⟩
      | succ i => exact keep hi rfl rfl
    | closing range =>
      obtain ⟨current, outer⟩ := n
      cases outer with
      | nil =>
        cases hb
        simp at hi
      | cons loop outer =>
        cases hb
        exact keep (j := i + 1) hi rfl rfl

end Nesting

open Nesting

def Nesting.settle (strict : Bool) (fault? : Option Fault) (m : Nesting) : Except Fault (List Command) :=
  match fault? with
  | some fault => .error fault
  | none => (m.complete strict).outcome

theorem outcome_compile (strict : Bool) (template : String) :
    (compile strict template).outcome = (Pieces.ofText template).brackets.foldlM (read strict) {} >>=
      settle strict (Pieces.ofText template).fault? := by
  rw [compile, Traced.outcome_bind, outcome_addAll]
  cases (Pieces.ofText template).brackets.foldlM (read strict) {} with
  | error fault => rfl
  | ok m => cases (Pieces.ofText template).fault? <;> rfl

theorem outcome_compile_of_none {strict : Bool} {template : String}
    (h : (Pieces.ofText template).fault? = none) :
    (compile strict template).outcome = (do
      let m ← (Pieces.ofText template).brackets.foldlM (read strict) {}
      (m.complete strict).outcome) := by
  rw [outcome_compile, h]
  rfl

theorem outcome_complete_false (m : Nesting) : (m.complete false).outcome = .ok m.finish := by
  rw [complete]
  cases m.outer <;> rfl

theorem compile_eq_ok {strict : Bool} {template : String} {tree : List Command}
    (h : (compile strict template).outcome = .ok tree) :
    (Pieces.ofText template).fault? = none := by
  rw [outcome_compile] at h
  cases hf : (Pieces.ofText template).fault? with
  | none => rfl
  | some fault =>
    rw [hf] at h
    cases hm : (Pieces.ofText template).brackets.foldlM (read strict) {} <;> rw [hm] at h <;> cases h

theorem compile_eq_ok_iff {strict : Bool} {template : String} {tree : List Command} :
    (compile strict template).outcome = .ok tree ↔ (Pieces.ofText template).fault? = none ∧
      ∃ m, (Pieces.ofText template).brackets.foldlM (read strict) {} = .ok m ∧
        (m.complete strict).outcome = .ok tree := by
  constructor
  · intro h
    have hf := compile_eq_ok h
    rw [outcome_compile_of_none hf] at h
    cases hm : (Pieces.ofText template).brackets.foldlM (read strict) {} with
    | error fault =>
      rw [hm] at h
      cases h
    | ok m =>
      rw [hm] at h
      exact ⟨hf, m, rfl, h⟩
  · rintro ⟨hf, m, hm, hc⟩
    rw [outcome_compile_of_none hf, hm]
    exact hc

theorem complete_ok {strict : Bool} {m : Nesting} {tree : List Command}
    (h : (m.complete strict).outcome = .ok tree) : m.finish = tree := by
  rw [complete] at h
  split at h
  · exact Except.ok.inj h
  · cases strict with
    | true => cases h
    | false => exact Except.ok.inj h

theorem complete_error {strict : Bool} {m : Nesting} {fault : Fault}
    (h : (m.complete strict).outcome = .error fault) :
    ∃ header, (m.outer.map Prod.fst)[0]? = some header ∧ fault = ⟨header.range, .unclosedLoop⟩ := by
  rw [complete] at h
  split at h
  · cases h
  · next header before outer ho =>
    cases strict with
    | false => cases h
    | true => exact ⟨header, by simp [ho], (Except.error.inj h).symm⟩

theorem settle_error {strict : Bool} {fault? : Option Fault} {m : Nesting} {fault : Fault}
    (h : m.settle strict fault? = .error fault) : fault? = some fault ∨
      ∃ header, (m.outer.map Prod.fst)[0]? = some header ∧ fault = ⟨header.range, .unclosedLoop⟩ := by
  cases fault? with
  | some e => exact .inl (congrArg some (Except.error.inj h))
  | none => exact .inr (complete_error h)

theorem compile_false_of_ok {strict : Bool} {template : String} {tree : List Command}
    (h : (compile strict template).outcome = .ok tree) :
    (compile false template).outcome = .ok tree := by
  obtain ⟨hf, m, hm, hc⟩ := compile_eq_ok_iff.1 h
  refine compile_eq_ok_iff.2 ⟨hf, m, foldlM_read_ok hm, ?_⟩
  rw [outcome_complete_false, complete_ok hc]

theorem compile_error {strict : Bool} {template : String} {fault : Fault}
    (h : (compile strict template).outcome = .error fault) :
    (Pieces.ofText template).fault? = some fault ∨
      (∃ range, .closing range ∈ (Pieces.ofText template).brackets ∧ fault = ⟨range, .strayEnd⟩) ∨
      ∃ header, .opening header ∈ (Pieces.ofText template).brackets ∧
        fault = ⟨header.range, .unclosedLoop⟩ := by
  rw [outcome_compile] at h
  cases hm : (Pieces.ofText template).brackets.foldlM (read strict) {} with
  | error e =>
    rw [hm] at h
    cases h
    exact .inr (.inl (foldlM_read_error hm))
  | ok m =>
    rw [hm] at h
    obtain hf | ⟨header, hi, rfl⟩ := settle_error h
    · exact .inl hf
    · obtain ⟨u, v, hw, -⟩ := exists_opening (foldlM_read_ok hm) hi
      refine .inr (.inr ⟨header, ?_, rfl⟩)
      rw [hw]
      simp

theorem compile_false_eq_ok_iff {template : String} {tree : List Command} :
    (compile false template).outcome = .ok tree ↔ (Pieces.ofText template).fault? = none ∧
      ∃ m, (Pieces.ofText template).brackets.foldlM (read false) {} = .ok m ∧ m.finish = tree := by
  obtain ⟨m, hm, -⟩ := foldlM_read_false {} (Pieces.ofText template).brackets
  constructor
  · intro h
    have hf := compile_eq_ok h
    rw [outcome_compile_of_none hf, hm] at h
    change (m.complete false).outcome = .ok tree at h
    rw [outcome_complete_false] at h
    exact ⟨hf, m, hm, Except.ok.inj h⟩
  · rintro ⟨hf, m, hm, rfl⟩
    rw [outcome_compile_of_none hf, hm]
    exact outcome_complete_false m

/-- Lenient compiling drops the closes that match nothing and puts the missing ones at the end. -/
theorem marksAll_compile {template : String} {tree : List Command}
    (h : (compile false template).outcome = .ok tree) :
    marksAll tree = (kept 0 (Pieces.ofText template).brackets).map Bracket.mark ++
      List.replicate (openAfter 0 (Pieces.ofText template).brackets) .closing := by
  obtain ⟨-, m, hm, rfl⟩ := compile_false_eq_ok_iff.1 h
  obtain ⟨m', hm', hw, ho⟩ := foldlM_read_false {} (Pieces.ofText template).brackets
  obtain rfl : m = m' := Except.ok.inj (hm.symm.trans hm')
  rw [marks_finish, hw, ho]
  rfl

/-- Strict compiling stops at the first close that matches nothing. -/
theorem compile_true_stray {template : String} (hf : (Pieces.ofText template).fault? = none)
    (hk : kept 0 (Pieces.ofText template).brackets ≠ (Pieces.ofText template).brackets) :
    ∃ u range v, (Pieces.ofText template).brackets = u ++ .closing range :: v ∧ kept 0 u = u ∧
      openAfter 0 u = 0 ∧ (compile true template).outcome = .error ⟨range, .strayEnd⟩ := by
  obtain ⟨u, range, v, hw, hku, hou⟩ := exists_stray hk
  refine ⟨u, range, v, hw, hku, hou, ?_⟩
  rw [outcome_compile_of_none hf, hw, foldlM_read_stray (n := {}) hku hou]
  rfl

/-- Where every close matches, strict compiling rejects just the words that leave a loop open, and
blames the innermost one. -/
theorem compile_true_matched {template : String} {tree : List Command}
    (h : (compile false template).outcome = .ok tree)
    (hk : kept 0 (Pieces.ofText template).brackets = (Pieces.ofText template).brackets) :
    openAfter 0 (Pieces.ofText template).brackets = 0 ∧ (compile true template).outcome = .ok tree ∨
      openAfter 0 (Pieces.ofText template).brackets ≠ 0 ∧
        ∃ u header v, (Pieces.ofText template).brackets = u ++ .opening header :: v ∧ kept 0 v = v ∧
          openAfter 0 v = 0 ∧ (compile true template).outcome = .error ⟨header.range, .unclosedLoop⟩ := by
  obtain ⟨hf, m, hm, rfl⟩ := compile_false_eq_ok_iff.1 h
  obtain ⟨m', hm', -, ho⟩ := foldlM_read_false {} (Pieces.ofText template).brackets
  obtain rfl : m = m' := Except.ok.inj (hm.symm.trans hm')
  have hc : (compile true template).outcome = (m.complete true).outcome := by
    rw [outcome_compile_of_none hf, foldlM_read_true (n := {}) hk, hm]
    rfl
  have ho : m.outer.length = openAfter 0 (Pieces.ofText template).brackets := ho
  rw [hc, ← ho]
  cases hm₀ : m.outer with
  | nil =>
    left
    refine ⟨rfl, ?_⟩
    rw [complete, hm₀]
    rfl
  | cons loop outer =>
    right
    have hi : (m.outer.map Prod.fst)[0]? = some loop.1 := by simp [hm₀]
    obtain ⟨u, v, hw, hkv, hov⟩ := exists_opening hm hi
    refine ⟨by simp, u, loop.1, v, hw, hkv, hov, ?_⟩
    rw [complete, hm₀]
    rfl

/-- A leniently compiled tree is its template's word with the brackets matched, and strict compiling
gives the same tree just where nothing had to be dropped or added. Otherwise it blames the first close
that matches nothing, or else the innermost loop that is left open. -/
theorem compile_matches_brackets {template : String} {tree : List Command}
    (h : (compile false template).outcome = .ok tree) :
    let w := (Pieces.ofText template).brackets
    marksAll tree = (kept 0 w).map Bracket.mark ++ List.replicate (openAfter 0 w) .closing ∧
      ((compile true template).outcome = .ok tree ↔ kept 0 w = w ∧ openAfter 0 w = 0) ∧
      (kept 0 w ≠ w → ∃ u range v, w = u ++ .closing range :: v ∧ kept 0 u = u ∧
        openAfter 0 u = 0 ∧ (compile true template).outcome = .error ⟨range, .strayEnd⟩) ∧
      (kept 0 w = w → openAfter 0 w ≠ 0 → ∃ u header v, w = u ++ .opening header :: v ∧
        kept 0 v = v ∧ openAfter 0 v = 0 ∧
        (compile true template).outcome = .error ⟨header.range, .unclosedLoop⟩) := by
  intro w
  have stray := compile_true_stray (compile_eq_ok h)
  refine ⟨marksAll_compile h, ⟨fun ht => ?_, ?_⟩, stray, ?_⟩
  · have hk : kept 0 w = w := by
      by_contra hk
      obtain ⟨u, range, v, -, -, -, he⟩ := stray hk
      cases he.symm.trans ht
    obtain ⟨ho, -⟩ | ⟨-, u, header, v, -, -, -, he⟩ := compile_true_matched h hk
    · exact ⟨hk, ho⟩
    · cases he.symm.trans ht
  · rintro ⟨hk, ho⟩
    obtain ⟨-, ht⟩ | ⟨hn, -⟩ := compile_true_matched h hk
    · exact ht
    · exact absurd ho hn
  · intro hk hn
    obtain ⟨ho, -⟩ | ⟨-, he⟩ := compile_true_matched h hk
    · exact absurd ho hn
    · exact he

theorem compile_matches_brackets_stray :
    let template := "{{for(3..1)}}{{end}}{{end}}{{for(xs)|x|}}a"
    let w := (Pieces.ofText template).brackets
    (compile false template).outcome =
      .ok [.forRange 0 none [], .forEach "xs" "x" none [.literal "a"] ⟨⟨1, 30⟩, ⟨1, 40⟩⟩] ∧
      kept 0 w ≠ w ∧ ∃ u range v, w = u ++ .closing range :: v ∧ kept 0 u = u ∧
        openAfter 0 u = 0 ∧ (compile true template).outcome = .error ⟨range, .strayEnd⟩ := by
  intro template w
  have h : (compile false template).outcome =
      .ok [.forRange 0 none [], .forEach "xs" "x" none [.literal "a"] ⟨⟨1, 30⟩, ⟨1, 40⟩⟩] := by
    cbv
  have hw : w = [.opening (.forRange 0 none ⟨⟨1, 3⟩, ⟨1, 12⟩⟩), .closing ⟨⟨1, 16⟩, ⟨1, 19⟩⟩,
      .closing ⟨⟨1, 23⟩, ⟨1, 26⟩⟩, .opening (.forEach "xs" "x" none ⟨⟨1, 30⟩, ⟨1, 40⟩⟩),
      .leaf (.literal "a")] := by
    unfold w template
    cbv
  have hk : kept 0 w ≠ w := by
    rw [hw]
    decide
  exact ⟨h, hk, (compile_matches_brackets h).2.2.1 hk⟩

end TextTemplate
