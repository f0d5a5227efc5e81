import TextTemplate.CommandLine.Run
import TextTemplate.Proofs.Command.Names
import TextTemplate.Proofs.Template.WellFormed
import TextTemplate.Proofs.Text.Quoted

namespace TextTemplate

namespace Command

def heading : Command → String
  | literal _ => "Literal"
  | substitution _ _ => "Substitution"
  | forRange _ _ _ => "ForRange"
  | forEach _ _ _ _ _ => "ForEach"

def details : Command → String
  | literal text => Quoted.encode text
  | substitution name _ => name
  | forRange count index _ => s!"count: {count}, index: {shownIndex index}"
  | forEach list item index _ _ => s!"list: {list}, item: {item}, index: {shownIndex index}"

def shown (c : Command) : Command := c.emptied.erase

end Command

mutual

/-- The commands of a tree in the order in which they begin, each loop with nothing in it, and the number
of loops around each of them. -/
def Command.outline (depth : Nat) : Command → List (Nat × Command)
  | .literal text => [(depth, .literal text)]
  | .substitution name range => [(depth, .substitution name range)]
  | .forRange count index body => (depth, .forRange count index []) :: outlineAll (depth + 1) body
  | .forEach list item index body range =>
    (depth, .forEach list item index [] range) :: outlineAll (depth + 1) body

def outlineAll (depth : Nat) : List Command → List (Nat × Command)
  | [] => []
  | c :: cs => c.outline depth ++ outlineAll depth cs

end

def line (entry : Nat × Command) : String :=
  indent entry.1 ++ s!"{entry.2.heading}({entry.2.details})"

namespace Command

theorem shown_emptied (c : Command) : c.emptied.shown = c.shown := by
  cases c <;> rfl

theorem line_erase (depth : Nat) (c : Command) :
    line (depth, c.emptied.erase) = line (depth, c.emptied) := by
  cases c <;> rfl

theorem outline_cons (depth : Nat) (c : Command) :
    c.outline depth = (depth, c.emptied) :: outlineAll (depth + 1) c.inner := by
  cases c <;> rfl

theorem dump_eq (depth : Nat) (c : Command) :
    c.dump depth = line (depth, c.emptied) ++ "\n" ++ dumpAll (depth + 1) c.inner := by
  -- The fixed texts are cut where the heading of a line ends, where its details begin and where it ends.
  cases c with
  | literal text =>
    show indent depth ++ ("Literal" ++ "(" ++ Quoted.encode text ++ (")" ++ "\n")) =
      indent depth ++ ("Literal" ++ "(" ++ Quoted.encode text ++ ")") ++ "\n" ++ ""
    simp only [String.append_assoc, String.append_empty]
  | substitution name range =>
    show indent depth ++ ("Substitution" ++ "(" ++ name ++ (")" ++ "\n")) =
      indent depth ++ ("Substitution" ++ "(" ++ name ++ ")") ++ "\n" ++ ""
    simp only [String.append_assoc, String.append_empty]
  | forRange count index body =>
    show indent depth ++ ("ForRange" ++ "(" ++ "count: " ++ toString count ++ ", index: " ++
          shownIndex index ++ (")" ++ "\n")) ++ dumpAll (depth + 1) body =
      indent depth ++ ("ForRange" ++ "(" ++ ("count: " ++ toString count ++ ", index: " ++
          shownIndex index) ++ ")") ++ "\n" ++ dumpAll (depth + 1) body
    simp only [String.append_assoc]
  | forEach list item index body range =>
    show indent depth ++ ("ForEach" ++ "(" ++ "list: " ++ list ++ ", item: " ++ item ++ ", index: " ++
          shownIndex index ++ (")" ++ "\n")) ++ dumpAll (depth + 1) body =
      indent depth ++ ("ForEach" ++ "(" ++ ("list: " ++ list ++ ", item: " ++ item ++ ", index: " ++
          shownIndex index) ++ ")") ++ "\n" ++ dumpAll (depth + 1) body
    simp only [String.append_assoc]

end Command

theorem map_outlineAll (depth : Nat) (cs : List Command) :
    (outlineAll depth cs).map Prod.snd = preorderAll cs := by
  induction cs using tree_induction generalizing depth with
  | nil => rfl
  | cons c cs hi hs =>
    rw [outlineAll, preorderAll, c.outline_cons, c.preorder_cons, List.map_append, List.map_cons, hi, hs]

section Outline

variable {depth : Nat}

theorem outlineAll_erase (cs : List Command) :
    outlineAll depth (eraseAll cs) = (outlineAll depth cs).map (Prod.map id Command.shown) := by
  induction cs using tree_induction generalizing depth with
  | nil => rfl
  | cons c cs hi hs =>
    rw [eraseAll, outlineAll, outlineAll, Command.outline_cons, c.outline_cons, c.emptied_erase,
      c.inner_erase, List.map_append, List.map_cons, hi, hs]
    exact congrArg (fun c => (depth, c) :: _) c.shown_emptied.symm

theorem depth_le_outlineAll (cs : List Command) : ∀ e ∈ outlineAll depth cs, depth ≤ e.1 := by
  induction cs using tree_induction generalizing depth with
  | nil => exact List.forall_mem_nil _
  | cons c cs hi hs =>
    rw [outlineAll, c.outline_cons]
    refine List.forall_mem_append.2 ⟨List.forall_mem_cons.2 ⟨Nat.le_refl depth, ?_⟩, hs⟩
    exact fun e he => Nat.le_of_succ_le (hi e he)

theorem toList_dumpAll (cs : List Command) :
    (dumpAll depth cs).toList = (outlineAll depth cs).flatMap fun e => (line e).toList ++ ['\n'] := by
  induction cs using tree_induction generalizing depth with
  | nil => rfl
  | cons c cs hi hs =>
    rw [dumpAll, outlineAll, c.dump_eq, c.outline_cons, List.flatMap_append, List.flatMap_cons, ← hi,
      ← hs]
    simp only [String.toList_append]
    rfl

theorem dumpAll_erase (cs : List Command) : dumpAll depth (eraseAll cs) = dumpAll depth cs := by
  induction cs using tree_induction generalizing depth with
  | nil => rfl
  | cons c cs hi hs =>
    rw [eraseAll, dumpAll, dumpAll, Command.dump_eq, c.dump_eq, c.emptied_erase, c.inner_erase,
      c.line_erase, hi, hs]

theorem outlineAll_cons_inj {a b : Command} {as bs : List Command}
    (h : outlineAll depth (a :: as) = outlineAll depth (b :: bs)) : a.emptied = b.emptied ∧
      outlineAll (depth + 1) a.inner = outlineAll (depth + 1) b.inner ∧
        outlineAll depth as = outlineAll depth bs := by
  -- Both outlines are cut where the depth falls back.
  have deeper : ∀ cs : List Command, ∀ e ∈ outlineAll (depth + 1) cs, decide (depth < e.1) = true :=
    fun cs e he => decide_eq_true (depth_le_outlineAll cs e he)
  have first : ∀ cs : List Command, ∀ e ∈ (outlineAll depth cs).head?, decide (depth < e.1) = false := by
    intro cs e he
    cases cs with
    | nil => cases he
    | cons c cs =>
      rw [outlineAll, c.outline_cons] at he
      obtain rfl := Option.some.inj he
      exact decide_eq_false (Nat.lt_irrefl depth)
  rw [outlineAll, outlineAll, a.outline_cons, b.outline_cons] at h
  obtain ⟨hab, h⟩ := List.cons.inj h
  obtain ⟨hi, hs⟩ := append_inj_of_head (deeper _) (deeper _) (first as) (first bs) h
  exact ⟨(Prod.mk.inj hab).2, hi, hs⟩

theorem outlineAll_inj {as bs : List Command} (h : outlineAll depth as = outlineAll depth bs) : as = bs := by
  induction as using tree_induction generalizing depth bs with
  | nil =>
    cases bs with
    | nil => rfl
    | cons b bs =>
      rw [outlineAll, outlineAll, b.outline_cons] at h
      cases h
  | cons a as hi hs =>
    cases bs with
    | nil =>
      rw [outlineAll, outlineAll, a.outline_cons] at h
      cases h
    | cons b bs =>
      obtain ⟨he, h, h'⟩ := outlineAll_cons_inj h
      rw [Command.eq_of_emptied he (hi h), hs h']

end Outline

theorem Mark.Printable.isName {m : Mark} (h : m.Printable) {c : Command} (hc : m.command? = some c) :
    ∀ x ∈ c.names, IsName x.toList := by
  cases m with
  | leaf l =>
    cases l with
    | literal text =>
      cases hc
      exact List.forall_mem_nil _
    | field name range =>
      cases hc
      exact List.forall_mem_singleton.2 h.1
  | opening loop =>
    cases hc
    match c, h with
    | .forRange count index [], h =>
      intro x hx
      have hx' : x ∈ index := Option.mem_toList.1 (by simpa [Command.names, namesAll] using hx)
      exact (h.2 x hx').1.isName
    | .forEach list item index [] range, h =>
      refine List.forall_mem_cons.2 ⟨h.1.1, List.forall_mem_cons.2 ⟨h.2.1.1.isName, fun x hx => ?_⟩⟩
      have hx' : x ∈ index := Option.mem_toList.1 (by simpa [namesAll] using hx)
      exact (h.2.2 x hx').1.isName
  | closing => cases hc

theorem isName_of_compile {strict : Bool} {source : String} {tree : List Command}
    (h : (compile strict source).outcome = .ok tree) :
    ∀ c ∈ preorderAll tree, ∀ x ∈ c.names, IsName x.toList := by
  intro c hc x hx
  obtain ⟨b, hb, hbc⟩ := exists_bracket h hc
  have hp : b.mark.Printable := Pieces.printable_ofCursor _ b hb
  exact hp.isName hbc x hx

theorem shownIndex_inj {i j : Option String} (hi : ∀ x ∈ i.toList, IsName x.toList)
    (hj : ∀ x ∈ j.toList, IsName x.toList) (h : shownIndex i = shownIndex j) : i = j := by
  have bar : ∀ x : String, IsName x.toList → "-" ≠ x := by
    rintro _ hx rfl
    exact hx.not_mem rfl (by decide) List.mem_cons_self
  cases i with
  | none =>
    cases j with
    | none => rfl
    | some y => exact absurd h (bar y (hj y List.mem_cons_self))
  | some x =>
    cases j with
    | none => exact absurd h.symm (bar x (hi x List.mem_cons_self))
    | some y => exact congrArg some h

theorem newline_not_mem_shownIndex {i : Option String} (hi : ∀ x ∈ i.toList, IsName x.toList) :
    '\n' ∉ (shownIndex i).toList := by
  cases i with
  | none => decide
  | some x => exact (hi x List.mem_cons_self).not_mem rfl (by decide)

namespace Command

variable {c d : Command}

theorem names_forRange {count : Nat} {index : Option String} {body : List Command} {p : String → Prop}
    (h : ∀ x ∈ (forRange count index body).names, p x) : ∀ x ∈ index.toList, p x :=
  (List.forall_mem_append.1 h).1

theorem names_forEach {list item : String} {index : Option String} {body : List Command} {range : Range}
    {p : String → Prop} (h : ∀ x ∈ (forEach list item index body range).names, p x) :
    p list ∧ p item ∧ ∀ x ∈ index.toList, p x := by
  obtain ⟨hl, h⟩ := List.forall_mem_cons.1 h
  obtain ⟨hx, h⟩ := List.forall_mem_cons.1 h
  exact ⟨hl, hx, (List.forall_mem_append.1 h).1⟩

theorem parenthesis_not_mem_heading (c : Command) : '(' ∉ c.heading.toList := by
  cases c <;> simp [heading]

theorem head?_heading (c : Command) (text : List Char) :
    ∀ x ∈ (c.heading.toList ++ text).head?, decide (x = ' ') = false := by
  cases c <;> simp [heading]

theorem toList_details_forRange (count : Nat) (index : Option String) (body : List Command) :
    (forRange count index body).details.toList = "count: ".toList ++
      (count.repr.toList ++ ',' :: (" index: ".toList ++ (shownIndex index).toList)) := by
  show ("count: " ++ count.repr ++ ("," ++ " index: ") ++ shownIndex index).toList = _
  simp only [String.toList_append, List.append_assoc]
  rfl

theorem toList_details_forEach (list item : String) (index : Option String) (body : List Command)
    (range : Range) : (forEach list item index body range).details.toList = "list: ".toList ++
      (list.toList ++ ',' :: (" item: ".toList ++
        (item.toList ++ ',' :: (" index: ".toList ++ (shownIndex index).toList)))) := by
  show ("list: " ++ list ++ ("," ++ " item: ") ++ item ++ ("," ++ " index: ") ++
    shownIndex index).toList = _
  simp only [String.toList_append, List.append_assoc]
  rfl

theorem details_inj (hc : ∀ x ∈ c.names, IsName x.toList) (hd : ∀ x ∈ d.names, IsName x.toList)
    (hh : c.heading = d.heading) (h : c.details = d.details) : c.shown = d.shown := by
  cases c with
  | literal text =>
    cases d with
    | literal text' => exact congrArg literal (Quoted.encode_injective h)
    | _ => exact absurd hh (by simp [heading])
  | substitution name range =>
    cases d with
    | substitution name' range' => exact congrArg (substitution · {}) h
    | _ => exact absurd hh (by simp [heading])
  | forRange count index body =>
    cases d with
    | forRange count' index' body' =>
      have h' := congrArg String.toList h
      rw [toList_details_forRange, toList_details_forRange] at h'
      obtain ⟨hn, hs⟩ := append_cons_inj (not_mem_repr rfl count) (not_mem_repr rfl count')
        (List.append_cancel_left h')
      have hcount : count = count' := by
        rw [← decimalValue_repr count, hn, decimalValue_repr]
      obtain rfl := shownIndex_inj (names_forRange hc) (names_forRange hd)
        (String.toList_inj.1 (List.append_cancel_left hs))
      rw [hcount]
      rfl
    | _ => exact absurd hh (by simp [heading])
  | forEach list item index body range =>
    cases d with
    | forEach list' item' index' body' range' =>
      obtain ⟨hl, hx, hi⟩ := names_forEach hc
      obtain ⟨hl', hx', hi'⟩ := names_forEach hd
      have h' := congrArg String.toList h
      rw [toList_details_forEach, toList_details_forEach] at h'
      obtain ⟨hlist, hrest⟩ := append_cons_inj (hl.not_mem rfl (by decide)) (hl'.not_mem rfl (by decide))
        (List.append_cancel_left h')
      obtain ⟨hitem, hindex⟩ := append_cons_inj (hx.not_mem rfl (by decide))
        (hx'.not_mem rfl (by decide)) (List.append_cancel_left hrest)
      obtain rfl := String.toList_inj.1 hlist
      obtain rfl := String.toList_inj.1 hitem
      obtain rfl := shownIndex_inj hi hi' (String.toList_inj.1 (List.append_cancel_left hindex))
      rfl
    | _ => exact absurd hh (by simp [heading])

theorem newline_not_mem_details (hc : ∀ x ∈ c.names, IsName x.toList) : '\n' ∉ c.details.toList := by
  cases c with
  | literal text => exact Quoted.newline_not_mem_encode text
  | substitution name range => exact (hc name List.mem_cons_self).not_mem rfl (by decide)
  | forRange count index body =>
    have hi := names_forRange hc
    rw [toList_details_forRange]
    simp only [List.mem_append, List.mem_cons, not_or]
    exact ⟨by decide, not_mem_repr rfl count, by decide, by decide, newline_not_mem_shownIndex hi⟩
  | forEach list item index body range =>
    obtain ⟨hl, hx, hi⟩ := names_forEach hc
    rw [toList_details_forEach]
    simp only [List.mem_append, List.mem_cons, not_or]
    exact ⟨by decide, hl.not_mem rfl (by decide), by decide, by decide, hx.not_mem rfl (by decide),
      by decide, by decide, newline_not_mem_shownIndex hi⟩

end Command

theorem toList_line (entry : Nat × Command) : (line entry).toList =
    List.replicate (2 * entry.1) ' ' ++
      (entry.2.heading.toList ++ '(' :: (entry.2.details.toList ++ [')'])) := by
  have h : line entry = indent entry.1 ++ (entry.2.heading ++ "(" ++ entry.2.details ++ ")") := by
    unfold line
    generalize entry.2.details = said
    rfl
  rw [h, indent]
  simp only [String.toList_append, String.toList_ofList, List.append_assoc]
  rfl

theorem line_inj {a b : Nat × Command} (ha : ∀ x ∈ a.2.names, IsName x.toList)
    (hb : ∀ x ∈ b.2.names, IsName x.toList) (h : line a = line b) :
    Prod.map id Command.shown a = Prod.map id Command.shown b := by
  have h' := congrArg String.toList h
  rw [toList_line, toList_line] at h'
  have blank : ∀ n, ∀ x ∈ List.replicate n ' ', decide (x = ' ') = true :=
    fun n x hx => decide_eq_true (List.eq_of_mem_replicate hx)
  obtain ⟨hdepth, hrest⟩ :=
    append_inj_of_head (blank _) (blank _) (a.2.head?_heading _) (b.2.head?_heading _) h'
  obtain ⟨hheading, hdetails⟩ :=
    append_cons_inj a.2.parenthesis_not_mem_heading b.2.parenthesis_not_mem_heading hrest
  have hd : a.1 = b.1 := by
    have hl := congrArg List.length hdepth
    simp only [List.length_replicate] at hl
    omega
  exact Prod.ext hd (Command.details_inj ha hb (String.toList_inj.1 hheading)
    (String.toList_inj.1 (List.append_cancel_right hdetails)))

theorem newline_not_mem_line {e : Nat × Command} (h : ∀ x ∈ e.2.names, IsName x.toList) :
    '\n' ∉ (line e).toList := by
  rw [toList_line]
  simp only [List.mem_append, List.mem_cons, not_or]
  refine ⟨fun hm => ?_, ?_, by decide, e.2.newline_not_mem_details h, by decide, nofun⟩
  · exact absurd (List.eq_of_mem_replicate hm) (by decide)
  · cases e.2 <;> simp [Command.heading]

/-- Dumps that are the same tell the same tree, as long as its names can be read. -/
theorem dumpAll_inj {as bs : List Command} {depth : Nat}
    (ha : ∀ c ∈ preorderAll as, ∀ x ∈ c.names, IsName x.toList)
    (hb : ∀ c ∈ preorderAll bs, ∀ x ∈ c.names, IsName x.toList)
    (h : dumpAll depth as = dumpAll depth bs) : eraseAll as = eraseAll bs := by
  have names : ∀ cs, (∀ c ∈ preorderAll cs, ∀ x ∈ c.names, IsName x.toList) →
      ∀ e ∈ outlineAll depth cs, ∀ x ∈ e.2.names, IsName x.toList := by
    intro cs hcs e he
    exact hcs e.2 (map_outlineAll depth cs ▸ List.mem_map_of_mem he)
  have hrows : (outlineAll depth as).flatMap (fun e => (line e).toList ++ ['\n']) =
      (outlineAll depth bs).flatMap (fun e => (line e).toList ++ ['\n']) := by
    rw [← toList_dumpAll, ← toList_dumpAll, h]
  have houtline : outlineAll depth (eraseAll as) = outlineAll depth (eraseAll bs) := by
    rw [outlineAll_erase, outlineAll_erase]
    refine map_eq_of_rows (fun e he => newline_not_mem_line (names as ha e he))
      (fun e he => newline_not_mem_line (names bs hb e he)) (fun a hma b hmb hab => ?_) hrows
    exact line_inj (names as ha a hma) (names bs hb b hmb) (String.toList_inj.1 hab)
  exact outlineAll_inj houtline

/-- Two templates are dumped alike when their trees are the same but for source ranges, and only then. A
dump has one line for each command, in the order in which the commands begin, indented by two spaces for
each loop around the command. -/
theorem dump_identifies {strict₁ strict₂ : Bool} {source₁ source₂ : String} {as bs : List Command}
    (ha : (compile strict₁ source₁).outcome = .ok as) (hb : (compile strict₂ source₂).outcome = .ok bs) :
    (dumpAll 0 as = dumpAll 0 bs ↔ eraseAll as = eraseAll bs) ∧
      (dumpAll 0 as).toList = (outlineAll 0 as).flatMap (fun e => (line e).toList ++ ['\n']) ∧
        (∀ e ∈ outlineAll 0 as, '\n' ∉ (line e).toList) ∧
          (outlineAll 0 as).map Prod.snd = preorderAll as := by
  have hna := isName_of_compile ha
  refine ⟨⟨dumpAll_inj hna (isName_of_compile hb), fun h => ?_⟩, toList_dumpAll as, fun e he => ?_,
    map_outlineAll 0 as⟩
  · rw [← dumpAll_erase as, h, dumpAll_erase]
  · exact newline_not_mem_line (hna e.2 (map_outlineAll 0 as ▸ List.mem_map_of_mem he))

theorem dump_identifies_rounds :
    let source₁ := "\"\n{{for (0..2)}} {{x}}"
    let source₂ := "\"\n{{ for (1..3) }} {{ x }}{{end}}"
    let as : List Command :=
      [.literal "\"\n", .forRange 2 none [.literal " ", .substitution "x" ⟨⟨2, 18⟩, ⟨2, 19⟩⟩]]
    let bs : List Command :=
      [.literal "\"\n", .forRange 2 none [.literal " ", .substitution "x" ⟨⟨2, 21⟩, ⟨2, 22⟩⟩]]
    (compile false source₁).outcome = .ok as ∧ (compile true source₂).outcome = .ok bs ∧
      (dumpAll 0 as = dumpAll 0 bs ↔ eraseAll as = eraseAll bs) ∧
        (dumpAll 0 as).toList = (outlineAll 0 as).flatMap (fun e => (line e).toList ++ ['\n']) ∧
          (∀ e ∈ outlineAll 0 as, '\n' ∉ (line e).toList) ∧
            (outlineAll 0 as).map Prod.snd = preorderAll as := by
  intro source₁ source₂ as bs
  have ha : (compile false source₁).outcome = .ok as := by
    unfold source₁ as
    cbv
  have hb : (compile true source₂).outcome = .ok bs := by
    unfold source₂ bs
    cbv
  exact ⟨ha, hb, dump_identifies ha hb⟩

example : dumpAll 0 [.literal "\"\n", .forRange 2 none [.substitution "x" {}]] =
    "Literal(\"\\\"\\n\")\nForRange(count: 2, index: -)\n  Substitution(x)\n" := by decide +kernel

end TextTemplate
