import TextTemplate.Proofs.Directive.Printing
import TextTemplate.Proofs.Template.Layout

namespace TextTemplate

namespace Mark

def literal? : Mark → Option String
  | leaf (.literal text) => some text
  | _ => none

def Printable : Mark → Prop
  | leaf (.literal text) => text ≠ "" ∧ Plain text.toList
  | leaf (.field name _) => (Token.Kind.name name).Valid
  | opening (.forRange count index []) => count < numberBound ∧ ∀ i ∈ index, Binder i
  | opening (.forEach list item index [] _) =>
    (Token.Kind.name list).Valid ∧ Binder item ∧ ∀ i ∈ index, Binder i
  | opening _ => False
  | closing => True

/-- The directives that a mark is printed as. Bounds are as far apart as the loop has rounds, and
where a loop counts its rounds it may bind further names. -/
inductive PrintedAs : Mark → Directive.Kind → Prop
  | field (name range) : PrintedAs (leaf (.field name range)) (.field name)
  | forRange {count index first stop further} (hc : stop - first = count) (hf : first < numberBound)
    (hs : stop < numberBound) (hi : index = none → further = []) (hb : ∀ x ∈ further, Binder x) :
    PrintedAs (opening (.forRange count index []))
      (.forRange first stop (index.toList ++ further))
  | forEach {list item index range further} (hi : index = none → further = [])
    (hb : ∀ x ∈ further, Binder x) :
    PrintedAs (opening (.forEach list item index [] range))
      (.forList list item (index.toList ++ further))
  | closing : PrintedAs closing .endLoop

end Mark

/-- Templates for a tree that is spelled out. Two literals side by side are parted by an empty
directive. -/
inductive Printed : List Mark → List Char → Prop
  | nil : Printed [] []
  | literal {text ms rest} (hn : ∀ m ∈ ms.head?, m.literal? = none) (h : Printed ms rest) :
    Printed (.leaf (.literal text) :: ms) (text.toList ++ rest)
  | parted {a b ms gap rest} (hg : Shows none gap) (h : Printed (.leaf (.literal b) :: ms) rest) :
    Printed (.leaf (.literal a) :: .leaf (.literal b) :: ms) (a.toList ++ (gap ++ rest))
  | directive {m kind shown ms rest} (hk : m.PrintedAs kind) (hs : Shows (some kind) shown)
    (h : Printed ms rest) : Printed (m :: ms) (shown ++ rest)

/-- No literal ends with an opening brace, but for the last mark of all. -/
def Printable (tree : List Command) : Prop :=
  (∀ m ∈ marksAll tree, m.Printable) ∧
    ∀ m ∈ (marksAll tree).dropLast, ∀ text ∈ m.literal?, text.toList.getLast? ≠ some '{'

theorem head?_append_of_imp {index : Option String} {further : List String}
    (hi : index = none → further = []) : (index.toList ++ further).head? = index := by
  cases index with
  | none => rw [hi rfl]; rfl
  | some i => rfl

namespace Mark.PrintedAs

variable {m : Mark} {kind : Directive.Kind}

theorem mark_eq (h : m.PrintedAs kind) : kind.mark = m.erase := by
  cases h with
  | field name range => rfl
  | forRange hc hf hs hi hb =>
    simp only [Directive.Kind.mark, head?_append_of_imp hi, hc]
    rfl
  | forEach hi hb =>
    simp only [Directive.Kind.mark, head?_append_of_imp hi]
    rfl
  | closing => rfl

theorem literal?_eq_none (h : m.PrintedAs kind) : m.literal? = none := by
  cases h <;> rfl

theorem valid (h : m.PrintedAs kind) (hm : m.Printable) : kind.Valid := by
  cases h with
  | field name range => exact hm
  | forRange hc hf hs hi hb => exact ⟨hf, hs, binder_append hm.2 hb⟩
  | forEach hi hb =>
    refine ⟨hm.1, fun x hx => ?_⟩
    obtain rfl | hx := List.mem_cons.1 hx
    · exact hm.2.1
    · exact binder_append hm.2.2 hb x hx
  | closing => trivial

end Mark.PrintedAs

theorem literalMarks_toList {text : String} (h : text ≠ "") :
    literalMarks text.toList = [.leaf (.literal text)] := by
  cases ht : text.toList with
  | nil => exact absurd (String.toList_eq_nil_iff.1 ht) h
  | cons c rest =>
    rw [literalMarks, ← ht, String.ofList_toList]
    nofun

def Layout.front : Layout → List Char
  | last literal | braced literal _ _ _ => literal

theorem Printed.exists_layout {ms : List Mark} {text : List Char} (h : Printed ms text)
    (hm : ∀ m ∈ ms, m.Printable)
    (hl : ∀ m ∈ ms.dropLast, ∀ t ∈ m.literal?, t.toList.getLast? ≠ some '{') :
    ∃ l : Layout, l.WellFormed ∧ l.text = text ∧ l.marks = ms.map Mark.erase ∧
      ((∀ m ∈ ms.head?, m.literal? = none) → l.front = []) := by
  induction h with
  | nil => exact ⟨.last [], plain_nil, rfl, rfl, fun _ => rfl⟩
  | @literal text ms rest hn h ih =>
    have hm' : ∀ m ∈ ms, m.Printable := fun m hmem => hm m (List.mem_cons_of_mem _ hmem)
    obtain ⟨hne, hp⟩ : text ≠ "" ∧ Plain text.toList := hm _ List.mem_cons_self
    -- Behind a literal there is nothing, or a directive with no literal of its own in front of it.
    cases ms with
    | nil =>
      cases h
      refine ⟨.last text.toList, hp, (List.append_nil _).symm, literalMarks_toList hne, fun hn => ?_⟩
      cases hn _ rfl
    | cons m ms =>
      obtain ⟨l, hw, ht, hmk, hf⟩ := ih hm' fun m' hmem => hl m' (List.mem_cons_of_mem _ hmem)
      have he : text.toList.getLast? ≠ some '{' := hl _ List.mem_cons_self text rfl
      have hf := hf hn
      cases l with
      | last lit =>
        obtain rfl : lit = [] := hf
        cases hmk
      | braced lit body kind l =>
        obtain rfl : lit = [] := hf
        obtain ⟨-, -, hb, hk, hw⟩ := hw
        refine ⟨.braced text.toList body kind l, ⟨hp, he, hb, hk, hw⟩, ?_, ?_, fun hn => ?_⟩
        · rw [← ht]
          rfl
        · rw [List.map_cons, ← hmk, Layout.marks, literalMarks_toList hne]
          rfl
        · cases hn _ rfl
  | @parted a b ms gap rest hg h ih =>
    obtain ⟨l, hw, ht, hmk, -⟩ := ih (fun m hmem => hm m (List.mem_cons_of_mem _ hmem))
      fun m hmem => hl m (List.mem_cons_of_mem _ hmem)
    obtain ⟨hne, hp⟩ : a ≠ "" ∧ Plain a.toList := hm _ List.mem_cons_self
    have he : a.toList.getLast? ≠ some '{' := hl _ List.mem_cons_self a rfl
    obtain ⟨body, rfl, hb, hk⟩ := hg.makes (by simp)
    refine ⟨.braced a.toList body none l, ⟨hp, he, hb, hk, hw⟩, ?_, ?_, fun hn => ?_⟩
    · simp [Layout.text, ht]
    · rw [List.map_cons, ← hmk, Layout.marks, literalMarks_toList hne]
      rfl
    · cases hn _ rfl
  | @directive m kind shown ms rest hk hs h ih =>
    have hl' : ∀ m ∈ ms.dropLast, ∀ t ∈ m.literal?, t.toList.getLast? ≠ some '{' := by
      intro m' hmem
      cases ms with
      | nil => cases hmem
      | cons m'' ms => exact hl m' (List.mem_cons_of_mem _ hmem)
    obtain ⟨l, hw, ht, hmk, -⟩ := ih (fun m hmem => hm m (List.mem_cons_of_mem _ hmem)) hl'
    have hv : kind.Valid := hk.valid (hm m List.mem_cons_self)
    obtain ⟨body, rfl, hb, hmakes⟩ := hs.makes fun k hk => Option.some.inj hk ▸ hv
    refine ⟨.braced [] body (some kind) l, ⟨plain_nil, by simp, hb, hmakes, hw⟩, ?_, ?_, fun _ => rfl⟩
    · simp [Layout.text, ht]
    · rw [List.map_cons, ← hmk, ← hk.mark_eq]
      rfl

namespace Nesting

theorem foldlM_read_loop {strict : Bool} {n : Nesting} {header : LoopHeader} {w : List Bracket}
    {body : List Command} (h : w.foldlM (read strict) (n.enter header) =
      .ok ⟨body.reverse, (header, n.current) :: n.outer⟩) (range : Range) :
    (.opening header :: (w ++ [.closing range])).foldlM (read strict) n =
      .ok (n.push (header.command body)) := by
  have ho : n.read strict (.opening header) = .ok (n.enter header) := rfl
  rw [List.foldlM_cons, ho]
  change (w ++ [Bracket.closing range]).foldlM (read strict) (n.enter header) = _
  rw [List.foldlM_append, h]
  change [Bracket.closing range].foldlM (read strict) ⟨body.reverse, (header, n.current) :: n.outer⟩ = _
  rw [List.foldlM_cons, read, close?]
  simp only [List.reverse_reverse]
  rfl

theorem erase_command {header header' : LoopHeader} {body body' : List Command}
    (h : (header'.command []).erase = (header.command []).erase)
    (hb : eraseAll body' = eraseAll body) :
    (header'.command body').erase = (header.command body).erase := by
  cases header <;> cases header' <;> simp_all [LoopHeader.command, Command.erase]

theorem exists_read_loop (header : LoopHeader) {body : List Command}
    (ih : ∀ (w : List Bracket) (n : Nesting),
      (w.map Bracket.mark).map Mark.erase = (marksAll body).map Mark.erase →
      ∃ body', eraseAll body' = eraseAll body ∧
        ∀ strict, w.foldlM (read strict) n = .ok ⟨body'.reverse ++ n.current, n.outer⟩)
    {w : List Bracket} {n : Nesting}
    (h : (w.map Bracket.mark).map Mark.erase = (header.command body).marks.map Mark.erase) :
    ∃ c : Command, c.erase = (header.command body).erase ∧
      ∀ strict, w.foldlM (read strict) n = .ok (n.push c) := by
  rw [marks_command, List.map_append, List.map_cons, List.map_map] at h
  obtain ⟨u, v, rfl, hu, hv⟩ := List.map_eq_append_iff.1 h
  obtain ⟨b, u, rfl, hb, hu'⟩ := List.map_eq_cons_iff.1 hu
  obtain ⟨e, v, rfl, he, hv'⟩ := List.map_eq_cons_iff.1 hv
  obtain rfl := List.map_eq_nil_iff.1 hv'
  obtain ⟨header', rfl, hh⟩ : ∃ header', b = .opening header' ∧
      (header'.command []).erase = (header.command []).erase := by
    cases b with
    | leaf l => cases l <;> cases hb
    | opening header' => exact ⟨header', rfl, Mark.opening.inj hb⟩
    | closing range => cases hb
  obtain ⟨range, rfl⟩ : ∃ range, e = .closing range := by
    cases e with
    | leaf l => cases l <;> cases he
    | opening header' => cases he
    | closing range => exact ⟨range, rfl⟩
  obtain ⟨body', hbody, hr⟩ := ih u (n.enter header') (by rw [List.map_map, hu'])
  refine ⟨header'.command body', erase_command hh hbody, fun strict => ?_⟩
  exact foldlM_read_loop ((hr strict).trans (by rw [enter, List.append_nil])) range

theorem exists_read_leaf {l : Leaf} {w : List Bracket} {n : Nesting}
    (h : (w.map Bracket.mark).map Mark.erase = l.command.marks.map Mark.erase) :
    ∃ c : Command, c.erase = l.command.erase ∧ ∀ strict, w.foldlM (read strict) n = .ok (n.push c) := by
  have hl : l.command.marks = [.leaf l] := by cases l <;> rfl
  rw [hl, List.map_map] at h
  obtain ⟨b, w, rfl, hb, hw⟩ := List.map_eq_cons_iff.1 h
  obtain rfl := List.map_eq_nil_iff.1 hw
  cases b with
  | leaf l' =>
    refine ⟨l'.command, ?_, fun _ => rfl⟩
    have hc : (Mark.leaf l').erase.command? = (Mark.leaf l).erase.command? := congrArg _ hb
    rw [Mark.command?_erase, Mark.command?_erase] at hc
    exact Option.some.inj hc
  | opening header => cases l <;> cases hb
  | closing range => cases l <;> cases hb

mutual

theorem exists_read : ∀ (c : Command) (w : List Bracket) (n : Nesting),
    (w.map Bracket.mark).map Mark.erase = c.marks.map Mark.erase →
    ∃ c' : Command, c'.erase = c.erase ∧ ∀ strict, w.foldlM (read strict) n = .ok (n.push c')
  | .literal text, _, _, h => exists_read_leaf (l := .literal text) h
  | .substitution name range, _, _, h => exists_read_leaf (l := .field name range) h
  | .forRange count index body, _, _, h =>
    exists_read_loop (.forRange count index {}) (exists_readAll body) h
  | .forEach list item index body range, _, _, h =>
    exists_read_loop (.forEach list item index range) (exists_readAll body) h

theorem exists_readAll : ∀ (cs : List Command) (w : List Bracket) (n : Nesting),
    (w.map Bracket.mark).map Mark.erase = (marksAll cs).map Mark.erase →
    ∃ cs', eraseAll cs' = eraseAll cs ∧
      ∀ strict, w.foldlM (read strict) n = .ok ⟨cs'.reverse ++ n.current, n.outer⟩
  | [], w, n, h => by
    have hw : w = [] := by simpa [marksAll] using h
    subst hw
    exact ⟨[], rfl, fun _ => rfl⟩
  | c :: cs, w, n, h => by
    rw [marksAll, List.map_append, List.map_map] at h
    obtain ⟨u, v, rfl, hu, hv⟩ := List.map_eq_append_iff.1 h
    obtain ⟨c', hc, hcr⟩ := exists_read c u n (by rw [List.map_map, hu])
    obtain ⟨cs', hcs, hcsr⟩ := exists_readAll cs v (n.push c') (by rw [List.map_map, hv])
    refine ⟨c' :: cs', by rw [eraseAll, eraseAll, hc, hcs], fun strict => ?_⟩
    rw [List.foldlM_append, hcr strict]
    change v.foldlM (read strict) (n.push c') = _
    rw [hcsr strict]
    simp [push]

end

end Nesting

theorem Mark.Printable.exists_shows {m : Mark} (h : m.Printable) :
    (∃ text, m = .leaf (.literal text)) ∨ ∃ kind text, m.PrintedAs kind ∧ Shows (some kind) text := by
  have dotless : ∀ {names : List String}, (∀ x ∈ names, Binder x) → ∀ x ∈ names, Dotless x :=
    fun hb x hx => (hb x hx).dotless
  cases m with
  | leaf l =>
    cases l with
    | literal text => exact .inl ⟨text, rfl⟩
    | field name range =>
      obtain ⟨text, hs⟩ := Spells.exists_shows (.field name)
      exact .inr ⟨_, text, .field name range, hs⟩
  | opening loop =>
    cases loop with
    | literal text => cases h
    | substitution name range => cases h
    | forRange count index body =>
      cases body with
      | cons c cs => cases h
      | nil =>
        obtain ⟨hc, hi⟩ := h
        have hd := dotless (binder_append hi (nofun : ∀ x ∈ [], Binder x))
        obtain ⟨text, hs⟩ := Spells.exists_shows (.loop (s := .numbers 0 count) hd rfl)
        exact .inr ⟨_, text, .forRange (Nat.sub_zero count) (by decide) hc (fun _ => rfl) nofun, hs⟩
    | forEach list item index body range =>
      cases body with
      | cons c cs => cases h
      | nil =>
        obtain ⟨hl, hx, hi⟩ := h
        have hb : ∀ x ∈ item :: (index.toList ++ []), Binder x :=
          List.forall_mem_cons.2 ⟨hx, binder_append hi nofun⟩
        obtain ⟨text, hs⟩ := Spells.exists_shows (.loop (s := .list list) (dotless hb) rfl)
        exact .inr ⟨_, text, .forEach (fun _ => rfl) nofun, hs⟩
  | closing =>
    obtain ⟨text, hs⟩ := Spells.exists_shows .endLoop
    exact .inr ⟨_, text, .closing, hs⟩

theorem exists_printed {ms : List Mark} (h : ∀ m ∈ ms, m.Printable) : ∃ text, Printed ms text := by
  induction ms with
  | nil => exact ⟨[], .nil⟩
  | cons m ms ih =>
    obtain ⟨hm, hms⟩ := List.forall_mem_cons.1 h
    obtain ⟨rest, hr⟩ := ih hms
    obtain ⟨a, rfl⟩ | ⟨kind, text, hk, hs⟩ := hm.exists_shows
    · cases ms with
      | nil => exact ⟨_, .literal nofun hr⟩
      | cons m' ms =>
        obtain ⟨b, rfl⟩ | ⟨kind, text, hk, hs⟩ := (hms m' List.mem_cons_self).exists_shows
        · exact ⟨_, .parted ⟨[], [], .empty, .nil nofun, rfl⟩ hr⟩
        · refine ⟨_, .literal (fun m hm => ?_) hr⟩
          obtain rfl := Option.some.inj hm
          exact hk.literal?_eq_none
    · exact ⟨_, .directive hk hs hr⟩

/-- A tree that can be printed is printed as some template, and whichever it is, compiling it gives
the tree back. -/
theorem compile_undoes_printing {tree : List Command} (h : Printable tree) :
    (∃ text, Printed (marksAll tree) text) ∧
      ∀ text, Printed (marksAll tree) text → ∃ tree', eraseAll tree' = eraseAll tree ∧
        ∀ strict, (compile strict (String.ofList text)).outcome = .ok tree' := by
  refine ⟨exists_printed h.1, fun text hp => ?_⟩
  obtain ⟨l, hw, ht, hm, -⟩ := hp.exists_layout h.1 h.2
  have hc : (Cursor.ofText (String.ofList text)).rest = l.text := by
    rw [ht]
    exact String.toList_ofList
  obtain ⟨hf, hms⟩ := Pieces.marks_of_layout hw hc
  obtain ⟨tree', he, hr⟩ := Nesting.exists_readAll tree _ {} (hms.trans hm)
  refine ⟨tree', he, fun strict => ?_⟩
  rw [outcome_compile_of_none hf]
  change ((Pieces.ofCursor _).brackets.foldlM (Nesting.read strict) {} >>= _) = _
  rw [hr strict]
  change ((Nesting.mk (tree'.reverse ++ []) []).complete strict).outcome = .ok tree'
  rw [List.append_nil, Nesting.complete, Nesting.finish]
  simp

theorem compile_undoes_printing_loop :
    let tree : List Command := [
      .forRange 2 (some "i") [.literal "a", .literal "b", .substitution "x.1" {}],
      .literal "\x7d\x7b"]
    let text := "{{for (1..3)|i,j|}}a{{}}b{{x.1}}{{ end}}\x7d\x7b"
    Printable tree ∧ Printed (marksAll tree) text.toList ∧ ∃ tree', eraseAll tree' = eraseAll tree ∧
      ∀ strict, (compile strict text).outcome = .ok tree' := by
  intro tree text
  have hi : Binder "i" := ⟨⟨'i', [], rfl, rfl, by simp [WordChars]⟩, by decide, by decide⟩
  have hj : Binder "j" := ⟨⟨'j', [], rfl, rfl, by simp [WordChars]⟩, by decide, by decide⟩
  have hx : (Token.Kind.name "x.1").Valid :=
    ⟨⟨['x'], [['1']], ⟨'x', [], rfl, rfl, by simp [WordChars]⟩, by simp [WordChars, isNameChar], rfl⟩,
      by decide, by decide⟩
  have hm : marksAll tree = [.opening (.forRange 2 (some "i") []), .leaf (.literal "a"),
      .leaf (.literal "b"), .leaf (.field "x.1" {}), .closing, .leaf (.literal "\x7d\x7b")] := rfl
  have hpl : Plain ['a'] ∧ Plain ['b'] ∧ Plain ['}', '{'] := by decide
  have hp : Printable tree := by
    rw [Printable, hm]
    exact ⟨by simp [Mark.Printable, hi, hx, hpl, numberBound, UInt64.size], by simp [Mark.literal?]⟩
  have hfor : Shows (some (.forRange 1 3 ["i", "j"])) "{{for (1..3)|i,j|}}".toList := by
    have hd : ∀ x ∈ ["i", "j"], Dotless x :=
      List.forall_mem_cons.2 ⟨hi.dotless, List.forall_mem_cons.2 ⟨hj.dotless, by simp⟩⟩
    refine ⟨_, "for (1..3)|i,j|".toList, .loop (s := .numbers 1 3) hd rfl, ?_, rfl⟩
    exact spaced_row [([], .forWord), ([' '], .leftParen), ([], .number 1), ([], .dots),
      ([], .number 3), ([], .rightParen), ([], .pipe), ([], .name "i"), ([], .comma), ([], .name "j"), ([], .pipe)] []
      (by simp [Blank, isBlank]) (by simp [Blank])
  have hname : Shows (some (.field "x.1")) "{{x.1}}".toList :=
    ⟨_, "x.1".toList, .field "x.1", spaced_row [([], .name "x.1")] []
      (by simp [Blank]) (by simp [Blank]), rfl⟩
  have hend : Shows (some .endLoop) "{{ end}}".toList :=
    ⟨_, " end".toList, .endLoop, spaced_row [([' '], .endWord)] []
      (by simp [Blank, isBlank]) (by simp [Blank]), rfl⟩
  have hloop : Mark.PrintedAs (.opening (.forRange 2 (some "i") [])) (.forRange 1 3 ["i", "j"]) := by
    have hf : ∀ x ∈ ["j"], Binder x := fun x h => List.mem_singleton.1 h ▸ hj
    exact .forRange rfl (by decide) (by decide) (by simp) hf
  have hlast : Printed [.leaf (.literal "\x7d\x7b")] ("\x7d\x7b".toList ++ []) :=
    .literal (by simp) .nil
  have hb := Printed.parted (a := "a") (b := "b") ⟨[], [], .empty, .nil (by simp [Blank]), rfl⟩
    (.literal (by simp [Mark.literal?])
      (.directive (.field "x.1" {}) hname (.directive .closing hend hlast)))
  have hpr : Printed (marksAll tree) text.toList := by
    have h := Printed.directive hloop hfor hb
    simpa [hm, text] using h
  refine ⟨hp, hpr, ?_⟩
  obtain ⟨tree', he, hc⟩ := (compile_undoes_printing hp).2 _ hpr
  exact ⟨tree', he, fun strict => by simpa using hc strict⟩

end TextTemplate
