import TextTemplate.Proofs.Template.Marking
import TextTemplate.Proofs.Template.Printing

namespace TextTemplate

/-- That two ranges with something in them lie apart, the first one in front. -/
def Range.Precedes (r s : Range) : Prop :=
  r.start.Before r.stop ∧ r.stop.Before s.start ∧ s.start.Before s.stop

namespace Command

def range? : Command → Option Range
  | literal _ | forRange _ _ _ => none
  | substitution _ range | forEach _ _ _ _ range => some range

/-- What a command may hold that has been read from a source, whatever is in its body. The range of a
loop over a list runs from its first word to its closing pipe. -/
def WellFormedIn (source : List Char) : Command → Prop
  | literal text => text ≠ "" ∧ Plain text.toList
  | substitution name range => (Token.Kind.name name).Valid ∧
    range.Marks source fun _ piece _ => piece = name.toList
  | forRange count index _ => count < numberBound ∧ ∀ i ∈ index, Binder i
  | forEach list item index _ range => (Token.Kind.name list).Valid ∧ Binder item ∧
    (∀ i ∈ index, Binder i) ∧ range.Marks source fun _ piece _ => ['f', 'o', 'r'] <+: piece ∧
      ['|'] <:+ piece ∧ list.toList <:+: piece ∧ item.toList <:+: piece

/-- That one command may come before another one. Literal text that ends with an opening brace may
come before none. -/
def Precedes (a b : Command) : Prop :=
  (∀ text, a = literal text → text.toList.getLast? ≠ some '{') ∧
    ∀ r ∈ a.range?, ∀ s ∈ b.range?, r.Precedes s

end Command

namespace Bracket

def range? : Bracket → Option Range
  | leaf (.literal _) => none
  | leaf (.field _ range) | closing range => some range
  | opening header => some header.range

def Precedes (a b : Bracket) : Prop :=
  (∀ text, a = leaf (.literal text) → text.toList.getLast? ≠ some '{') ∧
    ∀ r ∈ a.range?, ∀ s ∈ b.range?, r.Precedes s

theorem range?_bracket (d : Directive) : d.bracket.range? = some d.range := by
  obtain ⟨kind, range⟩ := d
  cases kind <;> rfl

theorem bracket_ne_literal (d : Directive) (text : String) : d.bracket ≠ leaf (.literal text) := by
  obtain ⟨kind, range⟩ := d
  cases kind <;> nofun

theorem printable_bracket {d : Directive} (h : d.kind.Valid) : d.bracket.mark.Printable := by
  obtain ⟨kind, range⟩ := d
  cases kind with
  | field name => exact h
  | forRange first stop names =>
    exact ⟨Nat.lt_of_le_of_lt (Nat.sub_le stop first) h.2.1, fun i hi => h.2.2 i (List.mem_of_mem_head? hi)⟩
  | forList list item further =>
    refine ⟨h.1, h.2 item List.mem_cons_self, fun i hi => h.2 i ?_⟩
    exact List.mem_cons_of_mem item (List.mem_of_mem_head? hi)
  | endLoop => trivial

theorem range?_of_command? {b : Bracket} {c : Command} (h : b.mark.command? = some c) {r : Range}
    (hr : r ∈ c.range?) : r ∈ b.range? := by
  cases b with
  | leaf l => cases l <;> cases h <;> exact hr
  | opening header =>
    cases header with
    | forRange count index range =>
      cases h
      cases hr
    | forEach list item index range =>
      cases h
      exact hr
  | closing range => cases h

theorem eq_literal_of_command? {b : Bracket} {text : String}
    (h : b.mark.command? = some (.literal text)) : b = leaf (.literal text) := by
  cases b with
  | leaf l =>
    cases l with
    | literal text =>
      cases h
      rfl
    | field name range => cases h
  | opening header => cases header <;> cases h
  | closing range => cases h

theorem Precedes.command {a b : Bracket} (h : a.Precedes b) {c d : Command}
    (hc : a.mark.command? = some c) (hd : b.mark.command? = some d) : c.Precedes d := by
  refine ⟨?_, fun r hr s hs => h.2 r (range?_of_command? hc hr) s (range?_of_command? hd hs)⟩
  rintro text rfl
  exact h.1 text (eq_literal_of_command? hc)

theorem wellFormedIn_command {source : List Char} {b : Bracket} (hp : b.mark.Printable)
    (hm : b.MarkedIn source) {c : Command} (hc : b.mark.command? = some c) : c.WellFormedIn source := by
  obtain ⟨text, rfl⟩ | ⟨⟨kind, range⟩, rfl, hm⟩ := hm
  · cases hc
    exact hp
  · cases kind with
    | field name =>
      cases hc
      exact ⟨hp, hm.imp fun _ _ _ hw => hw.eq_field⟩
    | forRange first stop names =>
      cases hc
      exact hp
    | forList list item further =>
      cases hc
      exact ⟨hp.1, hp.2.1, hp.2.2, hm.imp fun _ _ _ hw => hw.eq_forList⟩
    | endLoop => cases hc

end Bracket

namespace Cursor

variable {c d : Cursor} {o : Option Directive}

theorem valid_of_directive (h : c.directive = (.ok o, d)) : ∀ a ∈ o, a.kind.Valid := by
  obtain ⟨row, t, hg, -, hs, -⟩ := directive_eq_ok.1 h
  rintro a rfl
  refine hs.kind_valid fun k hk => ?_
  obtain ⟨u, hu, rfl⟩ := List.mem_map.1 hk
  exact hg.valid u (List.mem_append_left [t] hu)

theorem exists_text_of_directive (h : c.directive = (.ok o, d)) :
    ∃ text, text ≠ [] ∧ c.rest = text ++ d.rest ∧ d.position = c.position.advance text ∧
      ∀ a ∈ o, ∃ gap word more, text = gap ++ word ++ more ∧ word ≠ [] ∧ more ≠ [] ∧
        a.range = ⟨c.position.advance gap, c.position.advance (gap ++ word)⟩ := by
  obtain ⟨row, t, hg, -, hs, hr⟩ := directive_eq_ok.1 h
  obtain ⟨e, hrow, hclose⟩ := gives_append_iff.1 hg
  obtain ⟨braces, hbraces, hc, hd⟩ : ∃ braces, braces ≠ [] ∧ e.rest = braces ++ d.rest ∧
      d.position = e.position.advance braces := by
    cases hclose with
    | cons hn hnil =>
      cases hnil
      obtain ⟨gap, word, hc, -, hw, -, -, hd⟩ := eq_of_next hn
      exact ⟨gap ++ word, List.append_ne_nil_of_right_ne_nil gap hw, by rw [hc, List.append_assoc], hd⟩
  by_cases hne : row = []
  · subst hne
    cases hrow
    refine ⟨braces, hbraces, hc, hd, ?_⟩
    rintro a rfl
    cases hr
  · obtain ⟨gap, word, hrest, -, hword, -, hreach, hend⟩ := hrow.written hne
    refine ⟨gap ++ word ++ braces, List.append_ne_nil_of_right_ne_nil _ hbraces, ?_, ?_, ?_⟩
    · rw [hrest, hc]
      simp
    · rw [hd, hend, ← Position.advance_append]
    · rintro a rfl
      exact ⟨gap, word, braces, rfl, hword, hbraces, Option.some.inj (hr.trans hreach)⟩

end Cursor

namespace Pieces

theorem printable_literalBrackets {lit : List Char} (h : Plain lit) :
    ∀ b ∈ literalBrackets lit, b.mark.Printable := by
  cases lit with
  | nil => exact List.forall_mem_nil _
  | cons c lit =>
    intro b hb
    obtain rfl := List.mem_singleton.1 hb
    refine ⟨?_, by rwa [String.toList_ofList]⟩
    rw [ne_eq, ← String.toList_inj, String.toList_ofList]
    nofun

theorem printable_ofCursor (c : Cursor) : ∀ b ∈ (ofCursor c).brackets, b.mark.Printable := by
  induction c using induction_brackets with
  | last c lit hp => exact printable_literalBrackets hp
  | braced c lit o d hl hd ih =>
    refine List.forall_mem_append.2 ⟨printable_literalBrackets (literalBefore_eq_some_iff.1 hl).1, ?_⟩
    refine List.forall_mem_append.2 ⟨fun b hb => ?_, ih⟩
    obtain ⟨a, ha, rfl⟩ := Option.map_eq_some_iff.1 (Option.mem_toList.1 hb)
    exact Bracket.printable_bracket (Cursor.valid_of_directive hd a ha)

theorem pairwise_literalBrackets (lit : List Char) :
    (literalBrackets lit).Pairwise Bracket.Precedes := by
  cases lit with
  | nil => exact .nil
  | cons c lit => exact List.pairwise_singleton _ _

theorem range?_literalBrackets {lit : List Char} {b : Bracket} (h : b ∈ literalBrackets lit) :
    b.range? = none := by
  cases lit with
  | nil => cases h
  | cons c lit =>
    obtain rfl := List.mem_singleton.1 h
    rfl

theorem precedes_of_literalBrackets {lit : List Char} (h : lit.getLast? ≠ some '{') {a b : Bracket}
    (ha : a ∈ literalBrackets lit) : a.Precedes b := by
  refine ⟨?_, fun r hr => ?_⟩
  · rintro text rfl
    cases lit with
    | nil => cases ha
    | cons c lit =>
      cases List.mem_singleton.1 ha
      rwa [String.toList_ofList]
  · rw [range?_literalBrackets ha] at hr
    cases hr

/-- Pieces lie one behind the other, and all of them behind the place where reading begins. -/
theorem pairwise_ofCursor (c : Cursor) : c.position.Fits c.rest →
    (ofCursor c).brackets.Pairwise Bracket.Precedes ∧
      ∀ b ∈ (ofCursor c).brackets, ∀ r ∈ b.range?, c.position.Before r.start ∧ r.start.Before r.stop := by
  induction c using induction_brackets with
  | last c lit hp =>
    intro _
    refine ⟨pairwise_literalBrackets lit, fun b hb r hr => ?_⟩
    rw [range?_literalBrackets hb] at hr
    cases hr
  | braced c lit o d hl hd ih =>
    intro hfits
    obtain ⟨-, hopen, -⟩ := literalBefore_eq_some_iff.1 hl
    obtain ⟨text, -, htext, hdp, ho⟩ := Cursor.exists_text_of_directive hd
    obtain ⟨hskip, hp⟩ := skip_opening hl
    rw [hp, ← Position.advance_append] at hdp
    rw [htext, ← List.append_assoc] at hskip
    rw [hskip] at hfits
    have hfront := hfits.of_front (List.prefix_append _ _)
    obtain ⟨hpairs, hbehind⟩ := ih (hdp ▸ hfits.advance)
    have hstart : c.position.Before d.position := by
      rw [hdp]
      exact Position.before_advance (by simp) hfront
    -- the directive begins behind the braces, and something of it and of what closes it is left to read
    have hdirective : ∀ b ∈ (o.map Directive.bracket).toList, (∀ text, b ≠ .leaf (.literal text)) ∧
        ∀ r ∈ b.range?, c.position.Before r.start ∧ r.start.Before r.stop ∧ r.stop.Before d.position := by
      intro b hb
      obtain ⟨e, he, rfl⟩ := Option.map_eq_some_iff.1 (Option.mem_toList.1 hb)
      refine ⟨Bracket.bracket_ne_literal e, fun r hr => ?_⟩
      rw [Bracket.range?_bracket] at hr
      obtain rfl := Option.some.inj hr
      obtain ⟨gap, word, more, rfl, hword, hmore, hrange⟩ := ho e he
      rw [hp, ← Position.advance_append, ← Position.advance_append] at hrange
      rw [← List.append_assoc, ← List.append_assoc] at hfront hdp
      rw [← List.append_assoc] at hrange
      have hword' := hfront.of_front (List.prefix_append _ _)
      rw [hrange, hdp]
      exact ⟨Position.before_advance (by simp) (hword'.of_front (List.prefix_append _ _)),
        Position.before_advance_append hword hword', Position.before_advance_append hmore hfront⟩
    refine ⟨List.pairwise_append.2 ⟨pairwise_literalBrackets lit, List.pairwise_append.2
      ⟨?_, hpairs, ?_⟩, fun a ha b hb => precedes_of_literalBrackets hopen ha⟩, ?_⟩
    · cases o with
      | none => exact .nil
      | some e => exact List.pairwise_singleton _ _
    · intro a ha b hb
      obtain ⟨hne, hranges⟩ := hdirective a ha
      refine ⟨fun text ht => absurd ht (hne text), fun r hr s hs => ?_⟩
      obtain ⟨-, hr, hrd⟩ := hranges r hr
      obtain ⟨hb, hs⟩ := hbehind b hb s hs
      exact ⟨hr, hrd.trans hb, hs⟩
    · intro b hb r hr
      obtain hb | hb := List.mem_append.1 hb
      · rw [range?_literalBrackets hb] at hr
        cases hr
      obtain hb | hb := List.mem_append.1 hb
      · obtain ⟨hb, hr, -⟩ := (hdirective b hb).2 r hr
        exact ⟨hb, hr⟩
      · obtain ⟨hb, hs⟩ := hbehind b hb r hr
        exact ⟨hstart.trans hb, hs⟩

end Pieces

/-- Every compiled tree is well formed in its source: each command holds what could be read again, and in
the order in which the commands begin their ranges lie apart, one behind the other. Only the last of them
may be literal text that ends with an opening brace. The source has fewer than 2 ^ 32 lines. -/
theorem compile_well_formed {strict : Bool} {source : String} {tree : List Command}
    (h : (compile strict source).outcome = .ok tree) (hlines : source.toList.count '\n' + 1 < UInt32.size) :
    (∀ c ∈ preorderAll tree, c.WellFormedIn source.toList) ∧
      (preorderAll tree).Pairwise Command.Precedes := by
  refine ⟨fun c hc => ?_, ?_⟩
  · obtain ⟨b, hb, hbc⟩ := exists_bracket h hc
    exact Bracket.wellFormedIn_command (Pieces.printable_ofCursor _ b hb)
      ((Pieces.marked_ofText source).2 b hb) hbc
  · rw [preorderAll_of_compile h, List.filterMap_map]
    have hfits : Position.Fits {} source.toList := by rwa [Nat.add_comm] at hlines
    refine List.Pairwise.filterMap _ ?_ (Pieces.pairwise_ofCursor (.ofText source) hfits).1
    intro a b hab c hc d hd
    exact hab.command hc hd

theorem compile_well_formed_nested :
    let source := "ä{{for (xs.0)
|x , i| }}{{x}}\x7d\x7b"
    let tree : List Command := [.literal "ä", .forEach "xs.0" "x" (some "i")
      [.substitution "x" ⟨⟨2, 13⟩, ⟨2, 14⟩⟩, .literal "\x7d\x7b"] ⟨⟨1, 4⟩, ⟨2, 8⟩⟩]
    (compile false source).outcome = .ok tree ∧
      (∀ c ∈ preorderAll tree, c.WellFormedIn source.toList) ∧
        (preorderAll tree).Pairwise Command.Precedes := by
  intro source tree
  have h : (compile false source).outcome = .ok tree := by
    unfold source tree
    cbv
  exact ⟨h, compile_well_formed h (by decide)⟩

end TextTemplate
