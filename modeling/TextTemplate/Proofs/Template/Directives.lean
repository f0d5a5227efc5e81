import TextTemplate.Proofs.Template.Printing

namespace TextTemplate

def braced (body : String) : String := "\x7b\x7b" ++ body ++ "\x7d\x7d"

/-- That a text between double braces makes a directive. -/
def Writes (body : String) (kind : Directive.Kind) : Prop :=
  '}' ∉ body.toList ∧ Makes body.toList (some kind)

theorem Spells.writes {ks : List Token.Kind} {kind : Directive.Kind} (h : Spells ks (some kind))
    (hv : kind.Valid) {body : String} (hb : body.toList = ks.flatMap fun k => k.text.toList) :
    Writes body kind := by
  have hk : (ks.map fun k => (([] : List Char), k)).map Prod.snd = ks := by
    rw [List.map_map]
    exact List.map_id ks
  have hs := spaced_row (ks.map fun k => ([], k)) [] (by simp [Blank]) nofun
  simp only [hk, List.flatMap_map, List.nil_append, List.append_nil, ← hb] at hs
  have hshows : Shows (some kind) ('{' :: '{' :: (body.toList ++ ['}', '}'])) := ⟨ks, _, h, hs, rfl⟩
  obtain ⟨body', he, hb', hm⟩ := hshows.makes fun k hk => Option.some.inj hk ▸ hv
  obtain rfl := List.append_cancel_right (List.cons.inj (List.cons.inj he).2).2
  exact ⟨hb', hm⟩

theorem writes_end : Writes "end" .endLoop := Spells.endLoop.writes trivial rfl

theorem writes_field {name : String} (h : (Token.Kind.name name).Valid) : Writes name (.field name) :=
  (Spells.field name).writes h (by simp [Token.Kind.text])

theorem writes_forList {list item : String} (hl : (Token.Kind.name list).Valid) (hi : Binder item) :
    Writes ("for(" ++ list ++ ")|" ++ item ++ "|") (.forList list item []) := by
  have hd : ∀ x ∈ [item], Dotless x := List.forall_mem_singleton.2 hi.dotless
  refine (Spells.loop (s := .list list) hd rfl).writes ⟨hl, List.forall_mem_singleton.2 hi⟩ ?_
  simp [Token.Kind.text, Subject.kinds, binderKinds]

namespace Layout

def ofBodies : List (String × Directive.Kind) → Layout
  | [] => last []
  | (body, kind) :: rows => braced [] body.toList (some kind) (ofBodies rows)

variable {rows : List (String × Directive.Kind)}

theorem wellFormed_ofBodies (h : ∀ r ∈ rows, Writes r.1 r.2) : (ofBodies rows).WellFormed := by
  induction rows with
  | nil => exact plain_nil
  | cons r rows ih =>
    obtain ⟨⟨hb, hm⟩, hrows⟩ := List.forall_mem_cons.1 h
    exact ⟨plain_nil, by simp, hb, hm, ih hrows⟩

theorem text_ofBodies (rows : List (String × Directive.Kind)) :
    (ofBodies rows).text = (String.join (rows.map fun r => TextTemplate.braced r.1)).toList := by
  induction rows with
  | nil => rfl
  | cons r rows ih =>
    rw [ofBodies, text, ih, List.map_cons, String.join_cons, TextTemplate.braced]
    simp

theorem marks_ofBodies (rows : List (String × Directive.Kind)) :
    (ofBodies rows).marks = rows.map fun r => r.2.mark := by
  induction rows with
  | nil => rfl
  | cons r rows ih =>
    rw [ofBodies, marks, ih]
    rfl

end Layout

variable {rows : List (String × Directive.Kind)}

theorem marks_of_writes (h : ∀ r ∈ rows, Writes r.1 r.2) :
    (Pieces.ofText (String.join (rows.map fun r => braced r.1))).fault? = none ∧
      (Pieces.ofText (String.join (rows.map fun r => braced r.1))).marks = rows.map fun r => r.2.mark := by
  have ht := (Layout.text_ofBodies rows).symm
  rw [← Layout.marks_ofBodies]
  exact Pieces.marks_of_layout (Layout.wellFormed_ofBodies h) ht

/-- It compiles to the tree that the directives spell out. -/
theorem exists_compile_of_writes (h : ∀ r ∈ rows, Writes r.1 r.2) {tree : List Command}
    (ht : (rows.map fun r => r.2.mark) = (marksAll tree).map Mark.erase) :
    ∃ tree', eraseAll tree' = eraseAll tree ∧
      ∀ strict, (compile strict (String.join (rows.map fun r => braced r.1))).outcome = .ok tree' := by
  obtain ⟨hf, hm⟩ := marks_of_writes h
  obtain ⟨tree', he, hr⟩ := Nesting.exists_readAll tree _ {} (hm.trans ht)
  refine ⟨tree', he, fun strict => compile_eq_ok_iff.2 ⟨hf, _, hr strict, ?_⟩⟩
  simp [Nesting.complete, Nesting.finish]

end TextTemplate
