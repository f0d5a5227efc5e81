import TextTemplate.Template.Nesting

namespace TextTemplate

mutual

/-- The names that a command looks up and that no loop in it binds there. -/
def Command.free : Command → List String
  | .literal _ => []
  | .substitution name _ => [name]
  | .forRange _ index body => (freeAll body).filter (· ∉ index.toList)
  | .forEach list item index body _ => list :: (freeAll body).filter (· ∉ item :: index.toList)

def freeAll : List Command → List String
  | [] => []
  | c :: cs => c.free ++ freeAll cs

end

mutual

def Command.names : Command → List String
  | .literal _ => []
  | .substitution name _ => [name]
  | .forRange _ index body => index.toList ++ namesAll body
  | .forEach list item index body _ => list :: item :: (index.toList ++ namesAll body)

def namesAll : List Command → List String
  | [] => []
  | c :: cs => c.names ++ namesAll cs

end

def renamed (x y name : String) : String := if name = x then y else name

mutual

/-- The command with `y` for each `x` that no loop in it binds. -/
def Command.rename (x y : String) : Command → Command
  | .literal text => .literal text
  | .substitution name range => .substitution (renamed x y name) range
  | .forRange count index body =>
    .forRange count index (if x ∈ index.toList then body else renameAll x y body)
  | .forEach list item index body range =>
    .forEach (renamed x y list) item index
      (if x ∈ item :: index.toList then body else renameAll x y body) range

def renameAll (x y : String) : List Command → List Command
  | [] => []
  | c :: cs => c.rename x y :: renameAll x y cs

end

/-- A place in a command tree: the loops around it, the outermost first, and at each level the commands
in front and behind. -/
inductive Place
  | here (before after : List Command)
  | inside (before : List Command) (header : LoopHeader) (inner : Place) (after : List Command)

def Place.fill (c : Command) : Place → List Command
  | here before after => before ++ c :: after
  | inside before header inner after => before ++ header.command (inner.fill c) :: after

/-- That one loop is another one with the binder `y` in place of `x`. The name `y` is new in the body,
and neither of the two is bound by the loop a second time. -/
inductive Command.Rebinds (x y : String) : Command → Command → Prop
  | round {count body} (hy : y ∉ namesAll body) :
    Rebinds x y (.forRange count (some x) body) (.forRange count (some y) (renameAll x y body))
  | item {list index body range} (hx : x ∉ index.toList) (hi : y ∉ index.toList)
    (hy : y ∉ namesAll body) :
    Rebinds x y (.forEach list x index body range) (.forEach list y index (renameAll x y body) range)
  | index {list item body range} (hx : x ≠ item) (hi : y ≠ item) (hy : y ∉ namesAll body) :
    Rebinds x y (.forEach list item (some x) body range)
      (.forEach list item (some y) (renameAll x y body) range)

mutual

theorem Command.free_subset : ∀ c : Command, c.free ⊆ c.names
  | .literal _ => List.nil_subset _
  | .substitution name _ => List.Subset.refl [name]
  | .forRange _ index body => by
    intro x hx
    obtain ⟨hx, -⟩ := List.mem_filter.1 hx
    exact List.mem_append_right _ (freeAll_subset body hx)
  | .forEach list item index body _ => by
    intro x hx
    obtain rfl | hx := List.mem_cons.1 hx
    · exact List.mem_cons_self
    · obtain ⟨hx, -⟩ := List.mem_filter.1 hx
      exact List.mem_cons_of_mem _ (List.mem_cons_of_mem _
        (List.mem_append_right _ (freeAll_subset body hx)))

theorem freeAll_subset : ∀ cs : List Command, freeAll cs ⊆ namesAll cs
  | [] => List.nil_subset _
  | c :: cs => List.append_subset.2
    ⟨List.Subset.trans c.free_subset (List.subset_append_left _ _),
      List.Subset.trans (freeAll_subset cs) (List.subset_append_right _ _)⟩

end

end TextTemplate
