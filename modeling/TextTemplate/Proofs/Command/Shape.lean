import TextTemplate.Command

namespace TextTemplate

inductive Leaf
  | literal (text : String)
  | field (name : String) (range : Range)
deriving DecidableEq, Inhabited

def Leaf.command : Leaf → Command
  | literal text => .literal text
  | field name range => .substitution name range

/-- One place of a tree that is spelled out. A loop opens with nothing in it. -/
inductive Mark
  | leaf (l : Leaf)
  | opening (loop : Command)
  | closing
deriving DecidableEq, Inhabited

mutual

def Command.marks : Command → List Mark
  | .literal text => [.leaf (.literal text)]
  | .substitution name range => [.leaf (.field name range)]
  | .forRange count index body => .opening (.forRange count index []) :: marksAll body ++ [.closing]
  | .forEach list item index body range =>
    .opening (.forEach list item index [] range) :: marksAll body ++ [.closing]

def marksAll : List Command → List Mark
  | [] => []
  | c :: cs => c.marks ++ marksAll cs

end

mutual

/-- The commands of a tree in the order in which they begin, each loop with nothing in it. -/
def Command.preorder : Command → List Command
  | .literal text => [.literal text]
  | .substitution name range => [.substitution name range]
  | .forRange count index body => .forRange count index [] :: preorderAll body
  | .forEach list item index body range => .forEach list item index [] range :: preorderAll body

def preorderAll : List Command → List Command
  | [] => []
  | c :: cs => c.preorder ++ preorderAll cs

end

mutual

def Command.erase : Command → Command
  | .literal text => .literal text
  | .substitution name _ => .substitution name {}
  | .forRange count index body => .forRange count index (eraseAll body)
  | .forEach list item index body _ => .forEach list item index (eraseAll body) {}

def eraseAll : List Command → List Command
  | [] => []
  | c :: cs => c.erase :: eraseAll cs

end

theorem marksAll_append (as bs : List Command) :
    marksAll (as ++ bs) = marksAll as ++ marksAll bs := by
  induction as with
  | nil => rfl
  | cons a as ih => rw [List.cons_append, marksAll, marksAll, ih, List.append_assoc]

namespace Mark

def command? : Mark → Option Command
  | leaf l => some l.command
  | opening loop => some loop
  | closing => none

def erase : Mark → Mark
  | leaf (.literal text) => leaf (.literal text)
  | leaf (.field name _) => leaf (.field name {})
  | opening loop => opening loop.erase
  | closing => closing

theorem command?_erase (m : Mark) : m.erase.command? = m.command?.map Command.erase := by
  cases m with
  | leaf l => cases l <;> rfl
  | opening loop => rfl
  | closing => rfl

end Mark

theorem map_erase_filterMap (ms : List Mark) :
    (ms.filterMap Mark.command?).map Command.erase = (ms.map Mark.erase).filterMap Mark.command? := by
  rw [List.map_filterMap, List.filterMap_map]
  congr 1
  funext m
  exact m.command?_erase.symm

mutual

theorem Command.preorder_eq : ∀ c : Command, c.preorder = c.marks.filterMap Mark.command?
  | .literal _ => rfl
  | .substitution _ _ => rfl
  | .forRange count index body => by
    rw [Command.preorder, Command.marks, preorderAll_eq body]
    simp [Mark.command?]
  | .forEach list item index body range => by
    rw [Command.preorder, Command.marks, preorderAll_eq body]
    simp [Mark.command?]

theorem preorderAll_eq : ∀ cs : List Command, preorderAll cs = (marksAll cs).filterMap Mark.command?
  | [] => rfl
  | c :: cs => by
    rw [preorderAll, marksAll, List.filterMap_append, Command.preorder_eq c, preorderAll_eq cs]

end

namespace Command

def emptied : Command → Command
  | forRange count index _ => forRange count index []
  | forEach list item index _ range => forEach list item index [] range
  | c => c

def inner : Command → List Command
  | forRange _ _ body | forEach _ _ _ body _ => body
  | _ => []

end Command

mutual

theorem Command.inner_induction {motive : List Command → Prop} (nil : motive [])
    (cons : ∀ c cs, motive c.inner → motive cs → motive (c :: cs)) : ∀ c : Command, motive c.inner
  | .literal _ | .substitution _ _ => nil
  | .forRange _ _ body | .forEach _ _ _ body _ => tree_induction nil cons body

@[elab_as_elim]
theorem tree_induction {motive : List Command → Prop} (nil : motive [])
    (cons : ∀ c cs, motive c.inner → motive cs → motive (c :: cs)) : ∀ cs, motive cs
  | [] => nil
  | c :: cs => cons c cs (c.inner_induction nil cons) (tree_induction nil cons cs)

end

namespace Command

theorem eq_of_emptied {a b : Command} (he : a.emptied = b.emptied) (hi : a.inner = b.inner) : a = b := by
  cases a <;> cases b <;> simp_all [emptied, inner]

theorem emptied_erase (c : Command) : c.erase.emptied = c.emptied.erase := by
  cases c <;> rfl

theorem inner_erase (c : Command) : c.erase.inner = eraseAll c.inner := by
  cases c <;> rfl

theorem preorder_cons (c : Command) : c.preorder = c.emptied :: preorderAll c.inner := by
  cases c <;> rfl

end Command

end TextTemplate
