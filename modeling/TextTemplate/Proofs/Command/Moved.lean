import TextTemplate.Proofs.Rendering.Meaning
import TextTemplate.Proofs.Text.Place

namespace TextTemplate

def Fault.after (fault : Fault) (origin : Position) : Fault := ⟨fault.range.after origin, fault.cause⟩

/-- One text behind another, unless one of them is a fault. -/
def joined (x y : Except Fault String) : Except Fault String := do
  let a ← x
  let b ← y
  return a ++ b

theorem joined_empty (x : Except Fault String) : joined (.ok "") x = x := by
  cases x with
  | error fault => rfl
  | ok text => exact congrArg Except.ok String.empty_append

theorem joined_assoc (x y z : Except Fault String) : joined (joined x y) z = joined x (joined y z) := by
  cases x with
  | error fault => rfl
  | ok a =>
    cases y with
    | error fault => rfl
    | ok b =>
      cases z with
      | error fault => rfl
      | ok c => exact congrArg Except.ok (String.append_assoc ..)

theorem mapError_joined (f : Fault → Fault) (x y : Except Fault String) :
    (joined x y).mapError f = joined (x.mapError f) (y.mapError f) := by
  cases x with
  | error fault => rfl
  | ok a => cases y <;> rfl

theorem mapError_concat (f : Fault → Fault) (xs : List (Except Fault String)) :
    (concat xs).mapError f = concat (xs.map (Except.mapError f)) := by
  induction xs with
  | nil => rfl
  | cons x xs ih =>
    calc (concat (x :: xs)).mapError f
        = joined (x.mapError f) ((concat xs).mapError f) := mapError_joined f x (concat xs)
      _ = concat ((x :: xs).map (Except.mapError f)) := by
        rw [ih]
        rfl

theorem meaningAll_cons (strict : Bool) (env : Env) (c : Command) (cs : List Command) :
    meaningAll strict env (c :: cs) = joined (c.meaning strict env) (meaningAll strict env cs) := by
  rw [meaningAll]
  rfl

theorem meaningAll_append (strict : Bool) (env : Env) (as bs : List Command) :
    meaningAll strict env (as ++ bs) =
      joined (meaningAll strict env as) (meaningAll strict env bs) := by
  induction as with
  | nil => rw [List.nil_append, meaningAll, joined_empty]
  | cons a as ih => rw [List.cons_append, meaningAll_cons, ih, meaningAll_cons, joined_assoc]

theorem meaningAll_literals (strict : Bool) (env : Env) (x y : String) :
    meaningAll strict env [.literal (x ++ y)] = meaningAll strict env [.literal x, .literal y] := by
  simp only [Command.meaning, meaningAll]
  exact joined_assoc (.ok x) (.ok y) (.ok "")

mutual

def Command.mapRanges (f : Range → Range) : Command → Command
  | .literal text => .literal text
  | .substitution name range => .substitution name (f range)
  | .forRange count index body => .forRange count index (mapRangesAll f body)
  | .forEach list item index body range => .forEach list item index (mapRangesAll f body) (f range)

def mapRangesAll (f : Range → Range) : List Command → List Command
  | [] => []
  | c :: cs => c.mapRanges f :: mapRangesAll f cs

end

theorem mapRangesAll_eq_map (f : Range → Range) (cs : List Command) :
    mapRangesAll f cs = cs.map (Command.mapRanges f) := by
  induction cs with
  | nil => rfl
  | cons c cs ih => rw [mapRangesAll, ih, List.map_cons]

theorem mapRangesAll_reverse (f : Range → Range) (cs : List Command) :
    mapRangesAll f cs.reverse = (mapRangesAll f cs).reverse := by
  simp only [mapRangesAll_eq_map, List.map_reverse]

mutual

theorem Command.mapRanges_id : ∀ c : Command, c.mapRanges id = c
  | .literal _ => rfl
  | .substitution _ _ => rfl
  | .forRange _ _ body => by rw [Command.mapRanges, mapRangesAll_id body]
  | .forEach _ _ _ body _ => by rw [Command.mapRanges, mapRangesAll_id body, id]

theorem mapRangesAll_id : ∀ cs : List Command, mapRangesAll id cs = cs
  | [] => rfl
  | c :: cs => by rw [mapRangesAll, c.mapRanges_id, mapRangesAll_id cs]

end

def Fault.mapRange (f : Range → Range) (fault : Fault) : Fault := ⟨f fault.range, fault.cause⟩

mutual

theorem Command.meaning_mapRanges (f : Range → Range) (strict : Bool) (env : Env) : ∀ c : Command,
    (c.mapRanges f).meaning strict env = (c.meaning strict env).mapError (Fault.mapRange f)
  | .literal text => rfl
  | .substitution name range => by
    simp only [Command.mapRanges, Command.meaning]
    split <;> rfl
  | .forRange count index body => by
    simp only [Command.mapRanges, Command.meaning, mapError_concat, List.map_map, Function.comp_def]
    congr 2
    funext k
    exact meaningAll_mapRanges f strict _ body
  | .forEach list item index body range => by
    simp only [Command.mapRanges, Command.meaning]
    split
    · rw [mapError_concat, List.map_map]
      congr 2
      funext ⟨v, k⟩
      exact meaningAll_mapRanges f strict _ body
    · split <;> rfl
    · split <;> rfl

theorem meaningAll_mapRanges (f : Range → Range) (strict : Bool) (env : Env) : ∀ cs : List Command,
    meaningAll strict env (mapRangesAll f cs) = (meaningAll strict env cs).mapError (Fault.mapRange f)
  | [] => rfl
  | c :: cs => by
    rw [mapRangesAll, meaningAll_cons, meaningAll_cons, mapError_joined,
      Command.meaning_mapRanges f strict env c, meaningAll_mapRanges f strict env cs]

end

end TextTemplate
