import TextTemplate.Text.Position

namespace TextTemplate

inductive Command
  | literal (text : String)
  | substitution (name : String) (range : Range)
  | forRange (count : Nat) (index : Option String) (body : List Command)
  | forEach (list item : String) (index : Option String) (body : List Command) (range : Range)
deriving Inhabited

namespace Command

mutual

def beq : Command → Command → Bool
  | literal a, literal b => a = b
  | substitution a r, substitution b s => a = b && r = s
  | forRange n i a, forRange m j b => n = m && i = j && beqAll a b
  | forEach l x i a r, forEach m y j b s => l = m && x = y && i = j && beqAll a b && r = s
  | _, _ => false

def beqAll : List Command → List Command → Bool
  | [], [] => true
  | a :: as, b :: bs => beq a b && beqAll as bs
  | _, _ => false

end

instance : BEq Command := ⟨beq⟩

mutual

theorem beq_iff : ∀ a b : Command, beq a b = true ↔ a = b
  | literal _, b => by cases b <;> simp [beq]
  | substitution _ _, b => by cases b <;> simp [beq]
  | forRange _ _ a, b => by
    cases b with
    | forRange m j b => simp [beq, beqAll_iff a b, and_assoc]
    | _ => simp [beq]
  | forEach _ _ _ a _, b => by
    cases b with
    | forEach m y j b s => simp [beq, beqAll_iff a b, and_assoc]
    | _ => simp [beq]

theorem beqAll_iff : ∀ as bs : List Command, beqAll as bs = true ↔ as = bs
  | [], bs => by cases bs <;> simp [beqAll]
  | a :: as, bs => by
    cases bs with
    | nil => simp [beqAll]
    | cons b bs => simp [beqAll, beq_iff a b, beqAll_iff as bs]

end

instance : LawfulBEq Command where
  eq_of_beq h := (beq_iff _ _).1 h
  rfl := (beq_iff _ _).2 rfl

instance : DecidableEq Command := fun a b => decidable_of_iff _ (beq_iff a b)

end Command

end TextTemplate
