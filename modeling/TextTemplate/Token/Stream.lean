import TextTemplate.Token.Lexer

namespace TextTemplate

inductive Tokens
  | done (here : Cursor)
  | broken (here : Cursor) (fault : Fault)
  | more (here : Cursor) (token : Token) (rest : Tokens)
deriving Inhabited

namespace Tokens

def here : Tokens → Cursor
  | done c | broken c _ | more c _ _ => c

def ofCursor (c : Cursor) : Tokens :=
  match _h : c.next with
  | (.ok none, _) => .done c
  | (.error fault, _) => .broken c fault
  | (.ok (some token), d) => .more c token (ofCursor d)
termination_by c.rest.length
decreasing_by exact Cursor.length_next_lt _h

/-- The tokens up to and including the one that closes a directive. -/
def directive : Tokens → Except Fault (List Token)
  | done _ => .ok []
  | broken _ fault => .error fault
  | more _ token rest =>
    if token.kind = .close then .ok [token] else rest.directive.map (token :: ·)

/-- That at most `n` characters are left wherever reading stands. -/
def Within (n : Nat) : Tokens → Prop
  | done c | broken c _ => c.rest.length ≤ n
  | more c _ rest => c.rest.length ≤ n ∧ rest.Within n

theorem Within.here {n : Nat} {ts : Tokens} (h : ts.Within n) : ts.here.rest.length ≤ n := by
  cases ts with
  | done c => exact h
  | broken c f => exact h
  | more c t rest => exact h.1

theorem ofCursor_done {c d : Cursor} (h : c.next = (.ok none, d)) : ofCursor c = .done c := by
  rw [ofCursor]
  split <;> simp_all

theorem ofCursor_broken {c d : Cursor} {fault : Fault} (h : c.next = (.error fault, d)) :
    ofCursor c = .broken c fault := by
  rw [ofCursor]
  split <;> simp_all

theorem ofCursor_more {c d : Cursor} {t : Token} (h : c.next = (.ok (some t), d)) :
    ofCursor c = .more c t (ofCursor d) := by
  rw [ofCursor]
  split <;> simp_all

theorem within_ofCursor (c : Cursor) {n : Nat} (hn : c.rest.length ≤ n) :
    (ofCursor c).Within n := by
  induction c using ofCursor.induct with
  | case1 c d h =>
    rw [ofCursor_done h]
    exact hn
  | case2 c fault d h =>
    rw [ofCursor_broken h]
    exact hn
  | case3 c t d h ih =>
    rw [ofCursor_more h]
    exact ⟨hn, ih (Nat.le_trans (Nat.le_of_lt (Cursor.length_next_lt h)) hn)⟩

end Tokens

def tokenize (text : String) : Except Fault (List Token) := (Tokens.ofCursor (.ofText text)).directive

end TextTemplate
