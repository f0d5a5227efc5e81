import TextTemplate.Token
import TextTemplate.Token.Stream

namespace TextTemplate

inductive Subject
  | numbers (first stop : Nat)
  | list (name : String)
deriving DecidableEq, Inhabited

def Subject.loop (x : String) (xs : List String) : Subject → Directive.Kind
  | numbers first stop => .forRange first stop (x :: xs)
  | list name => .forList name x xs

/-- Reads tokens. What is left unread is known also after a failure. -/
def Parser (α : Type) := Tokens → Except Fault α × Tokens

namespace Parser

variable {α β : Type}

instance : Monad Parser where
  pure a := fun ts => (.ok a, ts)
  bind p f := fun ts =>
    match p ts with
    | (.ok a, ts) => f a ts
    | (.error fault, ts) => (.error fault, ts)

def refuse (cause : Option Token.Kind → Cause) : Parser α
  | .done c => (.error ⟨c.skipBlanks.ahead 0, cause none⟩, .done c.skipBlanks)
  | .broken c fault => (.error fault, .broken c.skipBlanks fault)
  | .more _ t ts => (.error ⟨t.range, cause (some t.kind)⟩, ts)

def expect (kind : Token.Kind) (expected : Expectation) : Parser Range
  | .more c t ts =>
    if t.kind = kind then (.ok t.range, ts) else refuse (.unexpected expected) (.more c t ts)
  | ts => refuse (.unexpected expected) ts

def number : Parser Nat
  | .more _ ⟨.number n, _⟩ ts => (.ok n, ts)
  | ts => refuse (.unexpected .number) ts

def numbers (first : Nat) : Parser Subject := do
  let _ ← expect .dots .dots
  return .numbers first (← number)

def subject : Parser Subject
  | .more _ ⟨.name list, _⟩ ts => (.ok (.list list), ts)
  | .more _ ⟨.number first, _⟩ ts => numbers first ts
  | ts => refuse (.unexpected .subject) ts

def names : Parser ((String × List String) × Range)
  | .more c ⟨.name x, r⟩ ts =>
    if x.contains '.' then refuse (.unexpected .binder) (.more c ⟨.name x, r⟩ ts)
    else match ts with
      | .more _ ⟨.comma, _⟩ ts =>
        match names ts with
        | (.ok ((y, ys), stop), ts) => (.ok ((x, y :: ys), stop), ts)
        | (.error fault, ts) => (.error fault, ts)
      | .more _ ⟨.pipe, stop⟩ ts => (.ok ((x, []), stop), ts)
      | ts => refuse (.unexpected .separator) ts
  | ts => refuse (.unexpected .binder) ts

/-- The rest of a loop header whose range so far ends with the parenthesis. A fault ahead is
reported from where reading stands. -/
def binders (subject : Subject) (range : Range) : Parser Directive
  | .more _ ⟨.pipe, _⟩ ts =>
    match names ts with
    | (.ok ((x, xs), stop), ts) => (.ok ⟨subject.loop x xs, range.upTo stop⟩, ts)
    | (.error fault, ts) => (.error fault, ts)
  | .broken c fault => (.error fault, .broken c fault)
  | ts =>
    match subject with
    | .list list => (.error ⟨range, .missingItem list⟩, ts)
    | .numbers first stop => (.ok ⟨.forRange first stop [], range⟩, ts)

def loop (start : Range) : Parser Directive := do
  let _ ← expect .leftParen .leftParen
  let subject ← subject
  let stop ← expect .rightParen .rightParen
  binders subject (start.upTo stop)

def close (d : Directive) : Parser (Option Directive)
  | .more _ ⟨.close, _⟩ ts => (.ok (some d), ts)
  | ts => refuse .notClosed ts

def directive : Parser (Option Directive)
  | .more _ ⟨.close, _⟩ ts => (.ok none, ts)
  | .more _ ⟨.name x, r⟩ ts => close ⟨.field x, r⟩ ts
  | .more _ ⟨.endWord, r⟩ ts => close ⟨.endLoop, r⟩ ts
  | .more _ ⟨.forWord, r⟩ ts => (loop r >>= close) ts
  | .more _ t ts => (.error ⟨t.range, .badStart t.kind⟩, ts)
  | ts => refuse .notClosed ts

/-- That a parser never goes back. -/
def Forward (p : Parser α) : Prop := ∀ n ts, ts.Within n → (p ts).2.Within n

theorem Forward.bind {p : Parser α} {f : α → Parser β} (hp : Forward p) (hf : ∀ a, Forward (f a)) :
    Forward (p >>= f) := by
  intro n ts h
  have hp := hp n ts h
  change Tokens.Within n (match p ts with
    | (.ok a, ts) => f a ts
    | (.error fault, ts) => (.error fault, ts)).2
  split
  · next a ts' he => rw [he] at hp; exact hf a n ts' hp
  · next e ts' he => rw [he] at hp; exact hp

theorem Forward.pure (a : α) : Forward (pure a : Parser α) := fun _ _ h => h

theorem forward_refuse (cause : Option Token.Kind → Cause) : Forward (refuse cause : Parser α) := by
  intro n ts h
  cases ts with
  | done c => exact Nat.le_trans c.length_skipBlanks_le h
  | broken c f => exact Nat.le_trans c.length_skipBlanks_le h
  | more c t ts => exact h.2

theorem forward_expect (kind : Token.Kind) (expected : Expectation) :
    Forward (expect kind expected) := by
  intro n ts h
  unfold expect
  split
  · split
    · exact h.2
    · exact forward_refuse _ n _ h
  · exact forward_refuse _ n _ h

theorem forward_number : Forward number := by
  intro n ts h
  unfold number
  split
  · exact h.2
  · exact forward_refuse _ n _ h

theorem forward_subject : Forward subject := by
  intro n ts h
  unfold subject
  split
  · exact h.2
  · exact (forward_expect _ _).bind (fun _ => forward_number.bind fun _ => .pure _) n _ h.2
  · exact forward_refuse _ n _ h

theorem forward_names : Forward names := by
  intro n ts h
  fun_induction names ts with
  | case1 c x r ts hx => exact forward_refuse _ n _ h
  | case2 c x r c' r' ts hx y ys stop ts' he ih =>
    rw [he] at ih
    exact ih h.2.2
  | case3 c x r c' r' ts hx fault ts' he ih =>
    rw [he] at ih
    exact ih h.2.2
  | case4 => exact h.2.2
  | case5 => exact forward_refuse _ n _ h.2
  | case6 => exact forward_refuse _ n _ h

theorem forward_binders (subject : Subject) (range : Range) : Forward (binders subject range) := by
  intro n ts h
  unfold binders
  split
  · next ts =>
    have hn := forward_names n ts h.2
    split <;> next he => rw [he] at hn; exact hn
  · exact h
  · split <;> exact h

theorem forward_close (d : Directive) : Forward (close d) := by
  intro n ts h
  unfold close
  split
  · exact h.2
  · exact forward_refuse _ n _ h

theorem forward_directive : Forward directive := by
  intro n ts h
  unfold directive
  split
  · exact h.2
  · exact forward_close _ n _ h.2
  · exact forward_close _ n _ h.2
  · refine Forward.bind ?_ forward_close n _ h.2
    exact (forward_expect _ _).bind fun _ => forward_subject.bind fun _ =>
      (forward_expect _ _).bind fun _ => forward_binders _ _
  · exact h.2
  · exact forward_refuse _ n _ h

end Parser

def Cursor.directive (c : Cursor) : Except Fault (Option Directive) × Cursor :=
  let (outcome, ts) := Parser.directive (.ofCursor c)
  (outcome, ts.here)

theorem Cursor.length_directive_le (c : Cursor) : c.directive.2.rest.length ≤ c.rest.length :=
  (Parser.forward_directive _ _ (Tokens.within_ofCursor c (Nat.le_refl _))).here

end TextTemplate
