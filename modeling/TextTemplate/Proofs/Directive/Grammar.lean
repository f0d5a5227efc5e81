import TextTemplate.Directive.Parser
import TextTemplate.Proofs.Token.Reading

namespace TextTemplate

def Subject.kinds : Subject → List Token.Kind
  | numbers first stop => [.number first, .dots, .number stop]
  | list name => [.name name]

def Subject.binding : Subject → List String → Option Directive.Kind
  | numbers first stop, names => some (.forRange first stop names)
  | list name, x :: xs => some (.forList name x xs)
  | list _, [] => none

def binderKinds : List String → List Token.Kind
  | [] => []
  | x :: xs => .pipe :: .name x :: xs.flatMap (fun y => [.comma, .name y]) ++ [.pipe]

def Dotless (name : String) : Prop := '.' ∉ name.toList

/-- The rows of tokens that make a directive. The empty row makes none. -/
inductive Spells : List Token.Kind → Option Directive.Kind → Prop
  | empty : Spells [] none
  | field (name) : Spells [.name name] (some (.field name))
  | endLoop : Spells [.endWord] (some .endLoop)
  | loop {s : Subject} {names kind} (hd : ∀ x ∈ names, Dotless x) (hs : s.binding names = some kind) :
    Spells (.forWord :: .leftParen :: s.kinds ++ .rightParen :: binderKinds names) (some kind)

namespace Tokens

theorem Reads.nil_iff {ts ts' : Tokens} : Reads [] ts ts' ↔ ts = ts' := by
  constructor
  · intro h
    cases h
    rfl
  · rintro rfl
    exact .nil ts

theorem Reads.cons_iff {t : Token} {toks : List Token} {ts ts' : Tokens} :
    Reads (t :: toks) ts ts' ↔ ∃ c us, ts = .more c t us ∧ Reads toks us ts' := by
  constructor
  · intro h
    cases h with
    | cons c t h => exact ⟨c, _, rfl, h⟩
  · rintro ⟨c, us, rfl, h⟩
    exact .cons c t h

theorem Reads.append_iff {toks toks' : List Token} {ts ts'' : Tokens} :
    Reads (toks ++ toks') ts ts'' ↔ ∃ ts', Reads toks ts ts' ∧ Reads toks' ts' ts'' := by
  constructor
  · intro h
    induction toks generalizing ts with
    | nil => exact ⟨ts, .nil ts, h⟩
    | cons t toks ih =>
      obtain ⟨c, us, rfl, hr⟩ := cons_iff.1 h
      obtain ⟨ts', hu, ht⟩ := ih hr
      exact ⟨ts', .cons c t hu, ht⟩
  · rintro ⟨ts', h, h'⟩
    exact h.append h'

theorem reach_singleton (t : Token) : reach [t] = some t.range := rfl

theorem reach_append_singleton {toks : List Token} {range : Range} (h : reach toks = some range)
    (more : List Token) (t : Token) :
    reach (toks ++ (more ++ [t])) = some (range.upTo t.range) := by
  cases toks with
  | nil => cases h
  | cons a toks =>
    have hl : ((a :: toks).getLast?.map fun u => a.range.upTo u.range) = some range := h
    obtain ⟨u, -, rfl⟩ := Option.map_eq_some_iff.1 hl
    rw [reach, ← List.append_assoc, List.getLast?_concat]
    rfl

end Tokens

namespace Parser

open Tokens

variable {α β : Type}

theorem bind_eq_ok {p : Parser α} {f : α → Parser β} {ts ts' : Tokens} {b : β} :
    (p >>= f) ts = (.ok b, ts') ↔ ∃ a us, p ts = (.ok a, us) ∧ f a us = (.ok b, ts') := by
  cases h : p ts with
  | mk outcome us =>
    cases outcome with
    | ok a =>
      have hb : (p >>= f) ts = f a us := by simp only [bind, h]
      rw [hb]
      constructor
      · intro hf
        exact ⟨a, us, rfl, hf⟩
      · rintro ⟨a', us', he, hf⟩
        cases he
        exact hf
    | error fault =>
      have hb : (p >>= f) ts = (.error fault, us) := by simp only [bind, h]
      rw [hb]
      constructor
      · intro he
        cases he
      · rintro ⟨a', us', he, -⟩
        cases he

theorem pure_eq_ok {a b : α} {ts ts' : Tokens} :
    (pure a : Parser α) ts = (.ok b, ts') ↔ a = b ∧ ts = ts' := by
  constructor
  · intro h
    cases h
    exact ⟨rfl, rfl⟩
  · rintro ⟨rfl, rfl⟩
    rfl

theorem refuse_ne_ok {cause : Option Token.Kind → Cause} {ts ts' : Tokens} {a : α} :
    (refuse cause : Parser α) ts ≠ (.ok a, ts') := by
  cases ts <;> nofun

theorem expect_eq_ok {kind : Token.Kind} {expected : Expectation} {ts ts' : Tokens} {r : Range} :
    expect kind expected ts = (.ok r, ts') ↔ ∃ t, Reads [t] ts ts' ∧ t.kind = kind ∧ t.range = r := by
  constructor
  · intro h
    unfold expect at h
    split at h
    · next c t us =>
      split at h
      · next hk =>
        cases h
        exact ⟨t, .cons c t (.nil _), hk, rfl⟩
      · exact absurd h refuse_ne_ok
    · exact absurd h refuse_ne_ok
  · rintro ⟨t, h, hk, rfl⟩
    cases h with
    | cons c t h =>
      cases h
      exact if_pos hk

theorem number_eq_ok {ts ts' : Tokens} {n : Nat} :
    number ts = (.ok n, ts') ↔ ∃ t, Reads [t] ts ts' ∧ t.kind = .number n := by
  constructor
  · intro h
    unfold number at h
    split at h
    · next c n r us =>
      cases h
      exact ⟨⟨.number n, r⟩, .cons c _ (.nil _), rfl⟩
    · exact absurd h refuse_ne_ok
  · rintro ⟨⟨k, r⟩, h, rfl⟩
    cases h with
    | cons c t h =>
      cases h
      rfl

theorem numbers_eq_ok {first : Nat} {ts ts' : Tokens} {s : Subject} :
    numbers first ts = (.ok s, ts') ↔ ∃ t u stop, Reads [t, u] ts ts' ∧ t.kind = .dots ∧
      u.kind = .number stop ∧ s = .numbers first stop := by
  simp only [numbers, bind_eq_ok, expect_eq_ok, number_eq_ok, pure_eq_ok]
  constructor
  · rintro ⟨-, us, ⟨t, ht, hk, -⟩, stop, vs, ⟨u, hu, hn⟩, rfl, rfl⟩
    exact ⟨t, u, stop, ht.append hu, hk, hn, rfl⟩
  · rintro ⟨t, u, stop, h, hk, hn, rfl⟩
    cases h with
    | cons c t h =>
      exact ⟨t.range, _, ⟨t, .cons c t (.nil _), hk, rfl⟩, stop, ts', ⟨u, h, hn⟩, rfl, rfl⟩

theorem subject_eq_ok {ts ts' : Tokens} {s : Subject} :
    subject ts = (.ok s, ts') ↔ ∃ toks, Reads toks ts ts' ∧ toks.map Token.kind = s.kinds := by
  constructor
  · intro h
    unfold subject at h
    split at h
    · next c list r us =>
      cases h
      exact ⟨[⟨.name list, r⟩], .cons c _ (.nil _), rfl⟩
    · next c first r us =>
      obtain ⟨t, u, stop, hr, ht, hu, rfl⟩ := numbers_eq_ok.1 h
      exact ⟨[⟨.number first, r⟩, t, u], .cons c _ hr, by simp [Subject.kinds, ht, hu]⟩
    · exact absurd h refuse_ne_ok
  · rintro ⟨toks, hr, hk⟩
    cases s with
    | numbers first stop =>
      obtain ⟨⟨k, r⟩, toks, rfl, rfl, hk₁⟩ := List.map_eq_cons_iff.1 hk
      obtain ⟨u, toks, rfl, hu, hk₂⟩ := List.map_eq_cons_iff.1 hk₁
      obtain ⟨v, toks, rfl, hv, hk₃⟩ := List.map_eq_cons_iff.1 hk₂
      obtain rfl := List.map_eq_nil_iff.1 hk₃
      obtain ⟨c, us, rfl, hr'⟩ := Reads.cons_iff.1 hr
      exact numbers_eq_ok.2 ⟨u, v, stop, hr', hu, hv, rfl⟩
    | list name =>
      obtain ⟨⟨k, r⟩, toks, rfl, rfl, hk₁⟩ := List.map_eq_cons_iff.1 hk
      obtain rfl := List.map_eq_nil_iff.1 hk₁
      obtain ⟨c, us, rfl, hr'⟩ := Reads.cons_iff.1 hr
      obtain rfl := Reads.nil_iff.1 hr'
      rfl

theorem contains_eq_false_iff {x : String} : x.contains '.' = false ↔ Dotless x := by
  simp [Dotless]

theorem row_of_names {ts ts' : Tokens} {x : String} {xs : List String} {stop : Range}
    (h : names ts = (.ok ((x, xs), stop), ts')) : (∀ y ∈ x :: xs, Dotless y) ∧
      ∃ toks t, Reads (toks ++ [t]) ts ts' ∧ t.kind = .pipe ∧ t.range = stop ∧
        toks.map Token.kind = .name x :: xs.flatMap (fun y => [.comma, .name y]) := by
  fun_induction names ts generalizing x xs stop ts' with
  | case1 c x r ts hx => exact absurd h refuse_ne_ok
  | case2 c x r hx c' r' ts y ys stop' ts'' he ih =>
    cases h
    obtain ⟨hd, toks, t, hr, ht, hs, hk⟩ := ih he
    refine ⟨?_, ⟨.name x, r⟩ :: ⟨.comma, r'⟩ :: toks, t, .cons _ _ (.cons _ _ hr), ht, hs,
      by simp [hk]⟩
    intro z hz
    obtain rfl | hz := List.mem_cons.1 hz
    · exact contains_eq_false_iff.1 (by simpa using hx)
    · exact hd z hz
  | case3 c x r hx c' r' ts fault ts'' he ih => cases h
  | case4 c x r hx c' stop' ts =>
    cases h
    refine ⟨?_, [⟨.name x, r⟩], ⟨.pipe, stop'⟩, .cons _ _ (.cons _ _ (.nil _)), rfl, rfl, rfl⟩
    intro z hz
    obtain rfl := List.mem_singleton.1 hz
    exact contains_eq_false_iff.1 (by simpa using hx)
  | case5 => exact absurd h refuse_ne_ok
  | case6 => exact absurd h refuse_ne_ok

theorem names_of_row {ts ts' : Tokens} {toks : List Token} {t : Token} {x : String}
    {xs : List String} (hr : Reads (toks ++ [t]) ts ts') (ht : t.kind = .pipe)
    (hk : toks.map Token.kind = .name x :: xs.flatMap (fun y => [.comma, .name y]))
    (hd : ∀ y ∈ x :: xs, Dotless y) : names ts = (.ok ((x, xs), t.range), ts') := by
  have hx := contains_eq_false_iff.2 (hd x (by simp))
  induction xs generalizing x toks ts with
  | nil =>
    obtain ⟨⟨k, r⟩, toks, rfl, rfl, hk₁⟩ := List.map_eq_cons_iff.1 hk
    obtain rfl := List.map_eq_nil_iff.1 hk₁
    obtain ⟨k, r'⟩ := t
    subst ht
    obtain ⟨c, us, rfl, hr₁⟩ := Reads.cons_iff.1 hr
    obtain ⟨c', us, rfl, hr₂⟩ := Reads.cons_iff.1 hr₁
    obtain rfl := Reads.nil_iff.1 hr₂
    rw [names, if_neg (by simp [hx])]
  | cons y ys ih =>
    obtain ⟨⟨k, r⟩, toks, rfl, hk₀, hk₁⟩ := List.map_eq_cons_iff.1 hk
    obtain rfl : k = .name x := hk₀
    obtain ⟨⟨k, r'⟩, toks, rfl, hk₀, hk₂⟩ := List.map_eq_cons_iff.1 hk₁
    obtain rfl : k = .comma := hk₀
    obtain ⟨c, us, rfl, hr₁⟩ := Reads.cons_iff.1 hr
    obtain ⟨c', us, rfl, hr₂⟩ := Reads.cons_iff.1 hr₁
    have hn := ih hr₂ hk₂ (fun z hz => hd z (List.mem_cons_of_mem x hz))
      (contains_eq_false_iff.2 (hd y (by simp)))
    rw [names, if_neg (by simp [hx])]
    simp only [hn]

theorem row_of_binders {s : Subject} {range : Range} {ts ts' : Tokens} {d : Directive}
    (h : binders s range ts = (.ok d, ts')) : ∃ toks names, Reads toks ts ts' ∧
      toks.map Token.kind = binderKinds names ∧ (∀ x ∈ names, Dotless x) ∧
      s.binding names = some d.kind ∧
      ∀ front, reach front = some range → reach (front ++ toks) = some d.range := by
  unfold binders at h
  split at h
  · next c r us =>
    split at h
    · next x xs stop us' hn =>
      cases h
      obtain ⟨hd, toks, t, hr, ht, rfl, hk⟩ := row_of_names hn
      refine ⟨⟨.pipe, r⟩ :: (toks ++ [t]), x :: xs, .cons _ _ hr, by simp [binderKinds, hk, ht], hd,
        ?_, fun front hf => reach_append_singleton hf (⟨.pipe, r⟩ :: toks) t⟩
      cases s <;> rfl
    · cases h
  · cases h
  · split at h
    · cases h
    · cases h
      refine ⟨[], [], .nil _, rfl, nofun, rfl, fun front hf => ?_⟩
      rw [List.append_nil, hf]

/-- A token that is no pipe has to follow, or else more names might. -/
theorem binders_of_row {s : Subject} (range : Range) {ts us ts' : Tokens} {toks : List Token}
    {t : Token} {xs : List String} {kind : Directive.Kind} (hr : Reads toks ts us)
    (ht : Reads [t] us ts') (hp : t.kind ≠ .pipe) (hk : toks.map Token.kind = binderKinds xs)
    (hd : ∀ x ∈ xs, Dotless x) (hs : s.binding xs = some kind) :
    ∃ d, binders s range ts = (.ok d, us) ∧ d.kind = kind := by
  cases xs with
  | nil =>
    obtain rfl := List.map_eq_nil_iff.1 hk
    obtain rfl := Reads.nil_iff.1 hr
    obtain ⟨c, us, rfl, -⟩ := Reads.cons_iff.1 ht
    cases s with
    | numbers first stop =>
      refine ⟨⟨.forRange first stop [], range⟩, ?_, Option.some.inj hs⟩
      unfold binders
      split
      · next he =>
        cases he
        exact absurd rfl hp
      · next he => cases he
      · rfl
    | list name => cases hs
  | cons x xs =>
    obtain ⟨⟨k, r⟩, toks, rfl, rfl, hk₁⟩ := List.map_eq_cons_iff.1 hk
    obtain ⟨toks, rest, rfl, hk₂, hk₃⟩ := List.map_eq_append_iff.1 hk₁
    obtain ⟨stop, rest, rfl, hstop, hk₄⟩ := List.map_eq_cons_iff.1 hk₃
    obtain rfl := List.map_eq_nil_iff.1 hk₄
    obtain ⟨c, vs, rfl, hr'⟩ := Reads.cons_iff.1 hr
    have hn := names_of_row hr' hstop hk₂ hd
    refine ⟨⟨s.loop x xs, range.upTo stop.range⟩, by simp only [binders, hn], ?_⟩
    cases s <;> exact Option.some.inj hs

theorem close_eq_ok {d : Directive} {o : Option Directive} {ts ts' : Tokens} :
    close d ts = (.ok o, ts') ↔ ∃ t, Reads [t] ts ts' ∧ t.kind = .close ∧ o = some d := by
  constructor
  · intro h
    unfold close at h
    split at h
    · next c r us =>
      cases h
      exact ⟨⟨.close, r⟩, .cons _ _ (.nil _), rfl, rfl⟩
    · exact absurd h refuse_ne_ok
  · rintro ⟨⟨k, r⟩, hr, rfl, rfl⟩
    obtain ⟨c, us, rfl, hr'⟩ := Reads.cons_iff.1 hr
    obtain rfl := Reads.nil_iff.1 hr'
    rfl

theorem row_of_directive {ts ts' : Tokens} {o : Option Directive}
    (h : directive ts = (.ok o, ts')) : ∃ toks t, Reads (toks ++ [t]) ts ts' ∧ t.kind = .close ∧
      Spells (toks.map Token.kind) (o.map Directive.kind) ∧ o.map Directive.range = reach toks := by
  unfold directive at h
  split at h
  · next c r us =>
    cases h
    exact ⟨[], ⟨.close, r⟩, .cons _ _ (.nil _), rfl, .empty, rfl⟩
  · next c x r us =>
    obtain ⟨t, hr, ht, rfl⟩ := close_eq_ok.1 h
    exact ⟨[⟨.name x, r⟩], t, .cons _ _ hr, ht, .field x, rfl⟩
  · next c r us =>
    obtain ⟨t, hr, ht, rfl⟩ := close_eq_ok.1 h
    exact ⟨[⟨.endWord, r⟩], t, .cons _ _ hr, ht, .endLoop, rfl⟩
  · next c r us =>
    obtain ⟨d, vs, hl, hc⟩ := bind_eq_ok.1 h
    obtain ⟨t, ht, hclose, rfl⟩ := close_eq_ok.1 hc
    simp only [loop, bind_eq_ok, expect_eq_ok, subject_eq_ok] at hl
    obtain ⟨-, us₁, ⟨lp, hlp, hlk, -⟩, s, us₂, ⟨sub, hsub, hsk⟩, -, us₃, ⟨rp, hrp, hrk, rfl⟩, hb⟩ := hl
    obtain ⟨bs, names, hbs, hbk, hd, hs, hreach⟩ := row_of_binders hb
    have hr := (((hlp.append hsub).append hrp).append hbs).append ht
    have hw : reach (⟨.forWord, r⟩ :: ([lp] ++ sub ++ [rp])) = some (r.upTo rp.range) :=
      reach_append_singleton (reach_singleton ⟨.forWord, r⟩) ([lp] ++ sub) rp
    refine ⟨⟨.forWord, r⟩ :: ([lp] ++ sub ++ [rp] ++ bs), t, .cons _ _ hr, hclose, ?_,
      (hreach _ hw).symm⟩
    have hk : (⟨.forWord, r⟩ :: ([lp] ++ sub ++ [rp] ++ bs)).map Token.kind =
        .forWord :: .leftParen :: s.kinds ++ .rightParen :: binderKinds names := by
      simp [hlk, hsk, hrk, hbk]
    rw [hk]
    exact .loop hd hs
  · cases h
  · exact absurd h refuse_ne_ok

theorem directive_of_row {ts ts' : Tokens} {toks : List Token} {t : Token}
    {k : Option Directive.Kind} (hr : Reads (toks ++ [t]) ts ts') (ht : t.kind = .close)
    (h : Spells (toks.map Token.kind) k) :
    ∃ o, directive ts = (.ok o, ts') ∧ o.map Directive.kind = k := by
  generalize hk : toks.map Token.kind = ks at h
  cases h with
  | empty =>
    obtain rfl := List.map_eq_nil_iff.1 hk
    obtain ⟨k, r⟩ := t
    subst ht
    obtain ⟨c, us, rfl, hr'⟩ := Reads.cons_iff.1 hr
    obtain rfl := Reads.nil_iff.1 hr'
    exact ⟨none, rfl, rfl⟩
  | field name =>
    obtain ⟨⟨k, r⟩, toks, rfl, rfl, hk'⟩ := List.map_eq_cons_iff.1 hk
    obtain rfl := List.map_eq_nil_iff.1 hk'
    obtain ⟨c, us, rfl, hr'⟩ := Reads.cons_iff.1 hr
    exact ⟨some ⟨.field name, r⟩, close_eq_ok.2 ⟨t, hr', ht, rfl⟩, rfl⟩
  | endLoop =>
    obtain ⟨⟨k, r⟩, toks, rfl, rfl, hk'⟩ := List.map_eq_cons_iff.1 hk
    obtain rfl := List.map_eq_nil_iff.1 hk'
    obtain ⟨c, us, rfl, hr'⟩ := Reads.cons_iff.1 hr
    exact ⟨some ⟨.endLoop, r⟩, close_eq_ok.2 ⟨t, hr', ht, rfl⟩, rfl⟩
  | @loop s names kind hd hs =>
    obtain ⟨⟨k, r⟩, toks, rfl, rfl, hk₁⟩ := List.map_eq_cons_iff.1 hk
    obtain ⟨front, rear, rfl, hk₂, hk₃⟩ := List.map_eq_append_iff.1 hk₁
    obtain ⟨lp, sub, rfl, hlp, hsub⟩ := List.map_eq_cons_iff.1 hk₂
    obtain ⟨rp, bs, rfl, hrp, hbs⟩ := List.map_eq_cons_iff.1 hk₃
    obtain ⟨c, us, rfl, hr₁⟩ := Reads.cons_iff.1 hr
    -- The stream parts where the parts of the header meet.
    have hr₁ : Reads ([lp] ++ (sub ++ ([rp] ++ (bs ++ [t])))) us ts' := by simpa using hr₁
    obtain ⟨us₁, hrl, hr₂⟩ := Reads.append_iff.1 hr₁
    obtain ⟨us₂, hrs, hr₃⟩ := Reads.append_iff.1 hr₂
    obtain ⟨us₃, hrr, hr₄⟩ := Reads.append_iff.1 hr₃
    obtain ⟨us₄, hrb, hrt⟩ := Reads.append_iff.1 hr₄
    obtain ⟨d, hb, rfl⟩ := binders_of_row (r.upTo rp.range) hrb hrt (by simp [ht]) hbs hd hs
    have hl : loop r us = (.ok d, us₄) := by
      simp only [loop, bind_eq_ok, expect_eq_ok, subject_eq_ok]
      exact ⟨lp.range, us₁, ⟨lp, hrl, hlp, rfl⟩, s, us₂, ⟨sub, hrs, hsub⟩, rp.range, us₃,
        ⟨rp, hrr, hrp, rfl⟩, hb⟩
    exact ⟨some d, bind_eq_ok.2 ⟨d, us₄, hl, close_eq_ok.2 ⟨t, hrt, ht, rfl⟩⟩, rfl⟩

end Parser

theorem close_not_mem_binderKinds (names : List String) : .close ∉ binderKinds names := by
  cases names <;> simp [binderKinds]

theorem Spells.close_not_mem {ks : List Token.Kind} {k : Option Directive.Kind} (h : Spells ks k) :
    .close ∉ ks := by
  cases h with
  | empty => simp
  | field name => simp
  | endLoop => simp
  | @loop s names kind hd hs =>
    have hb := close_not_mem_binderKinds names
    cases s <;> simpa [Subject.kinds] using hb

namespace Cursor

/-- A directive is parsed just where text that lexes as a row of the grammar comes next, and closing
braces after it. What stands behind them is not looked at. -/
theorem directive_eq_ok_iff {c : Cursor} {k : Option Directive.Kind} {r : List Char} :
    (∃ o d, c.directive = (.ok o, d) ∧ o.map Directive.kind = k ∧ d.rest = r) ↔
      ∃ u ks, c.rest = u ++ '}' :: '}' :: r ∧ '}' ∉ u ∧ Lexes ks u ∧ Spells ks k := by
  constructor
  · rintro ⟨o, d, h, rfl, rfl⟩
    cases hp : Parser.directive (.ofCursor c) with
    | mk outcome ts =>
      obtain ⟨rfl, rfl⟩ : outcome = .ok o ∧ ts.here = d := by simpa [directive, hp] using h
      obtain ⟨toks, t, hr, ht, hs, -⟩ := Parser.row_of_directive hp
      have hk : ∀ t ∈ toks, t.kind ≠ .close := fun t hm he =>
        hs.close_not_mem (List.mem_map.2 ⟨t, hm, he⟩)
      obtain ⟨u, r, d, hu, hb, hl, rfl, hd⟩ := Tokens.lexes_of_reads hr hk ht
      refine ⟨u, toks.map Token.kind, ?_, hb, hl, hs⟩
      rw [Tokens.here_ofCursor, hd, hu]
  · rintro ⟨u, ks, hu, hb, hl, hs⟩
    obtain ⟨toks, t, d, rfl, ht, hr, hd⟩ := Tokens.reads_of_lexes hl hb hu
    obtain ⟨o, ho, hk⟩ := Parser.directive_of_row hr ht hs
    refine ⟨o, d, ?_, hk, hd⟩
    rw [directive, ho]
    exact congrArg _ (Tokens.here_ofCursor d)

end Cursor

/-- That `body` parses as a directive of a kind when closing braces and nothing more stand behind it. -/
def Makes (body : List Char) (kind : Option Directive.Kind) : Prop :=
  ∃ o c, Cursor.directive { rest := body ++ ['}', '}'] } = (.ok o, c) ∧
    o.map Directive.kind = kind ∧ c.rest = []

theorem Makes.unique {body : List Char} {k k' : Option Directive.Kind} (h : Makes body k)
    (h' : Makes body k') : k = k' := by
  obtain ⟨o, c, hd, rfl, -⟩ := h
  obtain ⟨o', c', hd', rfl, -⟩ := h'
  cases hd.symm.trans hd'
  rfl

theorem makes_iff_lexes {body : List Char} {k : Option Directive.Kind} (hb : '}' ∉ body) :
    Makes body k ↔ ∃ ks, Lexes ks body ∧ Spells ks k := by
  rw [Makes, Cursor.directive_eq_ok_iff]
  constructor
  · rintro ⟨u, ks, hu, -, hl, hs⟩
    obtain rfl := List.append_cancel_right hu
    exact ⟨ks, hl, hs⟩
  · rintro ⟨ks, hl, hs⟩
    exact ⟨body, ks, rfl, hb, hl, hs⟩

theorem makes_iff {c : Cursor} {body r : List Char} {k : Option Directive.Kind}
    (hc : c.rest = body ++ '}' :: '}' :: r) (hb : '}' ∉ body) :
    Makes body k ↔ ∃ o d, c.directive = (.ok o, d) ∧ o.map Directive.kind = k ∧ d.rest = r := by
  rw [makes_iff_lexes hb, Cursor.directive_eq_ok_iff]
  constructor
  · rintro ⟨ks, hl, hs⟩
    exact ⟨body, ks, hc, hb, hl, hs⟩
  · rintro ⟨u, ks, hu, hbu, hl, hs⟩
    rw [hc] at hu
    obtain ⟨rfl, -⟩ := append_cons_inj hb hbu hu
    exact ⟨ks, hl, hs⟩

end TextTemplate
