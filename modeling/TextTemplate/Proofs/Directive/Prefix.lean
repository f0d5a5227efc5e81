import TextTemplate.Proofs.Directive.Grammar

namespace TextTemplate

/-- That a directive with its closing braces may begin with a row of tokens. -/
def Viable (ks : List Token.Kind) : Prop :=
  ∃ row kind rest, Spells row kind ∧ row ++ [.close] = ks ++ rest

/-- What a directive that has been read in part waits for. A loop over numbers may bind names behind
its parenthesis, and a loop over a list has to. -/
inductive Awaiting
  | start
  | leftParen
  | subject
  | dots
  | stop
  | numbersParen
  | listParen
  | binders
  | item
  | binder
  | separator
  | close
  | nothing
deriving DecidableEq

namespace Awaiting

def next : Awaiting → Token.Kind → Option Awaiting
  | start, .close | binders, .close | close, .close => some nothing
  | start, .name _ | start, .endWord | separator, .pipe => some close
  | start, .forWord => some leftParen
  | leftParen, .leftParen => some subject
  | subject, .number _ => some dots
  | subject, .name _ => some listParen
  | dots, .dots => some stop
  | stop, .number _ => some numbersParen
  | numbersParen, .rightParen => some binders
  | listParen, .rightParen => some item
  | binders, .pipe | item, .pipe | separator, .comma => some binder
  | binder, .name x => if x.contains '.' then none else some separator
  | _, _ => none

/-- That a row leads from one state of waiting to another. -/
def Leads (s : Awaiting) (ks : List Token.Kind) (s' : Awaiting) : Prop :=
  ks.foldlM next s = some s'

theorem leads_nil {s s' : Awaiting} : s.Leads [] s' ↔ s = s' := by
  simp [Leads]

theorem leads_cons {s s' : Awaiting} {k : Token.Kind} {ks : List Token.Kind} :
    s.Leads (k :: ks) s' ↔ ∃ m, s.next k = some m ∧ m.Leads ks s' := by
  simp [Leads, List.foldlM_cons, Option.bind_eq_some_iff]

theorem leads_append {s s' : Awaiting} {as bs : List Token.Kind} :
    s.Leads (as ++ bs) s' ↔ ∃ m, s.Leads as m ∧ m.Leads bs s' := by
  simp [Leads, List.foldlM_append, Option.bind_eq_some_iff]

theorem leads_singleton {s s' : Awaiting} {k : Token.Kind} :
    s.Leads [k] s' ↔ s.next k = some s' := by
  simp [leads_cons, leads_nil]

theorem Leads.unique {s m m' : Awaiting} {ks : List Token.Kind} (h : s.Leads ks m)
    (h' : s.Leads ks m') : m = m' :=
  Option.some.inj (h.symm.trans h')

theorem exists_leads (s : Awaiting) : ∃ ks, s.Leads ks nothing := by
  cases s with
  | start => exact ⟨[.close], rfl⟩
  | leftParen => exact ⟨[.leftParen, .number 0, .dots, .number 0, .rightParen, .close], rfl⟩
  | subject => exact ⟨[.number 0, .dots, .number 0, .rightParen, .close], rfl⟩
  | dots => exact ⟨[.dots, .number 0, .rightParen, .close], rfl⟩
  | stop => exact ⟨[.number 0, .rightParen, .close], rfl⟩
  | numbersParen => exact ⟨[.rightParen, .close], rfl⟩
  | listParen => exact ⟨[.rightParen, .pipe, .name "", .pipe, .close], by cbv⟩
  | binders => exact ⟨[.close], rfl⟩
  | item => exact ⟨[.pipe, .name "", .pipe, .close], by cbv⟩
  | binder => exact ⟨[.name "", .pipe, .close], by cbv⟩
  | separator => exact ⟨[.pipe, .close], rfl⟩
  | close => exact ⟨[.close], rfl⟩
  | nothing => exact ⟨[], rfl⟩

theorem next_binder {k : Token.Kind} {s : Awaiting} :
    binder.next k = some s ↔ ∃ x, k = .name x ∧ Dotless x ∧ s = separator := by
  cases k with
  | name x =>
    have hx : binder.next (.name x) = if x.contains '.' then none else some separator := rfl
    by_cases hd : x.contains '.'
    · have hn : ¬ Dotless x := fun h => by
        rw [Parser.contains_eq_false_iff.2 h] at hd
        cases hd
      simp [hx, hd, hn]
    · have hn : Dotless x := Parser.contains_eq_false_iff.1 (by simpa using hd)
      simp [hx, hd, hn, eq_comm]
  | _ => simp [next]

theorem Leads.exists_cons {s : Awaiting} {ks : List Token.Kind} (h : s.Leads ks nothing)
    (hs : s ≠ nothing) : ∃ k rest m, ks = k :: rest ∧ s.next k = some m ∧ m.Leads rest nothing := by
  cases ks with
  | nil => exact absurd (leads_nil.1 h) hs
  | cons k rest =>
    obtain ⟨m, hm, hr⟩ := leads_cons.1 h
    exact ⟨k, rest, m, rfl, hm, hr⟩

theorem eq_of_nothing {ks : List Token.Kind} (h : nothing.Leads ks nothing) : ks = [] := by
  cases ks with
  | nil => rfl
  | cons k ks =>
    obtain ⟨m, hm, -⟩ := leads_cons.1 h
    cases hm

theorem eq_of_close {ks : List Token.Kind} (h : close.Leads ks nothing) : ks = [.close] := by
  obtain ⟨k, rest, m, rfl, hm, h⟩ := h.exists_cons nofun
  cases k with
  | close =>
    cases hm
    rw [eq_of_nothing h]
  | _ => cases hm

def binderRow (x : String) (xs : List String) : List Token.Kind :=
  .name x :: xs.flatMap (fun y => [.comma, .name y]) ++ [.pipe]

theorem binderKinds_cons (x : String) (xs : List String) :
    binderKinds (x :: xs) = .pipe :: binderRow x xs := rfl

theorem eq_of_binder {ks : List Token.Kind} (h : binder.Leads ks nothing) :
    ∃ x xs, (∀ y ∈ x :: xs, Dotless y) ∧ ks = binderRow x xs ++ [.close] := by
  obtain ⟨k, rest, m, rfl, hm, h⟩ := h.exists_cons nofun
  obtain ⟨x, rfl, hx, rfl⟩ := next_binder.1 hm
  obtain ⟨k, rest, m, rfl, hm, h⟩ := h.exists_cons nofun
  cases k with
  | pipe =>
    cases hm
    refine ⟨x, [], by simpa using hx, ?_⟩
    rw [eq_of_close h]
    rfl
  | comma =>
    cases hm
    obtain ⟨y, ys, hd, rfl⟩ := eq_of_binder h
    exact ⟨x, y :: ys, List.forall_mem_cons.2 ⟨hx, hd⟩, rfl⟩
  | _ => cases hm
termination_by ks.length

theorem leads_binderRow {x : String} {xs : List String} (h : ∀ y ∈ x :: xs, Dotless y) :
    binder.Leads (binderRow x xs) close := by
  have hx : binder.next (.name x) = some separator := next_binder.2 ⟨x, rfl, h x (by simp), rfl⟩
  induction xs generalizing x with
  | nil => exact leads_cons.2 ⟨separator, hx, rfl⟩
  | cons y ys ih =>
    have hy : binder.Leads (binderRow y ys) close :=
      ih (fun z hz => h z (List.mem_cons_of_mem x hz)) (next_binder.2 ⟨y, rfl, h y (by simp), rfl⟩)
    exact leads_cons.2 ⟨separator, hx, leads_cons.2 ⟨binder, rfl, hy⟩⟩

theorem eq_of_item {ks : List Token.Kind} (h : item.Leads ks nothing) :
    ∃ x xs, (∀ y ∈ x :: xs, Dotless y) ∧ ks = binderKinds (x :: xs) ++ [.close] := by
  obtain ⟨k, rest, m, rfl, hm, h⟩ := h.exists_cons nofun
  cases k with
  | pipe =>
    cases hm
    obtain ⟨x, xs, hd, rfl⟩ := eq_of_binder h
    exact ⟨x, xs, hd, rfl⟩
  | _ => cases hm

theorem eq_of_binders {ks : List Token.Kind} (h : binders.Leads ks nothing) :
    ∃ names, (∀ x ∈ names, Dotless x) ∧ ks = binderKinds names ++ [.close] := by
  obtain ⟨k, rest, m, rfl, hm, h⟩ := h.exists_cons nofun
  cases k with
  | pipe =>
    cases hm
    obtain ⟨x, xs, hd, rfl⟩ := eq_of_binder h
    exact ⟨x :: xs, hd, rfl⟩
  | close =>
    cases hm
    rw [eq_of_nothing h]
    exact ⟨[], nofun, rfl⟩
  | _ => cases hm

theorem leads_item {x : String} {xs : List String} (h : ∀ y ∈ x :: xs, Dotless y) :
    item.Leads (binderKinds (x :: xs)) close := by
  rw [binderKinds_cons]
  exact leads_cons.2 ⟨binder, rfl, leads_binderRow h⟩

theorem leads_binders {x : String} {xs : List String} (h : ∀ y ∈ x :: xs, Dotless y) :
    binders.Leads (binderKinds (x :: xs)) close := by
  rw [binderKinds_cons]
  exact leads_cons.2 ⟨binder, rfl, leads_binderRow h⟩

theorem eq_of_subject {ks : List Token.Kind} (h : subject.Leads ks nothing) :
    ∃ (s : Subject) (names : List String) (kind : Directive.Kind), (∀ x ∈ names, Dotless x) ∧
      s.binding names = some kind ∧
      ks = s.kinds ++ .rightParen :: binderKinds names ++ [.close] := by
  obtain ⟨k, rest, m, rfl, hm, h⟩ := h.exists_cons nofun
  cases k with
  | name list =>
    cases hm
    obtain ⟨k, rest, m, rfl, hm, h⟩ := h.exists_cons nofun
    cases k with
    | rightParen =>
      cases hm
      obtain ⟨x, xs, hd, rfl⟩ := eq_of_item h
      exact ⟨.list list, x :: xs, _, hd, rfl, rfl⟩
    | _ => cases hm
  | number first =>
    cases hm
    obtain ⟨k, rest, m, rfl, hm, h⟩ := h.exists_cons nofun
    cases k with
    | dots =>
      cases hm
      obtain ⟨k, rest, m, rfl, hm, h⟩ := h.exists_cons nofun
      cases k with
      | number stop =>
        cases hm
        obtain ⟨k, rest, m, rfl, hm, h⟩ := h.exists_cons nofun
        cases k with
        | rightParen =>
          cases hm
          obtain ⟨names, hd, rfl⟩ := eq_of_binders h
          exact ⟨.numbers first stop, names, _, hd, rfl, rfl⟩
        | _ => cases hm
      | _ => cases hm
    | _ => cases hm
  | _ => cases hm

theorem leads_subject {s : Subject} {names : List String} {kind : Directive.Kind}
    (hd : ∀ x ∈ names, Dotless x) (hs : s.binding names = some kind) :
    subject.Leads (s.kinds ++ .rightParen :: binderKinds names ++ [.close]) nothing := by
  cases s with
  | numbers first stop =>
    have hb : numbersParen.Leads (.rightParen :: binderKinds names ++ [.close]) nothing := by
      refine leads_cons.2 ⟨binders, rfl, ?_⟩
      cases names with
      | nil => rfl
      | cons x xs => exact leads_append.2 ⟨close, leads_binders hd, rfl⟩
    exact leads_cons.2 ⟨dots, rfl, leads_cons.2 ⟨.stop, rfl, leads_cons.2 ⟨numbersParen, rfl, hb⟩⟩⟩
  | list name =>
    cases names with
    | nil => cases hs
    | cons x xs =>
      have hb : item.Leads (binderKinds (x :: xs) ++ [.close]) nothing :=
        leads_append.2 ⟨close, leads_item hd, rfl⟩
      exact leads_cons.2 ⟨listParen, rfl, leads_cons.2 ⟨item, rfl, hb⟩⟩

end Awaiting

open Awaiting

theorem leads_nothing_iff {ks : List Token.Kind} :
    start.Leads ks nothing ↔ ∃ row kind, Spells row kind ∧ ks = row ++ [.close] := by
  constructor
  · intro h
    obtain ⟨k, rest, m, rfl, hm, h⟩ := h.exists_cons nofun
    cases k with
    | close =>
      cases hm
      rw [eq_of_nothing h]
      exact ⟨[], none, .empty, rfl⟩
    | name x =>
      cases hm
      rw [eq_of_close h]
      exact ⟨[.name x], _, .field x, rfl⟩
    | endWord =>
      cases hm
      rw [eq_of_close h]
      exact ⟨[.endWord], _, .endLoop, rfl⟩
    | forWord =>
      cases hm
      obtain ⟨k, rest, m, rfl, hm, h⟩ := h.exists_cons nofun
      cases k with
      | leftParen =>
        cases hm
        obtain ⟨s, names, kind, hd, hs, rfl⟩ := eq_of_subject h
        exact ⟨_, some kind, .loop hd hs, by simp⟩
      | _ => cases hm
    | _ => cases hm
  · rintro ⟨row, kind, h, rfl⟩
    cases h with
    | empty => rfl
    | field x => rfl
    | endLoop => rfl
    | loop hd hs =>
      have hl := leads_subject hd hs
      exact leads_cons.2 ⟨leftParen, rfl, leads_cons.2 ⟨subject, rfl, by simpa using hl⟩⟩

/-- A directive may begin with just the rows that lead to a state of waiting. -/
theorem viable_iff {ks : List Token.Kind} : Viable ks ↔ ∃ s, start.Leads ks s := by
  constructor
  · rintro ⟨row, kind, rest, h, he⟩
    have hl : start.Leads (ks ++ rest) nothing := by
      rw [← he]
      exact leads_nothing_iff.2 ⟨row, kind, h, rfl⟩
    obtain ⟨s, hs, -⟩ := leads_append.1 hl
    exact ⟨s, hs⟩
  · rintro ⟨s, hs⟩
    obtain ⟨rest, hr⟩ := s.exists_leads
    obtain ⟨row, kind, h, he⟩ := leads_nothing_iff.1 (leads_append.2 ⟨s, hs, hr⟩)
    exact ⟨row, kind, rest, h, he.symm⟩

/-- What a beginning may go on with is what it waits for. -/
theorem viable_append_iff {ks : List Token.Kind} {s : Awaiting} (h : start.Leads ks s)
    (k : Token.Kind) : Viable (ks ++ [k]) ↔ (s.next k).isSome := by
  rw [viable_iff, Option.isSome_iff_exists]
  constructor
  · rintro ⟨s', hs'⟩
    obtain ⟨m, hm, hk⟩ := leads_append.1 hs'
    obtain rfl := h.unique hm
    exact ⟨s', leads_singleton.1 hk⟩
  · rintro ⟨s', hs'⟩
    exact ⟨s', leads_append.2 ⟨s, h, leads_singleton.2 hs'⟩⟩

theorem spells_of_leads {ks : List Token.Kind} {s : Awaiting} (h : start.Leads ks s)
    (hc : s.next .close = some nothing) : ∃ kind, Spells ks kind := by
  obtain ⟨row, kind, hs, he⟩ := leads_nothing_iff.1 (leads_append.2 ⟨s, h, leads_singleton.2 hc⟩)
  obtain rfl := List.append_cancel_right he
  exact ⟨kind, hs⟩

end TextTemplate
