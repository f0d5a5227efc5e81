import TextTemplate.Proofs.Directive.Moved

namespace TextTemplate

/-- That closing braces behind a text would be the first ones. -/
def Unclosed (text : List Char) : Prop := ¬ ['}', '}'] <:+: text ++ ['}']

instance (text : List Char) : Decidable (Unclosed text) :=
  inferInstanceAs (Decidable (¬ ['}', '}'] <:+: text ++ ['}']))

theorem Unclosed.of_append {u v : List Char} (h : Unclosed (u ++ v)) : Unclosed v := by
  intro hv
  rw [Unclosed, List.append_assoc] at h
  exact h (hv.trans (List.suffix_append u (v ++ ['}'])).isInfix)

theorem Unclosed.exists_cons {text : List Char} (h : Unclosed ('}' :: text)) :
    ∃ c rest, text = c :: rest ∧ c ≠ '}' := by
  cases text with
  | nil => exact absurd (List.infix_refl _) h
  | cons c rest =>
    refine ⟨c, rest, rfl, ?_⟩
    rintro rfl
    exact h ⟨[], rest ++ ['}'], rfl⟩

theorem unclosed_of_not_mem {text : List Char} (h : '}' ∉ text) : Unclosed text := by
  intro hb
  have hc := hb.sublist.count_le '}'
  rw [List.count_append, List.count_eq_zero_of_not_mem h] at hc
  exact absurd hc (by decide)

namespace Token

theorem read?_append_close {text : List Char} (hne : text ≠ []) (h : Unclosed text) (rest : List Char) :
    read? (text ++ '}' :: '}' :: rest) = read? text := by
  by_cases hb : '}' ∈ text
  · obtain ⟨u, v, rfl, hu⟩ := List.eq_append_cons_of_mem hb
    by_cases hn : u = []
    · subst hn
      obtain ⟨c, v, rfl, hc⟩ := h.exists_cons
      simp [read?, number?, name?, isNameStart, hc]
    · rw [List.append_assoc, List.cons_append, read?_append_brace hn hu, read?_append_brace hn hu]
  · exact read?_append_brace hne hb ('}' :: rest)

end Token

namespace Cursor

theorem fault_of_brace {c : Cursor} {text rest : List Char} (hc : c.rest = text ++ '}' :: rest)
    (hne : text ≠ []) : c.fault = fault ⟨text, 0, c.position⟩ := by
  have hb : c.blameLength = blameLength ⟨text, 0, c.position⟩ := by
    rw [blameLength, blameLength, hc, takeWhile_append_cons rfl]
  have hl : c.blameLength ≤ text.length := by
    rw [hb, blameLength]
    exact Nat.max_le.2 ⟨(List.takeWhile_prefix _).length_le, List.length_pos_iff.2 hne⟩
  have htake : c.rest.take c.blameLength = text.take c.blameLength := by
    rw [hc, List.take_append_of_le_length hl]
  have hhead : c.rest.head? = text.head? := by rw [hc, List.head?_append_of_ne_nil _ hne]
  rw [fault, fault, ahead, ahead, htake, hhead, hb]

/-- Two cursors at one position, with the same text in front of the first closing braces. -/
structure Twins (front : List Char) (c c' : Cursor) : Prop where
  left : ∃ more, c.rest = front ++ '}' :: '}' :: more
  right : ∃ more, c'.rest = front ++ '}' :: '}' :: more
  position : c'.position = c.position
  unclosed : Unclosed front

namespace Twins

variable {c c' : Cursor} {gap word text : List Char}

theorem skip (h : Twins (gap ++ text) c c') :
    Twins text (c.skip gap.length) (c'.skip gap.length) := by
  obtain ⟨⟨more, hc⟩, ⟨more', hc'⟩, hp, hu⟩ := h
  rw [List.append_assoc] at hc hc'
  refine ⟨⟨more, rest_skip_length hc⟩, ⟨more', rest_skip_length hc'⟩, ?_, hu.of_append⟩
  rw [position_skip_length hc, position_skip_length hc', hp]

theorem next_close (h : Twins gap c c') (hg : Blank gap) :
    ∃ t : Token, t.kind = .close ∧ t.range.start = (c.skip gap.length).position ∧
      c.next = (.ok (some t), c.skip (gap.length + 2)) ∧
      c'.next = (.ok (some t), c'.skip (gap.length + 2)) := by
  obtain ⟨⟨more, hc⟩, ⟨more', hc'⟩, hp, -⟩ := h
  have hread : ∀ more, Token.read? (['}', '}'] ++ more) = some (.close, 2) := fun _ => rfl
  have hn' := next_of_word hc' hg (hread more')
  rw [hp] at hn'
  exact ⟨_, rfl, (position_skip_length hc).symm, next_of_word hc hg (hread more), hn'⟩

theorem next_word (h : Twins (gap ++ (word ++ text)) c c') (hg : Blank gap) {k : Token.Kind}
    (hr : Token.read? (word ++ text) = some (k, word.length)) :
    ∃ t : Token, t.kind = k ∧ t.range.start = (c.skip gap.length).position ∧
      c.next = (.ok (some t), c.skip (gap.length + word.length)) ∧
      c'.next = (.ok (some t), c'.skip (gap.length + word.length)) := by
  obtain ⟨⟨more, hc⟩, ⟨more', hc'⟩, hp, hu⟩ := h
  have hne : word ++ text ≠ [] := by
    intro he
    rw [he] at hr
    cases hr
  have hr' : ∀ more, Token.read? (word ++ (text ++ '}' :: '}' :: more)) = some (k, word.length) := by
    intro more
    rw [← List.append_assoc, Token.read?_append_close hne hu.of_append, hr]
  rw [List.append_assoc, List.append_assoc] at hc hc'
  have hn' := next_of_word hc' hg (hr' more')
  rw [hp] at hn'
  exact ⟨_, rfl, (position_skip_length hc).symm, next_of_word hc hg (hr' more), hn'⟩

theorem next_fault (h : Twins (gap ++ text) c c') (hg : Blank gap) (hne : text ≠ [])
    (ht : ∀ d ∈ text.head?, isBlank d = false) (hr : Token.read? text = none) :
    ∃ fault : Fault, fault.range.start = (c.skip gap.length).position ∧
      c.skipBlanks = c.skip gap.length ∧ c'.skipBlanks = c'.skip gap.length ∧
      c.next = (.error fault, c.skip gap.length) ∧ c'.next = (.error fault, c'.skip gap.length) := by
  have stop : ∀ {d : Cursor} {more}, d.rest = gap ++ text ++ '}' :: '}' :: more →
      d.skipBlanks = d.skip gap.length ∧
        d.next = (.error (fault ⟨text, 0, (d.skip gap.length).position⟩), d.skip gap.length) := by
    intro d more hd
    rw [List.append_assoc] at hd
    have hs := skipBlanks_of_append hd hg (by rwa [List.head?_append_of_ne_nil _ hne])
    have hn : text ++ '}' :: '}' :: more ≠ [] := List.append_ne_nil_of_left_ne_nil hne _
    refine ⟨hs, ?_⟩
    rw [next, hs]
    simp only [rest_skip_length hd, if_neg hn, Token.read?_append_close hne h.unclosed.of_append, hr,
      fault_of_brace (rest_skip_length hd) hne]
  obtain ⟨more, hc⟩ := h.left
  obtain ⟨more', hc'⟩ := h.right
  obtain ⟨hs, hn⟩ := stop hc
  obtain ⟨hs', hn'⟩ := stop hc'
  rw [h.skip.position] at hn'
  exact ⟨_, rfl, hs, hs', hn, hn'⟩

end Twins

end Cursor

namespace Tokens

variable {a a' : Cursor} {k : Nat}

/-- That a range begins less than `k` characters behind a cursor. -/
def BeginsIn (a : Cursor) (k : Nat) (range : Range) : Prop :=
  ∃ n < k, range.start = (a.skip n).position

/-- That two streams stand as far behind `a` and `a'`, by no more than `k` characters. -/
def Abreast (a a' : Cursor) (k : Nat) (ts ts' : Tokens) : Prop :=
  ∃ n ≤ k, ts.here = a.skip n ∧ ts'.here = a'.skip n

def Past (a a' : Cursor) (k : Nat) (ts ts' : Tokens) : Prop := ts.here = a.skip k ∧ ts'.here = a'.skip k

/-- That two streams give the same tokens up to closing braces which end `k` characters behind `a` and
`a'`, or up to a fault in front of them. -/
inductive Agree (a a' : Cursor) (k : Nat) : Tokens → Tokens → Prop
  | broken {n m fault} (hn : n ≤ k) (hm : m ≤ k) (h : (a.skip n).skipBlanks = a.skip m)
    (h' : (a'.skip n).skipBlanks = a'.skip m) (hf : BeginsIn a k fault.range) :
    Agree a a' k (.broken (a.skip n) fault) (.broken (a'.skip n) fault)
  | more {n t ts ts'} (hn : n ≤ k) (hr : BeginsIn a k t.range)
    (hclose : t.kind = .close → Past a a' k ts ts') (h : t.kind ≠ .close → Agree a a' k ts ts') :
    Agree a a' k (.more (a.skip n) t ts) (.more (a'.skip n) t ts')

theorem Agree.abreast {ts ts' : Tokens} (h : Agree a a' k ts ts') : Abreast a a' k ts ts' := by
  cases h with
  | broken hn => exact ⟨_, hn, rfl, rfl⟩
  | more hn => exact ⟨_, hn, rfl, rfl⟩

theorem agree_ofCursor {front : List Char} {n : Nat} (h : (a.skip n).Twins front (a'.skip n))
    (hk : n + front.length + 2 = k) :
    Agree a a' k (ofCursor (a.skip n)) (ofCursor (a'.skip n)) := by
  -- On the length of what is left in front of the closing braces.
  induction hl : front.length using Nat.strong_induction_on generalizing front n with | _ l ih
  subst hl
  obtain ⟨gap, text, rfl, hg, ht⟩ : ∃ gap text, front = gap ++ text ∧ Blank gap ∧
      ∀ d ∈ text.head?, isBlank d = false := by
    refine ⟨_, _, List.takeWhile_append_dropWhile.symm, blank_takeWhile front, fun d hd => ?_⟩
    have := List.head?_dropWhile_not isBlank front
    rwa [hd] at this
  rw [List.length_append] at hk
  have begins : ∀ {range : Range}, range.start = ((a.skip n).skip gap.length).position →
      BeginsIn a k range := by
    intro range hs
    rw [Cursor.skip_skip] at hs
    exact ⟨n + gap.length, by omega, hs⟩
  by_cases hne : text = []
  · subst hne
    rw [List.append_nil] at h
    obtain ⟨t, ht, hs, hn, hn'⟩ := h.next_close hg
    have hlast : n + (gap.length + 2) = k := hk
    rw [Cursor.skip_skip, hlast] at hn hn'
    rw [ofCursor_more hn, ofCursor_more hn']
    exact .more (by omega) (begins hs) (fun _ => ⟨here_ofCursor _, here_ofCursor _⟩)
      fun hne => absurd ht hne
  have hu := h.unclosed.of_append
  cases hr : Token.read? text with
  | none =>
    obtain ⟨fault, hs, hb, hb', hn, hn'⟩ := h.next_fault hg hne ht hr
    rw [Cursor.skip_skip] at hb hb'
    rw [ofCursor_broken hn, ofCursor_broken hn']
    exact .broken (by omega) (by omega) hb hb' (begins hs)
  | some token =>
    obtain ⟨kind, m⟩ := token
    have hpos := Token.read?_pos hr
    obtain ⟨rfl, -, tail, rfl⟩ | ⟨hkind, hm, -⟩ := Token.read?_eq_some hr
    · exact absurd ⟨[], tail ++ ['}'], rfl⟩ hu
    obtain ⟨word, text, rfl, rfl⟩ : ∃ word rest, text = word ++ rest ∧ m = word.length :=
      ⟨text.take m, text.drop m, (List.take_append_drop m text).symm, (List.length_take_of_le hm).symm⟩
    obtain ⟨t, rfl, hs, hn, hn'⟩ := h.next_word hg hr
    rw [List.length_append] at hk
    rw [List.length_append, List.length_append] at ih
    rw [← List.append_assoc] at h
    have hskip := h.skip
    rw [List.length_append, Cursor.skip_skip, Cursor.skip_skip] at hskip
    rw [Cursor.skip_skip] at hn hn'
    rw [ofCursor_more hn, ofCursor_more hn']
    exact .more (by omega) (begins hs) (fun hk => absurd hk hkind)
      fun _ => ih _ (by omega) hskip (by omega) rfl

end Tokens

namespace Parser

open Tokens

variable {α β : Type} {a a' : Cursor} {k : Nat} {ts ts' : Tokens} {after : Tokens → Tokens → Prop}

/-- That what two streams lead to is the same. A success leaves them as `after` says, and a failure as
far behind `a` and `a'`. -/
inductive Agrees (a a' : Cursor) (k : Nat) (after : Tokens → Tokens → Prop) :
    Except Fault α × Tokens → Except Fault α × Tokens → Prop
  | ok {x ts ts'} (h : after ts ts') : Agrees a a' k after (.ok x, ts) (.ok x, ts')
  | error {fault ts ts'} (hf : BeginsIn a k fault.range) (h : Abreast a a' k ts ts') :
    Agrees a a' k after (.error fault, ts) (.error fault, ts')

/-- That a parser looks no further than the first closing braces. -/
def Local (a a' : Cursor) (k : Nat) (p : Parser α) : Prop :=
  ∀ ts ts', Agree a a' k ts ts' → Agrees a a' k (Agree a a' k) (p ts) (p ts')

theorem Agrees.bind {p : Parser α} {f : α → Parser β} (h : Agrees a a' k (Agree a a' k) (p ts) (p ts'))
    (hf : ∀ x us us', Agree a a' k us us' → Agrees a a' k after (f x us) (f x us')) :
    Agrees a a' k after ((p >>= f) ts) ((p >>= f) ts') := by
  simp only [Bind.bind]
  cases ho : p ts with
  | mk outcome us =>
    cases ho' : p ts' with
    | mk outcome' us' =>
      rw [ho, ho'] at h
      cases h with
      | ok h => exact hf _ _ _ h
      | error hf h => exact .error hf h

theorem Local.bind {p : Parser α} {f : α → Parser β} (hp : Local a a' k p)
    (hf : ∀ x, Local a a' k (f x)) : Local a a' k (p >>= f) :=
  fun ts ts' h => (hp ts ts' h).bind hf

theorem Local.pure (x : α) : Local a a' k (Pure.pure x) := fun _ _ h => .ok h

theorem agrees_refuse (after : Tokens → Tokens → Prop) (cause : Option Token.Kind → Cause)
    (h : Agree a a' k ts ts') :
    Agrees a a' k after (refuse cause ts : Except Fault α × Tokens) (refuse cause ts') := by
  cases h with
  | broken hn hm hb hb' hf => exact .error hf ⟨_, hm, hb, hb'⟩
  | @more n t us us' hn hr hclose h =>
    refine .error hr ?_
    by_cases ht : t.kind = .close
    · exact ⟨k, Nat.le_refl k, hclose ht⟩
    · exact (h ht).abreast

theorem local_expect (kind : Token.Kind) (hk : kind ≠ .close) (expected : Expectation) :
    Local a a' k (expect kind expected) := by
  intro ts ts' h
  have hrefuse := agrees_refuse (α := Range) (Agree a a' k) (.unexpected expected) h
  cases h with
  | broken => exact hrefuse
  | @more n t us us' hn hr hclose h =>
    by_cases he : t.kind = kind
    · rw [expect, expect, if_pos he, if_pos he]
      exact .ok (h (he ▸ hk))
    · rw [expect, expect, if_neg he, if_neg he]
      exact hrefuse

theorem local_number : Local a a' k number := by
  intro ts ts' h
  have hrefuse := agrees_refuse (α := Nat) (Agree a a' k) (.unexpected .number) h
  cases h with
  | broken => exact hrefuse
  | @more n t us us' hn hr hclose h =>
    obtain ⟨kind, range⟩ := t
    cases kind with
    | number value => exact .ok (h (by simp))
    | _ => exact hrefuse

theorem local_numbers (first : Nat) : Local a a' k (numbers first) :=
  (local_expect .dots (by simp) _).bind fun _ => local_number.bind fun _ => .pure _

theorem local_subject : Local a a' k subject := by
  intro ts ts' h
  have hrefuse := agrees_refuse (α := Subject) (Agree a a' k) (.unexpected .subject) h
  cases h with
  | broken => exact hrefuse
  | @more n t us us' hn hr hclose h =>
    obtain ⟨kind, range⟩ := t
    cases kind with
    | name list => exact .ok (h (by simp))
    | number first => exact local_numbers first _ _ (h (by simp))
    | _ => exact hrefuse

theorem local_names : Local a a' k names := by
  intro ts ts' h
  -- By what `names` meets: the other stream has the same token wherever it looks.
  fun_induction names ts generalizing ts' with
  | case1 c x r us hx =>
    have hrefuse := agrees_refuse (α := (String × List String) × Range) (Agree a a' k)
      (.unexpected .binder) h
    cases h with
    | more hn hr hclose h =>
      unfold names
      rw [if_pos hx]
      exact hrefuse
  | case2 c x r hx c' r' us y ys stop vs he ih =>
    cases h with
    | more hn hr hclose hnext =>
      cases hnext (by simp) with
      | @more n t us us' hn hr hclose h =>
        have hi := ih us' (h (by simp))
        rw [he] at hi
        rw [names, if_neg hx]
        cases ho : names us' with
        | mk outcome vs' =>
          rw [ho] at hi
          cases hi with
          | ok h => exact .ok h
  | case3 c x r hx c' r' us fault vs he ih =>
    cases h with
    | more hn hr hclose hnext =>
      cases hnext (by simp) with
      | @more n t us us' hn hr hclose h =>
        have hi := ih us' (h (by simp))
        rw [he] at hi
        rw [names, if_neg hx]
        cases ho : names us' with
        | mk outcome vs' =>
          rw [ho] at hi
          cases hi with
          | error hf h => exact .error hf h
  | case4 c x r hx c' stop us =>
    cases h with
    | more hn hr hclose hnext =>
      cases hnext (by simp) with
      | more hn hr hclose h =>
        rw [names, if_neg hx]
        exact .ok (h (by simp))
  | case5 c x r hx us hcomma hpipe =>
    cases h with
    | more hn hr hclose h =>
      have h := h (by simp)
      have hrefuse := agrees_refuse (α := (String × List String) × Range) (Agree a a' k)
        (.unexpected .separator) h
      unfold names
      rw [if_neg hx]
      cases h with
      | broken => exact hrefuse
      | @more n t vs vs' hn hr hclose h =>
        obtain ⟨kind, range⟩ := t
        cases kind with
        | comma => exact absurd rfl (hcomma _ range vs)
        | pipe => exact absurd rfl (hpipe _ range vs)
        | _ => exact hrefuse
  | case6 us hname =>
    have hrefuse := agrees_refuse (α := (String × List String) × Range) (Agree a a' k)
      (.unexpected .binder) h
    cases h with
    | broken => exact hrefuse
    | @more n t vs vs' hn hr hclose h =>
      obtain ⟨kind, range⟩ := t
      cases kind with
      | name x => exact absurd rfl (hname _ x range vs)
      | _ => exact hrefuse

theorem local_binders (s : Subject) {range : Range} (hr : BeginsIn a k range) :
    Local a a' k (binders s range) := by
  intro ts ts' h
  have hagree := h
  cases h with
  | broken hn hm hb hb' hf => exact .error hf hagree.abreast
  | @more n t us us' hn hr' hclose h =>
    obtain ⟨kind, r⟩ := t
    cases kind with
    | pipe =>
      have hi := local_names us us' (h (by simp))
      simp only [binders]
      cases ho : names us with
      | mk outcome vs =>
        cases ho' : names us' with
        | mk outcome' vs' =>
          rw [ho, ho'] at hi
          cases hi with
          | ok h => exact .ok h
          | error hf h => exact .error hf h
    | _ =>
      cases s with
      | list list => exact .error hr hagree.abreast
      | numbers first stop => exact .ok hagree

theorem local_loop {start : Range} (hr : BeginsIn a k start) : Local a a' k (loop start) :=
  (local_expect .leftParen (by simp) _).bind fun _ => local_subject.bind fun s =>
    (local_expect .rightParen (by simp) _).bind fun stop =>
      local_binders s (show BeginsIn a k (start.upTo stop) from hr)

theorem agrees_close (d : Directive) (h : Agree a a' k ts ts') :
    Agrees a a' k (Past a a' k) (close d ts) (close d ts') := by
  have hrefuse := agrees_refuse (α := Option Directive) (Past a a' k) .notClosed h
  cases h with
  | broken => exact hrefuse
  | @more n t us us' hn hr hclose h =>
    obtain ⟨kind, r⟩ := t
    cases kind with
    | close => exact .ok (hclose rfl)
    | _ => exact hrefuse

theorem agrees_directive (h : Agree a a' k ts ts') :
    Agrees a a' k (Past a a' k) (directive ts) (directive ts') := by
  have hrefuse := agrees_refuse (α := Option Directive) (Past a a' k) .notClosed h
  cases h with
  | broken => exact hrefuse
  | @more n t us us' hn hr hclose h =>
    obtain ⟨kind, r⟩ := t
    cases kind with
    | close => exact .ok (hclose rfl)
    | name x => exact agrees_close _ (h (by simp))
    | endWord => exact agrees_close _ (h (by simp))
    | forWord =>
      have hloop := local_loop hr us us' (h (by simp))
      exact hloop.bind fun d vs vs' h => agrees_close d h
    | _ => exact .error hr (h (by simp)).abreast

end Parser

namespace Cursor

theorem skip_zero (c : Cursor) : c.skip 0 = c := rfl

/-- A directive is read no further than the first closing braces, and just up to them if it is one. A
fault that is found begins in front of their end. -/
theorem Twins.directive {front : List Char} {c c' : Cursor} (h : Twins front c c') :
    ∃ outcome n, c.directive = (outcome, c.skip n) ∧ c'.directive = (outcome, c'.skip n) ∧
      match outcome with
      | .ok _ => n = front.length + 2
      | .error fault => n ≤ front.length + 2 ∧ Tokens.BeginsIn c (front.length + 2) fault.range := by
  have ha := Tokens.agree_ofCursor (n := 0) (k := front.length + 2) h (by omega)
  have hc := Parser.agrees_directive ha
  rw [skip_zero, skip_zero] at hc
  cases hp : Parser.directive (.ofCursor c) with
  | mk outcome ts =>
    cases hp' : Parser.directive (.ofCursor c') with
    | mk outcome' ts' =>
      rw [hp, hp'] at hc
      rw [directive_eq hp, directive_eq hp']
      cases hc with
      | @ok o _ _ ht =>
        rw [ht.1, ht.2]
        exact ⟨.ok o, front.length + 2, rfl, rfl, rfl⟩
      | @error fault _ _ hf ht =>
        obtain ⟨n, hn, ht, ht'⟩ := ht
        rw [ht, ht']
        exact ⟨.error fault, n, rfl, rfl, hn, hf⟩

theorem directive_local {front : List Char} (hu : Unclosed front) (offset : Nat) (position : Position) :
    ∃ outcome n, n ≤ front.length + 2 ∧ (∀ o, outcome = .ok o → n = front.length + 2) ∧ ∀ rest,
      let c : Cursor := ⟨front ++ '}' :: '}' :: rest, offset, position⟩
      c.directive = (outcome, c.skip n) := by
  let c (rest : List Char) : Cursor := ⟨front ++ '}' :: '}' :: rest, offset, position⟩
  have twins : ∀ rest, (c []).Twins front (c rest) := fun rest => ⟨⟨[], rfl⟩, ⟨rest, rfl⟩, rfl, hu⟩
  obtain ⟨outcome, n, hd, -, hn⟩ := (twins []).directive
  have hle : n ≤ front.length + 2 := by
    cases outcome with
    | ok o => exact Nat.le_of_eq hn
    | error fault => exact hn.1
  refine ⟨outcome, n, hle, ?_, fun rest => ?_⟩
  · rintro o rfl
    exact hn
  · obtain ⟨outcome', n', hd', hrest, hn'⟩ := (twins rest).directive
    have hle' : n' ≤ front.length + 2 := by
      cases outcome' with
      | ok o => exact Nat.le_of_eq hn'
      | error fault => exact hn'.1
    -- How much is left of the text without more behind it tells how far reading went.
    obtain ⟨rfl, hskip⟩ := Prod.mk.inj (hd.symm.trans hd')
    have hleft := congrArg (fun d : Cursor => d.rest.length) hskip
    simp only [rest_skip, List.length_drop] at hleft
    have hlen : (c []).rest.length = front.length + 2 := List.length_append
    obtain rfl : n = n' := by omega
    exact hrest

end Cursor

end TextTemplate
