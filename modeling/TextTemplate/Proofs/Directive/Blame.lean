import TextTemplate.Proofs.Directive.Prefix
import TextTemplate.Proofs.Token.Source

namespace TextTemplate

/-- The tokens that meet an expectation. -/
def Expectation.Admits : Expectation → Token.Kind → Prop
  | leftParen, k => k = .leftParen
  | dots, k => k = .dots
  | number, k => ∃ n, k = .number n
  | subject, k => (∃ x, k = .name x) ∨ ∃ n, k = .number n
  | rightParen, k => k = .rightParen
  | binder, k => ∃ x, k = .name x ∧ Dotless x
  | separator, k => k = .comma ∨ k = .pipe

/-- The fault of a text of which the tokens `front` may begin a directive while the next one, which
stands at `range`, or the end of the text there goes on with none. What is expected is told by the
tokens that could have gone on instead. -/
inductive Blame (front : List Token) (range : Range) (found : Option Token.Kind) : Fault → Prop
  | badStart {k} (hf : front = []) (hk : found = some k) : Blame front range found ⟨range, .badStart k⟩
  | noStart (hf : front = []) (hk : found = none) : Blame front range found ⟨range, .notClosed none⟩
  | notClosed {kind} (hf : Spells (front.map Token.kind) (some kind)) :
    Blame front range found ⟨range, .notClosed found⟩
  | missingItem {list header}
    (hf : front.map Token.kind = [.forWord, .leftParen, .name list, .rightParen])
    (hr : Tokens.reach front = some header) : Blame front range found ⟨header, .missingItem list⟩
  | unexpected {e} (he : ∀ k, Viable (front.map Token.kind ++ [k]) ↔ e.Admits k) :
    Blame front range found ⟨range, .unexpected e found⟩

theorem Expectation.eq_of_admits {e e' : Expectation} (h : ∀ k, e.Admits k ↔ e'.Admits k) :
    e = e' := by
  have hp := h .leftParen
  have hd := h .dots
  have hn := h (.number 0)
  have hx := h (.name "")
  have hr := h .rightParen
  have hs := h .pipe
  cases e <;> cases e' <;> simp_all [Admits, Dotless]

theorem Expectation.not_admits_close (e : Expectation) : ¬ e.Admits .close := by
  cases e <;> simp [Admits]

theorem Spells.viable {ks : List Token.Kind} {kind : Option Directive.Kind} (h : Spells ks kind) :
    Viable (ks ++ [.close]) :=
  ⟨ks, kind, [], h, (List.append_nil _).symm⟩

theorem viable_header_iff (list : String) (k : Token.Kind) :
    Viable ([.forWord, .leftParen, .name list, .rightParen] ++ [k]) ↔ k = .pipe := by
  have hl : Awaiting.start.Leads [.forWord, .leftParen, .name list, .rightParen] .item := rfl
  rw [viable_append_iff hl]
  cases k <;> simp [Awaiting.next]

theorem not_viable_close_of_header {ks : List Token.Kind} {list : String}
    (h : ks = [.forWord, .leftParen, .name list, .rightParen]) : ¬ Viable (ks ++ [.close]) := by
  rw [h, viable_header_iff]
  nofun

theorem not_viable_close_of_admits {ks : List Token.Kind} {e : Expectation}
    (h : ∀ k, Viable (ks ++ [k]) ↔ e.Admits k) : ¬ Viable (ks ++ [.close]) :=
  fun hv => e.not_admits_close ((h .close).1 hv)

theorem not_admits_of_header {ks : List Token.Kind} {list : String}
    (h : ks = [.forWord, .leftParen, .name list, .rightParen]) (e : Expectation) :
    ¬ ∀ k, Viable (ks ++ [k]) ↔ e.Admits k := by
  intro he
  simp only [h, viable_header_iff] at he
  have hp := (he .pipe).1 rfl
  have hc := he .comma
  cases e <;> simp [Expectation.Admits] at hp hc

/-- There is one fault to blame. -/
theorem Blame.unique {front : List Token} {range : Range} {found : Option Token.Kind}
    {fault fault' : Fault} (h : Blame front range found fault) (h' : Blame front range found fault') :
    fault = fault' := by
  have hstart : front = [] → Viable (front.map Token.kind ++ [.close]) := by
    rintro rfl
    exact Spells.empty.viable
  have hempty : ∀ kind, front = [] → ¬ Spells (front.map Token.kind) (some kind) := by
    rintro kind rfl hs
    cases hs
  -- Two kinds of blame exclude each other by what could come next, closing braces above all.
  cases h with
  | badStart hf hk =>
    cases h' with
    | badStart hf' hk' => rw [Option.some.inj (hk.symm.trans hk')]
    | noStart hf' hk' => cases hk.symm.trans hk'
    | notClosed hs => exact absurd hs (hempty _ hf)
    | missingItem hl hr => exact absurd (hstart hf) (not_viable_close_of_header hl)
    | unexpected he => exact absurd (hstart hf) (not_viable_close_of_admits he)
  | noStart hf hk =>
    cases h' with
    | badStart hf' hk' => cases hk.symm.trans hk'
    | noStart hf' hk' => rfl
    | notClosed hs => exact absurd hs (hempty _ hf)
    | missingItem hl hr => exact absurd (hstart hf) (not_viable_close_of_header hl)
    | unexpected he => exact absurd (hstart hf) (not_viable_close_of_admits he)
  | notClosed hs =>
    cases h' with
    | badStart hf' hk' => exact absurd hs (hempty _ hf')
    | noStart hf' hk' => exact absurd hs (hempty _ hf')
    | notClosed hs' => rfl
    | missingItem hl hr => exact absurd hs.viable (not_viable_close_of_header hl)
    | unexpected he => exact absurd hs.viable (not_viable_close_of_admits he)
  | missingItem hl hr =>
    cases h' with
    | badStart hf' hk' => exact absurd (hstart hf') (not_viable_close_of_header hl)
    | noStart hf' hk' => exact absurd (hstart hf') (not_viable_close_of_header hl)
    | notClosed hs => exact absurd hs.viable (not_viable_close_of_header hl)
    | missingItem hl' hr' =>
      have hlist := hl.symm.trans hl'
      simp only [List.cons.injEq, Token.Kind.name.injEq] at hlist
      rw [Option.some.inj (hr.symm.trans hr'), hlist.2.2.1]
    | unexpected he => exact absurd he (not_admits_of_header hl _)
  | unexpected he =>
    cases h' with
    | badStart hf' hk' => exact absurd (hstart hf') (not_viable_close_of_admits he)
    | noStart hf' hk' => exact absurd (hstart hf') (not_viable_close_of_admits he)
    | notClosed hs => exact absurd hs.viable (not_viable_close_of_admits he)
    | missingItem hl hr => exact absurd he (not_admits_of_header hl _)
    | unexpected he' => rw [Expectation.eq_of_admits fun k => (he k).symm.trans (he' k)]

theorem Blame.eq_iff {front : List Token} {range : Range} {found : Option Token.Kind}
    {fault : Fault} (h : Blame front range found fault) (f : Fault) :
    Blame front range found f ↔ f = fault := by
  constructor
  · intro hf
    exact hf.unique h
  · rintro rfl
    exact h

namespace Awaiting

def expectation : Awaiting → Option Expectation
  | leftParen => some .leftParen
  | subject => some .subject
  | dots => some .dots
  | stop => some .number
  | numbersParen | listParen => some .rightParen
  | binder => some .binder
  | separator => some .separator
  | start | binders | item | close | nothing => none

theorem isSome_next_iff {s : Awaiting} {e : Expectation} (h : s.expectation = some e)
    (k : Token.Kind) : (s.next k).isSome ↔ e.Admits k := by
  cases s with
  | binder =>
    cases h
    simp [Option.isSome_iff_exists, next_binder, Expectation.Admits]
  | start | binders | item | close | nothing => cases h
  | _ =>
    cases h
    cases k <;> simp [next, Expectation.Admits]

theorem next_eq_none {s : Awaiting} {e : Expectation} (h : s.expectation = some e) {k : Token.Kind}
    (hk : ¬ e.Admits k) : s.next k = none := by
  rwa [← isSome_next_iff h, Option.not_isSome_iff_eq_none] at hk

end Awaiting

namespace Parser

open Tokens Awaiting

variable {α β : Type}

theorem bind_eq_error {p : Parser α} {f : α → Parser β} {ts ts' : Tokens} {fault : Fault}
    (h : (p >>= f) ts = (.error fault, ts')) :
    p ts = (.error fault, ts') ∨ ∃ a us, p ts = (.ok a, us) ∧ f a us = (.error fault, ts') := by
  cases hp : p ts with
  | mk outcome us =>
    cases outcome with
    | ok a =>
      have hb : (p >>= f) ts = f a us := by simp only [bind, hp]
      rw [hb] at h
      exact .inr ⟨a, us, rfl, h⟩
    | error e =>
      have hb : (p >>= f) ts = (.error e, us) := by simp only [bind, hp]
      rw [hb] at h
      cases h
      exact .inl rfl

/-- That a directive of which `front` has been read is rejected where a stream stands. -/
def Stops (front : List Token) (fault : Fault) : Tokens → Prop
  | .broken _ lexical => fault = lexical
  | .done c => Blame front (c.skipBlanks.ahead 0) none fault
  | .more _ t _ =>
    ¬ Viable (front.map Token.kind ++ [t.kind]) ∧ Blame front t.range (some t.kind) fault

/-- That a directive of which `front` has been read is rejected at the first place of a stream where
no directive goes on. -/
def Fails (front : List Token) (fault : Fault) (ts : Tokens) : Prop :=
  ∃ toks us, Reads toks ts us ∧ Viable ((front ++ toks).map Token.kind) ∧
    Stops (front ++ toks) fault us

section

variable {front : List Token} {fault : Fault} {ts ts' : Tokens} {s : Awaiting}

theorem Fails.of_reads {toks : List Token} {us : Tokens} (hr : Reads toks ts us)
    (h : Fails (front ++ toks) fault us) : Fails front fault ts := by
  obtain ⟨toks', vs, hr', hv, hs⟩ := h
  refine ⟨toks ++ toks', vs, hr.append hr', ?_, ?_⟩
  · rwa [← List.append_assoc]
  · rwa [← List.append_assoc]

theorem Stops.fails (hl : start.Leads (front.map Token.kind) s) (h : Stops front fault ts) :
    Fails front fault ts := by
  refine ⟨[], ts, .nil ts, ?_, ?_⟩
  · rw [List.append_nil]
    exact viable_iff.2 ⟨s, hl⟩
  · rwa [List.append_nil]

theorem fails_of_refuse {cause : Option Token.Kind → Cause}
    (hl : start.Leads (front.map Token.kind) s)
    (hn : ∀ c t us, ts = .more c t us → s.next t.kind = none)
    (hb : ∀ range found, Blame front range found ⟨range, cause found⟩)
    (h : (refuse cause : Parser α) ts = (.error fault, ts')) : Fails front fault ts := by
  apply Stops.fails hl
  cases ts with
  | done c =>
    cases h
    exact hb _ none
  | broken c lexical =>
    cases h
    rfl
  | more c t us =>
    cases h
    refine ⟨?_, hb _ _⟩
    rw [viable_append_iff hl, hn c t _ rfl]
    nofun

theorem fails_of_unexpected {e : Expectation} (hl : start.Leads (front.map Token.kind) s)
    (he : s.expectation = some e) (hn : ∀ c t us, ts = .more c t us → ¬ e.Admits t.kind)
    (h : (refuse (.unexpected e) : Parser α) ts = (.error fault, ts')) : Fails front fault ts := by
  refine fails_of_refuse hl (fun c t us ht => next_eq_none he (hn c t us ht)) ?_ h
  intro range found
  exact .unexpected fun k => (viable_append_iff hl k).trans (isSome_next_iff he k)

theorem fails_of_expect {kind : Token.Kind} {e : Expectation}
    (hl : start.Leads (front.map Token.kind) s) (he : s.expectation = some e)
    (hk : ∀ k, e.Admits k → k = kind) (h : expect kind e ts = (.error fault, ts')) :
    Fails front fault ts := by
  unfold expect at h
  split at h
  · next c t us =>
    split at h
    · cases h
    · next hne =>
      refine fails_of_unexpected hl he ?_ h
      intro c' t' us' ht ha
      cases ht
      exact hne (hk _ ha)
  · next hne => exact fails_of_unexpected hl he (fun c t us ht => absurd ht (hne c t us)) h

theorem fails_of_number (hl : start.Leads (front.map Token.kind) .stop)
    (h : number ts = (.error fault, ts')) : Fails front fault ts := by
  unfold number at h
  split at h
  · cases h
  · next hne =>
    refine fails_of_unexpected hl rfl ?_ h
    rintro c ⟨k, r⟩ us rfl ⟨n, rfl⟩
    exact hne c n r us rfl

theorem fails_of_numbers {first : Nat} (hl : start.Leads (front.map Token.kind) .dots)
    (h : numbers first ts = (.error fault, ts')) : Fails front fault ts := by
  obtain h | ⟨r, us, hd, h⟩ := bind_eq_error h
  · exact fails_of_expect hl rfl (fun k hk => hk) h
  · obtain ⟨t, hr, ht, -⟩ := expect_eq_ok.1 hd
    apply Fails.of_reads hr
    have hl' : start.Leads ((front ++ [t]).map Token.kind) .stop := by
      rw [List.map_append]
      exact leads_append.2 ⟨.dots, hl, leads_singleton.2 (by rw [ht]; rfl)⟩
    obtain h | ⟨n, vs, -, h⟩ := bind_eq_error h
    · exact fails_of_number hl' h
    · cases h

theorem fails_of_subject (hl : start.Leads (front.map Token.kind) .subject)
    (h : subject ts = (.error fault, ts')) : Fails front fault ts := by
  unfold subject at h
  split at h
  · cases h
  · next c first r us =>
    have hr : Reads [⟨.number first, r⟩] (.more c ⟨.number first, r⟩ us) us := .cons c _ (.nil us)
    apply Fails.of_reads hr
    refine fails_of_numbers ?_ h
    rw [List.map_append]
    exact leads_append.2 ⟨.subject, hl, rfl⟩
  · next hname hnumber =>
    refine fails_of_unexpected hl rfl ?_ h
    rintro c ⟨k, r⟩ us rfl (⟨x, rfl⟩ | ⟨n, rfl⟩)
    · exact hname c x r us rfl
    · exact hnumber c n r us rfl

theorem fails_of_names (hl : start.Leads (front.map Token.kind) .binder)
    (h : names ts = (.error fault, ts')) : Fails front fault ts := by
  fun_induction names ts generalizing front ts' with
  | case1 c x r us hx =>
    refine fails_of_unexpected hl rfl ?_ h
    rintro c' t' us' ht ⟨y, hy, hd⟩
    cases ht
    cases hy
    rw [contains_eq_false_iff.2 hd] at hx
    cases hx
  | case2 c x r hx c' r' us y ys stop vs he ih => cases h
  | case3 c x r hx c' r' us fault' vs he ih =>
    cases h
    have hd : Dotless x := contains_eq_false_iff.1 (by simpa using hx)
    have hr : Reads [⟨.name x, r⟩, ⟨.comma, r'⟩] (.more c ⟨.name x, r⟩ (.more c' ⟨.comma, r'⟩ us)) us :=
      .cons _ _ (.cons _ _ (.nil us))
    apply Fails.of_reads hr
    refine ih ?_ he
    rw [List.map_append]
    exact leads_append.2 ⟨.binder, hl, leads_cons.2 ⟨.separator, next_binder.2 ⟨x, rfl, hd, rfl⟩, rfl⟩⟩
  | case4 c x r hx c' stop us => cases h
  | case5 c x r hx us hcomma hpipe =>
    have hd : Dotless x := contains_eq_false_iff.1 (by simpa using hx)
    have hr : Reads [⟨.name x, r⟩] (.more c ⟨.name x, r⟩ us) us := .cons _ _ (.nil us)
    apply Fails.of_reads hr
    refine fails_of_unexpected (s := .separator) ?_ rfl ?_ h
    · rw [List.map_append]
      exact leads_append.2 ⟨.binder, hl, leads_singleton.2 (next_binder.2 ⟨x, rfl, hd, rfl⟩)⟩
    · rintro c' ⟨k, r'⟩ vs rfl (rfl | rfl)
      · exact hcomma c' r' vs rfl
      · exact hpipe c' r' vs rfl
  | case6 us hname =>
    refine fails_of_unexpected hl rfl ?_ h
    rintro c ⟨k, r⟩ vs rfl ⟨x, rfl, -⟩
    exact hname c x r vs rfl

def awaited : Subject → Awaiting
  | .numbers _ _ => .binders
  | .list _ => .item

theorem leads_kinds (s : Subject) : ∃ m, Awaiting.subject.Leads s.kinds m ∧
    m.expectation = some .rightParen ∧ m.next .rightParen = some (awaited s) := by
  cases s with
  | numbers first stop => exact ⟨.numbersParen, rfl, rfl, rfl⟩
  | list name => exact ⟨.listParen, rfl, rfl, rfl⟩

def Finished (m : Awaiting) (ts : Tokens) : Prop :=
  m.next .close = some .nothing ∧
    ∀ c t us, ts = .more c t us → t.kind ≠ .close → m.next t.kind = none

theorem fails_of_binders {s : Subject} {range : Range}
    (hl : start.Leads (front.map Token.kind) (awaited s))
    (hf : ∀ list, s = .list list →
      front.map Token.kind = [.forWord, .leftParen, .name list, .rightParen])
    (hr : reach front = some range) (h : binders s range ts = (.error fault, ts')) :
    Fails front fault ts := by
  unfold binders at h
  split at h
  · next c r us =>
    split at h
    · cases h
    · next fault' vs hn =>
      cases h
      have hp : Reads [⟨.pipe, r⟩] (.more c ⟨.pipe, r⟩ us) us := .cons _ _ (.nil us)
      apply Fails.of_reads hp
      refine fails_of_names ?_ hn
      rw [List.map_append]
      refine leads_append.2 ⟨awaited s, hl, ?_⟩
      cases s <;> rfl
  · cases h
    exact Stops.fails hl rfl
  · next hpipe hbroken =>
    cases s with
    | numbers first stop => cases h
    | list list =>
      cases h
      apply Stops.fails hl
      cases ts with
      | done c => exact .missingItem (hf list rfl) hr
      | broken c lexical => exact absurd rfl (hbroken c lexical)
      | more c t us =>
        refine ⟨?_, .missingItem (hf list rfl) hr⟩
        rw [viable_append_iff hl]
        obtain ⟨k, r⟩ := t
        cases k with
        | pipe => exact absurd rfl (hpipe c r us)
        | _ => nofun

theorem finished_of_binders {s : Subject} {range : Range} {d : Directive}
    (h : binders s range ts = (.ok d, ts')) :
    ∃ toks m, Reads toks ts ts' ∧ (awaited s).Leads (toks.map Token.kind) m ∧ Finished m ts' := by
  unfold binders at h
  split at h
  · next c r us =>
    split at h
    · next x xs stop vs hn =>
      cases h
      obtain ⟨hd, toks, t, hr, ht, -, hk⟩ := row_of_names hn
      have hb : Awaiting.binder.Leads ((toks ++ [t]).map Token.kind) .close := by
        rw [List.map_append, hk, List.map_singleton, ht]
        exact leads_binderRow hd
      refine ⟨⟨.pipe, r⟩ :: (toks ++ [t]), .close, .cons _ _ hr, ?_, rfl, ?_⟩
      · refine leads_cons.2 ⟨.binder, ?_, hb⟩
        cases s <;> rfl
      · rintro c' ⟨k, r'⟩ us' - hne
        cases k with
        | close => exact absurd rfl hne
        | _ => rfl
    · cases h
  · cases h
  · next hpipe hbroken =>
    cases s with
    | list list => cases h
    | numbers first stop =>
      cases h
      refine ⟨[], .binders, .nil _, rfl, rfl, ?_⟩
      rintro c ⟨k, r⟩ us rfl hne
      cases k with
      | close => exact absurd rfl hne
      | pipe => exact absurd rfl (hpipe c r us)
      | _ => rfl

theorem fails_of_close {d : Directive} {m : Awaiting} (hne : front ≠ [])
    (hl : start.Leads (front.map Token.kind) m) (hm : Finished m ts)
    (h : close d ts = (.error fault, ts')) : Fails front fault ts := by
  have hs : ∃ kind, Spells (front.map Token.kind) (some kind) := by
    obtain ⟨kind, hs⟩ := spells_of_leads hl hm.1
    cases kind with
    | some kind => exact ⟨kind, hs⟩
    | none =>
      generalize hk : front.map Token.kind = ks at hs
      cases hs
      exact absurd (List.map_eq_nil_iff.1 hk) hne
  obtain ⟨kind, hs⟩ := hs
  unfold close at h
  split at h
  · cases h
  · next hclose =>
    refine fails_of_refuse hl ?_ (fun range found => .notClosed hs) h
    rintro c ⟨k, r⟩ us rfl
    refine hm.2 c _ us rfl ?_
    rintro rfl
    exact hclose c r us rfl

theorem fails_of_loop {r : Range} (h : loop r ts = (.error fault, ts')) :
    Fails [⟨.forWord, r⟩] fault ts := by
  obtain h | ⟨rl, us, hlp, h⟩ := bind_eq_error h
  · exact fails_of_expect (s := .leftParen) rfl rfl (fun k hk => hk) h
  obtain ⟨lp, hlr, hlk, -⟩ := expect_eq_ok.1 hlp
  apply Fails.of_reads hlr
  have hl : start.Leads (([(⟨.forWord, r⟩ : Token)] ++ [lp]).map Token.kind) .subject := by
    rw [List.map_append, List.map_singleton, List.map_singleton, hlk]
    rfl
  obtain h | ⟨s, vs, hsub, h⟩ := bind_eq_error h
  · exact fails_of_subject hl h
  obtain ⟨sub, hsr, hsk⟩ := subject_eq_ok.1 hsub
  apply Fails.of_reads hsr
  obtain ⟨m, hm, he, hp⟩ := leads_kinds s
  have hl' : start.Leads (([(⟨.forWord, r⟩ : Token)] ++ [lp] ++ sub).map Token.kind) m := by
    rw [List.map_append, hsk]
    exact leads_append.2 ⟨.subject, hl, hm⟩
  obtain h | ⟨rr, ws, hrp, h⟩ := bind_eq_error h
  · exact fails_of_expect hl' he (fun k hk => hk) h
  obtain ⟨rp, hrr, hrk, rfl⟩ := expect_eq_ok.1 hrp
  apply Fails.of_reads hrr
  refine fails_of_binders (s := s) ?_ ?_ ?_ h
  · rw [List.map_append, List.map_singleton, hrk]
    exact leads_append.2 ⟨m, hl', leads_singleton.2 hp⟩
  · rintro list rfl
    simp [hlk, hsk, hrk, Subject.kinds]
  · exact reach_append_singleton (reach_singleton ⟨.forWord, r⟩) ([lp] ++ sub) rp

theorem finished_of_loop {r : Range} {d : Directive} (h : loop r ts = (.ok d, ts')) :
    ∃ toks m, Reads toks ts ts' ∧ start.Leads (.forWord :: toks.map Token.kind) m ∧
      Finished m ts' := by
  simp only [loop, bind_eq_ok, expect_eq_ok, subject_eq_ok] at h
  obtain ⟨rl, us₁, ⟨lp, hlr, hlk, -⟩, s, us₂, ⟨sub, hsr, hsk⟩, rr, us₃, ⟨rp, hrr, hrk, -⟩, hb⟩ := h
  obtain ⟨bs, m, hbr, hbl, hm⟩ := finished_of_binders hb
  obtain ⟨m', hm', -, hp⟩ := leads_kinds s
  refine ⟨[lp] ++ sub ++ [rp] ++ bs, m, ((hlr.append hsr).append hrr).append hbr, ?_, hm⟩
  have hk : .forWord :: ([lp] ++ sub ++ [rp] ++ bs).map Token.kind =
      [.forWord, .leftParen] ++ (s.kinds ++ ([.rightParen] ++ bs.map Token.kind)) := by
    simp [hlk, hsk, hrk]
  rw [hk]
  have hr : m'.Leads ([.rightParen] ++ bs.map Token.kind) m :=
    leads_append.2 ⟨awaited s, leads_singleton.2 hp, hbl⟩
  exact leads_append.2 ⟨.subject, rfl, leads_append.2 ⟨m', hm', hr⟩⟩

theorem fails_of_directive (h : directive ts = (.error fault, ts')) : Fails [] fault ts := by
  have hl : start.Leads (([] : List Token).map Token.kind) .start := rfl
  -- Behind a name or an `end` only closing braces can come.
  have closing : ∀ c t us d, start.next t.kind = some .close → close d us = (.error fault, ts') →
      Fails [] fault (.more c t us) := by
    intro c t us d ht hc
    have hr : Reads [t] (.more c t us) us := .cons c t (.nil us)
    apply Fails.of_reads hr
    refine fails_of_close (m := .close) nofun (leads_singleton.2 ht) ⟨rfl, ?_⟩ hc
    rintro c' ⟨k, r⟩ vs - hne
    cases k with
    | close => exact absurd rfl hne
    | _ => rfl
  unfold directive at h
  split at h
  · cases h
  · next c x r us => exact closing c ⟨.name x, r⟩ us _ rfl h
  · next c r us => exact closing c ⟨.endWord, r⟩ us _ rfl h
  · next c r us =>
    have hr : Reads [⟨.forWord, r⟩] (.more c ⟨.forWord, r⟩ us) us := .cons _ _ (.nil us)
    apply Fails.of_reads hr
    obtain h | ⟨d, vs, hl, h⟩ := bind_eq_error h
    · exact fails_of_loop h
    · obtain ⟨toks, m, hr', hlm, hm⟩ := finished_of_loop hl
      exact Fails.of_reads hr' (fails_of_close (m := m) nofun hlm hm h)
  · next c t us hclose hname hend hfor =>
    cases h
    apply Stops.fails hl
    refine ⟨?_, .badStart rfl rfl⟩
    rw [viable_append_iff hl]
    obtain ⟨k, r⟩ := t
    cases k with
    | close => exact absurd rfl (hclose r)
    | name x => exact absurd rfl (hname x r)
    | endWord => exact absurd rfl (hend r)
    | forWord => exact absurd rfl (hfor r)
    | _ => nofun
  · next hmore =>
    apply Stops.fails hl
    cases ts with
    | done c =>
      cases h
      exact .noStart rfl rfl
    | broken c lexical =>
      cases h
      rfl
    | more c t us => exact absurd rfl (hmore c t us)

end

theorem reads_unique {row row' : List Token} {t t' : Token} {ts us vs : Tokens}
    (h : Reads (row ++ [t]) ts us) (h' : Reads (row' ++ [t']) ts vs) (ht : t.kind = .close)
    (ht' : t'.kind = .close) (hr : .close ∉ row.map Token.kind) (hr' : .close ∉ row'.map Token.kind) :
    row = row' ∧ t = t' ∧ us = vs := by
  induction row generalizing row' ts with
  | nil =>
    obtain ⟨c, ws, rfl, h₁⟩ := Reads.cons_iff.1 h
    obtain rfl := Reads.nil_iff.1 h₁
    cases row' with
    | nil =>
      cases h' with
      | cons _ _ h' => exact ⟨rfl, rfl, Reads.nil_iff.1 h'⟩
    | cons a row' =>
      cases h' with
      | cons _ _ h' => exact absurd (by simp [ht]) hr'
  | cons a row ih =>
    obtain ⟨c, ws, rfl, h₁⟩ := Reads.cons_iff.1 h
    cases row' with
    | nil =>
      cases h' with
      | cons _ _ h' => exact absurd (by simp [ht']) hr
    | cons b row' =>
      cases h' with
      | cons _ _ h' =>
        obtain ⟨rfl, rfl, rfl⟩ := ih h₁ h' (List.not_mem_of_not_mem_cons hr)
          (List.not_mem_of_not_mem_cons hr')
        exact ⟨rfl, rfl, rfl⟩

theorem directive_ext {o o' : Option Directive} (hk : o.map Directive.kind = o'.map Directive.kind)
    (hr : o.map Directive.range = o'.map Directive.range) : o = o' := by
  cases o with
  | none => simpa [eq_comm] using hk
  | some d =>
    obtain ⟨⟨k, r⟩, rfl, hkind⟩ := Option.map_eq_some_iff.1 hk.symm
    obtain rfl : k = d.kind := hkind
    obtain rfl : r = d.range := (Option.some.inj hr).symm
    rfl

theorem directive_eq_ok {o : Option Directive} {ts ts' : Tokens} :
    directive ts = (.ok o, ts') ↔ ∃ row t, Reads (row ++ [t]) ts ts' ∧ t.kind = .close ∧
      Spells (row.map Token.kind) (o.map Directive.kind) ∧ o.map Directive.range = reach row := by
  constructor
  · exact row_of_directive
  · rintro ⟨row, t, hr, ht, hs, hrange⟩
    obtain ⟨o', ho, hk⟩ := directive_of_row hr ht hs
    obtain ⟨row', t', hr', ht', hs', hrange'⟩ := row_of_directive ho
    obtain ⟨rfl, -⟩ := reads_unique hr hr' ht ht' hs.close_not_mem hs'.close_not_mem
    rw [ho, directive_ext hk (hrange'.trans hrange.symm)]

end Parser

namespace Cursor

open Tokens

theorem directive_eq {c : Cursor} {outcome : Except Fault (Option Directive)} {ts : Tokens}
    (h : Parser.directive (.ofCursor c) = (outcome, ts)) : c.directive = (outcome, ts.here) := by
  simp only [directive, h]

theorem directive_eq_ok {c d : Cursor} {o : Option Directive} :
    c.directive = (.ok o, d) ↔ ∃ row t, c.Gives (row ++ [t]) d ∧ t.kind = .close ∧
      Spells (row.map Token.kind) (o.map Directive.kind) ∧ o.map Directive.range = reach row := by
  constructor
  · intro h
    cases hp : Parser.directive (.ofCursor c) with
    | mk outcome ts =>
      rw [directive_eq hp] at h
      cases h
      obtain ⟨row, t, hr, hs⟩ := Parser.directive_eq_ok.1 hp
      obtain ⟨d, rfl, hg⟩ := gives_of_reads hr
      rw [here_ofCursor]
      exact ⟨row, t, hg, hs⟩
  · rintro ⟨row, t, hg, hs⟩
    rw [directive_eq (Parser.directive_eq_ok.2 ⟨row, t, hg.reads, hs⟩), here_ofCursor]

/-- That a fault is the one to report at a place where no directive stands: reading passes the longest
row that a directive may begin with. A fault behind it is reported as it is, and another token, or the
end of the text, is blamed. -/
def Rejects (c : Cursor) (fault : Fault) : Prop :=
  ∃ front e, c.Gives front e ∧ Viable (front.map Token.kind) ∧
    match e.next with
    | (.error lexical, _) => fault = lexical
    | (.ok none, last) => ∀ f, Blame front (last.ahead 0) none f ↔ f = fault
    | (.ok (some t), _) => ¬ Viable (front.map Token.kind ++ [t.kind]) ∧
      ∀ f, Blame front t.range (some t.kind) f ↔ f = fault

theorem rejects_of_directive {c d : Cursor} {fault : Fault} (h : c.directive = (.error fault, d)) :
    c.Rejects fault := by
  cases hp : Parser.directive (.ofCursor c) with
  | mk outcome ts =>
    rw [directive_eq hp] at h
    cases h
    obtain ⟨front, us, hr, hv, hs⟩ := Parser.fails_of_directive hp
    obtain ⟨e, rfl, hg⟩ := gives_of_reads hr
    refine ⟨front, e, hg, hv, ?_⟩
    cases hn : e.next with
    | mk outcome last =>
      match outcome with
      | .error lexical =>
        rw [ofCursor_broken hn] at hs
        exact hs
      | .ok none =>
        rw [ofCursor_done hn] at hs
        have hl : last = e.skipBlanks := by
          simp only [next] at hn
          split at hn
          · exact (Prod.mk.inj hn).2.symm
          · split at hn <;> cases hn
        rw [hl]
        exact hs.eq_iff
      | .ok (some t) =>
        rw [ofCursor_more hn] at hs
        exact ⟨hs.1, hs.2.eq_iff⟩

/-- What parsing a directive leads to. Where braces come first it is empty; where a row of the grammar
and the closing braces come first it is what they spell, and reading goes on behind the braces.
Otherwise it is rejected at the first place where no directive goes on. -/
theorem directive_outcome (c : Cursor) :
    ((∃ d, c.directive = (.ok none, d)) ↔ ∃ t d, c.next = (.ok (some t), d) ∧ t.kind = .close) ∧
    (∀ o d, c.directive = (.ok o, d) ↔ ∃ row t, c.Gives (row ++ [t]) d ∧ t.kind = .close ∧
      Spells (row.map Token.kind) (o.map Directive.kind) ∧ o.map Directive.range = reach row) ∧
    (∀ fault d, c.directive = (.error fault, d) → c.Rejects fault) := by
  refine ⟨⟨?_, ?_⟩, fun o d => directive_eq_ok, fun fault d => rejects_of_directive⟩
  · rintro ⟨d, h⟩
    obtain ⟨row, t, hg, ht, hs, -⟩ := directive_eq_ok.1 h
    generalize hk : row.map Token.kind = ks at hs
    cases hs
    obtain rfl := List.map_eq_nil_iff.1 hk
    cases hg with
    | cons h hr => exact ⟨t, _, h, ht⟩
  · rintro ⟨t, d, h, ht⟩
    exact ⟨d, directive_eq_ok.2 ⟨[], t, .cons h (.nil d), ht, .empty, rfl⟩⟩

theorem directive_outcome_header :
    let c := Cursor.ofText " for (xs) \x7d\x7d"
    let fault : Fault := ⟨⟨⟨1, 2⟩, ⟨1, 10⟩⟩, .missingItem "xs"⟩
    c.directive.1 = .error fault ∧ c.Rejects fault := by
  intro c fault
  have h : c.directive.1 = .error fault := by
    unfold c fault
    cbv
  exact ⟨h, (directive_outcome c).2.2 fault _ (Prod.ext h rfl)⟩

end Cursor

end TextTemplate
