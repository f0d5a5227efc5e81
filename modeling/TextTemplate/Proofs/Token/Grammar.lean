import TextTemplate.Proofs.Token.Marking

namespace TextTemplate

/-- A run of digits that is not part of a longer one. -/
structure DigitRun (digits rest : List Char) : Prop where
  ne_nil : digits ≠ []
  digits : ∀ d ∈ digits, d.isDigit
  whole : ∀ c ∈ rest.head?, c.isDigit = false

/-- The number that a run of decimal digits denotes: each of them counts as many powers of ten as there
are digits behind it. -/
def placeValue : List Char → Nat
  | [] => 0
  | d :: digits => "0123456789".toList.idxOf d * 10 ^ digits.length + placeValue digits

/-- A name that is not the beginning of a longer one. -/
structure LongestName (word rest : List Char) : Prop where
  name : IsName word
  longest : ∀ longer, longer <+: word ++ rest → IsName longer → longer.length ≤ word.length

/-- The words that are tokens, and what may stand behind them. -/
inductive Token.Kind.Matches : Token.Kind → List Char → List Char → Prop
  | leftParen (rest) : Matches .leftParen ['('] rest
  | rightParen (rest) : Matches .rightParen [')'] rest
  | pipe (rest) : Matches .pipe ['|'] rest
  | comma (rest) : Matches .comma [','] rest
  | dots (rest) : Matches .dots ['.', '.'] rest
  | close (rest) : Matches .close ['}', '}'] rest
  | number {digits rest} (h : DigitRun digits rest) (hv : placeValue digits < 2 ^ 64) :
    Matches (.number (placeValue digits)) digits rest
  | forWord {rest} (h : LongestName ['f', 'o', 'r'] rest) : Matches .forWord ['f', 'o', 'r'] rest
  | endWord {rest} (h : LongestName ['e', 'n', 'd'] rest) : Matches .endWord ['e', 'n', 'd'] rest
  | name {x rest} (h : LongestName x.toList rest) (hf : x ≠ "for") (he : x ≠ "end") :
    Matches (.name x) x.toList rest

/-- What is to blame where no token begins, and how it is told: a brace, a number that is too large, or
any other character. -/
inductive Cause.Blames : Cause → List Char → List Char → Prop
  | loneBrace (rest) : Blames .loneBrace ['}'] rest
  | overflow {digits rest} (h : DigitRun digits rest) (hv : 2 ^ 64 ≤ placeValue digits) :
    Blames (.unknownToken (String.ofList digits)) digits rest
  | character {c rest} (hb : c ≠ '}') (hd : c.isDigit = false) :
    Blames (.unknownToken (String.ofList [c])) [c] rest

def Cursor.behind (front rest : List Char) : Cursor := ⟨rest, byteLength front, .advance {} front⟩

def blanks : List Char := [' ', '\t', '\n', '\x0c', '\r']

structure BlankRun (gap rest : List Char) : Prop where
  blank : ∀ c ∈ gap, c ∈ blanks
  whole : ∀ c ∈ rest.head?, c ∉ blanks

/-- What reading gives behind `front`, and where it stands then. -/
inductive Scans (front text : List Char) : Except Fault (Option Token) → Cursor → Prop
  | done (hg : ∀ c ∈ text, c ∈ blanks) : Scans front text (.ok none) (.behind (front ++ text) [])
  | token {gap word rest kind} (ht : text = gap ++ (word ++ rest)) (hg : BlankRun gap (word ++ rest))
    (hm : kind.Matches word rest) :
    Scans front text (.ok (some ⟨kind, .behind (front ++ gap) word⟩)) (.behind (front ++ gap ++ word) rest)
  | fault {gap blamed rest cause} (ht : text = gap ++ (blamed ++ rest)) (hg : BlankRun gap (blamed ++ rest))
    (hm : ∀ kind word rest', blamed ++ rest = word ++ rest' → ¬ Token.Kind.Matches kind word rest')
    (hb : cause.Blames blamed rest) :
    Scans front text (.error ⟨.behind (front ++ gap) blamed, cause⟩) (.behind (front ++ gap) (blamed ++ rest))

/-- That some tokens, with blanks in front of each of them, make up the text `passed` behind `front`. -/
inductive Cuts : List Char → List Token → List Char → List Char → Prop
  | nil (front rest) : Cuts front [] [] rest
  | cons {front gap word kind toks passed rest} (hg : BlankRun gap (word ++ (passed ++ rest)))
    (hm : kind.Matches word (passed ++ rest)) (h : Cuts (front ++ gap ++ word) toks passed rest) :
    Cuts front (⟨kind, .behind (front ++ gap) word⟩ :: toks) (gap ++ (word ++ passed)) rest

theorem mem_blanks {c : Char} : c ∈ blanks ↔ isBlank c := by
  simp [blanks, isBlank, or_assoc]

theorem blank_iff {text : List Char} : Blank text ↔ ∀ c ∈ text, c ∈ blanks := by
  simp only [Blank, mem_blanks]

theorem blankRun_iff {gap rest : List Char} :
    BlankRun gap rest ↔ Blank gap ∧ ∀ c ∈ rest.head?, isBlank c = false := by
  constructor
  · rintro ⟨hg, hr⟩
    exact ⟨blank_iff.2 hg, fun c hc => Bool.eq_false_iff.2 fun hb => hr c hc (mem_blanks.2 hb)⟩
  · rintro ⟨hg, hr⟩
    exact ⟨blank_iff.1 hg, fun c hc hb => Bool.eq_false_iff.1 (hr c hc) (mem_blanks.1 hb)⟩

theorem placeValue_eq {digits : List Char} (h : ∀ d ∈ digits, d.isDigit) :
    placeValue digits = decimalValue digits := by
  have hplace : ∀ v < 10, "0123456789".toList.idxOf (Nat.digitChar v) = v := by decide
  induction digits with
  | nil => rfl
  | cons d digits ih =>
    obtain ⟨hd, hdigits⟩ := List.forall_mem_cons.1 h
    obtain ⟨hlt, hchar⟩ := digitValue_lt hd
    have hi := hplace _ hlt
    rw [hchar] at hi
    rw [placeValue, decimalValue_cons, ih hdigits, hi]

theorem LongestName.nameLength_eq_zero {c : Char} {word rest : List Char}
    (h : LongestName (c :: word) rest) : nameLength rest = 0 := by
  obtain ⟨hc, hw⟩ := h.name.nameLength_eq
  have hn : IsName (c :: (word ++ rest).take (nameLength (word ++ rest))) := isName_take hc _
  have hp : c :: (word ++ rest).take (nameLength (word ++ rest)) <+: c :: word ++ rest :=
    (List.prefix_cons_inj c).2 (List.take_prefix _ _)
  have hl := h.longest _ hp hn
  rw [List.length_cons, List.length_take_of_le (nameLength_le _), nameLength_append hw,
    List.length_cons] at hl
  omega

theorem longestName_take {c : Char} (hc : isNameStart c) (text : List Char) :
    LongestName (c :: text.take (nameLength text)) (text.drop (nameLength text)) where
  name := isName_take hc text
  longest longer hp hn := by
    rw [List.cons_append, List.take_append_drop] at hp
    obtain ⟨rest, hr⟩ := hp
    cases longer with
    | nil => exact Nat.zero_le _
    | cons d longer =>
      rw [List.cons_append] at hr
      obtain ⟨rfl, rfl⟩ := List.cons.inj hr
      obtain ⟨-, hl⟩ := hn.nameLength_eq
      rw [List.length_cons, List.length_cons, List.length_take_of_le (nameLength_le _), nameLength_append hl]
      omega

namespace DigitRun

variable {digits rest : List Char}

theorem takeWhile_append (h : DigitRun digits rest) : (digits ++ rest).takeWhile Char.isDigit = digits :=
  takeWhile_append_eq h.digits h.whole

theorem of_takeWhile {text : List Char} (h : text.takeWhile Char.isDigit ≠ []) :
    DigitRun (text.takeWhile Char.isDigit) (text.dropWhile Char.isDigit) where
  ne_nil := h
  digits _ hd := List.mem_takeWhile_imp hd
  whole := head?_dropWhile_isDigit text

end DigitRun

namespace Token

theorem read?_of_digit {c : Char} (hc : c.isDigit) (text : List Char) :
    read? (c :: text) = (number? (c :: text)).or (name? (c :: text)) := by
  unfold read?
  split
  case h_7 => rfl
  all_goals
    next he =>
      obtain ⟨rfl, -⟩ := List.cons.inj he
      cases hc

theorem read?_of_matches {k : Kind} {word rest : List Char} (h : k.Matches word rest) :
    read? (word ++ rest) = some (k, word.length) := by
  cases h with
  | leftParen | rightParen | pipe | comma | dots | close => rfl
  | number h hv =>
    obtain ⟨c, digits, rfl⟩ := List.exists_cons_of_ne_nil h.ne_nil
    rw [placeValue_eq h.digits] at hv ⊢
    have hn : number? (c :: digits ++ rest) =
        some (.number (decimalValue (c :: digits)), digits.length + 1) := by
      rw [number?, h.takeWhile_append]
      exact if_pos ⟨List.cons_ne_nil c digits, hv⟩
    rw [List.cons_append, read?_of_digit (h.digits c List.mem_cons_self), ← List.cons_append, hn]
    rfl
  | forWord h => exact read?_word rfl rfl h.nameLength_eq_zero
  | endWord h => exact read?_word rfl rfl h.nameLength_eq_zero
  | @name x rest h hf he =>
    obtain ⟨word, segments, ⟨c, letters, rfl, -⟩, -, hx⟩ := h.name
    rw [← ofName_toList hf he]
    rw [hx, List.cons_append] at h ⊢
    obtain ⟨hc, hl⟩ := h.name.nameLength_eq
    exact read?_word hc hl h.nameLength_eq_zero

theorem matches_ofName {word rest : List Char} (h : LongestName word rest) :
    (Kind.ofName word).Matches word rest := by
  unfold Kind.ofName
  split
  · next hf =>
    subst hf
    exact .forWord h
  · next hf =>
    split
    · next he =>
      subst he
      exact .endWord h
    · next he =>
      have hx : word = (String.ofList word).toList := String.toList_ofList.symm
      have hm : Kind.Matches (.name (String.ofList word)) (String.ofList word).toList rest := by
        refine .name (by rwa [← hx]) ?_ ?_
        · intro hw
          exact hf (by rw [hx, hw]; rfl)
        · intro hw
          exact he (by rw [hx, hw]; rfl)
      rwa [← hx] at hm

theorem matches_of_read? {text : List Char} {k : Kind} {n : Nat} (h : read? text = some (k, n)) :
    k.Matches (text.take n) (text.drop n) := by
  unfold read? at h
  split at h
  case h_7 =>
    obtain h | ⟨-, h⟩ := Option.or_eq_some_iff.1 h
    · simp only [number?] at h
      split at h
      · next hd =>
        cases h
        have hrun := DigitRun.of_takeWhile hd.1
        rw [← List.prefix_iff_eq_take.1 (List.takeWhile_prefix _), drop_length_takeWhile,
          ← placeValue_eq hrun.digits]
        refine .number hrun ?_
        rw [placeValue_eq hrun.digits]
        exact hd.2
      · cases h
    · cases text with
      | nil => cases h
      | cons c text =>
        simp only [name?] at h
        split at h
        · next hc =>
          cases h
          exact matches_ofName (longestName_take hc text)
        · cases h
  all_goals
    cases h
    constructor

theorem read?_eq_none_iff {text : List Char} : read? text = none ↔
    ∀ k word rest, text = word ++ rest → ¬ Kind.Matches k word rest := by
  constructor
  · rintro h k word rest rfl hm
    rw [read?_of_matches hm] at h
    cases h
  · intro h
    cases hr : read? text with
    | none => rfl
    | some p => exact absurd (matches_of_read? hr) (h _ _ _ (List.take_append_drop _ _).symm)

theorem exists_blames {text : List Char} (hne : text ≠ []) (h : read? text = none) :
    ∃ cause blamed rest, text = blamed ++ rest ∧ Cause.Blames cause blamed rest := by
  obtain ⟨c, text, rfl⟩ := List.exists_cons_of_ne_nil hne
  by_cases hd : c.isDigit
  · have hne : (c :: text).takeWhile Char.isDigit ≠ [] := by
      rw [List.takeWhile_cons_of_pos hd]
      exact List.cons_ne_nil _ _
    have hrun := DigitRun.of_takeWhile hne
    refine ⟨_, _, _, List.takeWhile_append_dropWhile.symm, .overflow hrun ?_⟩
    rw [placeValue_eq hrun.digits]
    exact bound_le_of_read? h hne
  · by_cases hb : c = '}'
    · subst hb
      exact ⟨_, _, _, rfl, .loneBrace text⟩
    · exact ⟨_, [c], text, rfl, .character hb (by simpa using hd)⟩

end Token

namespace Cursor

theorem skip_behind (front a b : List Char) :
    (behind front (a ++ b)).skip a.length = behind (front ++ a) b := by
  simp only [skip, behind, List.take_left, List.drop_left, byteLength_append, Position.advance_append]

theorem ahead_behind (front a b : List Char) :
    (behind front (a ++ b)).ahead a.length = .behind front a := by
  rw [ahead, behind, List.take_left, Range.behind_eq]

variable {front gap text : List Char}

theorem skipBlanks_behind (h : BlankRun gap text) :
    (behind front (gap ++ text)).skipBlanks = behind (front ++ gap) text := by
  obtain ⟨hg, hr⟩ := blankRun_iff.1 h
  rw [skipBlanks_of_append rfl hg hr, skip_behind]

variable {cause : Cause} {blamed rest : List Char}

theorem blameLength_behind (h : cause.Blames blamed rest) :
    (behind front (blamed ++ rest)).blameLength = blamed.length := by
  unfold blameLength behind
  cases h with
  | loneBrace => rfl
  | overflow h hv =>
    dsimp only
    rw [h.takeWhile_append]
    exact max_eq_left (List.length_pos_iff.2 h.ne_nil)
  | character hb hd => simp [hd]

theorem fault_behind (h : cause.Blames blamed rest) :
    (behind front (blamed ++ rest)).fault = ⟨.behind front blamed, cause⟩ := by
  have hcause : (if (blamed ++ rest).head? = some '}' then Cause.loneBrace
      else .unknownToken (String.ofList blamed)) = cause := by
    cases h with
    | loneBrace => rfl
    | overflow h hv =>
      refine if_neg fun hb => ?_
      obtain ⟨c, digits, rfl⟩ := List.exists_cons_of_ne_nil h.ne_nil
      obtain rfl := Option.some.inj hb
      cases h.digits _ List.mem_cons_self
    | character hb hd => exact if_neg fun h => hb (Option.some.inj h)
  rw [fault, blameLength_behind h, ahead_behind]
  simp only [behind, List.take_left, hcause]

theorem next_of_scans {outcome : Except Fault (Option Token)} {d : Cursor}
    (h : Scans front text outcome d) : (behind front text).next = (outcome, d) := by
  cases h with
  | done hg =>
    have hs : (behind front (text ++ [])).skipBlanks = behind (front ++ text) [] :=
      skipBlanks_behind ⟨hg, fun c hc => absurd hc (Option.not_mem_none c)⟩
    rw [List.append_nil] at hs
    rw [next, hs]
    rfl
  | @token gap word rest kind ht hg hm =>
    subst ht
    have hs : (behind front (gap ++ (word ++ rest))).skipBlanks = behind (front ++ gap) (word ++ rest) :=
      skipBlanks_behind hg
    have hr : Token.read? ((gap ++ (word ++ rest)).dropWhile isBlank) = some (kind, word.length) := by
      obtain ⟨hblank, hwhole⟩ := blankRun_iff.1 hg
      rw [dropWhile_blank_append hblank hwhole, Token.read?_of_matches hm]
    rw [next_of_read? hr, hs, ahead_behind, skip_behind]
  | @fault gap blamed rest cause ht hg hm hb =>
    subst ht
    have hs : (behind front (gap ++ (blamed ++ rest))).skipBlanks =
      behind (front ++ gap) (blamed ++ rest) := skipBlanks_behind hg
    have hne : (behind (front ++ gap) (blamed ++ rest)).rest ≠ [] := by
      cases hb with
      | loneBrace | character _ _ => exact List.cons_ne_nil _ _
      | overflow h hv => exact List.append_ne_nil_of_left_ne_nil h.ne_nil rest
    have hr : Token.read? (behind (front ++ gap) (blamed ++ rest)).rest = none :=
      Token.read?_eq_none_iff.2 hm
    simp only [next, hs, if_neg hne, hr]
    rw [fault_behind hb]

theorem exists_scans (front text : List Char) : ∃ outcome d, Scans front text outcome d := by
  have ht : text = text.takeWhile isBlank ++ text.dropWhile isBlank :=
    List.takeWhile_append_dropWhile.symm
  have hg : BlankRun (text.takeWhile isBlank) (text.dropWhile isBlank) := by
    refine blankRun_iff.2 ⟨blank_takeWhile text, fun c hc => ?_⟩
    have := List.head?_dropWhile_not isBlank text
    rw [Option.mem_def.1 hc] at this
    simpa using this
  generalize text.takeWhile isBlank = gap at ht hg
  generalize text.dropWhile isBlank = body at ht hg
  subst ht
  by_cases hne : body = []
  · subst hne
    refine ⟨_, _, .done ?_⟩
    rw [List.append_nil]
    exact hg.blank
  · cases hr : Token.read? body with
    | some p =>
      have hb : body = body.take p.2 ++ body.drop p.2 := (List.take_append_drop _ _).symm
      refine ⟨_, _, .token (congrArg (gap ++ ·) hb) ?_ (Token.matches_of_read? hr)⟩
      rwa [← hb]
    | none =>
      obtain ⟨cause, blamed, rest, rfl, hb⟩ := Token.exists_blames hne hr
      exact ⟨_, _, .fault rfl hg (Token.read?_eq_none_iff.1 hr) hb⟩

theorem next_eq_iff {outcome : Except Fault (Option Token)} {d : Cursor} :
    (behind front text).next = (outcome, d) ↔ Scans front text outcome d := by
  constructor
  · intro h
    obtain ⟨outcome', d', hs⟩ := exists_scans front text
    obtain ⟨rfl, rfl⟩ := Prod.mk.inj (h.symm.trans (next_of_scans hs))
    exact hs
  · exact next_of_scans

theorem gives_iff_cuts {toks : List Token} {d : Cursor} : (behind front text).Gives toks d ↔
    ∃ passed rest, text = passed ++ rest ∧ d = behind (front ++ passed) rest ∧
      Cuts front toks passed rest := by
  constructor
  · intro h
    induction toks generalizing front text with
    | nil =>
      cases h
      exact ⟨[], text, rfl, by rw [List.append_nil], .nil front text⟩
    | cons t toks ih =>
      cases h with
      | cons hn hr =>
        cases next_eq_iff.1 hn with
        | @token gap word rest kind ht hg hm =>
          obtain ⟨passed, rest, rfl, rfl, h⟩ := ih hr
          refine ⟨gap ++ (word ++ passed), rest, ?_, ?_, .cons hg hm h⟩
          · rw [ht]
            simp only [List.append_assoc]
          · simp only [List.append_assoc]
  · rintro ⟨passed, rest, rfl, rfl, h⟩
    induction h with
    | nil front rest =>
      rw [List.append_nil]
      exact .nil _
    | @cons front gap word kind toks passed rest hg hm h ih =>
      have ht : gap ++ (word ++ passed) ++ rest = gap ++ (word ++ (passed ++ rest)) := by
        simp only [List.append_assoc]
      have hd : front ++ (gap ++ (word ++ passed)) = front ++ gap ++ word ++ passed := by
        simp only [List.append_assoc]
      rw [hd]
      exact .cons (next_of_scans (.token ht hg hm)) ih

/-- At every place of a text reading gives what the grammar of tokens says: it passes all blanks, and
takes the longest word that is a token or tells what is in the way. Read one after the other, tokens make
up the text that is passed, with nothing but blanks between them. -/
theorem next_reads_grammar (front text : List Char) :
    (∀ outcome d, (behind front text).next = (outcome, d) ↔ Scans front text outcome d) ∧
      ∀ toks d, (behind front text).Gives toks d ↔ ∃ passed rest, text = passed ++ rest ∧
        d = behind (front ++ passed) rest ∧ Cuts front toks passed rest :=
  ⟨fun _ _ => next_eq_iff, fun _ _ => gives_iff_cuts⟩

/-- Blanks of two kinds, and a number with zeros in front. -/
example : (behind ['a', '\n'] " \t007 b".toList).next =
    (.ok (some ⟨.number (placeValue ['0', '0', '7']), ⟨⟨2, 3⟩, ⟨2, 6⟩⟩⟩),
      .behind "a\n \t007".toList " b".toList) := by decide +kernel

end Cursor

end TextTemplate
