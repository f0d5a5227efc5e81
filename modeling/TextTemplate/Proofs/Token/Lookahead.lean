import TextTemplate.Proofs.Token.Grammar
import Mathlib

namespace TextTemplate

inductive Request
  | next
  | peek (n : Nat)
deriving DecidableEq

namespace Cursor

def answer (c : Cursor) : Request → Except Fault (Option Token) × Cursor
  | .next => c.next
  | .peek n => (c.peek n, c)

/-- Where reading stands behind a row of requests. -/
def afterRequests (c : Cursor) (requests : List Request) : Cursor :=
  requests.foldl (fun c r => (c.answer r).2) c

def past (c : Cursor) (n : Nat) : Cursor := (fun c => c.next.2)^[n] c

def Ended (c : Cursor) : Prop := ∀ t, c.next.1 ≠ .ok (some t)

theorem past_succ (c : Cursor) (n : Nat) : c.past (n + 1) = c.next.2.past n :=
  Function.iterate_succ_apply _ n c

theorem past_succ' (c : Cursor) (n : Nat) : c.past (n + 1) = (c.past n).next.2 :=
  Function.iterate_succ_apply' _ n c

theorem ended_or_exists_next (c : Cursor) : c.Ended ∨ ∃ t d, c.next = (.ok (some t), d) := by
  by_cases h : c.Ended
  · exact .inl h
  · right
    obtain ⟨t, ht⟩ := not_forall_not.1 h
    exact ⟨t, c.next.2, Prod.ext ht rfl⟩

theorem skipBlanks_skipBlanks (c : Cursor) : c.skipBlanks.skipBlanks = c.skipBlanks := by
  have hr : c.skipBlanks.rest.takeWhile isBlank = [] := by
    have hh := List.head?_dropWhile_not isBlank c.rest
    rw [← rest_skipBlanks] at hh
    cases ht : c.skipBlanks.rest with
    | nil => rfl
    | cons a text =>
      rw [ht] at hh
      exact List.takeWhile_cons_of_neg (by simpa using hh)
  rw [skipBlanks, hr]
  rfl

theorem next_skipBlanks (c : Cursor) : c.skipBlanks.next = c.next := by
  unfold next
  rw [skipBlanks_skipBlanks]

theorem Ended.next_snd {c : Cursor} (h : c.Ended) : c.next.2 = c.skipBlanks := by
  by_cases he : c.skipBlanks.rest = []
  · simp only [next, if_pos he]
  · cases hr : Token.read? c.skipBlanks.rest with
    | none => simp only [next, if_neg he, hr]
    | some p =>
      have ht := h ⟨p.1, c.skipBlanks.ahead p.2⟩
      rw [rest_skipBlanks] at hr
      rw [next_of_read? hr] at ht
      exact absurd rfl ht

theorem Ended.next_next {c : Cursor} (h : c.Ended) : c.next.2.next = c.next := by
  rw [h.next_snd, next_skipBlanks]

theorem past_past (c : Cursor) (n k : Nat) : (c.past n).past k = c.past (n + k) := by
  rw [Nat.add_comm]
  exact (Function.iterate_add_apply _ k n c).symm

theorem Ended.past {c : Cursor} (h : c.Ended) (m : Nat) :
    (c.past m).next.1 = c.next.1 ∧ c.past (m + 1) = c.next.2 := by
  induction m with
  | zero => exact ⟨rfl, rfl⟩
  | succ m ih =>
    obtain ⟨-, hp⟩ := ih
    rw [past_succ' c (m + 1), hp, h.next_next]
    exact ⟨rfl, rfl⟩

theorem peek_eq (c : Cursor) (n : Nat) : c.peek n = (c.past n).next.1 := by
  induction n generalizing c with
  | zero => rfl
  | succ n ih =>
    -- looking ahead stops where reading ends, and reading further gives nothing else there
    obtain h | ⟨t, d, h⟩ := c.ended_or_exists_next
    · rw [(h.past (n + 1)).1]
      unfold peek
      split
      · next t d hn => exact absurd (congrArg Prod.fst hn) (h t)
      · next hn => rw [hn]
    · rw [past_succ, h, peek, h]
      exact ih d

theorem afterRequests_eq (c : Cursor) (requests : List Request) :
    c.afterRequests requests = c.past (requests.count .next) := by
  induction requests generalizing c with
  | nil => rfl
  | cons r requests ih =>
    have hc : c.afterRequests (r :: requests) = (c.answer r).2.afterRequests requests := rfl
    cases r with
    | next =>
      rw [hc, ih, List.count_cons_self, past_succ, answer]
    | peek n =>
      have hn : Request.peek n ≠ .next := nofun
      rw [hc, ih, List.count_cons_of_ne hn, answer]

theorem exists_passed (front text : List Char) : ∃ passed rest, text = passed ++ rest ∧
    (behind front text).next.2 = behind (front ++ passed) rest ∧
      ∀ t, (behind front text).next.1 = .ok (some t) → passed ≠ [] := by
  obtain ⟨outcome, d, hs⟩ := exists_scans front text
  rw [next_of_scans hs]
  cases hs with
  | done hg => exact ⟨text, [], (List.append_nil text).symm, rfl, nofun⟩
  | @token gap word rest kind ht hg hm =>
    refine ⟨gap ++ word, rest, by rw [ht, List.append_assoc], by rw [List.append_assoc], ?_⟩
    intro t _ hn
    have hw := Token.read?_pos (Token.read?_of_matches hm)
    rw [(List.append_eq_nil_iff.1 hn).2] at hw
    exact absurd hw (Nat.lt_irrefl 0)
  | @fault gap blamed rest cause ht => exact ⟨gap, blamed ++ rest, ht, rfl, nofun⟩

theorem exists_past (front text : List Char) (n : Nat) : ∃ passed rest, text = passed ++ rest ∧
    (behind front text).past n = behind (front ++ passed) rest := by
  induction n with
  | zero => exact ⟨[], text, rfl, by rw [List.append_nil]; rfl⟩
  | succ n ih =>
    obtain ⟨passed, rest, rfl, hp⟩ := ih
    obtain ⟨further, rest, rfl, hn, -⟩ := exists_passed (front ++ passed) rest
    refine ⟨passed ++ further, rest, (List.append_assoc ..).symm, ?_⟩
    rw [past_succ', hp, hn, List.append_assoc]

/-- Each reading that gives a token takes a byte at least, so that reading ends. -/
theorem exists_ended (front text : List Char) :
    ∃ n ≤ byteLength text, ((behind front text).past n).Ended := by
  induction hl : byteLength text using Nat.strong_induction_on generalizing front text with
  | _ l ih =>
    obtain h | ⟨t, d, h⟩ := (behind front text).ended_or_exists_next
    · exact ⟨0, Nat.zero_le _, h⟩
    · obtain ⟨passed, rest, rfl, hd, hne⟩ := exists_passed front text
      have hb := byteLength_pos (hne t (congrArg Prod.fst h))
      rw [byteLength_append] at hl
      obtain ⟨n, hn, he⟩ := ih (byteLength rest) (by omega) (front ++ passed) rest rfl
      refine ⟨n + 1, by omega, ?_⟩
      rwa [past_succ, hd]

/-- Whatever has been asked for so far, looking ahead has moved nothing, and it gives what the last of as
many readings gives. From a place where reading gives no token, every further reading gives the same and
goes no further; a reading that gives a token passes at least a byte, so one of the next readings, no
more of them than there are bytes left and one, is the last to move. -/
theorem peek_agrees_with_next (front text : List Char) (requests : List Request) :
    let start := behind front text
    let c := start.afterRequests requests
    c = start.past (requests.count .next) ∧
      (∀ n, c.peek n = (c.past n).next.1) ∧
      (∀ n, (c.past n).Ended → ∀ m ≥ n,
        (c.past m).next.1 = (c.past n).next.1 ∧ c.past (m + 1) = c.past (n + 1)) ∧
      (∀ t, c.next.1 = .ok (some t) → ∃ passed, c.rest = passed ++ c.next.2.rest ∧
        0 < byteLength passed ∧ c.next.2.offset = c.offset + byteLength passed) ∧
      ∃ n ≤ byteLength c.rest, (c.past n).Ended := by
  intro start c
  have hc : c = start.past (requests.count .next) := afterRequests_eq start requests
  obtain ⟨passed, rest, -, hp⟩ := exists_past front text (requests.count .next)
  rw [← hc] at hp
  refine ⟨hc, c.peek_eq, fun n hn m hm => ?_, fun t ht => ?_, ?_⟩
  · obtain ⟨k, rfl⟩ := Nat.exists_eq_add_of_le hm
    obtain ⟨ho, hd⟩ := hn.past k
    rw [past_past] at ho
    rw [past_past, ← Nat.add_assoc, ← past_succ'] at hd
    exact ⟨ho, hd⟩
  · rw [hp] at ht ⊢
    obtain ⟨further, rest, rfl, hn, hne⟩ := exists_passed (front ++ passed) rest
    refine ⟨further, ?_, byteLength_pos (hne t ht), ?_⟩
    · rw [hn]
      rfl
    · rw [hn]
      exact byteLength_append (front ++ passed) further
  · rw [hp]
    exact exists_ended (front ++ passed) rest

theorem peek_agrees_with_next_overflow :
    let c := (behind ['é'] "a 18446744073709551616|".toList).afterRequests [.peek 4, .next, .peek 1]
    let fault : Fault := ⟨⟨⟨1, 4⟩, ⟨1, 24⟩⟩, .unknownToken "18446744073709551616"⟩
    c.offset = 3 ∧ c.Ended ∧ c.peek 7 = .error fault ∧
      ∀ m, (c.past m).next.1 = .error fault ∧ (c.past (m + 1)).offset = 4 := by
  intro c fault
  obtain ⟨hc, hpeek, hend, -⟩ :=
    peek_agrees_with_next ['é'] "a 18446744073709551616|".toList [.peek 4, .next, .peek 1]
  have hc : c = ⟨" 18446744073709551616|".toList, 3, ⟨1, 3⟩⟩ := by
    apply hc.trans
    cbv
  have ho : c.offset = 3 := congrArg Cursor.offset hc
  have hf : c.next.1 = .error fault := by
    rw [hc]
    rfl
  have hd : c.next.2.offset = 4 := by
    rw [hc]
    rfl
  have he : c.Ended := by
    intro t ht
    rw [hf] at ht
    cases ht
  have hm : ∀ m, (c.past m).next.1 = .error fault ∧ (c.past (m + 1)).offset = 4 := by
    intro m
    obtain ⟨hr, hp⟩ := hend 0 he m (Nat.zero_le m)
    exact ⟨hr.trans hf, (congrArg Cursor.offset hp).trans hd⟩
  exact ⟨ho, he, (hpeek 7).trans (hm 7).1, hm⟩

end Cursor

end TextTemplate
