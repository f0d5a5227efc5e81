import TextTemplate.Proofs.Command.Moved
import TextTemplate.Proofs.Directive.Moved
import TextTemplate.Proofs.Template.Brackets

namespace TextTemplate

def Leaf.mapRange (f : Range → Range) : Leaf → Leaf
  | literal text => literal text
  | field name range => field name (f range)

def LoopHeader.mapRange (f : Range → Range) : LoopHeader → LoopHeader
  | forRange count index range => forRange count index (f range)
  | forEach list item index range => forEach list item index (f range)

def Bracket.mapRange (f : Range → Range) : Bracket → Bracket
  | leaf l => leaf (l.mapRange f)
  | opening header => opening (header.mapRange f)
  | closing range => closing (f range)

theorem Bracket.mapRange_id (b : Bracket) : b.mapRange id = b := by
  cases b with
  | leaf l => cases l <;> rfl
  | opening header => cases header <;> rfl
  | closing range => rfl

theorem Directive.bracket_mapRange (d : Directive) (f : Range → Range) :
    (d.mapRange f).bracket = d.bracket.mapRange f := by
  obtain ⟨kind, range⟩ := d
  cases kind <;> rfl

theorem Leaf.command_mapRange (l : Leaf) (f : Range → Range) :
    (l.mapRange f).command = l.command.mapRanges f := by
  cases l <;> rfl

theorem LoopHeader.command_mapRange (header : LoopHeader) (f : Range → Range) (body : List Command) :
    (header.mapRange f).command (mapRangesAll f body) = (header.command body).mapRanges f := by
  cases header <;> rfl

namespace Nesting

/-- The nesting with its ranges changed and with the commands of `base`, the last one first, in front of
all of its own. -/
def stacked (f : Range → Range) (base : List Command) :
    List Command → List (LoopHeader × List Command) → Nesting
  | current, [] => ⟨mapRangesAll f current ++ base, []⟩
  | current, (header, before) :: outer =>
    let around := stacked f base before outer
    ⟨mapRangesAll f current, (header.mapRange f, around.current) :: around.outer⟩

def behind (f : Range → Range) (base : List Command) (n : Nesting) : Nesting :=
  stacked f base n.current n.outer

variable (f : Range → Range) (base : List Command)

theorem behind_empty : behind f base {} = ⟨base, []⟩ := rfl

theorem behind_push (n : Nesting) (c : Command) :
    (n.push c).behind f base = (n.behind f base).push (c.mapRanges f) := by
  obtain ⟨current, outer⟩ := n
  cases outer <;> rfl

theorem behind_close (n : Nesting) :
    (n.behind f base).close? = n.close?.map (behind f base) := by
  obtain ⟨current, outer⟩ := n
  cases outer with
  | nil => rfl
  | cons loop outer =>
    obtain ⟨header, before⟩ := loop
    have hc : close? ⟨current, (header, before) :: outer⟩ =
        some (push ⟨before, outer⟩ (header.command current.reverse)) := rfl
    rw [hc, Option.map_some, behind_push, ← LoopHeader.command_mapRange, mapRangesAll_reverse]
    rfl

theorem behind_finish (n : Nesting) :
    (n.behind f base).finish = base.reverse ++ mapRangesAll f n.finish := by
  obtain ⟨current, outer⟩ := n
  induction outer generalizing current with
  | nil =>
    change (mapRangesAll f current ++ base).reverse = base.reverse ++ mapRangesAll f current.reverse
    rw [List.reverse_append, mapRangesAll_reverse]
  | cons loop outer ih =>
    have hc : close? ⟨current, loop :: outer⟩ =
        some ⟨loop.1.command current.reverse :: loop.2, outer⟩ := rfl
    have hb := behind_close f base ⟨current, loop :: outer⟩
    rw [hc, Option.map_some] at hb
    rw [← finish_close hb, ← finish_close hc, ih]

theorem read_behind (strict : Bool) (n : Nesting) (b : Bracket) :
    (n.behind f base).read strict (b.mapRange f) =
      ((n.read strict b).map (behind f base)).mapError (Fault.mapRange f) := by
  cases b with
  | leaf l =>
    rw [Bracket.mapRange, read, Leaf.command_mapRange, ← behind_push]
    rfl
  | opening header => rfl
  | closing range =>
    rw [Bracket.mapRange, read, read, behind_close]
    cases n.close? with
    | some m => rfl
    | none => cases strict <;> rfl

theorem foldlM_read_behind (strict : Bool) (w : List Bracket) (n : Nesting) :
    (w.map (Bracket.mapRange f)).foldlM (read strict) (n.behind f base) =
      ((w.foldlM (read strict) n).map (behind f base)).mapError (Fault.mapRange f) := by
  induction w generalizing n with
  | nil => rfl
  | cons b w ih =>
    rw [List.map_cons, List.foldlM_cons, List.foldlM_cons, read_behind]
    cases n.read strict b with
    | error fault => rfl
    | ok m => exact ih m

theorem complete_behind (strict : Bool) (n : Nesting) :
    ((n.behind f base).complete strict).outcome =
      ((n.complete strict).outcome.map (base.reverse ++ mapRangesAll f ·)).mapError (Fault.mapRange f) := by
  have hf := behind_finish f base n
  cases strict with
  | false =>
    rw [outcome_complete_false, outcome_complete_false, hf]
    rfl
  | true =>
    obtain ⟨current, outer⟩ := n
    cases outer with
    | nil => exact congrArg Except.ok hf
    | cons loop outer =>
      obtain ⟨header, before⟩ := loop
      cases header <;> rfl

variable {f base}

/-- What is read from brackets behind some commands, and from the same brackets with other ranges, is the
same but for the ranges. -/
theorem exists_of_foldlM_read_behind {strict : Bool} {w : List Bracket} {m : Nesting} {tree : List Command}
    (hw : (w.map (Bracket.mapRange f)).foldlM (read strict) ⟨base, []⟩ = .ok m)
    (hm : (m.complete strict).outcome = .ok tree) :
    ∃ k rest, w.foldlM (read strict) {} = .ok k ∧ (k.complete strict).outcome = .ok rest ∧
      tree = base.reverse ++ mapRangesAll f rest := by
  rw [← behind_empty f base, foldlM_read_behind] at hw
  cases hk : w.foldlM (read strict) {} with
  | error fault =>
    rw [hk] at hw
    cases hw
  | ok k =>
    rw [hk] at hw
    cases hw
    rw [complete_behind] at hm
    cases ht : (k.complete strict).outcome with
    | error fault =>
      rw [ht] at hm
      cases hm
    | ok rest =>
      rw [ht] at hm
      cases hm
      exact ⟨k, rest, rfl, ht, rfl⟩

theorem foldlM_read_moved {strict : Bool} {w : List Bracket} {m : Nesting} (base : List Command)
    (h : w.foldlM (read strict) {} = .ok m) :
    (w.map (Bracket.mapRange f)).foldlM (read strict) ⟨base, []⟩ = .ok (m.behind f base) := by
  rw [← behind_empty f base, foldlM_read_behind, h]
  rfl

theorem complete_moved {strict : Bool} {m : Nesting} {tree : List Command} (base : List Command)
    (h : (m.complete strict).outcome = .ok tree) :
    ((m.behind f base).complete strict).outcome = .ok (base.reverse ++ mapRangesAll f tree) := by
  rw [complete_behind, h]
  rfl

theorem exists_of_literal_first {strict : Bool} {y : String} {w : List Bracket} {m : Nesting}
    {tree : List Command} (hw : (Bracket.leaf (.literal y) :: w).foldlM (read strict) {} = .ok m)
    (hm : (m.complete strict).outcome = .ok tree) :
    ∃ k rest, w.foldlM (read strict) {} = .ok k ∧ (k.complete strict).outcome = .ok rest ∧
      tree = .literal y :: rest := by
  have hid : w.map (Bracket.mapRange id) = w :=
    (List.map_congr_left fun b _ => b.mapRange_id).trans (List.map_id _)
  have hy : (w.map (Bracket.mapRange id)).foldlM (read strict) ⟨[.literal y], []⟩ = .ok m := by rwa [hid]
  obtain ⟨k, rest, hk, hrest, rfl⟩ := exists_of_foldlM_read_behind hy hm
  exact ⟨k, rest, hk, hrest, congrArg _ (mapRangesAll_id rest)⟩

theorem exists_of_literal_last {strict : Bool} {x : String} {w : List Bracket} {cs : List Command}
    (h : (w ++ [Bracket.leaf (.literal x)]).foldlM (read strict) {} = .ok ⟨cs, []⟩) :
    ∃ front, w.foldlM (read strict) {} = .ok ⟨front, []⟩ ∧ cs = .literal x :: front := by
  rw [List.foldlM_append] at h
  cases hw : w.foldlM (read strict) {} with
  | error fault =>
    rw [hw] at h
    cases h
  | ok n =>
    obtain ⟨front, outer⟩ := n
    rw [hw] at h
    cases h
    exact ⟨front, rfl, rfl⟩

end Nesting

end TextTemplate
