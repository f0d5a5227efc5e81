import TextTemplate.Context
import TextTemplate.Proofs.Token.Text

namespace TextTemplate

theorem lookup_reverse_eq_some_iff {β : Type} {entries : List (String × β)} {x : String} {v : β} :
    entries.reverse.lookup x = some v ↔
      ∃ before after, entries = before ++ (x, v) :: after ∧ x ∉ after.map Prod.fst := by
  rw [List.lookup_eq_some_iff]
  constructor
  · rintro ⟨a, b, hab, ha⟩
    refine ⟨b.reverse, a.reverse, ?_, ?_⟩
    · rw [← List.reverse_reverse entries, hab]
      simp
    · rw [List.map_reverse, List.mem_reverse]
      intro hx
      obtain ⟨p, hp, rfl⟩ := List.mem_map.1 hx
      exact absurd rfl (bne_iff_ne.1 (ha p hp))
  · rintro ⟨a, b, rfl, hb⟩
    refine ⟨b.reverse, a.reverse, by simp, ?_⟩
    intro p hp
    rw [bne_iff_ne]
    rintro rfl
    exact hb (List.mem_map_of_mem (List.mem_reverse.1 hp))

namespace Json

variable {j : Json}

theorem exists_segments_eq_cons (text : List Char) : ∃ s ss, segments text = s :: ss := by
  induction text with
  | nil => exact ⟨[], [], rfl⟩
  | cons c text ih =>
    obtain ⟨s, ss, hs⟩ := ih
    rw [segments, hs]
    split
    · exact ⟨[], s :: ss, rfl⟩
    · exact ⟨c :: s, ss, rfl⟩

theorem segments_append_dot (p q : List Char) : segments (p ++ '.' :: q) = segments p ++ segments q := by
  induction p with
  | nil => rfl
  | cons c p ih =>
    by_cases hc : c = '.'
    · rw [List.cons_append, segments, if_pos hc, segments, if_pos hc, ih, List.cons_append]
    · obtain ⟨s, ss, hs⟩ := exists_segments_eq_cons p
      rw [List.cons_append, segments, if_neg hc, ih, segments, if_neg hc, hs]
      rfl

theorem segments_of_not_mem {text : List Char} (h : '.' ∉ text) : segments text = [text] := by
  induction text with
  | nil => rfl
  | cons c text ih =>
    obtain ⟨hc, ht⟩ := List.ne_and_not_mem_of_not_mem_cons h
    rw [segments, if_neg hc.symm, ih ht]

theorem path?_append_dot (j : Json) (p q : List Char) :
    j.path? (p ++ '.' :: q) = (j.path? p).bind (·.path? q) := by
  rw [path?, segments_append_dot, List.foldlM_append]
  rfl

/-- One step of a path: into the last field of a name, or to an element by its number. -/
inductive Child : Json → List Char → Json → Prop
  | field {before after name child} (hl : name ∉ after.map Prod.fst) :
    Child (.object (before ++ (name, child) :: after)) name.toList child
  | element {elements segment i child} (hi : index? segment = some i) (hc : elements[i]? = some child) :
    Child (.array elements) segment child

/-- The way along a path, dot by dot. -/
inductive Walks : Json → List Char → Json → Prop
  | last {j segment child} (hs : '.' ∉ segment) (hc : Child j segment child) : Walks j segment child
  | step {j segment child path j'} (hs : '.' ∉ segment) (hc : Child j segment child)
    (h : Walks child path j') : Walks j (segment ++ '.' :: path) j'

theorem child?_eq_some_iff {segment : List Char} {child : Json} :
    j.child? segment = some child ↔ j.Child segment child := by
  constructor
  · intro h
    cases j with
    | object fields =>
      obtain ⟨before, after, rfl, hl⟩ := lookup_reverse_eq_some_iff.1 h
      have hc : Child (.object (before ++ (String.ofList segment, child) :: after)) _ child := .field hl
      rwa [String.toList_ofList] at hc
    | array elements =>
      obtain ⟨i, hi, hc⟩ := Option.bind_eq_some_iff.1 h
      exact .element hi hc
    | _ => cases h
  · intro h
    cases h with
    | field hl =>
      apply lookup_reverse_eq_some_iff.2
      rw [String.ofList_toList]
      exact ⟨_, _, rfl, hl⟩
    | element hi hc => exact Option.bind_eq_some_iff.2 ⟨_, hi, hc⟩

theorem path?_of_not_mem {segment : List Char} (hs : '.' ∉ segment) : j.path? segment = j.child? segment := by
  rw [path?, segments_of_not_mem hs, List.foldlM_cons]
  exact bind_pure _

theorem path?_eq_some_iff {path : List Char} {j' : Json} : j.path? path = some j' ↔ j.Walks path j' := by
  constructor
  · intro h
    induction hn : path.length using Nat.strong_induction_on generalizing j path with
    | _ n ih =>
      by_cases hd : '.' ∈ path
      · obtain ⟨segment, further, rfl, hs⟩ := List.eq_append_cons_of_mem hd
        rw [path?_append_dot, path?_of_not_mem hs] at h
        obtain ⟨child, hc, hw⟩ := Option.bind_eq_some_iff.1 h
        rw [List.length_append, List.length_cons] at hn
        exact .step hs (child?_eq_some_iff.1 hc) (ih further.length (by omega) hw rfl)
      · rw [path?_of_not_mem hd] at h
        exact .last hd (child?_eq_some_iff.1 h)
  · intro h
    induction h with
    | last hs hc => rw [path?_of_not_mem hs, child?_eq_some_iff.2 hc]
    | step hs hc _ ih =>
      rw [path?_append_dot, path?_of_not_mem hs, child?_eq_some_iff.2 hc, Option.bind_some, ih]

theorem index?_repr (i : Nat) : index? i.repr.toList = if i < UInt64.size then some i else none := by
  have hne := repr_ne_nil i
  have hplus : i.repr.toList.head? ≠ some '+' := fun h => not_mem_repr rfl i (List.mem_of_head? h)
  have hall : i.repr.toList.all Char.isDigit := List.all_eq_true.2 fun c => isDigit_of_mem_repr
  simp only [index?, if_neg hplus, ne_eq, hne, not_false_eq_true, hall, true_and, decimalValue_repr]

/-- A number leads to the element that it counts, in an array whose elements can be counted. -/
theorem path?_index {a : List Json} (ha : a.length ≤ UInt64.size) (i : Nat) :
    (array a).path? i.repr.toList = a[i]? := by
  have hp : (array a).path? i.repr.toList = (index? i.repr.toList).bind (a[·]?) :=
    path?_of_not_mem (not_mem_repr rfl i)
  rw [hp, index?_repr]
  split
  · rfl
  · exact (List.getElem?_eq_none (by omega)).symm

end Json

namespace Value

open Json

theorem ofJson?_eq_none_iff {j : Json} : ofJson? j = none ↔ j = .null := by
  cases j <;> simp [ofJson?]

theorem ofElements_eq_map (a : List Json) :
    ofElements a = a.map fun j => (ofJson? j).getD (.unsupported "null") := by
  induction a with
  | nil => rfl
  | cons j a ih => rw [ofElements, ih, List.map_cons]

theorem getElem?_ofElements (a : List Json) (i : Nat) :
    (ofElements a)[i]? = (a[i]?).map fun j => (ofJson? j).getD (.unsupported "null") := by
  rw [ofElements_eq_map, List.getElem?_map]

end Value

def elementName (list : String) (i : Nat) : String := list ++ "." ++ i.repr

theorem toList_elementName (list : String) (i : Nat) :
    (elementName list i).toList = list.toList ++ '.' :: i.repr.toList := by
  simp [elementName]

namespace Context

variable {j : Json} {p : String} {a : List Json}

theorem get_ofJson_array (hp : j.path? p.toList = some (.array a)) :
    (ofJson j).get p = some (.sequence (Value.ofElements a)) := by
  change (j.path? p.toList).bind Value.ofJson? = _
  rw [hp]
  rfl

theorem get_ofJson_element (hp : j.path? p.toList = some (.array a)) (ha : a.length ≤ UInt64.size)
    (i : Nat) : (ofJson j).get (elementName p i) = (a[i]?).bind Value.ofJson? := by
  have hi : j.path? (elementName p i).toList = a[i]? := by
    rw [toList_elementName, Json.path?_append_dot, hp]
    exact Json.path?_index ha i
  exact congrArg (·.bind Value.ofJson?) hi

end Context

end TextTemplate
