import Mathlib.Data.List.Nodup
import Inet.Lib.FirstMatch

/-!
# Lists with keys

Lists whose elements have keys of their own, and what is found by a key after a change.
-/
namespace Inet.Lib.KeyedList

universe u v

variable {α : Type u} {K : Type v} [DecidableEq K] {keyOf : α → K} {front back : List α} {a : α}
  {key : K}

def find (keyOf : α → K) (l : List α) (key : K) : Option α := l.find? fun a => keyOf a = key

/-- No two elements have the same key. -/
def Unique (keyOf : α → K) (l : List α) : Prop := (l.map keyOf).Nodup

omit [DecidableEq K] in
theorem unique_middle : Unique keyOf (front ++ a :: back) ↔
    (∀ b ∈ front ++ back, keyOf b ≠ keyOf a) ∧ Unique keyOf (front ++ back) := by
  rw [Unique, List.map_append, List.map_cons, List.nodup_middle, List.nodup_cons, Unique,
    ← List.map_append]
  refine and_congr_left fun _ => ?_
  rw [List.mem_map, not_exists]
  exact forall_congr' fun b => ⟨fun none member same => none ⟨member, same⟩,
    fun differ found => differ found.1 found.2⟩

theorem find_eq_none {l : List α} : find keyOf l key = none ↔ ∀ a ∈ l, keyOf a ≠ key := by
  rw [find, List.find?_eq_none]
  exact forall₂_congr fun _ _ => by rw [decide_eq_true_iff]

/-- The element with a key is found. -/
theorem find_middle (unique : Unique keyOf (front ++ a :: back)) :
    find keyOf (front ++ a :: back) (keyOf a) = some a :=
  find?_middle (decide_eq_true rfl) fun b member =>
    decide_eq_false ((unique_middle.mp unique).1 b (List.mem_append_left _ member))

/-- The element that is found, with the others around it. -/
theorem exists_middle_of_find {l : List α} (found : find keyOf l key = some a) :
    ∃ front back, l = front ++ a :: back ∧ keyOf a = key ∧ ∀ b ∈ front, keyOf b ≠ key := by
  obtain ⟨holds, front, back, rfl, before⟩ := List.find?_eq_some_iff_append.mp found
  refine ⟨front, back, rfl, of_decide_eq_true holds, fun b member same => ?_⟩
  have fails := before b member
  rw [decide_eq_true same] at fails
  cases fails

theorem find_eq_some {l : List α} (unique : Unique keyOf l) :
    find keyOf l key = some a ↔ a ∈ l ∧ keyOf a = key := by
  constructor
  · intro found
    obtain ⟨front, back, rfl, same, _⟩ := exists_middle_of_find found
    exact ⟨List.mem_append_right _ List.mem_cons_self, same⟩
  · rintro ⟨member, rfl⟩
    obtain ⟨front, back, rfl⟩ := List.append_of_mem member
    exact find_middle unique

end Inet.Lib.KeyedList

/-!
## Entries gathered by key

Entries are put into a list one after the other. The first element with the key of an entry takes it
in, and where there is none, a new element for the entry comes to the end.
-/
namespace Inet.Lib

open KeyedList (find Unique)

universe u v w

/-- How elements are made of entries. -/
structure Gathering (α : Type u) (β : Type v) (K : Type w) where
  keyOf : α → K
  entryKey : β → K
  new : β → α
  add : α → β → α
  new_key : ∀ b, keyOf (new b) = entryKey b
  add_key : ∀ a b, keyOf (add a b) = keyOf a

namespace Gathering

variable {α : Type u} {β : Type v} {K : Type w} [DecidableEq K] (g : Gathering α β K)
variable (bs : List β) (b : β)

def put (b : β) : List α → List α
  | [] => [g.new b]
  | a :: rest => if g.keyOf a = g.entryKey b then g.add a b :: rest else a :: put b rest

def gather (bs : List β) : List α := bs.foldl (fun l b => g.put b l) []

/-- The element that takes in some entries, all of one key. -/
def elementOf : List β → Option α
  | [] => none
  | b :: rest => some (rest.foldl g.add (g.new b))

/-- The entries with a key. -/
def entriesOf (bs : List β) (key : K) : List β := bs.filter fun b => g.entryKey b = key

omit [DecidableEq K] in
theorem elementOf_concat :
    g.elementOf (bs ++ [b]) = some ((g.elementOf bs).elim (g.new b) (g.add · b)) := by
  cases bs with
  | nil => rfl
  | cons first rest =>
    rw [List.cons_append, elementOf, List.foldl_append]
    rfl

theorem gather_concat : g.gather (bs ++ [b]) = g.put b (g.gather bs) := by
  rw [gather, List.foldl_append]
  rfl

theorem entriesOf_concat (key : K) :
    g.entriesOf (bs ++ [b]) key =
      if g.entryKey b = key then g.entriesOf bs key ++ [b] else g.entriesOf bs key := by
  rw [entriesOf, List.filter_append]
  by_cases same : g.entryKey b = key
  · simp [same, entriesOf]
  · simp [same, entriesOf]

/-- Only what is found by the key of the entry changes. -/
theorem find_put (l : List α) (key : K) :
    find g.keyOf (g.put b l) key =
      if g.entryKey b = key then some ((find g.keyOf l key).elim (g.new b) (g.add · b))
      else find g.keyOf l key := by
  induction l with
  | nil =>
    by_cases same : g.entryKey b = key
    · simp [put, find, g.new_key, same]
    · simp [put, find, g.new_key, same]
  | cons a rest ih =>
    unfold put
    unfold find at ih ⊢
    by_cases takes : g.keyOf a = g.entryKey b
    · rw [if_pos takes, List.find?_cons, List.find?_cons, g.add_key, takes]
      by_cases same : g.entryKey b = key
      · simp [same]
      · simp [same]
    · rw [if_neg takes, List.find?_cons, List.find?_cons, ih]
      by_cases here : g.keyOf a = key
      · -- an element before the one that takes the entry
        have other : g.entryKey b ≠ key := fun same => takes (here.trans same.symm)
        simp [here, other]
      · simp [here]

/-- Under a key there is what the entries of the key make. -/
theorem find_gather (key : K) :
    find g.keyOf (g.gather bs) key = g.elementOf (g.entriesOf bs key) := by
  induction bs using List.reverseRecOn with
  | nil => rfl
  | append_singleton bs b ih =>
    rw [gather_concat, find_put, ih, entriesOf_concat]
    split
    · rw [elementOf_concat]
    · rfl

theorem mem_keys_put {b : β} {l : List α} {key : K} :
    key ∈ (g.put b l).map g.keyOf ↔ key = g.entryKey b ∨ key ∈ l.map g.keyOf := by
  induction l with
  | nil => rw [put, List.map_singleton, g.new_key, List.mem_singleton, List.map_nil,
      or_iff_left List.not_mem_nil]
  | cons a rest ih =>
    unfold put
    split
    · next takes =>
      rw [List.map_cons, List.map_cons, g.add_key, List.mem_cons, takes, ← or_assoc, or_self]
    · rw [List.map_cons, List.map_cons, List.mem_cons, List.mem_cons, ih, or_left_comm]

theorem unique_put {l : List α} (unique : Unique g.keyOf l) (b : β) :
    Unique g.keyOf (g.put b l) := by
  induction l with
  | nil => exact List.nodup_singleton _
  | cons a rest ih =>
    obtain ⟨fresh, unique⟩ := List.nodup_cons.mp unique
    unfold put
    split
    · refine List.nodup_cons.mpr ⟨?_, unique⟩
      rw [g.add_key]
      exact fresh
    · next other =>
      refine List.nodup_cons.mpr ⟨fun member => ?_, ih unique⟩
      rcases g.mem_keys_put.mp member with same | member
      · exact other same
      · exact fresh member

theorem unique_gather : Unique g.keyOf (g.gather bs) := by
  induction bs using List.reverseRecOn with
  | nil => exact .nil
  | append_singleton bs b ih =>
    rw [gather_concat]
    exact g.unique_put ih b

/-- An element is there if it is what the entries of its key make. -/
theorem mem_gather {bs : List β} {a : α} :
    a ∈ g.gather bs ↔ g.elementOf (g.entriesOf bs (g.keyOf a)) = some a := by
  rw [← find_gather, KeyedList.find_eq_some (g.unique_gather bs)]
  exact (and_iff_left rfl).symm

end Gathering

end Inet.Lib
