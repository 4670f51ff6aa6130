import Mathlib
import Inet.Lib.Except

/-!
# Ordered maps

Maps that are kept and searched by a comparison of their keys, as `std::map`. A search has a result
only if the keys before the one that is looked for stand first. Keys may be those of numbers in a
linear order, as long as they compare as the numbers do.
-/
namespace Inet.Lib

universe u

/-- The entries in the order of their keys. -/
abbrev OrderedMap (K V : Type u) := List (K × V)

namespace OrderedMap

variable {K V ε : Type u} (less : K → K → Bool) (unordered : ε)
variable {key : K}

/-- The keys before a key stand first. -/
def Searchable (map : OrderedMap K V) (key : K) : Prop :=
  ∀ entry ∈ map.dropWhile fun entry => less entry.1 key, less entry.1 key = false

instance (map : OrderedMap K V) (key : K) : Decidable (Searchable less map key) :=
  inferInstanceAs (Decidable (∀ entry ∈ map.dropWhile fun entry => less entry.1 key,
    less entry.1 key = false))

/-- The entries from the key on. -/
def search (map : OrderedMap K V) (key : K) : Except ε (OrderedMap K V) :=
  if Searchable less map key then .ok (map.dropWhile fun entry => less entry.1 key)
  else .error unordered

/-- The entry of a key that neither comes before nor after. -/
def find (map : OrderedMap K V) (key : K) : Except ε (Option V) := do
  match ← search less unordered map key with
  | [] => return none
  | entry :: _ => return if less key entry.1 then none else some entry.2

/-- `map[key]` is changed, and made if it is not there. -/
def alter (map : OrderedMap K V) (key : K) (change : Option V → V) :
    Except ε (OrderedMap K V) := do
  let front := map.takeWhile fun entry => less entry.1 key
  match ← search less unordered map key with
  | [] => return front ++ [(key, change none)]
  | entry :: rest =>
    if less key entry.1 then return front ++ (key, change none) :: entry :: rest
    else return front ++ (entry.1, change (some entry.2)) :: rest

def erase (map : OrderedMap K V) (key : K) : Except ε (OrderedMap K V) := do
  match ← search less unordered map key with
  | [] => return map
  | entry :: rest =>
    if less key entry.1 then return map
    else return (map.takeWhile fun entry => less entry.1 key) ++ rest

/-- What is found is the entry of a key that neither comes before nor after. -/
theorem of_find {map : OrderedMap K V} {v : V}
    (found : find less unordered map key = .ok (some v)) :
    ∃ entry ∈ map, less entry.1 key = false ∧ less key entry.1 = false := by
  rw [find, search] at found
  split at found
  next searchable =>
    rw [ok_bind] at found
    cases rest : map.dropWhile fun entry => less entry.1 key with
    | nil =>
      rw [rest] at found
      cases found
    | cons entry others =>
      simp only [rest] at found
      refine ⟨entry, (List.dropWhile_sublist _).subset (rest ▸ List.mem_cons_self),
        searchable entry (rest ▸ List.mem_cons_self), ?_⟩
      by_contra after
      rw [Bool.not_eq_false] at after
      rw [if_pos after] at found
      cases found
  next => cases found

theorem find_returns {map : OrderedMap K V} (searchable : Searchable less map key) :
    ∃ found, find less unordered map key = .ok found := by
  rw [find, search, if_pos searchable, ok_bind]
  cases map.dropWhile fun entry => less entry.1 key with
  | nil => exact ⟨_, rfl⟩
  | cons entry rest => exact ⟨_, rfl⟩

variable {altered : OrderedMap K V}

/-- Only the key that is altered can be new. -/
theorem of_alter {map : OrderedMap K V} {change : Option V → V}
    (returned : alter less unordered map key change = .ok altered) :
    ∀ entry ∈ altered, entry.1 = key ∨ ∃ old ∈ map, old.1 = entry.1 := by
  obtain ⟨found, searched, returned⟩ := bind_eq_ok.mp returned
  have same : found = map.dropWhile fun entry => less entry.1 key := by
    rw [search] at searched
    split at searched
    · cases searched
      rfl
    · cases searched
  have front {entry : K × V} (member : entry ∈ map.takeWhile fun entry => less entry.1 key) :
      entry ∈ map := (List.takeWhile_sublist _).subset member
  have back {entry : K × V} (member : entry ∈ found) : entry ∈ map :=
    (List.dropWhile_sublist _).subset (same ▸ member)
  intro entry member
  cases found with
  | nil =>
    cases returned
    rcases List.mem_append.mp member with old | new
    · exact .inr ⟨entry, front old, rfl⟩
    · exact .inl (congrArg Prod.fst (List.mem_singleton.mp new))
  | cons first rest =>
    simp only at returned
    split at returned
    · cases returned
      rcases List.mem_append.mp member with old | new
      · exact .inr ⟨entry, front old, rfl⟩
      · rcases List.mem_cons.mp new with same | old
        · exact .inl (congrArg Prod.fst same)
        · exact .inr ⟨entry, back old, rfl⟩
    · cases returned
      rcases List.mem_append.mp member with old | new
      · exact .inr ⟨entry, front old, rfl⟩
      · rcases List.mem_cons.mp new with same | old
        · exact .inr ⟨first, back List.mem_cons_self, (congrArg Prod.fst same).symm⟩
        · exact .inr ⟨entry, back (.tail _ old), rfl⟩

theorem alter_returns {map : OrderedMap K V} (searchable : Searchable less map key)
    (change : Option V → V) : ∃ altered, alter less unordered map key change = .ok altered := by
  rw [alter, search, if_pos searchable, ok_bind]
  cases map.dropWhile fun entry => less entry.1 key with
  | nil => exact ⟨_, rfl⟩
  | cons entry rest =>
    simp only
    split
    · exact ⟨_, rfl⟩
    · exact ⟨_, rfl⟩

/-- What is found is in the map. -/
theorem mem_of_find {map : OrderedMap K V} {v : V}
    (found : find less unordered map key = .ok (some v)) : ∃ entry ∈ map, entry.2 = v := by
  rw [find, search] at found
  split at found
  next =>
    rw [ok_bind] at found
    cases rest : map.dropWhile fun entry => less entry.1 key with
    | nil =>
      rw [rest] at found
      cases found
    | cons entry others =>
      simp only [rest] at found
      refine ⟨entry, (List.dropWhile_sublist _).subset (rest ▸ List.mem_cons_self), ?_⟩
      split at found
      · cases found
      · cases found
        rfl
  next => cases found

/-- An entry of a changed map is an old one or has the new value. -/
theorem mem_of_alter {map : OrderedMap K V} {v : V}
    (returned : alter less unordered map key (fun _ => v) = .ok altered) :
    ∀ entry ∈ altered, entry ∈ map ∨ entry.2 = v := by
  have front {entry : K × V} (member : entry ∈ map.takeWhile fun entry => less entry.1 key) :
      entry ∈ map := (List.takeWhile_sublist _).subset member
  intro entry member
  rw [alter, search] at returned
  split at returned
  next =>
    rw [ok_bind] at returned
    cases rest : map.dropWhile fun entry => less entry.1 key with
    | nil =>
      rw [rest] at returned
      cases returned
      rcases List.mem_append.mp member with old | new
      · exact .inl (front old)
      · exact .inr (congrArg Prod.snd (List.mem_singleton.mp new))
    | cons first others =>
      have back {entry : K × V} (member : entry ∈ first :: others) : entry ∈ map :=
        (List.dropWhile_sublist _).subset (rest ▸ member)
      simp only [rest] at returned
      split at returned
      · cases returned
        rcases List.mem_append.mp member with old | new
        · exact .inl (front old)
        · rcases List.mem_cons.mp new with same | old
          · exact .inr (congrArg Prod.snd same)
          · exact .inl (back old)
      · cases returned
        rcases List.mem_append.mp member with old | new
        · exact .inl (front old)
        · rcases List.mem_cons.mp new with same | old
          · exact .inr (congrArg Prod.snd same)
          · exact .inl (back (.tail _ old))
  next => cases returned

theorem mem_of_erase {map erased : OrderedMap K V}
    (returned : erase less unordered map key = .ok erased) : ∀ entry ∈ erased, entry ∈ map := by
  intro entry member
  rw [erase, search] at returned
  split at returned
  next =>
    rw [ok_bind] at returned
    cases rest : map.dropWhile fun entry => less entry.1 key with
    | nil =>
      rw [rest] at returned
      cases returned
      exact member
    | cons first others =>
      simp only [rest] at returned
      split at returned
      · cases returned
        exact member
      · cases returned
        rcases List.mem_append.mp member with front | back
        · exact (List.takeWhile_sublist _).subset front
        · have behind : entry ∈ first :: others := .tail _ back
          exact (List.dropWhile_sublist _).subset (rest ▸ behind)
  next => cases returned

theorem erase_returns {map : OrderedMap K V} (searchable : Searchable less map key) :
    ∃ erased, erase less unordered map key = .ok erased := by
  rw [erase, search, if_pos searchable, ok_bind]
  cases map.dropWhile fun entry => less entry.1 key with
  | nil => exact ⟨_, rfl⟩
  | cons entry rest =>
    simp only
    split
    · exact ⟨_, rfl⟩
    · exact ⟨_, rfl⟩

/-- A map can be searched for a key that was changed. -/
theorem searchable_alter {map : OrderedMap K V} {change : Option V → V}
    (irreflexive : less key key = false)
    (returned : alter less unordered map key change = .ok altered) :
    Searchable less altered key := by
  have front : ∀ entry ∈ map.takeWhile fun entry => less entry.1 key, less entry.1 key = true := by
    intro entry member
    exact List.mem_takeWhile_imp (p := fun entry : K × V => less entry.1 key) member
  -- the part in front is before the key, and the first entry behind it is not
  have of_split {behind : OrderedMap K V}
      (not_before : ∀ entry ∈ behind, less entry.1 key = false) :
      Searchable less ((map.takeWhile fun entry => less entry.1 key) ++ behind) key := by
    intro entry member
    rw [List.dropWhile_append_of_pos front] at member
    exact not_before entry ((List.dropWhile_sublist _).subset member)
  rw [alter, search] at returned
  split at returned
  next searchable =>
    rw [ok_bind] at returned
    cases rest : map.dropWhile fun entry => less entry.1 key with
    | nil =>
      rw [rest] at returned
      cases returned
      refine of_split fun entry member => ?_
      rw [List.mem_singleton.mp member]
      exact irreflexive
    | cons first others =>
      have old (entry : K × V) (member : entry ∈ first :: others) : less entry.1 key = false :=
        searchable entry (rest ▸ member)
      simp only [rest] at returned
      split at returned
      · cases returned
        refine of_split fun entry member => ?_
        rcases List.mem_cons.mp member with rfl | later
        · exact irreflexive
        · exact old entry later
      · cases returned
        refine of_split fun entry member => ?_
        rcases List.mem_cons.mp member with rfl | later
        · exact old first List.mem_cons_self
        · exact old entry (.tail _ later)
  next => cases returned

/-! ### Bounds -/

/-- The index of the first entry whose key is not before a key. -/
def lowerBound (map : OrderedMap K V) (key : K) : Except ε Nat :=
  if Searchable less map key then .ok (map.takeWhile fun entry => less entry.1 key).length
  else .error unordered

/-- The keys behind a key stand last. -/
def UpperSearchable (map : OrderedMap K V) (key : K) : Prop :=
  ∀ entry ∈ map.dropWhile fun entry => !less key entry.1, less key entry.1 = true

instance (map : OrderedMap K V) (key : K) : Decidable (UpperSearchable less map key) :=
  inferInstanceAs (Decidable (∀ entry ∈ map.dropWhile fun entry => !less key entry.1,
    less key entry.1 = true))

/-- The index of the first entry whose key is behind a key. -/
def upperBound (map : OrderedMap K V) (key : K) : Except ε Nat :=
  if UpperSearchable less map key then .ok (map.takeWhile fun entry => !less key entry.1).length
  else .error unordered

/-! ### Maps by numbers -/

variable {I : Type u} [LinearOrder I] (keyOf : I → K) {less}

/-- The map with the keys of the numbers. -/
def keyed (entries : List (I × V)) : OrderedMap K V :=
  entries.map fun entry => (keyOf entry.1, entry.2)

theorem keyed_cons {K V I : Type u} (keyOf : I → K) (e : I × V) (entries : List (I × V)) :
    keyed keyOf (e :: entries) = (keyOf e.1, e.2) :: keyed keyOf entries := rfl

/-- Numbers in ascending order. -/
def Sorted (entries : List (I × V)) : Prop := entries.Pairwise fun a b => a.1 < b.1

/-- The keys of two numbers compare as the numbers do. -/
def Compares (less : K → K → Bool) (a b : I) : Prop :=
  less (keyOf a) (keyOf b) = decide (a < b) ∧ less (keyOf b) (keyOf a) = decide (b < a)

/-- The entry of a number is changed, and made if it is not there. -/
def alterAt (b : I) (change : Option V → V) : List (I × V) → List (I × V)
  | [] => [(b, change none)]
  | (a, v) :: rest =>
    if a < b then (a, v) :: alterAt b change rest
    else if b < a then (b, change none) :: (a, v) :: rest
    else (a, change (some v)) :: rest

variable {keyOf} {entries : List (I × V)} {b : I} {change : Option V → V}

theorem sorted_cons {e : I × V} :
    Sorted (e :: entries) ↔ (∀ f ∈ entries, e.1 < f.1) ∧ Sorted entries :=
  List.pairwise_cons

/-- Behind the first entry that is not before the number there is none that is. -/
theorem not_before (sorted : Sorted entries) {e : I × V}
    (member : e ∈ entries.dropWhile fun e => decide (e.1 < b)) : ¬ e.1 < b := by
  induction entries with
  | nil => cases member
  | cons first rest ih =>
    obtain ⟨above, sorted⟩ := sorted_cons.mp sorted
    rw [List.dropWhile_cons] at member
    split at member
    · exact ih sorted member
    next stays =>
      have stays : ¬ first.1 < b := by simpa using stays
      rcases List.mem_cons.mp member with rfl | later
      · exact stays
      · exact fun before => stays (lt_trans (above e later) before)

theorem takeWhile_keyed (compares : ∀ e ∈ entries, Compares keyOf less e.1 b) :
    (keyed keyOf entries).takeWhile (fun e => less e.1 (keyOf b)) =
      keyed keyOf (entries.takeWhile fun e => decide (e.1 < b)) := by
  induction entries with
  | nil => rfl
  | cons e rest ih =>
    rw [keyed, List.map_cons, ← keyed, List.takeWhile_cons, List.takeWhile_cons,
      (compares e List.mem_cons_self).1]
    split
    · rw [ih fun f member => compares f (.tail _ member)]
      rfl
    · rfl

theorem dropWhile_keyed (compares : ∀ e ∈ entries, Compares keyOf less e.1 b) :
    (keyed keyOf entries).dropWhile (fun e => less e.1 (keyOf b)) =
      keyed keyOf (entries.dropWhile fun e => decide (e.1 < b)) := by
  induction entries with
  | nil => rfl
  | cons e rest ih =>
    rw [keyed, List.map_cons, ← keyed, List.dropWhile_cons, List.dropWhile_cons,
      (compares e List.mem_cons_self).1]
    split
    · exact ih fun f member => compares f (.tail _ member)
    · rfl

theorem search_ok (sorted : Sorted entries) (compares : ∀ e ∈ entries, Compares keyOf less e.1 b) :
    search less unordered (keyed keyOf entries) (keyOf b) =
      .ok (keyed keyOf (entries.dropWhile fun e => decide (e.1 < b))) := by
  rw [search, if_pos, dropWhile_keyed compares]
  intro entry member
  rw [dropWhile_keyed compares, keyed, List.mem_map] at member
  obtain ⟨e, member, rfl⟩ := member
  rw [(compares e ((List.dropWhile_sublist _).subset member)).1, decide_eq_false_iff_not]
  exact not_before sorted member

/-- The value of a number, if it is there. -/
def lookup (b : I) (entries : List (I × V)) : Option V :=
  (entries.find? fun e => decide (e.1 = b)).map (·.2)

theorem find_ok (sorted : Sorted entries) (compares : ∀ e ∈ entries, Compares keyOf less e.1 b) :
    find less unordered (keyed keyOf entries) (keyOf b) = .ok (lookup b entries) := by
  rw [find, search_ok unordered sorted compares, ok_bind]
  induction entries with
  | nil => rfl
  | cons e rest ih =>
    obtain ⟨above, later⟩ := sorted_cons.mp sorted
    obtain ⟨before, after⟩ := compares e List.mem_cons_self
    rw [List.dropWhile_cons]
    rcases lt_trichotomy e.1 b with lt | eq | gt
    · rw [if_pos (decide_eq_true lt), ih later fun f member => compares f (.tail _ member), lookup,
        lookup, List.find?_cons_of_neg (by simpa using lt.ne)]
    · rw [if_neg (by simp [eq])]
      have equal : less (keyOf b) (keyOf e.1) = false := by simpa [eq] using after
      simp only [keyed, List.map_cons, equal, Bool.false_eq_true, if_false, lookup]
      rw [List.find?_cons_of_pos (by simpa using eq)]
      rfl
    · have absent : rest.find? (fun f => decide (f.1 = b)) = none := by
        rw [List.find?_eq_none]
        intro f member
        simpa using (lt_trans gt (above f member)).ne'
      rw [if_neg (by simpa using le_of_lt gt)]
      simp only [keyed, List.map_cons, after, gt, decide_true, if_true, lookup]
      rw [List.find?_cons_of_neg (by simpa using gt.ne'), absent]
      rfl

/-- The entries before the number stay, and so do those behind it. -/
theorem alterAt_eq : alterAt b change entries =
    (entries.takeWhile fun e => decide (e.1 < b)) ++
      match entries.dropWhile fun e => decide (e.1 < b) with
      | [] => [(b, change none)]
      | e :: rest =>
        if b < e.1 then (b, change none) :: e :: rest else (e.1, change (some e.2)) :: rest := by
  induction entries with
  | nil => rfl
  | cons e rest ih =>
    rw [alterAt, List.takeWhile_cons, List.dropWhile_cons]
    by_cases before : e.1 < b
    · simp only [before, decide_true, if_true, ih, List.cons_append]
    · simp only [before, decide_false, Bool.false_eq_true, if_false, List.nil_append]

theorem alter_ok (sorted : Sorted entries) (compares : ∀ e ∈ entries, Compares keyOf less e.1 b) :
    alter less unordered (keyed keyOf entries) (keyOf b) change =
      .ok (keyed keyOf (alterAt b change entries)) := by
  rw [alter, search_ok unordered sorted compares, ok_bind, takeWhile_keyed compares, alterAt_eq]
  cases found : entries.dropWhile fun e => decide (e.1 < b) with
  | nil => simp [keyed]; rfl
  | cons e rest =>
    have member : e ∈ entries :=
      (List.dropWhile_sublist _).subset (found ▸ List.mem_cons_self)
    have stays : ¬ e.1 < b := not_before sorted (found ▸ List.mem_cons_self)
    simp only [keyed, List.map_cons, (compares e member).2]
    by_cases after : b < e.1
    · simp [after]; rfl
    · have same : e.1 = b := le_antisymm (not_lt.mp after) (not_lt.mp stays)
      simp [same]; rfl

theorem erase_ok (sorted : Sorted entries) (compares : ∀ e ∈ entries, Compares keyOf less e.1 b) :
    erase less unordered (keyed keyOf entries) (keyOf b) =
      .ok (keyed keyOf (entries.filter fun e => decide (e.1 ≠ b))) := by
  rw [erase, search_ok unordered sorted compares, ok_bind, takeWhile_keyed compares]
  have split := List.takeWhile_append_dropWhile (p := fun e : I × V => decide (e.1 < b))
    (l := entries)
  have front : (entries.takeWhile fun e => decide (e.1 < b)).filter (fun e => decide (e.1 ≠ b)) =
      entries.takeWhile fun e => decide (e.1 < b) := by
    rw [List.filter_eq_self]
    intro e member
    have before : e.1 < b := by simpa using List.mem_takeWhile_imp member
    simpa using before.ne
  cases found : entries.dropWhile fun e => decide (e.1 < b) with
  | nil =>
    rw [found, List.append_nil] at split
    rw [split] at front
    simp only [keyed, List.map_nil, front]
    rfl
  | cons e rest =>
    have ordered : Sorted (e :: rest) :=
      List.Pairwise.sublist (found ▸ List.dropWhile_sublist _) sorted
    have member : e ∈ entries :=
      (List.dropWhile_sublist _).subset (found ▸ List.mem_cons_self)
    have stays : ¬ e.1 < b := not_before sorted (found ▸ List.mem_cons_self)
    have behind : rest.filter (fun e => decide (e.1 ≠ b)) = rest := by
      rw [List.filter_eq_self]
      intro f later
      have above := lt_of_le_of_lt (not_lt.mp stays) ((sorted_cons.mp ordered).1 f later)
      simpa using above.ne'
    have filtered : entries.filter (fun e => decide (e.1 ≠ b)) =
        (entries.takeWhile fun e => decide (e.1 < b)) ++ if e.1 ≠ b then e :: rest else rest := by
      conv_lhs => rw [← split, List.filter_append, front, found, List.filter_cons, behind]
      simp
    rw [filtered]
    simp only [keyed, List.map_cons, (compares e member).2]
    by_cases after : b < e.1
    · rw [found] at split
      simp only [after, decide_true, if_true, after.ne', ne_eq, not_false_eq_true, split]
      rfl
    · have same : e.1 = b := le_antisymm (not_lt.mp after) (not_lt.mp stays)
      simp [same]
      rfl

/-! ### Changed entries -/

theorem lookup_cons {e : I × V} :
    lookup b (e :: entries) = if e.1 = b then some e.2 else lookup b entries := by
  rw [lookup, List.find?_cons]
  by_cases same : e.1 = b
  · simp [same]
  · simp [same, lookup]

theorem lookup_eq_none : lookup b entries = none ↔ ∀ e ∈ entries, e.1 ≠ b := by
  simp [lookup]

theorem lookup_eq_some (sorted : Sorted entries) {v : V} :
    lookup b entries = some v ↔ (b, v) ∈ entries := by
  induction entries with
  | nil => simp [lookup]
  | cons e rest ih =>
    obtain ⟨above, later⟩ := sorted_cons.mp sorted
    rw [lookup_cons, List.mem_cons]
    split
    next same =>
      subst same
      constructor
      · intro found
        exact .inl (by rw [← Option.some.inj found])
      · rintro (same | member)
        · rw [← same]
        · exact absurd (above _ member) (lt_irrefl _)
    next other =>
      rw [ih later]
      constructor
      · exact .inr
      · rintro (rfl | member)
        · exact absurd rfl other
        · exact member

theorem mem_alterAt (sorted : Sorted entries) {e : I × V} :
    e ∈ alterAt b change entries ↔
      (e.1 ≠ b ∧ e ∈ entries) ∨ e = (b, change (lookup b entries)) := by
  induction entries with
  | nil => simp [alterAt, lookup]
  | cons first rest ih =>
    obtain ⟨above, later⟩ := sorted_cons.mp sorted
    obtain ⟨a, v⟩ := first
    rw [alterAt, lookup_cons]
    split
    next before =>
      rw [if_neg before.ne, List.mem_cons, ih later, List.mem_cons]
      constructor
      · rintro (rfl | ⟨other, member⟩ | same)
        · exact .inl ⟨before.ne, .inl rfl⟩
        · exact .inl ⟨other, .inr member⟩
        · exact .inr same
      · rintro (⟨other, same | member⟩ | same)
        · exact .inl same
        · exact .inr (.inl ⟨other, member⟩)
        · exact .inr (.inr same)
    next notBefore =>
      split
      next after =>
        have others (f : I × V) (member : f ∈ (a, v) :: rest) : f.1 ≠ b := by
          rcases List.mem_cons.mp member with rfl | behind
          · exact after.ne'
          · exact (lt_trans after (above f behind)).ne'
        have absent : lookup b rest = none :=
          lookup_eq_none.mpr fun f member => others f (.tail _ member)
        rw [if_neg after.ne', absent, List.mem_cons]
        constructor
        · rintro (same | member)
          · exact .inr same
          · exact .inl ⟨others e member, member⟩
        · rintro (⟨_, member⟩ | same)
          · exact .inr member
          · exact .inl same
      next notAfter =>
        obtain rfl : a = b := le_antisymm (not_lt.mp notAfter) (not_lt.mp notBefore)
        rw [if_pos rfl, List.mem_cons, List.mem_cons]
        constructor
        · rintro (same | member)
          · exact .inr same
          · exact .inl ⟨(above e member).ne', .inr member⟩
        · rintro (⟨other, same | member⟩ | same)
          · exact absurd (congrArg Prod.fst same) other
          · exact .inr member
          · exact .inl same

theorem sorted_alterAt (sorted : Sorted entries) : Sorted (alterAt b change entries) := by
  induction entries with
  | nil => exact List.pairwise_singleton _ _
  | cons first rest ih =>
    obtain ⟨above, later⟩ := sorted_cons.mp sorted
    obtain ⟨a, v⟩ := first
    rw [alterAt]
    split
    next before =>
      refine sorted_cons.mpr ⟨fun e member => ?_, ih later⟩
      rcases (mem_alterAt later).mp member with ⟨_, old⟩ | rfl
      · exact above e old
      · exact before
    next notBefore =>
      split
      next after =>
        refine sorted_cons.mpr ⟨fun e member => ?_, sorted⟩
        rcases List.mem_cons.mp member with rfl | behind
        · exact after
        · exact lt_trans after (above e behind)
      next => exact sorted_cons.mpr ⟨above, later⟩

theorem lookup_alterAt (sorted : Sorted entries) {a : I} :
    lookup a (alterAt b change entries) =
      if a = b then some (change (lookup b entries)) else lookup a entries := by
  ext v
  rw [lookup_eq_some (sorted_alterAt sorted), mem_alterAt sorted, Prod.mk.injEq]
  split
  next same =>
    rw [Option.some_inj]
    exact ⟨fun member => member.elim (fun differ => absurd same differ.1) fun new => new.2.symm,
      fun value => .inr ⟨same, value.symm⟩⟩
  next differ =>
    rw [lookup_eq_some sorted]
    exact ⟨fun member => member.elim And.right fun new => absurd new.1 differ,
      fun member => .inl ⟨differ, member⟩⟩

/-- A number behind all others is put at the end. -/
theorem alterAt_append (behind : ∀ e ∈ entries, e.1 < b) :
    alterAt b change entries = entries ++ [(b, change none)] := by
  induction entries with
  | nil => rfl
  | cons first rest ih =>
    obtain ⟨a, v⟩ := first
    rw [alterAt, if_pos (behind _ List.mem_cons_self), ih fun e member => behind e (.tail _ member)]
    rfl

/-- Only the size of the changed value changes. -/
theorem sum_alterAt (sorted : Sorted entries) (size : V → Nat) :
    ((alterAt b change entries).map fun e => size e.2).sum + (lookup b entries).elim 0 size =
      (entries.map fun e => size e.2).sum + size (change (lookup b entries)) := by
  induction entries with
  | nil => simp [alterAt, lookup]
  | cons first rest ih =>
    obtain ⟨above, later⟩ := sorted_cons.mp sorted
    obtain ⟨a, v⟩ := first
    have ih := ih later
    rw [alterAt, lookup_cons]
    split
    next before =>
      rw [if_neg before.ne]
      simp only [List.map_cons, List.sum_cons]
      omega
    next notBefore =>
      split
      next after =>
        have absent : lookup b rest = none :=
          lookup_eq_none.mpr fun f member => (lt_trans after (above f member)).ne'
        rw [if_neg after.ne', absent]
        simp only [List.map_cons, List.sum_cons, Option.elim_none]
        omega
      next notAfter =>
        rw [if_pos (le_antisymm (not_lt.mp notAfter) (not_lt.mp notBefore))]
        simp only [List.map_cons, List.sum_cons, Option.elim_some]
        omega

theorem Sorted.filter (sorted : Sorted entries) (keeps : I × V → Bool) :
    Sorted (entries.filter keeps) :=
  List.Pairwise.sublist List.filter_sublist sorted

end OrderedMap

end Inet.Lib
