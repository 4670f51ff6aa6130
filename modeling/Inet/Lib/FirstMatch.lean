import Mathlib.Data.List.Forall2
import Mathlib.Data.List.MinMax
import Mathlib.Data.Option.Basic

/-!
# First matches in lists

In a list that is sorted by a value the first element that matches is one of the greatest among
those that do.
-/
namespace Inet.Lib

universe u v w

variable {α : Type u} {β : Type v} {γ : Type w} {p : α → Bool}
variable {l back front : List α} {a : α} {R : α → β → Prop} {l' : List β} {n : Nat}
  {q : Fin n → Bool}

/-! ### Places in lists -/

theorem modify_middle (front back : List α) (a : α) (f : α → α) :
    (front ++ a :: back).modify front.length f = front ++ f a :: back := by
  induction front with
  | nil => rfl
  | cons first front ih =>
    rw [List.length_cons, List.cons_append, List.modify_succ_cons, ih, List.cons_append]

theorem eraseIdx_middle (front back : List α) (a : α) :
    (front ++ a :: back).eraseIdx front.length = front ++ back := by
  rw [List.eraseIdx_append_of_length_le le_rfl, Nat.sub_self, List.eraseIdx_cons_zero]

theorem getElem?_at_middle (front back : List α) (a : α) :
    (front ++ a :: back)[front.length]? = some a := by
  rw [List.getElem?_append_right le_rfl, Nat.sub_self]
  rfl

theorem exists_middle {i : Nat} (found : l[i]? = some a) :
    ∃ front back, l = front ++ a :: back ∧ front.length = i := by
  obtain ⟨inside, rfl⟩ := List.getElem?_eq_some_iff.mp found
  refine ⟨l.take i, l.drop (i + 1), ?_, List.length_take_of_le inside.le⟩
  rw [List.getElem_cons_drop, List.take_append_drop]

/-! ### First matches -/

theorem exists_first {i : Nat} (found : l.findIdx? p = some i) :
    ∃ front a back, l = front ++ a :: back ∧ front.length = i ∧ p a = true ∧
      ∀ b ∈ front, p b = false := by
  obtain ⟨inside, holds, before⟩ := List.findIdx?_eq_some_iff_getElem.mp found
  refine ⟨l.take i, l[i], l.drop (i + 1), ?_, List.length_take_of_le inside.le, holds,
    fun b member => ?_⟩
  · rw [List.getElem_cons_drop, List.take_append_drop]
  · obtain ⟨j, small, rfl⟩ := List.mem_take_iff_getElem.mp member
    exact Bool.not_eq_true _ ▸ before j (by omega)

theorem find?_middle (holds : p a = true)
    (before : ∀ b ∈ front, p b = false) : (front ++ a :: back).find? p = some a :=
  List.find?_eq_some_iff_append.mpr
    ⟨holds, front, back, rfl, fun b member => by rw [before b member]; rfl⟩

theorem find?_skip (fails : p a = false) :
    (front ++ a :: back).find? p = (front ++ back).find? p := by
  rw [List.find?_append, List.find?_append, List.find?_cons_of_neg (by rw [fails]; decide)]

/-- The first of some numbers. -/
theorem find?_finRange_eq_some {i : Fin n} :
    (List.finRange n).find? q = some i ↔ q i = true ∧ ∀ j < i, q j = false := by
  rw [List.find?_eq_some_iff_getElem]
  refine and_congr_right fun _ => ⟨?_, fun before => ?_⟩
  · rintro ⟨k, inside, rfl, before⟩ j less
    rw [List.getElem_finRange] at less
    simpa using before j less
  · refine ⟨i, by rw [List.length_finRange]; exact i.isLt, by simp, fun j less => ?_⟩
    rw [List.getElem_finRange, before _ less]
    rfl

theorem find?_finRange_eq_none :
    (List.finRange n).find? q = none ↔ ∀ i, q i = false := by
  rw [List.find?_eq_none]
  exact ⟨fun fails i => Bool.not_eq_true _ ▸ fails i (List.mem_finRange i),
    fun fails i _ => Bool.not_eq_true _ ▸ fails i⟩

theorem exists_first_finRange (some : ∃ i, q i = true) :
    ∃ i, q i = true ∧ ∀ j < i, q j = false := by
  obtain ⟨i, holds⟩ := some
  cases found : (List.finRange n).find? q with
  | none => exact absurd holds (Bool.eq_false_iff.mp (find?_finRange_eq_none.mp found i))
  | some i => exact ⟨i, find?_finRange_eq_some.mp found⟩

theorem findSome?_eq_bind {f : α → Option β} :
    l.findSome? f = (l.find? fun a => (f a).isSome).bind f := by
  induction l with
  | nil => rfl
  | cons a l ih =>
    rw [List.findSome?_cons, List.find?_cons]
    cases found : f a with
    | none => exact ih
    | some b => exact found.symm

/-- Another element than one is found without it, too. -/
theorem find?_without {b : α} (found : (front ++ a :: back).find? p = some b) :
    b = a ∨ (front ++ back).find? p = some b := by
  cases holds : p a with
  | false =>
    rw [find?_skip holds] at found
    exact .inr found
  | true =>
    rw [List.find?_append, List.find?_cons_of_pos holds] at found
    rw [List.find?_append]
    cases first : front.find? p with
    | none =>
      rw [first] at found
      exact .inl (Option.some_inj.mp found).symm
    | some c =>
      rw [first] at found
      exact .inr found

theorem forall₂_append_left {first second : List α} {l : List β}
    (related : List.Forall₂ R (first ++ second) l) :
    ∃ first' second', l = first' ++ second' ∧ List.Forall₂ R first first' ∧
      List.Forall₂ R second second' := by
  induction first generalizing l with
  | nil => exact ⟨[], l, rfl, .nil, related⟩
  | cons a first ih =>
    obtain ⟨b, rest, here, others, rfl⟩ := List.forall₂_cons_left_iff.mp related
    obtain ⟨first', second', rfl, left, right⟩ := ih others
    exact ⟨b :: first', second', rfl, .cons here left, right⟩

theorem exists_related (related : List.Forall₂ R l l')
    {b : β} (member : b ∈ l') : ∃ a ∈ l, R a b := by
  induction related with
  | nil => cases member
  | @cons a b' l l' here _ ih =>
    rcases List.mem_cons.mp member with rfl | member
    · exact ⟨a, List.mem_cons_self, here⟩
    · obtain ⟨c, inside, related⟩ := ih member
      exact ⟨c, List.mem_cons_of_mem _ inside, related⟩

theorem findIdx?_isSome_of_find? (found : l.find? p = some a) :
    ∃ i, l.findIdx? p = some i := by
  rw [← Option.isSome_iff_exists, List.findIdx?_isSome, List.any_eq_true]
  exact ⟨a, List.mem_of_find?_eq_some found, List.find?_some found⟩

/-- Related lists have related first matches. -/
theorem find?_rel {q : β → Bool} (same : ∀ a b, R a b → p a = q b) (related : List.Forall₂ R l l') :
    Option.Rel R (l.find? p) (l'.find? q) := by
  induction related with
  | nil => exact .none
  | @cons a b l l' first _ ih =>
    cases holds : p a with
    | true =>
      rw [List.find?_cons_of_pos holds, List.find?_cons_of_pos (same a b first ▸ holds)]
      exact .some first
    | false =>
      rw [List.find?_cons_of_neg (by rw [holds]; decide),
        List.find?_cons_of_neg (by rw [← same a b first, holds]; decide)]
      exact ih

theorem rel_mono {S : α → β → Prop} (weaker : ∀ a b, R a b → S a b) {a : Option α}
    {b : Option β} (related : Option.Rel R a b) : Option.Rel S a b := by
  cases related with
  | none => exact .none
  | some here => exact .some (weaker _ _ here)

theorem find?_eq_bind : l.find? p = (l.findIdx? p).bind (l[·]?) := by
  cases found : l.findIdx? p with
  | none =>
    rw [List.find?_eq_none.mpr fun a member => ?_]
    · rfl
    · rw [List.findIdx?_eq_none_iff.mp found a member]
      decide
  | some i =>
    obtain ⟨front, a, back, rfl, rfl, holds, before⟩ := exists_first found
    rw [find?_middle holds before, Option.bind_some, List.getElem?_append_right le_rfl,
      Nat.sub_self, List.getElem?_cons_zero]

/-- Related lists are in order together. -/
theorem pairwise_related {P : α → α → Prop} {Q : β → β → Prop}
    (keeps : ∀ a b a' b', R a b → R a' b' → P a a' → Q b b')
    (related : List.Forall₂ R l l') (ordered : l.Pairwise P) : l'.Pairwise Q := by
  induction related with
  | nil => exact .nil
  | @cons a b l l' here others ih =>
    obtain ⟨first, rest⟩ := List.pairwise_cons.mp ordered
    refine List.pairwise_cons.mpr ⟨fun b' member => ?_, ih rest⟩
    obtain ⟨a', inside, there⟩ := exists_related others member
    exact keeps a b a' b' here there (first a' inside)

/-! ### Greatest matches -/

/-- The better of what was found before and a new element. -/
def better [LT β] [DecidableLT β] (f : α → β) (found : Option α) (a : α) : Option α :=
  match found with
  | none => some a
  | some c => if f c < f a then some a else some c

variable [LinearOrder β] {f : α → β} {rank : α → γ} [LinearOrder γ]

theorem argmax_filter_concat (l : List α) (a : α) :
    ((l ++ [a]).filter p).argmax f =
      if p a then better f ((l.filter p).argmax f) a else (l.filter p).argmax f := by
  rw [List.filter_append]
  cases holds : p a with
  | true =>
    rw [List.filter_cons_of_pos holds, List.filter_nil, List.argmax_concat, if_pos rfl]
    cases (l.filter p).argmax f <;> rfl
  | false =>
    rw [List.filter_cons_of_neg (by rw [holds]; decide), List.filter_nil, List.append_nil]
    rfl

theorem argmax_filter_eq_find? (sorted : l.Pairwise fun a b => f b ≤ f a) :
    (l.filter p).argmax f = l.find? p := by
  induction l with
  | nil => rfl
  | cons a l ih =>
    rw [List.pairwise_cons] at sorted
    cases holds : p a with
    | false =>
      rw [List.filter_cons_of_neg (by rw [holds]; decide), ih sorted.2,
        List.find?_cons_of_neg (by rw [holds]; decide)]
    | true =>
      rw [List.filter_cons_of_pos holds, List.find?_cons_of_pos holds, List.argmax_cons]
      cases found : (l.filter p).argmax f with
      | none => rfl
      | some c =>
        have inside := List.mem_filter.mp (List.argmax_mem found)
        exact if_neg (not_lt.mpr (sorted.1 c inside.1))

theorem find?_rank_le (sorted : l.Pairwise fun a b => rank a ≤ rank b) {b : α}
    (found : l.find? p = some a) (member : b ∈ l) (holds : p b = true) : rank a ≤ rank b := by
  obtain ⟨_, front, back, rfl, before⟩ := List.find?_eq_some_iff_append.mp found
  rcases List.mem_append.mp member with early | member
  · exact absurd holds (by simpa using before b early)
  · rcases List.mem_cons.mp member with rfl | late
    · exact le_rfl
    · exact (List.pairwise_cons.mp (List.pairwise_append.mp sorted).2.1).1 b late

/-- An element that is inserted behind those of at most its rank, and before the others. -/
theorem find?_insert (below : ∀ b ∈ front, rank b ≤ rank a)
    (beyond : ∀ b ∈ back, rank a < rank b) (holds : p a = true) :
    (front ++ a :: back).find? p =
      match (front ++ back).find? p with
      | none => some a
      | some c => if rank a < rank c then some a else some c := by
  rw [List.find?_append, List.find?_cons_of_pos holds, List.find?_append]
  cases found : front.find? p with
  | some c =>
    have inside := List.mem_of_find?_eq_some found
    exact (if_neg (not_lt.mpr (below c inside))).symm
  | none =>
    rw [Option.none_or, Option.none_or]
    cases later : back.find? p with
    | none => rfl
    | some c => exact (if_pos (beyond c (List.mem_of_find?_eq_some later))).symm

end Inet.Lib
