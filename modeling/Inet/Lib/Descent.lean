import Mathlib.Data.List.Chain
import Mathlib.Order.Preorder.Finite
import Mathlib.Data.Fintype.Card
import Mathlib.Combinatorics.SimpleGraph.Acyclic

/-!
# Walks that come nearer with every step

Nodes of a finite set that all have a next one nearer to a goal lead to it without a repetition.
-/
namespace Inet.Lib

universe u v

variable {V : Type u} {D : Type v} [Preorder D] [Finite V] {next : V → V → Prop}
  {inside : V → Prop} {goal : V}

theorem exists_walk {dist : V → D}
    (step : ∀ v, inside v → v ≠ goal → ∃ w, next v w ∧ inside w ∧ dist w < dist v)
    {start : V} (holds : inside start) :
    ∃ path : List V, path.head? = some start ∧ path.getLast? = some goal ∧ path.Nodup ∧
      path.IsChain next ∧ ∀ v ∈ path, inside v ∧ dist v ≤ dist start := by
  have founded : WellFounded fun v w => dist v < dist w :=
    @Finite.wellFounded_of_trans_of_irrefl V _ _ ⟨fun _ _ _ => lt_trans⟩ ⟨fun _ => lt_irrefl _⟩
  induction start using founded.induction with
  | h v ih =>
    by_cases arrived : v = goal
    · refine ⟨[v], rfl, congrArg some arrived, List.nodup_singleton v, List.isChain_singleton v,
        fun w member => ?_⟩
      rw [List.mem_singleton.mp member]
      exact ⟨holds, le_rfl⟩
    · obtain ⟨w, hop, holds', nearer⟩ := step v holds arrived
      obtain ⟨path, head, last, nodup, chain, all⟩ := ih w nearer holds'
      have fresh : v ∉ path := fun again => lt_irrefl _ ((all v again).2.trans_lt nearer)
      refine ⟨v :: path, rfl, ?_, List.nodup_cons.mpr ⟨fresh, nodup⟩, ?_, fun x member => ?_⟩
      · rw [List.getLast?_cons, last]
        rfl
      · refine List.isChain_cons.mpr ⟨fun x first => ?_, chain⟩
        rw [head] at first
        exact Option.some_inj.mp first ▸ hop
      · rcases List.mem_cons.mp member with rfl | member
        · exact ⟨holds, le_rfl⟩
        · exact ⟨(all x member).1, (all x member).2.trans nearer.le⟩

end Inet.Lib

/-!
## Trees of parents

Nodes that have a parent nearer to a root, except for the root itself, form a tree.
-/
namespace Inet.Lib

universe u

variable {V : Type u} {root : V} {parent : V → V} {depth : V → ℕ}

/-- The links from the nodes other than the root to their parents. -/
def parentGraph (root : V) (parent : V → V) : SimpleGraph V :=
  SimpleGraph.fromRel fun v w => v ≠ root ∧ w = parent v

theorem parentGraph_adj (nearer : ∀ v, v ≠ root → depth (parent v) < depth v) {v : V}
    (apart : v ≠ root) : (parentGraph root parent).Adj v (parent v) := by
  refine (SimpleGraph.fromRel_adj _ _ _).mpr ⟨fun same => ?_, .inl ⟨apart, rfl⟩⟩
  have less := nearer v apart
  rw [← same] at less
  exact less.false

theorem parentGraph_reachable (nearer : ∀ v, v ≠ root → depth (parent v) < depth v) (v : V) :
    (parentGraph root parent).Reachable v root := by
  induction bound : depth v using Nat.strong_induction_on generalizing v with
  | h n ih =>
    by_cases apart : v = root
    · rw [apart]
    · exact (parentGraph_adj nearer apart).reachable.trans
        (ih _ (bound ▸ nearer v apart) (parent v) rfl)

/-- There is one link for each node other than the root. -/
theorem parentGraph_isTree [Finite V] (depth : V → ℕ)
    (nearer : ∀ v, v ≠ root → depth (parent v) < depth v) :
    (parentGraph root parent).IsTree := by
  have connected : (parentGraph root parent).Connected :=
    { preconnected := fun v w =>
        (parentGraph_reachable nearer v).trans (parentGraph_reachable nearer w).symm
      nonempty := ⟨root⟩ }
  let link (v : { v // v ≠ root }) : (parentGraph root parent).edgeSet :=
    ⟨s(v.1, parent v.1), parentGraph_adj nearer v.2⟩
  have injective : Function.Injective link := by
    rintro ⟨v, apartV⟩ ⟨w, apartW⟩ same
    rcases Sym2.eq_iff.mp (congrArg Subtype.val same) with ⟨equal, _⟩ | ⟨down, up⟩
    · exact Subtype.ext equal
    · have first := nearer v apartV
      have second := nearer w apartW
      simp only at down up
      rw [up] at first
      rw [← down] at second
      omega
  have surjective : Function.Surjective link := by
    rintro ⟨edge, member⟩
    induction edge with
    | h v w =>
      have adjacent : (parentGraph root parent).Adj v w := member
      rcases ((SimpleGraph.fromRel_adj _ v w).mp adjacent).2 with ⟨apart, rfl⟩ | ⟨apart, rfl⟩
      · exact ⟨⟨v, apart⟩, rfl⟩
      · exact ⟨⟨w, apart⟩, Subtype.ext Sym2.eq_swap⟩
  refine SimpleGraph.isTree_iff_connected_and_card.mpr ⟨connected, ?_⟩
  rw [← Nat.card_congr (Equiv.ofBijective link ⟨injective, surjective⟩)]
  have := Fintype.ofFinite V
  classical
  rw [Nat.card_eq_fintype_card, Nat.card_eq_fintype_card, Fintype.card_subtype_compl,
    Fintype.card_subtype_eq]
  have positive := Fintype.card_pos_iff.mpr ⟨root⟩
  omega

end Inet.Lib
