import Inet.Common.Topology

/-!
# The search finds shortest paths

A node that is taken from the queue has its final distance: those behind it are not nearer to the
target, and the links of nodes that are taken later lead farther away. So no node comes back into
the queue.
-/
namespace Inet.Common.Topology

variable {n : Nat} {I : Type} {topology : Topology n I} {target : Fin n}
variable {dist : Fin n → Weight} {v dest src u : Fin n} {link : Link (Fin n) I} {q : List (Fin n)}

/-! ### Paths -/

/-- A path over links of the topology, with its weight. The nodes in between count, both ends do
not. -/
inductive Path (topology : Topology n I) : Fin n → Fin n → Weight → Prop
  | link {link : Link (Fin n) I} : link ∈ topology.inLinks link.destNode →
      Path topology link.srcNode link.destNode link.weight
  | cons {link : Link (Fin n) I} {v : Fin n} {weight : Weight} :
      link ∈ topology.inLinks link.destNode → Path topology link.destNode v weight →
      Path topology link.srcNode v (link.weight + topology.weight link.destNode + weight)

theorem Path.append {w : Fin n} {near far : Weight} (first : Path topology u v near)
    (second : Path topology v w far) :
    Path topology u w (near + topology.weight v + far) := by
  induction first with
  | link member => exact .cons member second
  | cons member _ ih =>
    have path := Path.cons member (ih second)
    simp only [← add_assoc] at path ⊢
    exact path

/-- Every link has a link back of the same weight. -/
def Symmetric (topology : Topology n I) : Prop :=
  ∀ v, ∀ link ∈ topology.inLinks v, ∃ back ∈ topology.inLinks link.srcNode,
    back.srcNode = v ∧ back.weight = link.weight

theorem Path.reverse (symmetric : topology.Symmetric) {weight : Weight}
    (path : Path topology u v weight) : Path topology v u weight := by
  have back : ∀ link : Link (Fin n) I, link ∈ topology.inLinks link.destNode →
      Path topology link.destNode link.srcNode link.weight := by
    intro link member
    obtain ⟨back, inside, source, weight⟩ := symmetric _ link member
    have ends := topology.ends _ back inside
    rw [← ends] at inside
    have path := Path.link inside
    rwa [ends, source, weight] at path
  induction path with
  | link member => exact back _ member
  | cons member _ ih =>
    have path := ih.append (back _ member)
    rwa [add_comm, add_comm _ (topology.weight _), ← add_assoc] at path

/-! ### What the search has found when it ends -/

/-- Distances of which no link shortens one, each with the link that it comes from. -/
structure Shortest (topology : Topology n I) (target : Fin n) (s : Search n I) : Prop where
  start : s.dist target = 0
  nonneg : ∀ v, 0 ≤ s.dist v
  tight : ∀ v link, s.outPath v = some link → link.srcNode = v ∧
    link ∈ topology.inLinks link.destNode ∧ s.dist v = topology.newdist target s.dist link ∧
    s.dist v ≠ ⊤
  reached : ∀ v, s.dist v ≠ ⊤ → v ≠ target → ∃ link, s.outPath v = some link
  feasible : ∀ v, ∀ link ∈ topology.inLinks v,
    s.dist link.srcNode ≤ topology.newdist target s.dist link

theorem newdist_target (ends : link.destNode = target) :
    topology.newdist target dist link = dist target + link.weight := by
  rw [newdist, if_pos ends, ends]

theorem newdist_apart (apart : link.destNode ≠ target) :
    topology.newdist target dist link =
      dist link.destNode + link.weight + topology.weight link.destNode := if_neg apart

/-- A link and the node at its end only add to the distance. -/
theorem le_newdist (node : 0 ≤ topology.weight link.destNode) :
    dist link.destNode + link.weight ≤ topology.newdist target dist link := by
  unfold newdist
  split
  · exact le_rfl
  · exact le_add_of_nonneg_right node

theorem newdist_le (node : 0 ≤ topology.weight link.destNode) :
    topology.newdist target dist link ≤
      dist link.destNode + link.weight + topology.weight link.destNode := by
  unfold newdist
  split
  · exact le_add_of_nonneg_right node
  · exact le_rfl

theorem dist_ne_top_of_newdist
    (finite : topology.newdist target dist link ≠ ⊤) : dist link.destNode ≠ ⊤ := by
  intro far
  apply finite
  unfold newdist
  split <;> simp only [far, WithTop.top_add]

theorem lt_add_of_positive {near further : Weight} (finite : near ≠ ⊤) (positive : 0 < further) :
    near < near + further := by
  obtain ⟨d, rfl⟩ := WithTop.ne_top_iff_exists.mp finite
  cases further using WithTop.recTopCoe with
  | top => simp only [WithTop.add_top, WithTop.coe_lt_top]
  | coe w =>
    rw [← WithTop.coe_add, WithTop.coe_lt_coe]
    exact lt_add_of_pos_right d (WithTop.coe_pos.mp positive)

theorem lt_newdist (node : 0 ≤ topology.weight link.destNode) (positive : 0 < link.weight)
    (finite : topology.newdist target dist link ≠ ⊤) :
    dist link.destNode < topology.newdist target dist link :=
  (lt_add_of_positive (dist_ne_top_of_newdist finite) positive).trans_le (le_newdist node)

theorem newdist_congr {dist' : Fin n → Weight} (same : dist link.destNode = dist' link.destNode) :
    topology.newdist target dist link = topology.newdist target dist' link := by
  unfold newdist
  rw [same]

/-! ### The queue -/

theorem insertSorted_perm (dist : Fin n → Weight) (src : Fin n) (q : List (Fin n)) :
    (insertSorted dist src q).Perm (src :: q) := by
  induction q with
  | nil => exact .refl _
  | cons v rest ih =>
    unfold insertSorted
    split
    · exact .refl _
    · exact (ih.cons v).trans (.swap src v rest)

theorem mem_insertSorted :
    v ∈ insertSorted dist src q ↔ v = src ∨ v ∈ q := by
  rw [(insertSorted_perm dist src q).mem_iff, List.mem_cons]

theorem insertSorted_sorted (sorted : q.Pairwise (dist · ≤ dist ·)) :
    (insertSorted dist src q).Pairwise (dist · ≤ dist ·) := by
  induction q with
  | nil => exact List.pairwise_singleton _ _
  | cons v rest ih =>
    rw [List.pairwise_cons] at sorted
    unfold insertSorted
    split
    next farther =>
      refine List.pairwise_cons.mpr ⟨fun w member => ?_, List.pairwise_cons.mpr sorted⟩
      rcases List.mem_cons.mp member with rfl | member
      · exact farther.le
      · exact farther.le.trans (sorted.1 w member)
    next nearer =>
      refine List.pairwise_cons.mpr ⟨fun w member => ?_, ih sorted.2⟩
      rcases mem_insertSorted.mp member with rfl | member
      · exact not_lt.mp nearer
      · exact sorted.1 w member

/-! ### The main loop -/

/-- Weights that pass the checks of the search. -/
structure Weighted (topology : Topology n I) : Prop where
  node : ∀ v, 0 ≤ topology.weight v
  link : ∀ v, ∀ link ∈ topology.inLinks v, 0 < link.weight

/-- Some nodes have been taken from the queue, the last one with links that have not been looked
at. -/
structure Partial (topology : Topology n I) (target : Fin n) (done : Finset (Fin n))
    (rest : List (Link (Fin n) I)) (s : Search n I) : Prop where
  nodup : s.q.Nodup
  apart : ∀ v ∈ s.q, v ∉ done
  sorted : s.q.Pairwise (s.dist · ≤ s.dist ·)
  known : ∀ v, s.dist v ≠ ⊤ ↔ v ∈ s.q ∨ v ∈ done
  behind : ∀ u ∈ done, ∀ v ∈ s.q, s.dist u ≤ s.dist v
  start : s.dist target = 0
  nonneg : ∀ v, 0 ≤ s.dist v
  tight : ∀ v link, s.outPath v = some link → link.srcNode = v ∧ link.destNode ∈ done ∧
    link ∈ topology.inLinks link.destNode ∧ s.dist v = topology.newdist target s.dist link ∧
    s.dist v ≠ ⊤
  reached : ∀ v, s.dist v ≠ ⊤ → v ≠ target → ∃ link, s.outPath v = some link
  feasible : ∀ v ∈ done, ∀ link ∈ topology.inLinks v, link ∈ rest ∨
    s.dist link.srcNode ≤ topology.newdist target s.dist link

variable {done : Finset (Fin n)} {rest : List (Link (Fin n) I)} {s : Search n I}

/-- The node that is taken is at least as far as those before it, and all of its links are to be
looked at. -/
theorem Partial.take (holds : Partial topology target done [] s) (queue : s.q = dest :: q) :
    Partial topology target (insert dest done) (topology.inLinks dest) { s with q } ∧
      ∀ u ∈ insert dest done, s.dist u ≤ s.dist dest := by
  have distinct := holds.nodup
  have sorted := holds.sorted
  rw [queue, List.nodup_cons] at distinct
  rw [queue, List.pairwise_cons] at sorted
  refine ⟨⟨distinct.2, fun v member => ?_, sorted.2, fun v => ?_, fun u before v member => ?_,
    holds.start, holds.nonneg, fun v link out => ?_, holds.reached,
    fun v before link member => ?_⟩, fun u before => ?_⟩
  · rw [Finset.mem_insert, not_or]
    refine ⟨fun same => distinct.1 (same ▸ member), holds.apart v ?_⟩
    rw [queue]
    exact List.mem_cons_of_mem _ member
  · rw [holds.known v, queue, List.mem_cons, Finset.mem_insert]
    tauto
  · rcases Finset.mem_insert.mp before with rfl | before
    · exact sorted.1 v member
    · exact holds.behind u before v (queue ▸ List.mem_cons_of_mem _ member)
  · obtain ⟨source, before, others⟩ := holds.tight v link out
    exact ⟨source, Finset.mem_insert_of_mem before, others⟩
  · rcases Finset.mem_insert.mp before with rfl | before
    · exact .inl member
    · exact .inr ((holds.feasible v before link member).resolve_left List.not_mem_nil)
  · rcases Finset.mem_insert.mp before with rfl | before
    · exact le_rfl
    · exact holds.behind u before dest (queue ▸ List.mem_cons_self)

/-! ### One link -/

namespace Search
variable {link : Link (Fin n) I} {newdist : Weight} {v : Fin n}

theorem improve_self : (s.improve link newdist).dist link.srcNode = newdist :=
  Function.update_self _ _ _

theorem improve_other (apart : v ≠ link.srcNode) :
    (s.improve link newdist).dist v = s.dist v := Function.update_of_ne apart _ _

theorem improve_path_self : (s.improve link newdist).outPath link.srcNode = some link :=
  Function.update_self _ _ _

theorem improve_path_other (apart : v ≠ link.srcNode) :
    (s.improve link newdist).outPath v = s.outPath v := Function.update_of_ne apart _ _

theorem mem_improve :
    v ∈ (s.improve link newdist).q ↔ v = link.srcNode ∨ v ∈ s.remove link.srcNode :=
  mem_insertSorted

theorem remove_sublist (src : Fin n) : (s.remove src).Sublist s.q := by
  unfold remove
  split
  · exact List.filter_sublist
  · exact .refl _

end Search

theorem Partial.mem_remove (holds : Partial topology target done rest s) (v : Fin n) :
    v ∈ s.remove src ↔ v ∈ s.q ∧ v ≠ src := by
  unfold Search.remove
  split
  next known => simp only [List.mem_filter, decide_eq_true_eq]
  next unknown =>
    have absent : src ∉ s.q := fun member => unknown ((holds.known src).mpr (.inl member))
    exact ⟨fun member => ⟨member, fun same => absent (same ▸ member)⟩, And.left⟩

section
variable {link : Link (Fin n) I} (weighted : topology.Weighted)
  (holds : Partial topology target done (link :: rest) s)
  (member : link ∈ topology.inLinks link.destNode) (before : link.destNode ∈ done)
  (last : ∀ u ∈ done, s.dist u ≤ s.dist link.destNode)
  (finite : topology.newdist target s.dist link ≠ ⊤)
  (shorter : s.dist link.srcNode > topology.newdist target s.dist link)

include weighted member last finite shorter in
/-- Its path is shortened, so it is farther than all that have been taken. -/
theorem Partial.source_fresh : link.srcNode ∉ done := fun old =>
  have farther := lt_newdist (weighted.node _) (weighted.link _ link member) finite
  absurd ((last _ old).trans_lt farther) (not_lt.mpr shorter.le)

include weighted holds member finite shorter in
theorem Partial.source_apart : link.srcNode ≠ target := fun same => by
  have farther := lt_newdist (weighted.node _) (weighted.link _ link member) finite
  have zero := holds.start
  rw [← same] at zero
  rw [zero] at shorter
  exact absurd ((holds.nonneg _).trans_lt farther) (not_lt.mpr shorter.le)

include holds in
theorem Partial.improve_sorted :
    (s.improve link (topology.newdist target s.dist link)).q.Pairwise
      ((s.improve link (topology.newdist target s.dist link)).dist · ≤
        (s.improve link (topology.newdist target s.dist link)).dist ·) := by
  refine insertSorted_sorted ((holds.sorted.sublist (Search.remove_sublist _)).imp_of_mem ?_)
  intro v w left right le
  rw [Search.improve_other ((holds.mem_remove v).mp left).2,
    Search.improve_other ((holds.mem_remove w).mp right).2]
  exact le

include weighted holds member before last finite shorter in
theorem Partial.improve :
    Partial topology target done rest
      (s.improve link (topology.newdist target s.dist link)) := by
  have farther := lt_newdist (weighted.node _) (weighted.link _ link member) finite
  have fresh := Partial.source_fresh weighted member last finite shorter
  have keeps : ∀ u ∈ done, (s.improve link (topology.newdist target s.dist link)).dist u =
      s.dist u := fun u old => Search.improve_other fun same => fresh (same ▸ old)
  refine ⟨?_, fun v inside => ?_, holds.improve_sorted, fun v => ?_, fun u old v inside => ?_, ?_,
    fun v => ?_, fun v out found => ?_, fun v known apart => ?_, fun v old other inside => ?_⟩
  · refine (insertSorted_perm _ _ _).nodup_iff.mpr (List.nodup_cons.mpr ⟨fun again => ?_, ?_⟩)
    · exact ((holds.mem_remove _).mp again).2 rfl
    · exact holds.nodup.sublist (Search.remove_sublist _)
  · rcases Search.mem_improve.mp inside with rfl | inside
    · exact fresh
    · exact holds.apart v ((holds.mem_remove v).mp inside).1
  · rw [Search.mem_improve, holds.mem_remove v]
    by_cases same : v = link.srcNode
    · simp only [same, Search.improve_self, true_or, iff_true]
      exact finite
    · rw [Search.improve_other same, holds.known v]
      tauto
  · rw [keeps u old]
    rcases Search.mem_improve.mp inside with rfl | inside
    · rw [Search.improve_self]
      exact (last u old).trans farther.le
    · rw [Search.improve_other ((holds.mem_remove v).mp inside).2]
      exact holds.behind u old v ((holds.mem_remove v).mp inside).1
  · rw [Search.improve_other (holds.source_apart weighted member finite shorter).symm]
    exact holds.start
  · by_cases same : v = link.srcNode
    · rw [same, Search.improve_self]
      exact (holds.nonneg _).trans farther.le
    · rw [Search.improve_other same]
      exact holds.nonneg v
  · by_cases same : v = link.srcNode
    · subst same
      rw [Search.improve_path_self, Option.some_inj] at found
      subst found
      rw [newdist_congr (keeps _ before), Search.improve_self]
      exact ⟨rfl, before, member, rfl, finite⟩
    · rw [Search.improve_path_other same] at found
      obtain ⟨source, old, listed, tight, near⟩ := holds.tight v out found
      rw [newdist_congr (keeps _ old), Search.improve_other same]
      exact ⟨source, old, listed, tight, near⟩
  · by_cases same : v = link.srcNode
    · exact ⟨link, by rw [same, Search.improve_path_self]⟩
    · rw [Search.improve_other same] at known
      rw [Search.improve_path_other same]
      exact holds.reached v known apart
  · have ends := topology.ends v other inside
    rw [newdist_congr (keeps _ (ends ▸ old))]
    -- Distances only become smaller, so links that did not shorten a path still do not.
    by_cases same : other.srcNode = link.srcNode
    · rw [same, Search.improve_self]
      rcases holds.feasible v old other inside with waits | settled
      · rcases List.mem_cons.mp waits with rfl | waits
        · exact .inr le_rfl
        · exact .inl waits
      · rw [same] at settled
        exact .inr (shorter.le.trans settled)
    · rw [Search.improve_other same]
      rcases holds.feasible v old other inside with waits | settled
      · rcases List.mem_cons.mp waits with rfl | waits
        · exact absurd rfl same
        · exact .inl waits
      · exact .inr settled

include weighted holds member before last in
theorem Partial.relax :
    Partial topology target done rest (topology.relax target s link) ∧
      ∀ u ∈ done, (topology.relax target s link).dist u = s.dist u := by
  unfold Topology.relax
  split
  next shorter =>
    have fresh := Partial.source_fresh weighted member last shorter.1 shorter.2
    exact ⟨holds.improve weighted member before last shorter.1 shorter.2,
      fun u old => Search.improve_other fun same => fresh (same ▸ old)⟩
  next longer =>
    refine ⟨{ holds with feasible := fun v old other inside => ?_ }, fun u old => rfl⟩
    rcases holds.feasible v old other inside with waits | settled
    · rcases List.mem_cons.mp waits with rfl | waits
      · right
        by_contra shorter
        rw [not_le] at shorter
        exact longer ⟨(shorter.trans_le le_top).ne, shorter⟩
      · exact .inl waits
    · exact .inr settled

end

theorem Partial.relaxAll (weighted : topology.Weighted) (old : dest ∈ done)
    {links : List (Link (Fin n) I)} (inside : ∀ link ∈ links, link ∈ topology.inLinks dest) :
    ∀ {s : Search n I}, Partial topology target done links s →
      (∀ u ∈ done, s.dist u ≤ s.dist dest) →
      Partial topology target done [] (links.foldl (topology.relax target) s) := by
  induction links with
  | nil => exact fun holds _ => holds
  | cons link links ih =>
    intro s holds last
    have member := inside link List.mem_cons_self
    have ends := topology.ends dest link member
    obtain ⟨next, keeps⟩ := holds.relax weighted (ends ▸ member) (ends ▸ old)
      (ends ▸ last)
    refine ih (fun link member => inside link (List.mem_cons_of_mem _ member)) next ?_
    intro u before
    rw [keeps u before, keeps dest old]
    exact last u before

theorem Partial.shortest (holds : Partial topology target done [] s) (empty : s.q = []) :
    Shortest topology target s where
  start := holds.start
  nonneg := holds.nonneg
  tight v link found :=
    have ⟨source, _, others⟩ := holds.tight v link found
    ⟨source, others⟩
  reached := holds.reached
  feasible v link member := by
    by_cases far : s.dist v = ⊤
    · have ends := topology.ends v link member
      have long : topology.newdist target s.dist link = ⊤ := by
        by_contra finite
        exact dist_ne_top_of_newdist finite (ends ▸ far)
      rw [long]
      exact le_top
    · have old : v ∈ done := by
        simpa only [empty, List.not_mem_nil, false_or] using (holds.known v).mp far
      exact (holds.feasible v old link member).resolve_left List.not_mem_nil

theorem search_nil {fuel : Nat} (queue : s.q = []) : topology.search target fuel s = .ok s := by
  rw [search]
  exact queue

theorem search_cons (weighted : topology.Weighted) (queue : s.q = dest :: q) {fuel : Nat} :
    topology.search target (fuel + 1) s =
      topology.search target fuel
        ((topology.inLinks dest).foldl (topology.relax target) { s with q }) := by
  rw [search.eq_def]
  dsimp only
  rw [queue]
  dsimp only
  rw [if_neg (not_not.mpr (weighted.node dest)), if_neg (not_not.mpr (weighted.link dest))]

/-- No node is taken twice, so the search ends before it runs out. -/
theorem search_shortest (weighted : topology.Weighted) (fuel : Nat) :
    ∀ {done : Finset (Fin n)} {s : Search n I}, Partial topology target done [] s →
      n ≤ done.card + fuel →
      ∃ s', topology.search target fuel s = .ok s' ∧ Shortest topology target s' := by
  induction fuel with
  | zero =>
    intro done s holds enough
    have all : done = Finset.univ := by
      rw [← Finset.card_eq_iff_eq_univ, Fintype.card_fin]
      exact le_antisymm (Finset.card_le_univ _ |>.trans_eq (Fintype.card_fin n)) enough
    cases queue : s.q with
    | nil => exact ⟨s, search_nil queue, holds.shortest queue⟩
    | cons dest q =>
      have fresh := holds.apart dest (queue ▸ List.mem_cons_self)
      exact absurd (all ▸ Finset.mem_univ dest) fresh
  | succ fuel ih =>
    intro done s holds enough
    cases queue : s.q with
    | nil => exact ⟨s, search_nil queue, holds.shortest queue⟩
    | cons dest q =>
      have fresh := holds.apart dest (queue ▸ List.mem_cons_self)
      obtain ⟨taken, last⟩ := holds.take queue
      have looked := taken.relaxAll weighted (Finset.mem_insert_self dest done)
        (fun _ member => member) last
      obtain ⟨s', result, shortest⟩ := ih looked (by rw [Finset.card_insert_of_notMem fresh]; omega)
      exact ⟨s', (search_cons weighted queue).trans result, shortest⟩

theorem holds_start (target : Fin n) : Partial topology target ∅ [] (Search.start target) where
  nodup := List.nodup_singleton _
  apart v _ := Finset.notMem_empty v
  sorted := List.pairwise_singleton _ _
  known v := by
    by_cases same : v = target <;> simp [Search.start, same]
  behind u old := absurd old (Finset.notMem_empty u)
  start := if_pos rfl
  nonneg v := by
    by_cases same : v = target <;> simp [Search.start, same]
  tight := nofun
  reached v known apart := absurd (if_neg apart) known
  feasible v old := absurd old (Finset.notMem_empty v)

theorem calculateWeightedSingleShortestPathsTo_shortest (weighted : topology.Weighted)
    (target : Fin n) :
    ∃ s, topology.calculateWeightedSingleShortestPathsTo target = .ok s ∧
      Shortest topology target s :=
  search_shortest weighted n (holds_start target) (Nat.le_add_left _ _)

/-! ### Distances are those of the shortest paths -/

theorem Shortest.dist_le (weighted : topology.Weighted) (shortest : Shortest topology target s)
    {weight : Weight} (path : Path topology v target weight) : s.dist v ≤ weight := by
  induction path with
  | @link link member =>
    have le := shortest.feasible _ link member
    rw [newdist_target rfl, shortest.start, zero_add] at le
    exact le
  | @cons link target weight member path ih =>
    calc s.dist link.srcNode
        ≤ topology.newdist target s.dist link := shortest.feasible _ link member
      _ ≤ s.dist link.destNode + link.weight + topology.weight link.destNode :=
        newdist_le (weighted.node _)
      _ ≤ weight + link.weight + topology.weight link.destNode := by
        gcongr
        exact ih shortest
      _ = link.weight + topology.weight link.destNode + weight := by
        rw [add_assoc, add_comm]

/-- The nodes that are nearer. -/
def nearer (dist : Fin n → Weight) (v : Fin n) : Finset (Fin n) :=
  Finset.univ.filter fun u => dist u < dist v

theorem nearer_card_lt (less : dist u < dist v) :
    (nearer dist u).card < (nearer dist v).card := by
  refine Finset.card_lt_card (Finset.ssubset_iff_of_subset ?_ |>.mpr ⟨u, ?_, ?_⟩)
  · intro w inside
    have nearer := (Finset.mem_filter.mp inside).2
    exact Finset.mem_filter.mpr ⟨Finset.mem_univ w, nearer.trans less⟩
  · exact Finset.mem_filter.mpr ⟨Finset.mem_univ u, less⟩
  · exact fun inside => lt_irrefl _ (Finset.mem_filter.mp inside).2

theorem nearer_card_lt_n (dist : Fin n → Weight) (v : Fin n) : (nearer dist v).card < n := by
  have proper : nearer dist v ⊂ Finset.univ :=
    Finset.ssubset_univ_iff.mpr fun all => by
      have inside : v ∈ nearer dist v := all ▸ Finset.mem_univ v
      exact lt_irrefl (dist v) (Finset.mem_filter.mp inside).2
  simpa only [Finset.card_univ, Fintype.card_fin] using Finset.card_lt_card proper

/-- Every link of a path that was found leads nearer to the target. -/
theorem Shortest.descends (weighted : topology.Weighted) (shortest : Shortest topology target s)
     (found : s.outPath v = some link) :
    s.dist link.destNode < s.dist v := by
  obtain ⟨_, member, tight, near⟩ := shortest.tight v link found
  rw [tight] at near ⊢
  exact lt_newdist (weighted.node _) (weighted.link _ link member) near

theorem Shortest.positive (weighted : topology.Weighted) (shortest : Shortest topology target s)
    (apart : v ≠ target) : 0 < s.dist v := by
  by_cases near : s.dist v = ⊤
  · rw [near]
    exact WithTop.top_pos
  · obtain ⟨link, found⟩ := shortest.reached v near apart
    exact (shortest.nonneg _).trans_lt (shortest.descends weighted found)

theorem Shortest.path (weighted : topology.Weighted) (shortest : Shortest topology target s)
    (near : s.dist v ≠ ⊤) (apart : v ≠ target) :
    Path topology v target (s.dist v) := by
  induction rank : (nearer s.dist v).card using Nat.strong_induction_on generalizing v with
  | h _ ih =>
    obtain ⟨link, found⟩ := shortest.reached v near apart
    have less := shortest.descends weighted found
    obtain ⟨rfl, member, tight, _⟩ := shortest.tight v link found
    by_cases ends : link.destNode = target
    · rw [tight, newdist_target ends, shortest.start, zero_add, ← ends]
      exact .link member
    · have path := ih _ (rank ▸ nearer_card_lt less) (less.trans_le le_top).ne ends rfl
      rw [tight, newdist_apart ends, add_assoc, add_comm]
      exact .cons member path

/-- A node has a distance exactly if a path of finite weight leads from it to the target. -/
theorem Shortest.dist_ne_top_iff (weighted : topology.Weighted)
    (shortest : Shortest topology target s) (apart : v ≠ target) :
    s.dist v ≠ ⊤ ↔ ∃ weight, weight ≠ ⊤ ∧ Path topology v target weight := by
  constructor
  · exact fun near => ⟨_, near, shortest.path weighted near apart⟩
  · rintro ⟨weight, finite, path⟩
    exact ((shortest.dist_le weighted path).trans_lt (lt_top_iff_ne_top.mpr finite)).ne

end Inet.Common.Topology
