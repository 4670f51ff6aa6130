import Inet.Common.ShortestPaths
import Inet.Lib.Except

/-!
# Shortest paths over what is enabled

The searches see the topology without links that are disabled or come from disabled nodes. With
links of weight 1 and nodes of weight 0 both searches make the same steps.
-/
namespace Inet.Common.EnabledTopology

open Lib Topology

variable {n : Nat} {I : Type} {topology : EnabledTopology n I} {target : Fin n}
variable {link : Link n I} {s : Search n I} {fuel : Nat} {dest v : Fin n}

/-! ### What the searches see -/

def usable (topology : EnabledTopology n I) (link : Link n I) : Bool :=
  link.info.enabled && topology.enabled link.srcNode

/-- The topology without links that are skipped. -/
def seen (topology : EnabledTopology n I) : Topology n (LinkState I) where
  inLinks v := (topology.inLinks v).filter topology.usable
  weight := topology.weight
  ends v link member := topology.ends v link (List.mem_filter.mp member).1

theorem weighted_seen (weighted : topology.toTopology.Weighted) : topology.seen.Weighted where
  node := weighted.node
  link v link member := weighted.link v link (List.mem_filter.mp member).1

theorem relaxLink_eq (positive : 0 < link.weight) :
    topology.relaxLink target s link =
      .ok (if topology.usable link then topology.seen.relax target s link else s) := by
  unfold relaxLink usable
  cases enabled : link.info.enabled with
  | false => rfl
  | true =>
    cases source : topology.enabled link.srcNode with
    | false => rfl
    | true =>
      rw [if_neg (not_not.mpr rfl), if_neg (not_not.mpr rfl), if_neg (not_not.mpr positive)]
      rfl

/-- Skipping links is looking at the others only. -/
theorem foldlM_relaxLink {links : List (Link n I)} (positive : ∀ link ∈ links, 0 < link.weight) :
    ∀ s : Search n I, links.foldlM (topology.relaxLink target) s =
      .ok ((links.filter topology.usable).foldl (topology.seen.relax target) s) := by
  induction links with
  | nil => exact fun _ => rfl
  | cons link rest ih =>
    intro s
    have others := ih fun link member => positive link (List.mem_cons_of_mem _ member)
    rw [List.foldlM_cons, relaxLink_eq (positive link List.mem_cons_self), ok_bind, others]
    cases usable : topology.usable link with
    | true => rw [List.filter_cons_of_pos usable, List.foldl_cons, if_pos rfl]
    | false =>
      rw [List.filter_cons_of_neg (by rw [usable]; exact Bool.false_ne_true), if_neg nofun]

theorem searchWeighted_eq (weighted : topology.toTopology.Weighted) (fuel : Nat) :
    ∀ s : Search n I,
      topology.searchWeighted target fuel s = topology.seen.search target fuel s := by
  induction fuel with
  | zero =>
    intro s
    rw [searchWeighted.eq_def, Topology.search.eq_def]
    dsimp only
    cases s.q <;> rfl
  | succ fuel ih =>
    intro s
    cases queue : s.q with
    | nil =>
      rw [search_nil queue, searchWeighted.eq_def]
      dsimp only
      rw [queue]
    | cons dest q =>
      rw [search_cons (weighted_seen weighted) queue, searchWeighted.eq_def]
      dsimp only
      rw [queue]
      dsimp only
      rw [if_neg (not_not.mpr (weighted.node dest)), foldlM_relaxLink (weighted.link dest),
        ok_bind, ih]
      rfl

theorem calculateWeighted_eq (weighted : topology.toTopology.Weighted) :
    topology.calculateWeightedSingleShortestPathsTo target =
      topology.seen.calculateWeightedSingleShortestPathsTo target :=
  searchWeighted_eq weighted n _

/-! ### Walks -/

theorem cost_nil : topology.cost [] = 0 := by simp [cost]

theorem cost_singleton (link : Link n I) : topology.cost [link] = link.weight := by
  simp [cost]

theorem cost_cons (link next : Link n I) (rest : List (Link n I)) :
    topology.cost (link :: next :: rest) =
      link.weight + topology.weight link.destNode + topology.cost (next :: rest) := by
  simp only [cost, List.map_cons, List.sum_cons, List.dropLast_cons_cons]
  abel

theorem mem_seen (member : link ∈ topology.inLinks link.destNode)
    (enabled : link.info.enabled = true) (source : topology.enabled link.srcNode = true) :
    link ∈ topology.seen.inLinks link.destNode :=
  List.mem_filter.mpr ⟨member, Bool.and_eq_true_iff.mpr ⟨enabled, source⟩⟩

theorem Walk.path {rest : List (Link n I)} : ∀ {v : Fin n} {link : Link n I},
    topology.Walk target v (link :: rest) →
      Topology.Path topology.seen v target (topology.cost (link :: rest)) := by
  induction rest with
  | nil =>
    rintro _ link ⟨rfl, member, enabled, source, rfl⟩
    rw [cost_singleton]
    exact .link (mem_seen member enabled source)
  | cons next rest ih =>
    rintro _ link ⟨rfl, member, enabled, source, onward⟩
    rw [cost_cons]
    exact .cons (mem_seen member enabled source) (ih onward)

/-! ### The paths that were found -/

/-- Distances are the least costs of walks, and the links that were found make up such a walk. -/
structure ShortestWalks (topology : EnabledTopology n I) (target : Fin n) (s : Search n I) :
    Prop where
  minimum : ∀ v path, topology.Walk target v path → s.dist v ≤ topology.cost path
  infinite : ∀ v, s.dist v = ⊤ ↔ ∀ path, topology.Walk target v path → topology.cost path = ⊤
  followed : ∀ v, s.dist v ≠ ⊤ → ∃ path, follow s target n v = some path ∧
    topology.Walk target v path ∧ (v :: path.map (·.destNode)).Nodup ∧
      topology.cost path = s.dist v

theorem follow_target (s : Search n I) (fuel : Nat) : follow s target fuel target = some [] := by
  unfold follow
  exact if_pos rfl

theorem follow_link (apart : v ≠ target) (found : s.outPath v = some link) :
    follow s target (fuel + 1) v = (follow s target fuel link.destNode).map (link :: ·) := by
  rw [follow.eq_def]
  dsimp only
  rw [if_neg apart, found]

section
variable {s : Search n I} (weighted : topology.seen.Weighted)
  (shortest : Topology.Shortest topology.seen target s)

include weighted shortest

theorem dist_le_cost {path : List (Link n I)} (walk : topology.Walk target v path) :
    s.dist v ≤ topology.cost path := by
  cases path with
  | nil =>
    obtain rfl : v = target := walk
    rw [shortest.start, cost_nil]
  | cons link rest => exact shortest.dist_le weighted (walk.path)

/-- Each link leads nearer to the target, so no node is visited again. -/
theorem follow_walk : ∀ {v : Fin n}, s.dist v ≠ ⊤ →
    (Topology.nearer s.dist v).card ≤ fuel →
      ∃ path, follow s target fuel v = some path ∧ topology.Walk target v path ∧
        (v :: path.map (·.destNode)).Pairwise (fun u w => s.dist w < s.dist u) ∧
          topology.cost path = s.dist v := by
  induction fuel with
  | zero =>
    intro v near enough
    obtain rfl : v = target := by
      by_contra apart
      have inside : target ∈ Topology.nearer s.dist v :=
        Finset.mem_filter.mpr ⟨Finset.mem_univ _, by
          rw [shortest.start]
          exact shortest.positive weighted apart⟩
      exact absurd (Finset.card_pos.mpr ⟨target, inside⟩) (by omega)
    exact ⟨[], follow_target s 0, rfl, List.pairwise_singleton _ _,
      cost_nil.trans shortest.start.symm⟩
  | succ fuel ih =>
    intro v near enough
    by_cases same : v = target
    · subst same
      exact ⟨[], follow_target s _, rfl, List.pairwise_singleton _ _,
        cost_nil.trans shortest.start.symm⟩
    · obtain ⟨link, found⟩ := shortest.reached v near same
      have less := shortest.descends weighted found
      obtain ⟨rfl, member, tight, _⟩ := shortest.tight v link found
      obtain ⟨inside, usable⟩ := List.mem_filter.mp member
      obtain ⟨enabled, source⟩ := Bool.and_eq_true_iff.mp usable
      have smaller := Topology.nearer_card_lt less
      obtain ⟨path, followed, walk, falling, cost⟩ :=
        ih (less.trans_le le_top).ne (v := link.destNode) (by omega)
      refine ⟨link :: path, ?_, ⟨rfl, inside, enabled, source, walk⟩, ?_, ?_⟩
      · rw [follow_link same found, followed, Option.map_some]
      · refine List.pairwise_cons.mpr ⟨fun w visited => ?_, falling⟩
        rcases List.mem_cons.mp visited with rfl | later
        · exact less
        · exact ((List.pairwise_cons.mp falling).1 w later).trans less
      · rw [tight]
        cases path with
        | nil =>
          have ends : link.destNode = target := walk
          rw [cost_singleton, Topology.newdist_target ends, shortest.start, zero_add]
        | cons next rest =>
          have apart : link.destNode ≠ target := by
            intro ends
            rw [ends, follow_target] at followed
            cases followed
          rw [cost_cons, cost, Topology.newdist_apart apart]
          change _ = s.dist link.destNode + link.weight + topology.weight link.destNode
          abel

theorem shortestWalks : ShortestWalks topology target s := by
  have followed : ∀ v, s.dist v ≠ ⊤ → ∃ path, follow s target n v = some path ∧
      topology.Walk target v path ∧ (v :: path.map (·.destNode)).Nodup ∧
        topology.cost path = s.dist v := by
    intro v near
    obtain ⟨path, followed, walk, falling, cost⟩ :=
      follow_walk weighted shortest near (Topology.nearer_card_lt_n s.dist v).le
    exact ⟨path, followed, walk, falling.imp fun {u w} less same =>
      absurd (congrArg s.dist same) less.ne', cost⟩
  refine ⟨fun v path walk => dist_le_cost weighted shortest walk, fun v => ⟨fun far path walk => ?_,
    fun costly => ?_⟩, followed⟩
  · exact top_le_iff.mp (far ▸ dist_le_cost weighted shortest walk)
  · by_contra near
    obtain ⟨path, _, walk, _, cost⟩ := followed v near
    exact near (cost ▸ costly path walk)

end

/-! ### Links of weight 1 -/

/-- Weights with which a cost is a number of links. -/
structure CountsLinks (topology : EnabledTopology n I) : Prop where
  node : ∀ v, topology.weight v = 0
  link : ∀ v, ∀ link ∈ topology.inLinks v, link.weight = 1

theorem CountsLinks.weighted (unit : topology.CountsLinks) : topology.toTopology.Weighted where
  node v := (unit.node v).ge
  link v link member := by
    rw [unit.link v link member]
    exact zero_lt_one

theorem CountsLinks.newdist (unit : topology.CountsLinks)
    (member : link ∈ topology.inLinks dest) (dist : Fin n → Weight) :
    topology.seen.newdist target dist link = dist dest + 1 := by
  have ends := topology.ends dest link member
  have zero : topology.seen.weight link.destNode = 0 := unit.node _
  rw [Topology.newdist, zero, add_zero, ite_self, unit.link dest link member, ends]

theorem countLink_skipped
    (skipped : topology.usable link = false) : topology.countLink v s link = s := by
  unfold countLink
  cases enabled : link.info.enabled with
  | false => exact if_pos Bool.false_ne_true
  | true =>
    have source : topology.enabled link.srcNode = false := by
      rwa [usable, enabled, Bool.true_and] at skipped
    rw [source, if_neg (not_not.mpr rfl), if_pos Bool.false_ne_true]

/-- A node that is as far as all others goes to the end of the queue. -/
theorem insertSorted_last {dist : Fin n → Weight} {src : Fin n} {q : List (Fin n)}
    (nearer : ∀ v ∈ q, dist v ≤ dist src) : Topology.insertSorted dist src q = q ++ [src] := by
  induction q with
  | nil => rfl
  | cons v rest ih =>
    rw [Topology.insertSorted, if_neg (nearer v List.mem_cons_self).not_gt, List.cons_append,
      ih fun w member => nearer w (List.mem_cons_of_mem _ member)]

/-- No node that is known is more than one link farther than the node whose links are looked at. -/
def Bounded (s : Search n I) (dest : Fin n) : Prop := ∀ v, s.dist v ≠ ⊤ → s.dist v ≤ s.dist dest + 1

section
variable {s : Search n I} {done : Finset (Fin n)} {dest : Fin n} {link : Link n I}
  {rest : List (Link n I)} (unit : topology.CountsLinks)
  (holds : Topology.Partial topology.seen target done (link :: rest) s)
  (member : link ∈ topology.inLinks dest) (old : dest ∈ done) (bounded : Bounded s dest)

include unit holds member old bounded

/-- With these weights the first link to a node makes its shortest path. -/
theorem relax_eq_countLink (usable : topology.usable link = true) :
    topology.seen.relax target s link = topology.countLink dest s link := by
  obtain ⟨enabled, source⟩ := Bool.and_eq_true_iff.mp usable
  have near : s.dist dest ≠ ⊤ := (holds.known dest).mpr (.inr old)
  have finite : s.dist dest + 1 ≠ ⊤ := WithTop.add_ne_top.mpr ⟨near, WithTop.one_ne_top⟩
  unfold Topology.relax countLink
  rw [unit.newdist member, if_neg (not_not.mpr enabled), if_neg (not_not.mpr source)]
  by_cases unknown : s.dist link.srcNode = ⊤
  · have fresh : link.srcNode ∉ s.q := fun queued =>
      (holds.known _).mpr (.inl queued) unknown
    have queue : s.remove link.srcNode = s.q := if_neg (not_not.mpr unknown)
    rw [if_pos ⟨finite, by rw [unknown]; exact lt_top_iff_ne_top.mpr finite⟩, if_pos unknown,
      Search.improve, queue, insertSorted_last fun v queued => ?_]
    have apart : v ≠ link.srcNode := fun same => fresh (same ▸ queued)
    rw [Function.update_self, Function.update_of_ne apart]
    exact bounded v ((holds.known v).mpr (.inl queued))
  · rw [if_neg fun shorter => absurd shorter.2 (bounded _ unknown).not_gt, if_neg unknown]

theorem bounded_relax : Bounded (topology.seen.relax target s link) dest := by
  have near : s.dist dest ≠ ⊤ := (holds.known dest).mpr (.inr old)
  unfold Topology.relax
  split
  next shorter =>
    rw [unit.newdist member] at shorter ⊢
    have fresh : link.srcNode ≠ dest := by
      intro same
      rw [same] at shorter
      exact absurd shorter.2 (bounded dest near).not_gt
    intro v known
    rw [Search.improve_other fresh.symm]
    by_cases same : v = link.srcNode
    · rw [same, Search.improve_self]
    · rw [Search.improve_other same] at known ⊢
      exact bounded v known
  next => exact bounded

end

theorem foldl_countLink (unit : topology.CountsLinks) {done : Finset (Fin n)}
    (old : dest ∈ done) {links : List (Link n I)}
    (inside : ∀ link ∈ links, link ∈ topology.inLinks dest) :
    ∀ {s : Search n I},
      Topology.Partial topology.seen target done (links.filter topology.usable) s →
      (∀ u ∈ done, s.dist u ≤ s.dist dest) → Bounded s dest →
      links.foldl (topology.countLink dest) s =
          (links.filter topology.usable).foldl (topology.seen.relax target) s ∧
        Bounded ((links.filter topology.usable).foldl (topology.seen.relax target) s) dest ∧
        ((links.filter topology.usable).foldl (topology.seen.relax target) s).dist dest =
          s.dist dest := by
  have weighted := weighted_seen unit.weighted
  induction links with
  | nil => exact fun {_} _ _ bounded => ⟨rfl, bounded, rfl⟩
  | cons link rest ih =>
    intro s holds last bounded
    have member := inside link List.mem_cons_self
    have others := fun link member => inside link (List.mem_cons_of_mem _ member)
    cases usable : topology.usable link with
    | false =>
      have skipped := countLink_skipped (v := dest) (s := s) usable
      rw [List.filter_cons_of_neg (by rw [usable]; exact Bool.false_ne_true)] at holds ⊢
      rw [List.foldl_cons, skipped]
      exact ih others holds last bounded
    | true =>
      rw [List.filter_cons_of_pos usable] at holds ⊢
      rw [List.foldl_cons, List.foldl_cons,
        ← relax_eq_countLink unit holds member old bounded usable]
      have ends := topology.ends dest link member
      have listed : link ∈ topology.seen.inLinks link.destNode :=
        List.mem_filter.mpr ⟨ends ▸ member, usable⟩
      obtain ⟨next, keeps⟩ := holds.relax weighted listed (ends ▸ old) (ends ▸ last)
      obtain ⟨same, bounded', kept⟩ := ih others next (fun u before => by
        rw [keeps u before, keeps dest old]
        exact last u before) (bounded_relax unit holds member old bounded)
      exact ⟨same, bounded', kept.trans (keeps dest old)⟩

theorem searchUnweighted_nil (queue : s.q = []) :
    topology.searchUnweighted fuel s = .ok s := by
  rw [searchUnweighted.eq_def]
  dsimp only
  rw [queue]

theorem searchUnweighted_cons {q : List (Fin n)} (queue : s.q = dest :: q) :
    topology.searchUnweighted (fuel + 1) s =
      topology.searchUnweighted fuel
        ((topology.inLinks dest).foldl (topology.countLink dest) { s with q }) := by
  rw [searchUnweighted.eq_def]
  dsimp only
  rw [queue]

/-- The searches go through the same states. -/
theorem searchUnweighted_eq (unit : topology.CountsLinks) (fuel : Nat) :
    ∀ {done : Finset (Fin n)} {s : Search n I},
      Topology.Partial topology.seen target done [] s →
      (∀ dest ∈ s.q, Bounded s dest) →
      topology.searchUnweighted fuel s = topology.seen.search target fuel s := by
  have weighted := weighted_seen unit.weighted
  induction fuel with
  | zero =>
    intro done s _ _
    rw [searchUnweighted.eq_def, Topology.search.eq_def]
    dsimp only
    cases s.q <;> rfl
  | succ fuel ih =>
    intro done s holds bounded
    cases queue : s.q with
    | nil => rw [searchUnweighted_nil queue, search_nil queue]
    | cons dest q =>
      obtain ⟨taken, last⟩ := holds.take queue
      have old := Finset.mem_insert_self dest done
      obtain ⟨same, bounded', kept⟩ := foldl_countLink unit old
        (fun _ member => member) taken last (bounded dest (queue ▸ List.mem_cons_self))
      have looked := taken.relaxAll weighted old (fun _ member => member) last
      rw [searchUnweighted_cons queue, search_cons weighted queue, same]
      refine ih looked fun next queued v known => (bounded' v known).trans ?_
      -- The node that is taken next is at least as far.
      gcongr
      exact looked.behind dest old next queued

theorem calculateUnweighted_eq (unit : topology.CountsLinks) :
    topology.calculateUnweightedSingleShortestPathsTo target =
      topology.calculateWeightedSingleShortestPathsTo target := by
  rw [calculateWeighted_eq unit.weighted]
  refine searchUnweighted_eq unit n (Topology.holds_start target) fun dest queued v known => ?_
  obtain rfl := List.mem_singleton.mp queued
  have same : v = dest := by
    by_contra apart
    exact known (if_neg apart)
  rw [same]
  exact le_add_of_nonneg_right zero_le_one

/-- The direct link is disabled, and the node at the end does not route. -/
def detour : EnabledTopology 3 String where
  inLinks
    | 0 => [⟨1, 0, 2, ⟨true, "eth0"⟩⟩, ⟨2, 0, 1, ⟨false, "wlan0"⟩⟩]
    | 1 => [⟨2, 1, 1, ⟨true, "eth1"⟩⟩]
    | 2 => []
  weight v := if v = 2 then ⊤ else 3
  ends
    | 0 => by simp
    | 1 => by simp
    | 2 => by simp
  enabled _ := true

end Inet.Common.EnabledTopology
