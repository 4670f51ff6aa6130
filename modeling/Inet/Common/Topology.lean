import Mathlib

/-!
# Shortest paths to a node of a topology

Nodes and links have weights, which are numbers or infinite. The search keeps a queue of the nodes
it has reached, ordered by their distance to the target, and for every node the first link of the
path. All nodes and links are enabled.
-/
namespace Inet.Common

/-- A weight or a distance. -/
abbrev Weight := WithTop ℚ

/-- A link between two nodes, with what a subclass stores about it. -/
structure Link (V I : Type) where
  srcNode : V
  destNode : V
  weight : Weight
  info : I

/-- The incoming links of a node end at the node. -/
structure Topology (n : Nat) (I : Type) where
  inLinks : Fin n → List (Link (Fin n) I)
  weight : Fin n → Weight
  ends : ∀ v, ∀ link ∈ inLinks v, link.destNode = v

namespace Topology
variable {n : Nat} {I : Type}

/-- What a search has found so far. -/
structure Search (n : Nat) (I : Type) where
  dist : Fin n → Weight
  outPath : Fin n → Option (Link (Fin n) I)
  q : List (Fin n)

/-- Before the first node that is farther away. -/
def insertSorted (dist : Fin n → Weight) (src : Fin n) : List (Fin n) → List (Fin n)
  | [] => [src]
  | v :: rest => if dist v > dist src then src :: v :: rest else v :: insertSorted dist src rest

/-- The distance of the source of a link if its path starts with the link. The weight of the target
does not count. -/
def newdist (topology : Topology n I) (target : Fin n) (dist : Fin n → Weight)
    (link : Link (Fin n) I) : Weight :=
  if link.destNode = target then dist link.destNode + link.weight
  else dist link.destNode + link.weight + topology.weight link.destNode

/-- The queue without a node, which is in it if it has been reached. -/
def Search.remove (s : Search n I) (src : Fin n) : List (Fin n) :=
  if s.dist src ≠ ⊤ then s.q.filter (· ≠ src) else s.q

/-- A link is the first of a shorter path from its source. -/
def Search.improve (s : Search n I) (link : Link (Fin n) I) (newdist : Weight) : Search n I where
  dist := Function.update s.dist link.srcNode newdist
  outPath := Function.update s.outPath link.srcNode (some link)
  q := insertSorted (Function.update s.dist link.srcNode newdist) link.srcNode
    (s.remove link.srcNode)

def relax (topology : Topology n I) (target : Fin n) (s : Search n I) (link : Link (Fin n) I) :
    Search n I :=
  if topology.newdist target s.dist link ≠ ⊤ ∧
      s.dist link.srcNode > topology.newdist target s.dist link then
    s.improve link (topology.newdist target s.dist link)
  else s

/-- The main loop, with the number of nodes that it may still take from the queue. -/
def search (topology : Topology n I) (target : Fin n) :
    Nat → Search n I → Except String (Search n I)
  | fuel, s =>
    match s.q, fuel with
    | [], _ => .ok s
    | _ :: _, 0 => .error "the queue is not empty"
    | dest :: q, fuel + 1 =>
      if ¬ 0 ≤ topology.weight dest then .error "ASSERT: dest->getWeight() >= 0.0"
      else if ¬ ∀ link ∈ topology.inLinks dest, 0 < link.weight then
        .error "ASSERT: linkWeight > 0.0"
      else topology.search target fuel <|
        (topology.inLinks dest).foldl (topology.relax target) { s with q }

/-- Only the target is known, at distance 0. -/
def Search.start (target : Fin n) : Search n I where
  dist := fun v => if v = target then 0 else ⊤
  outPath := fun _ => none
  q := [target]

def calculateWeightedSingleShortestPathsTo (topology : Topology n I) (target : Fin n) :
    Except String (Search n I) := topology.search target n (Search.start target)

end Topology

end Inet.Common

/-!
## Searches that leave out what is disabled

Nodes and links can be disabled. Both searches skip links that are disabled or come from a disabled
node. The one without weights counts links, and appends nodes to the queue.
-/
namespace Inet.Common

/-- What a link is besides its ends and its weight. -/
structure LinkState (I : Type) where
  enabled : Bool
  info : I

structure EnabledTopology (n : Nat) (I : Type) extends Topology n (LinkState I) where
  enabled : Fin n → Bool

namespace EnabledTopology
variable {n : Nat} {I : Type}

abbrev Link (n : Nat) (I : Type) := Common.Link (Fin n) (LinkState I)

abbrev Search (n : Nat) (I : Type) := Topology.Search n (LinkState I)

variable (topology : EnabledTopology n I)

/-! ### Without weights -/

def countLink (v : Fin n) (s : Search n I) (link : Link n I) : Search n I :=
  if ¬ link.info.enabled then s
  else if ¬ topology.enabled link.srcNode then s
  else if s.dist link.srcNode = ⊤ then
    { dist := Function.update s.dist link.srcNode (s.dist v + 1)
      outPath := Function.update s.outPath link.srcNode (some link)
      q := s.q ++ [link.srcNode] }
  else s

/-- The main loop, with the number of nodes that it may still take from the queue. -/
def searchUnweighted : Nat → Search n I → Except String (Search n I)
  | fuel, s =>
    match s.q, fuel with
    | [], _ => .ok s
    | _ :: _, 0 => .error "the queue is not empty"
    | v :: q, fuel + 1 =>
      searchUnweighted fuel ((topology.inLinks v).foldl (topology.countLink v) { s with q })

def calculateUnweightedSingleShortestPathsTo (target : Fin n) : Except String (Search n I) :=
  topology.searchUnweighted n (.start target)

/-! ### With weights -/

def relaxLink (target : Fin n) (s : Search n I) (link : Link n I) :
    Except String (Search n I) :=
  if ¬ link.info.enabled then .ok s
  else if ¬ topology.enabled link.srcNode then .ok s
  else if ¬ 0 < link.weight then .error "ASSERT: linkWeight > 0.0"
  else .ok (topology.relax target s link)

def searchWeighted (target : Fin n) : Nat → Search n I → Except String (Search n I)
  | fuel, s =>
    match s.q, fuel with
    | [], _ => .ok s
    | _ :: _, 0 => .error "the queue is not empty"
    | dest :: q, fuel + 1 =>
      if ¬ 0 ≤ topology.weight dest then .error "ASSERT: dest->getWeight() >= 0.0"
      else do
        let s ← (topology.inLinks dest).foldlM (topology.relaxLink target) { s with q }
        searchWeighted target fuel s

def calculateWeightedSingleShortestPathsTo (target : Fin n) : Except String (Search n I) :=
  topology.searchWeighted target n (.start target)

/-! ### Paths -/

/-- Enabled links that lead from a node to the target one after another, each from an enabled
node. -/
def Walk (target : Fin n) : Fin n → List (Link n I) → Prop
  | v, [] => v = target
  | v, link :: rest =>
    link.srcNode = v ∧ link ∈ topology.inLinks link.destNode ∧ link.info.enabled = true ∧
      topology.enabled v = true ∧ Walk target link.destNode rest

/-- The weights of the links and of the nodes in between. -/
def cost (path : List (Link n I)) : Weight :=
  (path.map (·.weight)).sum + (path.dropLast.map fun link => topology.weight link.destNode).sum

/-- The links along the paths that were found, as many as the first number at most. -/
def follow (s : Search n I) (target : Fin n) : Nat → Fin n → Option (List (Link n I))
  | fuel, v =>
    if v = target then some []
    else
      match fuel, s.outPath v with
      | fuel + 1, some link => (follow s target fuel link.destNode).map (link :: ·)
      | _, _ => none

end EnabledTopology

end Inet.Common
