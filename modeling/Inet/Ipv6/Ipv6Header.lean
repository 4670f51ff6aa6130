import Inet.Ipv6.Ipv6Address
import Inet.Packet.FragmentBuffer

/-!
# IPv6 headers

A header has its extension headers in it. Its chunk length is a field of its own.
-/
namespace Inet.Ipv6

open Lib Packet

def IPv6_HEADER_BYTES : Nat := 40

def IPv6_FRAGMENT_HEADER_LENGTH : Nat := 8

def IP_PROT_IPv6EXT_HOP : UInt8 := 0

def IP_PROT_IPv6EXT_ROUTING : UInt8 := 43

def IP_PROT_IPv6EXT_FRAGMENT : UInt8 := 44

def IP_PROT_IPv6EXT_ESP : UInt8 := 50

def IP_PROT_IPv6EXT_AUTH : UInt8 := 51

def IP_PROT_IPv6EXT_DEST : UInt8 := 60

def IP_PROT_IPv6EXT_MOB : UInt8 := 135

structure Ipv6FragmentHeader where
  identification : UInt32
  fragmentOffset : UInt16
  moreFragments : Bool
  deriving DecidableEq

/-- An extension header of a type, with its other fields as bytes, or a fragment header. -/
inductive Ipv6ExtensionHeader
  | fragment (fh : Ipv6FragmentHeader)
  | other (extensionType : UInt8) (byteLength : Nat) (fields : List UInt8)
  deriving DecidableEq

namespace Ipv6ExtensionHeader

def extensionType : Ipv6ExtensionHeader → UInt8
  | fragment _ => IP_PROT_IPv6EXT_FRAGMENT
  | other extensionType _ _ => extensionType

def byteLength : Ipv6ExtensionHeader → Nat
  | fragment _ => IPv6_FRAGMENT_HEADER_LENGTH
  | other _ byteLength _ => byteLength

def getOrder (eh : Ipv6ExtensionHeader) : Int :=
  if eh.extensionType = IP_PROT_IPv6EXT_HOP then 0
  else if eh.extensionType = IP_PROT_IPv6EXT_DEST then 1
  else if eh.extensionType = IP_PROT_IPv6EXT_ROUTING then 2
  else if eh.extensionType = IP_PROT_IPv6EXT_FRAGMENT then 3
  else if eh.extensionType = IP_PROT_IPv6EXT_AUTH then 4
  else if eh.extensionType = IP_PROT_IPv6EXT_ESP then 5
  -- a second IP_PROT_IPv6EXT_DEST has order 6
  else if eh.extensionType = IP_PROT_IPv6EXT_MOB then 7
  else -1

/-- Fragments have this extension header. -/
def isUnfragmentable (eh : Ipv6ExtensionHeader) : Bool :=
  eh.extensionType == IP_PROT_IPv6EXT_ROUTING || eh.extensionType == IP_PROT_IPv6EXT_HOP

end Ipv6ExtensionHeader

structure Ipv6Header where
  chunkLength : Nat := IPv6_HEADER_BYTES
  version : UInt8 := 6
  srcAddress : Ipv6Address
  destAddress : Ipv6Address
  payloadLength : Int := -1
  trafficClass : Int16
  flowLabel : UInt32
  hopLimit : Int16 := 0
  protocolId : Nat
  extensionHeader : List Ipv6ExtensionHeader := []
  deriving DecidableEq

variable {eh : Ipv6ExtensionHeader}

namespace Ipv6Header

variable (header : Ipv6Header)

/-- The first extension header of the type of fragment headers, if it is one. -/
def findFragmentHeader : Option Ipv6FragmentHeader :=
  match header.extensionHeader.find? (·.extensionType == IP_PROT_IPv6EXT_FRAGMENT) with
  | some (.fragment fh) => some fh
  | _ => none

/-- Inserts an extension header with the order that it has been found to have. -/
def insertInOrder (eh : Ipv6ExtensionHeader) (thisOrder : Int) :
    List Ipv6ExtensionHeader → Except ChunkError (List Ipv6ExtensionHeader)
  | [] => .ok [eh]
  | other :: rest => do
    let thatOrder := other.getOrder
    if thisOrder ≠ -1 ∧ thisOrder < thatOrder then .ok (eh :: other :: rest)
    else if thisOrder = thatOrder ∧ thisOrder = 1 then
      -- first IP_PROT_IPv6EXT_DEST has order 1, second IP_PROT_IPv6EXT_DEST has order 6
      return other :: (← insertInOrder eh 6 rest)
    else if thisOrder = thatOrder ∧ thisOrder ≠ -1 then
      .error (.error s!"addExtensionHeader() duplicate extension header: {eh.extensionType}")
    else return other :: (← insertInOrder eh thisOrder rest)

def addExtensionHeader (eh : Ipv6ExtensionHeader) : Except ChunkError Ipv6Header := do
  if ¬(1 ≤ eh.byteLength ∧ eh.byteLength % 8 = 0) then
    throw (.error "ASSERT: Condition does not hold")
  let extensionHeader ← insertInOrder eh eh.getOrder header.extensionHeader
  return { header with extensionHeader }

/-- The length of the IPv6 header and of some extension headers. -/
def lengthWith (extensionHeader : List Ipv6ExtensionHeader) : Nat :=
  IPv6_HEADER_BYTES + (extensionHeader.map (·.byteLength)).sum

def calculateHeaderByteLength : Nat := lengthWith header.extensionHeader

/-- It is assumed that headers are ordered. -/
def calculateUnfragmentableHeaderByteLength : Nat :=
  lengthWith (header.extensionHeader.rdropWhile fun eh => !eh.isUnfragmentable)

def removeExtensionHeader (extensionType : UInt8) : Ipv6Header :=
  { header with extensionHeader :=
      header.extensionHeader.eraseP (·.extensionType == extensionType) }

/-! ### Legal headers -/

/-- Headers as `encapsulate` makes them: extension headers are added one after the other, none of
them a fragment header, and then the chunk length is calculated. -/
structure Legal : Prop where
  added : ∃ (initial last : Ipv6Header) (extensions : List Ipv6ExtensionHeader),
    initial.extensionHeader = [] ∧
      (∀ eh ∈ extensions, eh.extensionType ≠ IP_PROT_IPv6EXT_FRAGMENT) ∧
      extensions.foldlM addExtensionHeader initial = .ok last ∧
      header.extensionHeader = last.extensionHeader
  calculated : header.chunkLength = header.calculateHeaderByteLength

/-- All that is before the payload is repeated in each fragment. -/
def AllUnfragmentable : Prop := ∀ eh ∈ header.extensionHeader.getLast?, eh.isUnfragmentable = true

instance : Decidable header.AllUnfragmentable := inferInstanceAs (Decidable (∀ eh ∈ _, _))

theorem insertInOrder_eq {thisOrder : Int} {extensions inserted : List Ipv6ExtensionHeader}
    (returned : insertInOrder eh thisOrder extensions = .ok inserted) :
    ∃ front back, extensions = front ++ back ∧ inserted = front ++ eh :: back := by
  induction extensions generalizing thisOrder inserted with
  | nil =>
    cases returned
    exact ⟨[], [], rfl, rfl⟩
  | cons other rest ih =>
    have behind {order : Int} {result : List Ipv6ExtensionHeader}
        (returned : (do return other :: (← insertInOrder eh order rest)) = Except.ok result) :
        ∃ front back, other :: rest = front ++ back ∧ result = front ++ eh :: back := by
      obtain ⟨later, inserted, ⟨⟩⟩ := bind_eq_ok.mp returned
      obtain ⟨front, back, rfl, rfl⟩ := ih inserted
      exact ⟨other :: front, back, rfl, rfl⟩
    unfold insertInOrder at returned
    dsimp only at returned
    split at returned
    next =>
      cases returned
      exact ⟨[], other :: rest, rfl, rfl⟩
    split at returned
    next => exact behind returned
    split at returned
    next => cases returned
    next => exact behind returned

theorem addExtensionHeader_eq {next : Ipv6Header}
    (returned : header.addExtensionHeader eh = .ok next) :
    1 ≤ eh.byteLength ∧ ∃ front back, header.extensionHeader = front ++ back ∧
      next = { header with extensionHeader := front ++ eh :: back } := by
  unfold addExtensionHeader at returned
  split at returned
  next => cases returned
  next long =>
    obtain ⟨extensions, inserted, ⟨⟩⟩ := bind_eq_ok.mp returned
    obtain ⟨front, back, before, rfl⟩ := insertInOrder_eq inserted
    exact ⟨(not_not.mp long).1, front, back, before, rfl⟩

variable {header}

theorem Legal.each (legal : header.Legal) : ∀ eh ∈ header.extensionHeader,
    eh.extensionType ≠ IP_PROT_IPv6EXT_FRAGMENT ∧ 1 ≤ eh.byteLength := by
  obtain ⟨initial, last, extensions, none, types, added, same⟩ := legal.added
  rw [same]
  refine foldlM_invariant (fun built : Ipv6Header => ∀ eh ∈ built.extensionHeader,
    eh.extensionType ≠ IP_PROT_IPv6EXT_FRAGMENT ∧ 1 ≤ eh.byteLength) extensions ?_ initial
    (by simp [none]) last added
  intro built eh member holds next returned
  obtain ⟨long, front, back, before, rfl⟩ := addExtensionHeader_eq built returned
  intro other here
  rw [before] at holds
  simp only [List.mem_append, List.mem_cons] at here holds
  rcases here with front | rfl | back
  · exact holds other (.inl front)
  · exact ⟨types _ member, long⟩
  · exact holds other (.inr back)

/-- Nothing is left out of the length of the unfragmentable part only if nothing is fragmentable. -/
theorem Legal.allUnfragmentable_iff (legal : header.Legal) :
    header.AllUnfragmentable ↔
      header.calculateUnfragmentableHeaderByteLength = header.chunkLength := by
  rw [legal.calculated]
  have each := legal.each
  unfold AllUnfragmentable calculateUnfragmentableHeaderByteLength calculateHeaderByteLength
  generalize header.extensionHeader = extensions at each
  induction extensions using List.reverseRecOn with
  | nil => simp
  | append_singleton extensions last _ =>
    rw [List.getLast?_concat, List.rdropWhile_concat]
    simp only [Option.mem_some_iff, forall_eq']
    cases kept : last.isUnfragmentable with
    | true => simp
    | false =>
      -- a fragmentable header at the end is not counted, and its length is positive
      have positive := (each last (by simp)).2
      obtain ⟨dropped, whole⟩ := List.rdropWhile_prefix (fun eh => !eh.isUnfragmentable) extensions
      have sum := congrArg (fun l => (List.map (·.byteLength) l).sum) whole
      simp only [List.map_append, List.sum_append] at sum
      simp only [lengthWith, List.map_append, List.sum_append, List.map_cons, List.map_nil,
        List.sum_cons, List.sum_nil, Bool.not_false, if_true, Bool.false_eq_true, false_iff]
      omega

/-! ### Fragment headers -/

theorem getOrder_fragment
    (other : eh.extensionType ≠ IP_PROT_IPv6EXT_FRAGMENT) : eh.getOrder ≠ 3 := by
  unfold Ipv6ExtensionHeader.getOrder
  split_ifs <;> simp_all

theorem insertInOrder_fragment (fh : Ipv6FragmentHeader) {extensions : List Ipv6ExtensionHeader}
    (others : ∀ eh ∈ extensions, eh.extensionType ≠ IP_PROT_IPv6EXT_FRAGMENT) :
    ∃ inserted, insertInOrder (.fragment fh) 3 extensions = .ok inserted := by
  induction extensions with
  | nil => exact ⟨_, rfl⟩
  | cons other rest ih =>
    obtain ⟨here, later⟩ := List.forall_mem_cons.mp others
    have order := getOrder_fragment here
    obtain ⟨inserted, returned⟩ := ih later
    unfold insertInOrder
    dsimp only
    split
    · exact ⟨_, rfl⟩
    · rw [if_neg (fun both => order both.1.symm), if_neg (fun both => order both.1.symm), returned]
      exact ⟨_, rfl⟩

/-- The extension headers of a fragment. -/
structure AddedFragment (extensions : List Ipv6ExtensionHeader) (fh : Ipv6FragmentHeader)
    (extended : List Ipv6ExtensionHeader) : Prop where
  inserted : ∃ front back, extensions = front ++ back ∧ extended = front ++ .fragment fh :: back
  others : ∀ eh ∈ extensions, eh.extensionType ≠ IP_PROT_IPv6EXT_FRAGMENT

theorem Legal.addFragmentHeader (legal : header.Legal) (fh : Ipv6FragmentHeader) :
    ∃ extended, header.addExtensionHeader (.fragment fh) =
        .ok { header with extensionHeader := extended } ∧
      AddedFragment header.extensionHeader fh extended := by
  have others := fun eh member => (legal.each eh member).1
  obtain ⟨extended, returned⟩ := insertInOrder_fragment fh others
  have order : (Ipv6ExtensionHeader.fragment fh).getOrder = 3 := rfl
  refine ⟨extended, ?_, insertInOrder_eq returned, others⟩
  unfold addExtensionHeader
  rw [order, returned]
  dsimp only
  have long : 1 ≤ (Ipv6ExtensionHeader.fragment fh).byteLength ∧
      (Ipv6ExtensionHeader.fragment fh).byteLength % 8 = 0 := by
    simp [Ipv6ExtensionHeader.byteLength, IPv6_FRAGMENT_HEADER_LENGTH]
  rw [if_neg (not_not.mpr long)]
  rfl

variable {extensions : List Ipv6ExtensionHeader} {fh : Ipv6FragmentHeader}

theorem AddedFragment.none_before
    (added : AddedFragment extensions fh header.extensionHeader) :
    ∃ front back, extensions = front ++ back ∧
      header.extensionHeader = front ++ .fragment fh :: back ∧
      ∀ eh ∈ front, ¬(eh.extensionType == IP_PROT_IPv6EXT_FRAGMENT) = true := by
  obtain ⟨front, back, before, after⟩ := added.inserted
  refine ⟨front, back, before, after, fun eh member => ?_⟩
  have other := added.others eh (by rw [before]; exact List.mem_append_left _ member)
  simpa using other

theorem AddedFragment.findFragmentHeader
    (added : AddedFragment extensions fh header.extensionHeader) :
    header.findFragmentHeader = some fh := by
  obtain ⟨front, back, _, after, others⟩ := added.none_before
  have none : front.find? (·.extensionType == IP_PROT_IPv6EXT_FRAGMENT) = none :=
    List.find?_eq_none.mpr others
  unfold Ipv6Header.findFragmentHeader
  rw [after, List.find?_append, none]
  rfl

/-- The fragment header is removed, and nothing else. -/
theorem AddedFragment.removeExtensionHeader
    (added : AddedFragment extensions fh header.extensionHeader) :
    header.removeExtensionHeader IP_PROT_IPv6EXT_FRAGMENT =
      { header with extensionHeader := extensions } := by
  obtain ⟨front, back, before, after, others⟩ := added.none_before
  unfold Ipv6Header.removeExtensionHeader
  rw [after, List.eraseP_append_right _ others, List.eraseP_cons_of_pos rfl, before]

end Ipv6Header
end Inet.Ipv6
