import Inet.Ipv6.Fragmentation

/-!
# Reassembly of IPv6 datagrams

A datagram that is complete is taken out of the buffers through an iterator, which is only valid if
the datagram had a buffer when its last missing fragment arrived.
-/
namespace Inet.Ipv6

open Lib Packet

variable {F : Type} [Ipv6Fields F]
variable {fragments : List (Datagram Ipv6Header F)} {fh : Ipv6FragmentHeader}
  {header original : Ipv6Header}

namespace Ipv6FragBuf

structure Key where
  id : UInt32
  src : Ipv6Address
  dest : Ipv6Address
deriving DecidableEq

/-- The header of the complete datagram. -/
def restoredHeader (header : Ipv6Header) : Ipv6Header :=
  { header.removeExtensionHeader IP_PROT_IPv6EXT_FRAGMENT with
    chunkLength := (header.removeExtensionHeader
      IP_PROT_IPv6EXT_FRAGMENT).calculateUnfragmentableHeaderByteLength }

/-- The fragment header, for headers that have one. -/
def fragmentHeader (header : Ipv6Header) : Ipv6FragmentHeader :=
  header.findFragmentHeader.getD ⟨0, 0, false⟩

def format (F : Type) [Ipv6Fields F] : FragmentFormat Ipv6Header Key F where
  key header := ⟨(fragmentHeader header).identification, header.srcAddress, header.destAddress⟩
  getFragmentOffset header := (fragmentHeader header).fragmentOffset.toNat
  getMoreFragments header := (fragmentHeader header).moreFragments
  dataOffset := Ipv6Header.chunkLength
  dataLength header packet := getByteLength packet - header.chunkLength
  restored header _ := restoredHeader header
  toFields := Ipv6Fields.ofHeader

section Code

variable (sharing : Sharing F)

def addFragment (bufs : Buffers Ipv6Header Key F) (datagram : Datagram Ipv6Header F)
    (fh : Ipv6FragmentHeader) :
    Except ChunkError (Option (Datagram Ipv6Header F) × Buffers Ipv6Header Key F) := do
  let header := datagram.header
  let key : Key := ⟨fh.identification, header.srcAddress, header.destAddress⟩
  -- a buffer is created for the first fragment, also when the fragment is then discarded
  let buf := (bufs key).getD (.new Ipv6Header F)
  let fragmentLength : Int := getByteLength datagram.packet - header.chunkLength
  let offset : Int := fh.fragmentOffset.toNat
  if fh.moreFragments = true ∧ fragmentLength.tmod 8 ≠ 0 then
    return (none, Function.update bufs key (some buf))
  if 65535 < offset + fragmentLength then
    return (none, Function.update bufs key (some buf))
  match ← datagram.packet.peekDataAt sharing (8 * header.chunkLength) (8 * fragmentLength) {} with
  | none => throw (.error "chunk is nullptr")
  | some data =>
    let replaced ← buf.buf.replace sharing (8 * offset) data
    let collected := if fh.moreFragments then replaced
      else replaced.setExpectedLength (8 * (offset + fragmentLength))
    let packet := if offset = 0 then some datagram else buf.packet
    if collected.isComplete then
      match packet with
      | none => throw .undefinedBehaviour
      | some first =>
        let payload ← collected.getReassembledData
        let whole ← (format F).restore sharing first.header payload
        -- the iterator is past the end if the buffer was created by this call
        if (bufs key).isNone then throw .undefinedBehaviour
        return (some whole, Function.update bufs key none)
    else return (none, Function.update bufs key (some ⟨collected, packet⟩))

/-- What `localDeliver` passes on. -/
def localDeliver (bufs : Buffers Ipv6Header Key F) (datagram : Datagram Ipv6Header F) :
    Except ChunkError (Option (Datagram Ipv6Header F) × Buffers Ipv6Header Key F) :=
  match datagram.header.findFragmentHeader with
  | none => .ok (some datagram, bufs)
  | some fh => addFragment sharing bufs datagram fh

/-- What is passed on of one datagram after the other. -/
def localDeliverAll (bufs : Buffers Ipv6Header Key F) : List (Datagram Ipv6Header F) →
    Except ChunkError (List (Option (Datagram Ipv6Header F)) × Buffers Ipv6Header Key F)
  | [] => .ok ([], bufs)
  | datagram :: rest => do
    let (returned, bufs) ← localDeliver sharing bufs datagram
    let (others, bufs) ← localDeliverAll bufs rest
    return (returned :: others, bufs)

end Code
end Ipv6FragBuf

open Ipv6FragBuf

/-! ### Fragments that arrive -/

/-- A copy of a fragment behind some hops, which may be followed by padding of some bytes. -/
structure Arrives (padding : Nat) (fragment copy : Datagram Ipv6Header F) : Prop where
  header : ∃ hopLimit, copy.header = { fragment.header with hopLimit }
  carries : ∃ pad : List Bool, 8 ∣ pad.length ∧ pad.length ≤ 8 * padding ∧ ∀ bits,
    fragment.packet.Carries (headerBits F fragment.header ++ bits) →
      copy.packet.Carries (headerBits F copy.header ++ (bits ++ pad))

/-- A datagram with the payload, the extension headers and the lengths of another one. -/
structure SameAs (original : Datagram Ipv6Header F) (payload : List Bool)
    (whole : Datagram Ipv6Header F) : Prop where
  extensionHeader : whole.header.extensionHeader = original.header.extensionHeader
  chunkLength : whole.header.chunkLength = original.header.chunkLength
  carries : whole.packet.Carries (headerBits F whole.header ++ payload)

/-- Whichever fragments arrive, in any order and any number of times, the datagram is returned
with the last missing one, and then there is no buffer. -/
def Composes (sharing : Sharing F) (identification : UInt32) (datagram : Datagram Ipv6Header F)
    (payload : List Bool) (mtu : Int) (padding : Nat) : Prop :=
  ∃ fragments, createFragments sharing identification datagram mtu = .ok fragments ∧
    fragments ≠ [] ∧
    ∀ deliveries : List (Datagram Ipv6Header F × Datagram Ipv6Header F),
      (∀ delivery ∈ deliveries, delivery.1 ∈ fragments ∧ Arrives padding delivery.1 delivery.2) →
      ∃ results after, localDeliverAll sharing (fun _ => none) (deliveries.map (·.2)) =
          .ok (results, after) ∧
        Reassembles fragments (SameAs datagram payload) [] (deliveries.map (·.1)) results ∧
        ∀ whole, results.getLast? = some (some whole) → after = fun _ => none

/-- The condition under which fragmentation and reassembly are inverse. -/
structure Reassemblable (header : Ipv6Header) (payload : List Bool) (length : Int)
    (padding : Nat) : Prop where
  fits : payload.length ≤ 8 * 65535
  unfragmentable : header.AllUnfragmentable
  several : 8 * length < payload.length
  unpadded : padding = 0

theorem Arrives.refl (fragment : Datagram Ipv6Header F) : Arrives 0 fragment fragment where
  header := ⟨_, rfl⟩
  carries := ⟨[], by simp, by simp, fun bits carries => by rwa [List.append_nil]⟩

/-! ### Headers of fragments -/

theorem IsHeaderOf.hop {copy : Ipv6Header} (isHeader : IsHeaderOf original fh header)
    (hop : ∃ hopLimit, copy = { header with hopLimit }) : IsHeaderOf original fh copy := by
  obtain ⟨hopLimit, rfl⟩ := hop
  obtain ⟨before, same⟩ := isHeader.same
  refine ⟨⟨hopLimit, ?_⟩, isHeader.added⟩
  rw [same]

theorem IsHeaderOf.fragmentHeader
    (isHeader : IsHeaderOf original fh header) : fragmentHeader header = fh := by
  unfold Ipv6FragBuf.fragmentHeader
  rw [isHeader.added.findFragmentHeader]
  rfl

/-- The restored header has the length of what is unfragmentable. -/
theorem IsHeaderOf.restoredHeader (isHeader : IsHeaderOf original fh header) :
    ∃ hopLimit, restoredHeader header = { original with
      chunkLength := original.calculateUnfragmentableHeaderByteLength, hopLimit } := by
  obtain ⟨hopLimit, same⟩ := isHeader.same
  refine ⟨hopLimit, ?_⟩
  unfold Ipv6FragBuf.restoredHeader
  rw [isHeader.added.removeExtensionHeader, same]
  rfl

variable {original : Ipv6Header} {payload : List Bool} {identification : UInt32}
  {length offset : Nat} {fragment copy : Datagram Ipv6Header F}

/-- A copy without padding is a fragment of the payload. -/
theorem FragmentOf.isFragment
    (fragmentOf : FragmentOf original payload identification length offset fragment)
    (arrives : Arrives 0 fragment copy) (bytes : 8 ∣ payload.length) (positive : 0 < length)
    (fits : payload.length ≤ 8 * 65535) :
    (format F).IsFragment payload copy ∧ (format F).start copy = 8 * offset ∧
      (format F).length copy = min (8 * length) (payload.length - 8 * offset) := by
  have before := fragmentOf.before
  have isHeader := fragmentOf.header.hop arrives.header
  have fh_eq := isHeader.fragmentHeader
  obtain ⟨pad, _, short, carries⟩ := arrives.carries
  have carries := carries _ fragmentOf.carries
  rw [List.eq_nil_of_length_eq_zero (by omega : pad.length = 0), List.append_nil] at carries
  have this_length := length_part payload (8 * offset)
    (min (8 * length) (payload.length - 8 * offset)) (by omega)
  have start_eq : (format F).start copy = 8 * offset := by
    unfold FragmentFormat.start
    simp only [format, fh_eq, fragmentHeaderAt, UInt16.toNat_ofNat']
    omega
  have length_eq : (format F).length copy = min (8 * length) (payload.length - 8 * offset) := by
    unfold FragmentFormat.length
    simp only [format, getByteLength]
    rw [carries.getDataLength, List.length_append, length_headerBits, this_length]
    omega
  refine ⟨⟨?_, ?_, ?_, ⟨_, carries, ?_, ?_⟩, ?_, ?_⟩, start_eq, length_eq⟩
  · exact Int.natCast_nonneg _
  · omega
  · unfold FragmentFormat.stop
    omega
  · rw [length_eq, List.length_append, length_headerBits, this_length]
    exact Nat.le_refl _
  · rw [length_eq, start_eq, part_append_right _ _ _ _ (by rw [length_headerBits]; rfl),
      length_headerBits]
    simp only [format, Nat.sub_self]
    exact part_of_length _ _ this_length.symm
  · unfold FragmentFormat.stop
    rw [start_eq, length_eq]
    simp only [format, fh_eq, fragmentHeaderAt, decide_eq_true_eq]
    omega
  · obtain ⟨hopLimit, restored⟩ := isHeader.restoredHeader
    simp only [format, Ipv6Fields.length_serialize, restored]
    unfold Ipv6Header.calculateUnfragmentableHeaderByteLength Ipv6Header.lengthWith IPv6_HEADER_BYTES
    omega

/-! ### Collecting fragments -/

/-- Only the buffer of one datagram exists, from its first fragment on. -/
structure Kept (payload : List Bool) (key : Key) (arrived : List (Datagram Ipv6Header F))
    (bufs : Buffers Ipv6Header Key F) : Prop where
  others : ∀ other, other ≠ key → bufs other = none
  fresh : arrived = [] → bufs key = none
  held : arrived ≠ [] → bufs key ≠ none
  collects : (format F).Collects payload arrived ((bufs key).getD (.new Ipv6Header F))
  first : (∃ copy ∈ arrived, (format F).start copy = 0) →
    ((bufs key).getD (.new Ipv6Header F)).packet ≠ none

theorem kept_nil (payload : List Bool) (key : Key) :
    Kept payload key [] (fun _ => none : Buffers Ipv6Header Key F) where
  others _ _ := rfl
  fresh _ := rfl
  held some_arrived := absurd rfl some_arrived
  collects := FragmentFormat.new_collects
  first := by simp

/-- Fragments for the buffer: they have its key, and are long enough and not too long. -/
structure Accepted (payload : List Bool) (key : Key) (copy : Datagram Ipv6Header F) : Prop where
  fragment : (format F).IsFragment payload copy
  found : copy.header.findFragmentHeader = some (fragmentHeader copy.header)
  key : (format F).key copy.header = key
  aligned : (fragmentHeader copy.header).moreFragments = true → 64 ∣ (format F).length copy
  fits : payload.length ≤ 8 * 65535

variable {key : Key} {arrived : List (Datagram Ipv6Header F)} {bufs : Buffers Ipv6Header Key F}

/-- What an accepted fragment does to a buffer. -/
theorem Accepted.writes (accepted : Accepted payload key copy)
    (kept : Kept payload key arrived bufs) (sharing : Sharing F) :
    ∃ buffer : DatagramBuffer Ipv6Header F,
      (format F).Collects payload (copy :: arrived) buffer ∧
      ((∃ other ∈ copy :: arrived, (format F).start other = 0) → buffer.packet ≠ none) ∧
      addFragment sharing bufs copy (fragmentHeader copy.header) =
        if buffer.buf.isComplete then
          match buffer.packet with
          | none => .error .undefinedBehaviour
          | some first => do
            let payload ← buffer.buf.getReassembledData
            let whole ← (format F).restore sharing first.header payload
            if (bufs key).isNone then throw .undefinedBehaviour
            return (some whole, Function.update bufs key none)
        else .ok (none, Function.update bufs key (some buffer)) := by
  have fits := accepted.fits
  have inside := accepted.fragment.inside
  have positive := accepted.fragment.positive
  have aligned := accepted.aligned
  unfold FragmentFormat.stop FragmentFormat.start at inside
  unfold FragmentFormat.length at positive inside aligned
  simp only [format] at inside positive aligned
  obtain ⟨data, buf, peeked, replaced, collects⟩ := kept.collects.replaced sharing accepted.fragment
  generalize curBuf_eq : (bufs key).getD (.new Ipv6Header F) = curBuf at replaced collects
  -- the packet is that of the fragment at offset 0, and none before
  let packet := if ((fragmentHeader copy.header).fragmentOffset.toNat : Int) = 0 then some copy
    else curBuf.packet
  refine ⟨⟨_, packet⟩, collects packet ?_, ?_, ?_⟩
  · intro other same
    simp only [packet] at same
    split at same
    next =>
      cases same
      exact List.mem_cons_self
    next =>
      have old := kept.collects.packet other
      rw [curBuf_eq] at old
      exact List.mem_cons_of_mem _ (old same)
  · rintro ⟨other, member, starts⟩
    simp only [packet]
    split
    next => nofun
    next here =>
      have first := kept.first
      rw [curBuf_eq] at first
      rcases List.mem_cons.mp member with rfl | before
      · refine absurd ?_ here
        unfold FragmentFormat.start at starts
        simp only [format] at starts
        omega
      · exact first ⟨other, before, starts⟩
  · unfold addFragment
    have key_eq := accepted.key
    simp only [format] at key_eq peeked replaced
    simp only [key_eq, curBuf_eq]
    rw [if_neg ?_, if_neg ?_, peeked, ok_bind]
    · simp only
      rw [replaced, ok_bind]
      rfl
    · omega
    · rintro ⟨more, unaligned⟩
      have := aligned more
      rw [Int.tmod_eq_emod_of_nonneg (by omega)] at unaligned
      omega

/-- A fragment that completes the datagram returns it, unless it is the only one. -/
theorem Accepted.completes (accepted : Accepted payload key copy)
    (kept : Kept payload key arrived bufs) (sharing : Sharing F)
    (all : (format F).CoverAll payload (copy :: arrived)) :
    (arrived = [] → addFragment sharing bufs copy (fragmentHeader copy.header) =
      .error .undefinedBehaviour) ∧
    (arrived ≠ [] → ∃ whole, addFragment sharing bufs copy (fragmentHeader copy.header) =
        .ok (some whole, fun _ => none) ∧
      (format F).Restores payload (copy :: arrived) whole) := by
  have inside := accepted.fragment.inside
  have positive := accepted.fragment.positive
  unfold FragmentFormat.stop at inside
  have nonempty : 0 < payload.length := by omega
  obtain ⟨buffer, collects, started, added⟩ := accepted.writes kept sharing
  have complete := (collects.isComplete_iff nonempty).mpr all
  -- the first bit is covered, so that the fragment at offset 0 has arrived
  obtain ⟨first, first_eq⟩ := Option.ne_none_iff_exists'.mp (started (by
    obtain ⟨other, member, starts, _⟩ := all 0 nonempty
    exact ⟨other, member, by omega⟩))
  have member := collects.packet first first_eq
  obtain ⟨data, data_eq, insertable, bits_eq⟩ := collects.holding.getReassembledData nonempty
    (collects.expected_of_coverAll nonempty all) complete
  obtain ⟨whole, restored, restores⟩ := FragmentFormat.restore_restores sharing member
    (collects.fragments first member) insertable bits_eq
  rw [if_pos complete, first_eq] at added
  simp only at added
  rw [data_eq, ok_bind, restored, ok_bind] at added
  constructor
  · intro none_arrived
    rw [added, if_pos (by rw [kept.fresh none_arrived]; rfl)]
    rfl
  · intro some_arrived
    have held := kept.held some_arrived
    refine ⟨whole, ?_, restores⟩
    rw [added, if_neg (by simpa using held)]
    have cleared : Function.update bufs key none = fun _ => none := by
      funext other
      by_cases here : other = key
      · rw [here, Function.update_self]
      · rw [Function.update_of_ne here, kept.others other here]
    rw [cleared]
    rfl

/-- Any other fragment is kept. -/
theorem Accepted.collected (accepted : Accepted payload key copy)
    (kept : Kept payload key arrived bufs) (sharing : Sharing F)
    (missing : ¬(format F).CoverAll payload (copy :: arrived)) :
    ∃ after, addFragment sharing bufs copy (fragmentHeader copy.header) = .ok (none, after) ∧
      Kept payload key (copy :: arrived) after := by
  have inside := accepted.fragment.inside
  have positive := accepted.fragment.positive
  unfold FragmentFormat.stop at inside
  obtain ⟨buffer, collects, started, added⟩ := accepted.writes kept sharing
  rw [if_neg fun complete => missing ((collects.isComplete_iff (by omega)).mp complete)] at added
  refine ⟨_, added, ?_, nofun, ?_, ?_, ?_⟩
  · intro other there
    rw [Function.update_of_ne there, kept.others other there]
  · rw [Function.update_self]
    nofun
  · rw [Function.update_self]
    exact collects
  · rw [Function.update_self]
    exact started

/-! ### Delivering fragments -/

theorem Accepted.delivered (accepted : Accepted payload key copy) (sharing : Sharing F)
    (bufs : Buffers Ipv6Header Key F) : localDeliver sharing bufs copy =
      addFragment sharing bufs copy (fragmentHeader copy.header) := by
  unfold localDeliver
  rw [accepted.found]

/-- The key of the fragments of a datagram. -/
def keyOf (identification : UInt32) (header : Ipv6Header) : Key :=
  ⟨identification, header.srcAddress, header.destAddress⟩

theorem FragmentOf.accepted
    (fragmentOf : FragmentOf original payload identification length offset fragment)
    (arrives : Arrives 0 fragment copy) (bytes : 8 ∣ payload.length) (positive : 0 < length)
    (aligned : 8 ∣ length) (fits : payload.length ≤ 8 * 65535) :
    Accepted payload (keyOf identification original) copy := by
  obtain ⟨isFragment, start_eq, length_eq⟩ := fragmentOf.isFragment arrives bytes positive fits
  have isHeader := fragmentOf.header.hop arrives.header
  have fh_eq := isHeader.fragmentHeader
  refine ⟨isFragment, ?_, ?_, ?_, fits⟩
  · rw [fh_eq]
    exact isHeader.added.findFragmentHeader
  · obtain ⟨hopLimit, same⟩ := isHeader.same
    unfold format
    simp only [fh_eq]
    rw [same]
    rfl
  · rw [fh_eq, length_eq]
    unfold fragmentHeaderAt
    simp only [decide_eq_true_eq]
    omega

/-- Fragments cover the payload in their order. -/
theorem FragmentsOf.tiles
    (fragmentsOf : FragmentsOf original payload identification length offset fragments)
    (bytes : 8 ∣ payload.length) (positive : 0 < length) (fits : payload.length ≤ 8 * 65535)
    (inside : 8 * offset ≤ payload.length) :
    Tiles (format F).start (format F).stop (8 * offset) fragments payload.length := by
  induction fragmentsOf with
  | nil done =>
    rw [show 8 * _ = payload.length from Nat.le_antisymm inside done]
    exact .nil _
  | @cons offset first rest here later ih =>
    obtain ⟨_, start_eq, length_eq⟩ := here.isFragment (.refl first) bytes positive fits
    have before := here.before
    have stop_eq : (format F).stop first = min (8 * (offset + length)) payload.length := by
      unfold FragmentFormat.stop
      omega
    have tail : Tiles (format F).start (format F).stop ((format F).stop first) rest
        payload.length := by
      by_cases more : 8 * (offset + length) ≤ payload.length
      · rw [stop_eq, Nat.min_eq_left more]
        exact ih more
      · cases later with
        | nil done =>
          rw [stop_eq, Nat.min_eq_right (by omega)]
          exact .nil _
        | cons behind later => exact absurd behind.before (by omega)
    rw [← start_eq]
    exact .cons (by omega) tail

/-- A copy starts and stops where its fragment does. -/
theorem FragmentOf.spans
    (fragmentOf : FragmentOf original payload identification length offset fragment)
    (arrives : Arrives 0 fragment copy) (bytes : 8 ∣ payload.length) (positive : 0 < length)
    (fits : payload.length ≤ 8 * 65535) :
    (format F).start copy = (format F).start fragment ∧
      (format F).stop copy = (format F).stop fragment := by
  obtain ⟨_, start_eq, length_eq⟩ := fragmentOf.isFragment arrives bytes positive fits
  obtain ⟨_, start_eq', length_eq'⟩ := fragmentOf.isFragment (.refl fragment) bytes positive fits
  unfold FragmentFormat.stop
  rw [start_eq, length_eq, start_eq', length_eq']
  exact ⟨rfl, rfl⟩

/-- Everything is covered once a copy of each fragment has arrived. -/
theorem FragmentsOf.coverAll_iff
    (fragmentsOf : FragmentsOf original payload identification length 0 fragments)
    (bytes : 8 ∣ payload.length) (positive : 0 < length) (fits : payload.length ≤ 8 * 65535)
    {arrived : List (Datagram Ipv6Header F × Datagram Ipv6Header F)}
    (each : ∀ delivery ∈ arrived, delivery.1 ∈ fragments ∧ Arrives 0 delivery.1 delivery.2) :
    (format F).CoverAll payload (arrived.map (·.2)) ↔
      ∀ fragment ∈ fragments, fragment ∈ arrived.map (·.1) := by
  have tiles := fragmentsOf.tiles bytes positive fits (by omega)
  have among : ∀ fragment ∈ arrived.map (·.1), fragment ∈ fragments := by
    intro fragment member
    obtain ⟨delivery, there, rfl⟩ := List.mem_map.mp member
    exact (each delivery there).1
  rw [← tiles.coverAll_iff among, FragmentFormat.CoverAll]
  refine forall_congr' fun i => ?_
  simp only [Nat.zero_le, Nat.mul_zero, true_imp_iff, List.mem_map, exists_exists_and_eq_and]
  refine imp_congr_right fun _ => exists_congr fun delivery => and_congr_right fun member => ?_
  obtain ⟨here, arrives⟩ := each delivery member
  obtain ⟨start, _, _, fragmentOf⟩ := fragmentsOf.each delivery.1 here
  obtain ⟨same_start, same_stop⟩ := fragmentOf.spans arrives bytes positive fits
  rw [same_start, same_stop]

/-- What is restored of fragments is the datagram they were made of. -/
theorem FragmentsOf.sameAs {datagram whole : Datagram Ipv6Header F}
    (fragmentsOf : FragmentsOf datagram.header payload identification length 0 fragments)
    (legal : datagram.header.Legal) (unfragmentable : datagram.header.AllUnfragmentable)
    {arrived : List (Datagram Ipv6Header F × Datagram Ipv6Header F)}
    (each : ∀ delivery ∈ arrived, delivery.1 ∈ fragments ∧ Arrives 0 delivery.1 delivery.2)
    (restores : (format F).Restores payload (arrived.map (·.2)) whole) :
    SameAs datagram payload whole := by
  obtain ⟨first, member, header_eq⟩ := restores.header
  obtain ⟨delivery, there, rfl⟩ := List.mem_map.mp member
  obtain ⟨here, arrives⟩ := each delivery there
  obtain ⟨start, _, _, fragmentOf⟩ := fragmentsOf.each delivery.1 here
  obtain ⟨hopLimit, restored⟩ := (fragmentOf.header.hop arrives.header).restoredHeader
  have header_eq : whole.header = { datagram.header with
      chunkLength := datagram.header.calculateUnfragmentableHeaderByteLength, hopLimit } :=
    header_eq.trans restored
  refine ⟨?_, ?_, restores.carries⟩
  · rw [header_eq]
  · rw [header_eq]
    exact legal.allUnfragmentable_iff.mp unfragmentable

/-- The buffers see to it that the fragments of a datagram reassemble. -/
theorem localDeliverAll_reassembles (sharing : Sharing F) {datagram : Datagram Ipv6Header F}
    (holds : Holds datagram payload)
    (legal : datagram.header.Legal) (unfragmentable : datagram.header.AllUnfragmentable)
    (fragmentsOf : FragmentsOf datagram.header payload identification length 0 fragments)
    (positive : 0 < length) (aligned : 8 ∣ length) (fits : payload.length ≤ 8 * 65535)
    (several : 8 * length < payload.length)
    {deliveries : List (Datagram Ipv6Header F × Datagram Ipv6Header F)}
    (each : ∀ delivery ∈ deliveries, delivery.1 ∈ fragments ∧ Arrives 0 delivery.1 delivery.2)
    (before : List (Datagram Ipv6Header F × Datagram Ipv6Header F))
    (each_before : ∀ delivery ∈ before, delivery.1 ∈ fragments ∧ Arrives 0 delivery.1 delivery.2)
    (bufs : Buffers Ipv6Header Key F)
    (kept : Kept payload (keyOf identification datagram.header) (before.map (·.2)) bufs) :
    ∃ results after, localDeliverAll sharing bufs (deliveries.map (·.2)) = .ok (results, after) ∧
      Reassembles fragments (SameAs datagram payload) (before.map (·.1)) (deliveries.map (·.1))
        results ∧
      ∀ whole, results.getLast? = some (some whole) → after = fun _ => none := by
  have bytes := holds.bytes
  have tiles := fragmentsOf.tiles bytes positive fits (by omega)
  induction deliveries generalizing before bufs with
  | nil => exact ⟨[], bufs, rfl, .nil _, nofun⟩
  | cons delivery rest ih =>
    obtain ⟨⟨member, arrives⟩, later⟩ := List.forall_mem_cons.mp each
    obtain ⟨start, _, _, fragmentOf⟩ := fragmentsOf.each delivery.1 member
    have accepted := fragmentOf.accepted arrives bytes positive aligned fits
    have each_after := List.forall_mem_cons.mpr ⟨⟨member, arrives⟩, each_before⟩
    have covers := fragmentsOf.coverAll_iff bytes positive fits each_after
    rw [List.map_cons, List.map_cons] at covers
    by_cases all : (format F).CoverAll payload (delivery.2 :: before.map (·.2))
    · obtain ⟨_, completes⟩ := accepted.completes kept sharing all
      -- no fragment is as long as the payload, so that another one has arrived before
      have some_before : before.map (·.2) ≠ [] := by
        intro none_before
        rw [none_before] at all
        obtain ⟨_, start_eq, length_eq⟩ := fragmentOf.isFragment arrives bytes positive fits
        obtain ⟨first, first_member, starts, _⟩ := all 0 (by omega)
        obtain ⟨last, last_member, _, stops⟩ := all (payload.length - 1) (by omega)
        rw [List.mem_singleton.mp first_member] at starts
        rw [List.mem_singleton.mp last_member] at stops
        unfold FragmentFormat.stop at stops
        omega
      obtain ⟨whole, added, restores⟩ := completes some_before
      obtain ⟨results, after, rest_eq, reassembles, clears⟩ := ih later [] (by simp) _
        (kept_nil payload _)
      refine ⟨some whole :: results, after, ?_, .complete (covers.mp all)
        (fragmentsOf.sameAs legal unfragmentable each_after restores) reassembles, ?_⟩
      · rw [List.map_cons, localDeliverAll, accepted.delivered, added, ok_bind]
        simp only
        rw [rest_eq]
        rfl
      · cases rest with
        | nil =>
          cases rest_eq
          exact fun _ _ => rfl
        | cons =>
          cases reassembles with
          | missing => exact fun whole last => clears whole (by simpa using last)
          | complete => exact fun whole last => clears whole (by simpa using last)
    · obtain ⟨after, added, kept_after⟩ := accepted.collected kept sharing all
      obtain ⟨results, after, rest_eq, reassembles, clears⟩ := ih later (delivery :: before)
        each_after _ kept_after
      refine ⟨none :: results, after, ?_, .missing (by simpa using fun h => all (covers.mpr h))
        reassembles, ?_⟩
      · rw [List.map_cons, localDeliverAll, accepted.delivered, added, ok_bind]
        simp only
        rw [rest_eq]
        rfl
      · cases results with
        | nil => exact fun _ => nofun
        | cons => exact fun whole last => clears whole (by simpa using last)

end Inet.Ipv6
