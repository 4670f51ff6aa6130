import Inet.Packet.Datagram
import Inet.Packet.ReassemblyBuffer

/-!
# Fragment buffers

The fragment buffers of the protocols differ in how they read a header and in how they restore
it. Each one is `addFragment` with a format of its own. Lengths and offsets in headers are in
bytes.
-/
namespace Inet.Packet

open Lib Chunk

variable {F : Type} [Fields F]
variable (sharing : Sharing F)

/-- A length in bytes. -/
def toBytes (length : Int) : Except ChunkError Int :=
  if length % 8 ≠ 0 then .error (.error "Cannot convert between integer units")
  else .ok (length / 8)

theorem toBytes_eq {length bytes : Int} (returned : toBytes length = .ok bytes) :
    length = 8 * bytes := by
  unfold toBytes at returned
  split at returned
  next => cases returned
  next =>
    cases returned
    omega

theorem toBytes_bytes (bytes : Int) : toBytes (8 * bytes) = .ok bytes := by
  unfold toBytes
  rw [if_neg (by omega)]
  congr 1
  omega

def getByteLength (packet : Packet F) : Int := (packet.getDataLength + 7) / 8

/-- A packet and the header it starts with, which `peekAtFront` returns by its type. -/
structure Datagram (H F : Type) where
  header : H
  packet : Packet F

/-- How a fragment buffer reads the header of a fragment and restores that of a datagram. -/
structure FragmentFormat (H K F : Type) where
  key : H → K
  getFragmentOffset : H → Int
  getMoreFragments : H → Bool
  dataOffset : H → Nat
  dataLength : H → Packet F → Int
  /-- The header of a complete datagram, given the length of its payload. -/
  restored : H → Int → H
  /-- The header as a `FieldsChunk`. -/
  toFields : H → F

/-- What a fragment buffer keeps of one datagram. -/
structure DatagramBuffer (H F : Type) where
  buf : ReassemblyBuffer F
  packet : Option (Datagram H F)

def DatagramBuffer.new (H F : Type) : DatagramBuffer H F := ⟨.empty F, none⟩

/-- The buffers of a fragment buffer by their keys. -/
abbrev Buffers (H K F : Type) := K → Option (DatagramBuffer H F)

namespace FragmentFormat

variable {H K : Type} [DecidableEq K] (format : FragmentFormat H K F)

/-- The complete datagram. -/
def restore (sharing : Sharing F) (header : H) (payload : Chunk F) :
    Except ChunkError (Datagram H F) := do
  let header := format.restored header (payload.getChunkLength / 8)
  let packet ← (Packet.ofContent .empty).insertAtFront sharing (.fields (format.toFields header))
  let packet ← packet.insertAtBack sharing payload
  return ⟨header, packet⟩

def addFragment (sharing : Sharing F) (bufs : Buffers H K F) (datagram : Datagram H F) :
    Except ChunkError (Option (Datagram H F) × Buffers H K F) := do
  let header := datagram.header
  let curBuf := (bufs (format.key header)).getD (.new H F)
  let bytes := format.dataLength header datagram.packet
  if bytes ≤ 0 then throw (.error "ASSERT: Condition does not hold")
  match ← datagram.packet.peekDataAt sharing (8 * format.dataOffset header) (8 * bytes) {} with
  | none => throw (.error "chunk is nullptr")
  | some data =>
    let buf ← curBuf.buf.replace sharing (8 * format.getFragmentOffset header) data
    let buf := if format.getMoreFragments header then buf
      else buf.setExpectedLength (8 * (format.getFragmentOffset header + bytes))
    let packet := if format.getFragmentOffset header = 0 then datagram
      else curBuf.packet.getD datagram
    if buf.isComplete then do
      let payload ← buf.getReassembledData
      let whole ← format.restore sharing packet.header payload
      return (some whole, Function.update bufs (format.key header) none)
    else return (none, Function.update bufs (format.key header) (some ⟨buf, some packet⟩))

/-! ### Fragments of some bits -/

def start (datagram : Datagram H F) : Nat := (8 * format.getFragmentOffset datagram.header).toNat

def length (datagram : Datagram H F) : Nat :=
  (8 * format.dataLength datagram.header datagram.packet).toNat

def stop (datagram : Datagram H F) : Nat := format.start datagram + format.length datagram

/-- A datagram that carries a part of some bits, as its header says. -/
structure IsFragment (bits : List Bool) (datagram : Datagram H F) : Prop where
  offset : 0 ≤ format.getFragmentOffset datagram.header
  positive : 0 < format.length datagram
  inside : format.stop datagram ≤ bits.length
  carries : ∃ data, datagram.packet.Carries data ∧
    8 * format.dataOffset datagram.header + format.length datagram ≤ data.length ∧
    part data (8 * format.dataOffset datagram.header) (format.length datagram) =
      part bits (format.start datagram) (format.length datagram)
  more : format.getMoreFragments datagram.header = true ↔ format.stop datagram ≠ bits.length
  headed : 0 < (Fields.serialize
    (format.toFields (format.restored datagram.header (bits.length / 8)))).length

/-- What a buffer has collected of some bits. -/
structure Collects (bits : List Bool) (arrived : List (Datagram H F))
    (buffer : DatagramBuffer H F) : Prop where
  fragments : ∀ datagram ∈ arrived, format.IsFragment bits datagram
  holding : buffer.buf.Holding bits fun i =>
    ∃ datagram ∈ arrived, format.start datagram ≤ i ∧ i < format.stop datagram
  expected : ∀ datagram ∈ arrived, format.getMoreFragments datagram.header = false →
    buffer.buf.expectedLength = bits.length
  unexpected : (∀ datagram ∈ arrived, format.getMoreFragments datagram.header = true) →
    buffer.buf.expectedLength = -1
  packet : ∀ datagram, buffer.packet = some datagram → datagram ∈ arrived

/-- The datagram that is made of some bits and the header of a fragment. -/
structure Restores (bits : List Bool) (arrived : List (Datagram H F)) (whole : Datagram H F) :
    Prop where
  header : ∃ first ∈ arrived, whole.header = format.restored first.header (bits.length / 8)
  carries : whole.packet.Carries (Fields.serialize (format.toFields whole.header) ++ bits)
  unpopped : whole.packet.Unpopped

/-- Some fragments cover all of the bits. -/
def CoverAll (bits : List Bool) (arrived : List (Datagram H F)) : Prop :=
  ∀ i, i < bits.length → ∃ datagram ∈ arrived, format.start datagram ≤ i ∧ i < format.stop datagram

variable {format} {bits : List Bool} {arrived : List (Datagram H F)}

omit [DecidableEq K] in
theorem new_collects : format.Collects bits [] (.new H F) where
  fragments := by simp
  holding := by simpa [DatagramBuffer.new] using ReassemblyBuffer.empty_holding bits
  expected := by simp
  unexpected _ := rfl
  packet := nofun

variable {buffer : DatagramBuffer H F}

omit [DecidableEq K] in
theorem Collects.fragments_cons {datagram : Datagram H F}
    (collects : format.Collects bits arrived buffer) (fragment : format.IsFragment bits datagram) :
    ∀ other ∈ datagram :: arrived, format.IsFragment bits other :=
  List.forall_mem_cons.mpr ⟨fragment, collects.fragments⟩

omit [DecidableEq K] in
/-- A buffer expects all of the bits once the last fragment has arrived. -/
theorem Collects.expected_of_coverAll
    (collects : format.Collects bits arrived buffer) (nonempty : 0 < bits.length)
    (all : format.CoverAll bits arrived) : buffer.buf.expectedLength = bits.length := by
  obtain ⟨datagram, member, started, inside⟩ := all (bits.length - 1) (by omega)
  have fragment := collects.fragments datagram member
  have within := fragment.inside
  apply collects.expected datagram member
  rw [Bool.eq_false_iff]
  intro more
  exact fragment.more.mp more (by omega)

omit [DecidableEq K] in
/-- The buffer is complete when everything is covered. -/
theorem Collects.isComplete_iff
    (collects : format.Collects bits arrived buffer) (nonempty : 0 < bits.length) :
    buffer.buf.isComplete = true ↔ format.CoverAll bits arrived := by
  constructor
  · intro complete
    by_cases last : ∃ datagram ∈ arrived, format.getMoreFragments datagram.header = false
    · obtain ⟨datagram, member, last⟩ := last
      exact (collects.holding.isComplete_iff nonempty
        (collects.expected datagram member last)).mp complete
    · have unexpected := collects.unexpected fun datagram member => by
        by_contra more
        exact last ⟨datagram, member, Bool.eq_false_iff.mpr more⟩
      unfold ReassemblyBuffer.isComplete at complete
      split at complete
      next region only =>
        have := (of_decide_eq_true complete).2
        omega
      next => cases complete
  · intro all
    exact (collects.holding.isComplete_iff nonempty
      (collects.expected_of_coverAll nonempty all)).mpr all

omit [DecidableEq K] in
/-- The header and the data of a complete datagram. -/
theorem restore_restores {first : Datagram H F} (member : first ∈ arrived)
    (fragment : format.IsFragment bits first) {payload : Chunk F} (insertable : payload.Insertable)
    (bits_eq : payload.bits = bits) :
    ∃ whole, format.restore sharing first.header payload = .ok whole ∧
      format.Restores bits arrived whole := by
  have length_eq : payload.getChunkLength = bits.length := by
    rw [← bits_eq, insertable.wf.length_bits]
  have headed := fragment.headed
  unfold restore
  simp only [length_eq]
  obtain ⟨started, started_eq, unpopped, carries⟩ := Packet.empty_carries.insertAtFront
    Packet.empty_unpopped sharing
    (.fields (format.toFields (format.restored first.header (bits.length / 8))))
    ⟨.fields _, headed, .fields _⟩
  obtain ⟨ended, ended_eq, unpopped, carries⟩ := carries.insertAtBack unpopped sharing insertable
  rw [started_eq, ok_bind, ended_eq, ok_bind]
  refine ⟨_, rfl, ⟨first, member, rfl⟩, ?_, unpopped⟩
  rw [List.append_nil, bits_eq] at carries
  exact carries

omit [DecidableEq K] in
/-- The data of a fragment is written to the buffer. -/
theorem Collects.replaced {curBuf : DatagramBuffer H F}
    {datagram : Datagram H F} (collects : format.Collects bits arrived curBuf)
    (fragment : format.IsFragment bits datagram) :
    ∃ data buf, datagram.packet.peekDataAt sharing (8 * format.dataOffset datagram.header)
        (8 * format.dataLength datagram.header datagram.packet) {} = .ok (some data) ∧
      curBuf.buf.replace sharing (8 * format.getFragmentOffset datagram.header) data = .ok buf ∧
      ∀ packet, (∀ other, packet = some other → other ∈ datagram :: arrived) →
        format.Collects bits (datagram :: arrived)
          ⟨if format.getMoreFragments datagram.header then buf
            else buf.setExpectedLength (8 * (format.getFragmentOffset datagram.header +
              format.dataLength datagram.header datagram.packet)), packet⟩ := by
  obtain ⟨data, carries, within, designated⟩ := fragment.carries
  have positive := fragment.positive
  have inside := fragment.inside
  have offset := fragment.offset
  unfold stop at inside
  have start_eq : 8 * format.getFragmentOffset datagram.header = (format.start datagram : Int) := by
    unfold start
    omega
  have length_eq : 8 * format.dataLength datagram.header datagram.packet =
      (format.length datagram : Int) := by
    unfold length at positive ⊢
    omega
  obtain ⟨chunk, peeked, insertable, chunk_length, chunk_bits⟩ := carries.peekDataAt sharing _ _
    positive within
  obtain ⟨buf, replaced, same, holding⟩ := collects.holding.replace sharing (format.start datagram)
    insertable (by rw [chunk_length]; exact inside)
    (by rw [chunk_bits, chunk_length]; exact designated)
  refine ⟨chunk, buf, by rw [length_eq]; exact peeked, by rw [start_eq]; exact replaced, ?_⟩
  intro packet among
  have stop_eq : format.stop datagram = format.start datagram + format.length datagram := rfl
  refine ⟨collects.fragments_cons fragment, ?_, ?_, ?_, among⟩
  · have covered : buf.Holding bits fun i => ∃ other ∈ datagram :: arrived,
        format.start other ≤ i ∧ i < format.stop other := by
      rw [chunk_length, ← stop_eq] at holding
      simpa only [List.exists_mem_cons_iff, or_comm] using holding
    dsimp only
    split
    · exact covered
    · exact covered.setExpectedLength _
  · intro other member last
    dsimp only
    split
    next more =>
      rcases List.mem_cons.mp member with rfl | member
      · rw [more] at last
        cases last
      · rw [same]
        exact collects.expected other member last
    next more =>
      have ends : format.stop datagram = bits.length := by
        by_contra before
        exact more (fragment.more.mpr before)
      simp only [ReassemblyBuffer.setExpectedLength]
      omega
  · intro more
    dsimp only
    rw [if_pos (more datagram List.mem_cons_self), same]
    exact collects.unexpected fun other member => more other (List.mem_cons_of_mem _ member)

/-- A fragment completes the datagram or is collected. -/
theorem addFragment_collects (bufs : Buffers H K F) (datagram : Datagram H F)
    (collects : format.Collects bits arrived
      ((bufs (format.key datagram.header)).getD (.new H F)))
    (fragment : format.IsFragment bits datagram) :
    (format.CoverAll bits (datagram :: arrived) → ∃ whole,
      format.addFragment sharing bufs datagram =
        .ok (some whole, Function.update bufs (format.key datagram.header) none) ∧
      format.Restores bits (datagram :: arrived) whole) ∧
    (¬format.CoverAll bits (datagram :: arrived) → ∃ buffer,
      format.addFragment sharing bufs datagram =
        .ok (none, Function.update bufs (format.key datagram.header) (some buffer)) ∧
      format.Collects bits (datagram :: arrived) buffer) := by
  have positive := fragment.positive
  have inside := fragment.inside
  unfold stop at inside
  have long : 0 < format.dataLength datagram.header datagram.packet := by
    unfold length at positive
    omega
  generalize curBuf_eq : (bufs (format.key datagram.header)).getD (.new H F) = curBuf at collects
  obtain ⟨data, buf, peeked, replaced, collects_with⟩ := collects.replaced sharing fragment
  -- the buffer after the new fragment is written, and perhaps the length is known
  let expecting := if format.getMoreFragments datagram.header then buf
    else buf.setExpectedLength (8 * (format.getFragmentOffset datagram.header +
      format.dataLength datagram.header datagram.packet))
  let packet := if format.getFragmentOffset datagram.header = 0 then datagram
    else curBuf.packet.getD datagram
  have collects_after : format.Collects bits (datagram :: arrived) ⟨expecting, some packet⟩ := by
    refine collects_with (some packet) ?_
    rintro other ⟨⟩
    simp only [packet]
    split
    · exact List.mem_cons_self
    · cases held : curBuf.packet with
      | none => exact List.mem_cons_self
      | some first => exact List.mem_cons_of_mem _ (collects.packet first held)
  have nonempty : 0 < bits.length := by omega
  have complete_iff := collects_after.isComplete_iff nonempty
  have added : format.addFragment sharing bufs datagram =
      if expecting.isComplete then do
        let payload ← expecting.getReassembledData
        let whole ← format.restore sharing packet.header payload
        return (some whole, Function.update bufs (format.key datagram.header) none)
      else .ok (none, Function.update bufs (format.key datagram.header)
        (some ⟨expecting, some packet⟩)) := by
    unfold addFragment
    simp only [curBuf_eq]
    rw [if_neg (by omega), peeked, ok_bind]
    simp only
    rw [replaced, ok_bind]
    rfl
  rw [added]
  constructor
  · intro all
    have complete := complete_iff.mpr all
    obtain ⟨payload, payload_eq, insertable, bits_eq⟩ := collects_after.holding.getReassembledData
      nonempty (collects_after.expected_of_coverAll nonempty all) complete
    have member := collects_after.packet packet rfl
    obtain ⟨whole, restored, restores⟩ := restore_restores sharing member
      (collects_after.fragments packet member) insertable bits_eq
    refine ⟨whole, ?_, restores⟩
    rw [if_pos complete, payload_eq, ok_bind, restored, ok_bind]
    rfl
  · intro missing
    refine ⟨_, ?_, collects_after⟩
    rw [if_neg fun complete => missing (complete_iff.mp complete)]

end FragmentFormat

/-! ### Delivering fragments -/

/-- A fragment that completes a datagram returns it, and any other one returns nothing. What
arrived before is forgotten with every datagram that is returned. -/
inductive Reassembles {D : Type} (fragments : List D) (Original : D → Prop) :
    List D → List D → List (Option D) → Prop
  | nil (arrived : List D) : Reassembles fragments Original arrived [] []
  | missing {arrived rest : List D} {results : List (Option D)} {fragment : D}
      (some_missing : ∃ other ∈ fragments, other ∉ fragment :: arrived)
      (later : Reassembles fragments Original (fragment :: arrived) rest results) :
      Reassembles fragments Original arrived (fragment :: rest) (none :: results)
  | complete {arrived rest : List D} {results : List (Option D)} {fragment whole : D}
      (all_arrived : ∀ other ∈ fragments, other ∈ fragment :: arrived) (original : Original whole)
      (later : Reassembles fragments Original [] rest results) :
      Reassembles fragments Original arrived (fragment :: rest) (some whole :: results)

/-- A datagram is returned once every fragment is delivered. -/
theorem Reassembles.completes {D : Type} {fragments arrived deliveries : List D}
    {Original : D → Prop} {results : List (Option D)}
    (reassembles : Reassembles fragments Original arrived deliveries results)
    (some_delivered : deliveries ≠ [])
    (all : ∀ fragment ∈ fragments, fragment ∈ arrived ∨ fragment ∈ deliveries) :
    ∃ whole, some whole ∈ results ∧ Original whole := by
  induction reassembles with
  | nil => exact absurd rfl some_delivered
  | @missing arrived rest results fragment some_missing later ih =>
    have all_later : ∀ other ∈ fragments, other ∈ fragment :: arrived ∨ other ∈ rest := by
      intro other member
      rcases all other member with before | now
      · exact .inl (List.mem_cons_of_mem _ before)
      · rcases List.mem_cons.mp now with rfl | behind
        · exact .inl List.mem_cons_self
        · exact .inr behind
    have some_later : rest ≠ [] := by
      rintro rfl
      obtain ⟨other, member, missing⟩ := some_missing
      exact missing ((all_later other member).resolve_right (by simp))
    obtain ⟨whole, member, original⟩ := ih some_later all_later
    exact ⟨whole, List.mem_cons_of_mem _ member, original⟩
  | complete _ original _ => exact ⟨_, List.mem_cons_self, original⟩

end Inet.Packet
