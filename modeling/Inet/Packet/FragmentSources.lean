import Inet.Packet.FragmentBuffer

/-!
# Where the bits of a complete datagram come from

Fragments need not belong together to be put together. What a fragment buffer returns is made of
the fragments that its buffer was given, whichever they are.
-/
namespace Inet.Packet

open Lib Chunk ChunkBuffer

variable {F : Type} [Fields F]

namespace FragmentFormat

variable {H K : Type} [DecidableEq K] (format : FragmentFormat H K F)

/-- The buffer of a datagram once a fragment is written to it. -/
def expecting (datagram : Datagram H F) (buf : ReassemblyBuffer F) : ReassemblyBuffer F :=
  if format.getMoreFragments datagram.header then buf
  else buf.setExpectedLength (8 * (format.getFragmentOffset datagram.header +
    format.dataLength datagram.header datagram.packet))

/-- The buffer of the datagram that a fragment belongs to. -/
def bufferOf (bufs : Buffers H K F) (datagram : Datagram H F) : DatagramBuffer H F :=
  (bufs (format.key datagram.header)).getD (.new H F)

/-- The packet that is kept with a buffer. -/
def keptPacket (buffer : DatagramBuffer H F) (datagram : Datagram H F) : Datagram H F :=
  if format.getFragmentOffset datagram.header = 0 then datagram else buffer.packet.getD datagram

variable {format} {sharing : Sharing F} {bufs after : Buffers H K F} {datagram : Datagram H F}
  {result : Option (Datagram H F)}

/-- What `addFragment` can do. -/
theorem addFragment_cases (returned : format.addFragment sharing bufs datagram =
      .ok (result, after)) :
    0 < format.dataLength datagram.header datagram.packet ∧
    ∃ data buf, datagram.packet.peekDataAt sharing (8 * format.dataOffset datagram.header)
        (8 * format.dataLength datagram.header datagram.packet) {} = .ok (some data) ∧
      (format.bufferOf bufs datagram).buf.replace sharing
        (8 * format.getFragmentOffset datagram.header) data = .ok buf ∧
      let kept := format.keptPacket (format.bufferOf bufs datagram) datagram
      ((format.expecting datagram buf).isComplete = true ∧
        (∃ payload whole, (format.expecting datagram buf).getReassembledData = .ok payload ∧
          format.restore sharing kept.header payload = .ok whole ∧ result = some whole) ∧
        after = Function.update bufs (format.key datagram.header) none ∨
      (format.expecting datagram buf).isComplete = false ∧ result = none ∧
        after = Function.update bufs (format.key datagram.header)
          (some ⟨format.expecting datagram buf, some kept⟩)) := by
  unfold addFragment at returned
  simp only at returned
  split at returned
  next => cases returned
  next positive =>
    refine ⟨by omega, ?_⟩
    obtain ⟨peeked, peeked_eq, returned⟩ := bind_eq_ok.mp returned
    cases peeked with
    | none => cases returned
    | some data =>
      obtain ⟨buf, replaced, returned⟩ := bind_eq_ok.mp returned
      refine ⟨data, buf, peeked_eq, replaced, ?_⟩
      change (if (format.expecting datagram buf).isComplete then _ else _) = _ at returned
      split at returned
      next complete =>
        obtain ⟨payload, payload_eq, returned⟩ := bind_eq_ok.mp returned
        obtain ⟨whole, restored, ⟨⟩⟩ := bind_eq_ok.mp returned
        exact .inl ⟨complete, ⟨payload, whole, payload_eq, restored, rfl⟩, rfl⟩
      next incomplete =>
        cases returned
        exact .inr ⟨Bool.eq_false_iff.mpr incomplete, rfl, rfl⟩

omit [DecidableEq K] in
/-- The header and the data of what is restored. -/
theorem restore_carries {header : H} {payload : Chunk F} {whole : Datagram H F}
    (insertable : payload.Insertable)
    (returned : format.restore sharing header payload = .ok whole) :
    whole.header = format.restored header (payload.bits.length / 8) ∧
      whole.packet.Carries (Fields.serialize (format.toFields whole.header) ++ payload.bits) := by
  unfold restore at returned
  simp only [← insertable.wf.length_bits] at returned
  obtain ⟨started, started_eq, returned⟩ := bind_eq_ok.mp returned
  obtain ⟨ended, ended_eq, ⟨⟩⟩ := bind_eq_ok.mp returned
  have headed : 0 < (Chunk.fields (format.toFields
      (format.restored header (payload.bits.length / 8)))).getChunkLength := by
    by_contra none
    rw [Packet.insertAtFront, Packet.insertAt, if_pos (by omega)] at started_eq
    cases started_eq
  obtain ⟨unpopped, carries⟩ := Packet.empty_carries.insertedAtFront Packet.empty_unpopped
    ⟨.fields _, headed, .fields _⟩ started_eq
  obtain ⟨_, carries⟩ := carries.insertedAtBack unpopped insertable ended_eq
  rw [List.append_nil] at carries
  exact ⟨rfl, carries⟩

omit [Fields F] [DecidableEq K] in
theorem expecting_regions (datagram : Datagram H F) (buf : ReassemblyBuffer F) :
    (format.expecting datagram buf).regions = buf.regions := by
  unfold expecting
  split <;> rfl

/-! ### Sources -/

variable (format)

/-- A fragment has a bit for an offset of the payload. -/
def Supplies (fragment : Datagram H F) (i : Nat) (bit : Bool) : Prop :=
  format.start fragment ≤ i ∧ i < format.stop fragment ∧
    fragment.packet.dataBits[8 * format.dataOffset fragment.header + (i - format.start fragment)]? =
      some bit

/-- Everything in a buffer was given to it by some fragments. -/
structure Sources (among : Datagram H F → Prop) (buffer : DatagramBuffer H F) : Prop where
  regions : ConsistentFill buffer.buf.regions
  stored : ∀ i bit, stored buffer.buf.regions i = some bit →
    ∃ fragment, among fragment ∧ format.Supplies fragment i bit
  expected : buffer.buf.expectedLength = -1 ∨ ∃ last, among last ∧
    format.getMoreFragments last.header = false ∧ buffer.buf.expectedLength = format.stop last
  packet : ∀ fragment, buffer.packet = some fragment → among fragment

/-- A datagram every bit of which is from some fragments: its header is restored from one of them,
it ends where a last one of them ends, and they have each bit of its payload. -/
def MadeOf (among : Datagram H F → Prop) (whole : Datagram H F) : Prop :=
  ∃ first last payload, among first ∧ among last ∧
    format.getMoreFragments last.header = false ∧ payload.length = format.stop last ∧
    whole.header = format.restored first.header (payload.length / 8) ∧
    whole.packet.Carries (Fields.serialize (format.toFields whole.header) ++ payload) ∧
    ∀ i bit, payload[i]? = some bit → ∃ fragment, among fragment ∧ format.Supplies fragment i bit

variable {format} {among larger : Datagram H F → Prop}

omit [DecidableEq K] in
theorem new_sources (among : Datagram H F → Prop) : format.Sources among (.new H F) where
  regions := consistentFill_nil
  stored _ _ impossible := by cases impossible
  expected := .inl rfl
  packet := nofun

/-- A fragment adds itself to the sources of its buffer. -/
theorem addFragment_sources (among_datagram : among datagram)
    (carries : ∃ data, datagram.packet.Carries data)
    (sources : format.Sources among (format.bufferOf bufs datagram))
    (returned : format.addFragment sharing bufs datagram = .ok (result, after)) :
    (∃ buffer, result = none ∧ format.Sources among buffer ∧
      after = Function.update bufs (format.key datagram.header) (some buffer)) ∨
    ∃ whole, result = some whole ∧ format.MadeOf among whole ∧
      after = Function.update bufs (format.key datagram.header) none := by
  obtain ⟨bits, carries⟩ := carries
  obtain ⟨positive, data, buf, peeked, replaced, outcome⟩ := addFragment_cases returned
  have length_eq : 8 * format.dataLength datagram.header datagram.packet =
      (format.length datagram : Int) := by
    unfold length
    omega
  rw [length_eq] at peeked
  obtain ⟨insertable, chunk_length, chunk_bits⟩ := carries.peekedDataAt (by omega) peeked
  obtain ⟨nonneg, same, consistent, written⟩ := ReassemblyBuffer.replace_written sources.regions
    insertable replaced
  have start_eq : (8 * format.getFragmentOffset datagram.header).toNat = format.start datagram := rfl
  have stop_eq : format.stop datagram = format.start datagram + format.length datagram := rfl
  have bits_length : data.bits.length = format.length datagram := by
    rw [insertable.wf.length_bits, chunk_length]
  let kept := format.keptPacket (format.bufferOf bufs datagram) datagram
  -- the buffer after the fragment, whether or not it is complete then
  have sources_after : format.Sources among ⟨format.expecting datagram buf, some kept⟩ := by
    refine ⟨?_, ?_, ?_, ?_⟩
    · rw [expecting_regions]
      exact consistent
    · intro i bit now
      rw [expecting_regions, written, start_eq, overwrite, bits_length] at now
      by_cases new : format.start datagram ≤ i ∧ i < format.start datagram + format.length datagram
      · rw [if_pos new, chunk_bits, part, List.getElem?_take, if_pos (by omega),
          List.getElem?_drop] at now
        refine ⟨datagram, among_datagram, new.1, new.2, ?_⟩
        rw [carries.data]
        exact now
      · rw [if_neg new] at now
        exact sources.stored i bit now
    · unfold expecting
      split
      next =>
        rw [same]
        exact sources.expected
      next last =>
        right
        refine ⟨datagram, among_datagram, Bool.eq_false_iff.mpr last, ?_⟩
        simp only [ReassemblyBuffer.setExpectedLength]
        omega
    · rintro fragment ⟨⟩
      simp only [kept, keptPacket]
      split
      · exact among_datagram
      · cases before : (format.bufferOf bufs datagram).packet with
        | none => exact among_datagram
        | some first => exact sources.packet first before
  obtain ⟨complete, ⟨payload, whole, payload_eq, restored, rfl⟩, rfl⟩ | ⟨_, rfl, rfl⟩ := outcome
  · right
    refine ⟨whole, rfl, ?_, rfl⟩
    have whole_length := ReassemblyBuffer.getReassembledData_length payload_eq
    obtain ⟨only, payload_fill⟩ := ReassemblyBuffer.getReassembledData_stored
      sources_after.regions payload_eq
    obtain ⟨header_eq, carries_whole⟩ := restore_carries payload_fill restored
    have payload_length := payload_fill.wf.length_bits
    obtain unknown | ⟨last, among_last, no_more, expected⟩ := sources_after.expected
    · simp only at unknown
      omega
    · simp only at expected
      refine ⟨kept, last, payload.bits, sources_after.packet kept rfl, among_last, no_more, ?_,
        header_eq, carries_whole, ?_⟩
      · omega
      · intro i bit found
        exact sources_after.stored i bit (by rw [only]; exact found)
  · exact .inl ⟨_, rfl, sources_after, rfl⟩

/-! ### One fragment after the other -/

/-- What a fragment buffer returns of one fragment after the other. -/
def addFragments (format : FragmentFormat H K F) (sharing : Sharing F) (bufs : Buffers H K F) :
    List (Datagram H F) → Except ChunkError (List (Option (Datagram H F)) × Buffers H K F)
  | [] => .ok ([], bufs)
  | datagram :: rest => do
    let (returned, bufs) ← format.addFragment sharing bufs datagram
    let (others, bufs) ← format.addFragments sharing bufs rest
    return (returned :: others, bufs)

theorem sources_update (buffer : Option (DatagramBuffer H F)) (key : K)
    (sources : ∀ key, format.Sources among ((bufs key).getD (.new H F)))
    (updated : format.Sources among (buffer.getD (.new H F))) :
    ∀ other, format.Sources among ((Function.update bufs key buffer other).getD (.new H F)) := by
  intro other
  by_cases same : other = key
  · rw [same, Function.update_self]
    exact updated
  · rw [Function.update_of_ne same]
    exact sources other

/-- Everything that is returned is made of what was given. -/
theorem addFragments_madeOf (among : Datagram H F → Prop) (deliveries : List (Datagram H F))
    (given : ∀ datagram ∈ deliveries, among datagram ∧ ∃ data, datagram.packet.Carries data)
    {bufs after : Buffers H K F} {results : List (Option (Datagram H F))}
    (sources : ∀ key, format.Sources among ((bufs key).getD (.new H F)))
    (returned : format.addFragments sharing bufs deliveries = .ok (results, after)) :
    ∀ whole, some whole ∈ results → format.MadeOf among whole := by
  induction deliveries generalizing bufs results with
  | nil =>
    cases returned
    exact nofun
  | cons datagram rest ih =>
    obtain ⟨⟨among_datagram, carries⟩, later⟩ := List.forall_mem_cons.mp given
    obtain ⟨⟨result, next⟩, added, returned⟩ := bind_eq_ok.mp returned
    obtain ⟨⟨others, last⟩, others_eq, ⟨⟩⟩ := bind_eq_ok.mp returned
    intro whole member
    obtain ⟨buffer, rfl, kept, rfl⟩ | ⟨complete, rfl, madeOf, rfl⟩ :=
      addFragment_sources among_datagram carries (sources _) added
    · have member : some whole ∈ others := by simpa using member
      exact ih later (sources_update (some buffer) _ sources kept) others_eq whole member
    · rcases List.mem_cons.mp member with first | member
      · cases first
        exact madeOf
      · exact ih later (sources_update none _ sources (new_sources _)) others_eq whole member

/-! ### Fragments of several datagrams -/

variable {O : Type}

/-- The buffers after some fragments arrived, the datagrams that the fragments in each buffer are
from, and what was returned. A step is `Allowed` by what its buffer holds. -/
inductive Arrivals (format : FragmentFormat H K F) (sharing : Sharing F)
    (Sent : O → Datagram H F → Prop) (Allowed : List O → O → Prop) :
    Buffers H K F → (K → List O) → List (Datagram H F) → Prop
  | empty : Arrivals format sharing Sent Allowed (fun _ => none) (fun _ => []) []
  | kept {bufs after : Buffers H K F} {held : K → List O} {wholes : List (Datagram H F)}
      {origin : O} {fragment : Datagram H F}
      (run : Arrivals format sharing Sent Allowed bufs held wholes) (sent : Sent origin fragment)
      (allowed : Allowed (held (format.key fragment.header)) origin)
      (returned : format.addFragment sharing bufs fragment = .ok (none, after)) :
      Arrivals format sharing Sent Allowed after
        (Function.update held (format.key fragment.header)
          (origin :: held (format.key fragment.header))) wholes
  | complete {bufs after : Buffers H K F} {held : K → List O} {wholes : List (Datagram H F)}
      {origin : O} {fragment whole : Datagram H F}
      (run : Arrivals format sharing Sent Allowed bufs held wholes)
      (sent : Sent origin fragment)
      (allowed : Allowed (held (format.key fragment.header)) origin)
      (returned : format.addFragment sharing bufs fragment = .ok (some whole, after)) :
      Arrivals format sharing Sent Allowed after
        (Function.update held (format.key fragment.header) []) (whole :: wholes)

/-- A buffer with fragments of one datagram only. -/
def Unmixed (held : List O) (origin : O) : Prop := ∀ other ∈ held, other = origin

/-- As long as no fragment meets fragments of another datagram, everything that is returned is
made of the fragments of one datagram. -/
theorem Arrivals.madeOf {Sent : O → Datagram H F → Prop} {held : K → List O}
    {wholes : List (Datagram H F)}
    (carries : ∀ origin fragment, Sent origin fragment → ∃ data, fragment.packet.Carries data)
    (run : format.Arrivals sharing Sent Unmixed bufs held wholes) :
    (∀ key origin, Unmixed (held key) origin →
      format.Sources (Sent origin) ((bufs key).getD (.new H F))) ∧
    ∀ whole ∈ wholes, ∃ origin, format.MadeOf (Sent origin) whole := by
  induction run with
  | empty => exact ⟨fun _ _ _ => new_sources _, by simp⟩
  | @kept bufs after held wholes origin fragment run sent allowed returned ih =>
    obtain ⟨sources, madeOf⟩ := ih
    refine ⟨fun key other unmixed => ?_, madeOf⟩
    obtain ⟨buffer, _, kept, rfl⟩ | ⟨whole, impossible, _⟩ := addFragment_sources sent
      (carries _ _ sent) (sources _ _ allowed) returned
    · by_cases same : key = format.key fragment.header
      · rw [same, Function.update_self] at unmixed
        obtain rfl := unmixed origin List.mem_cons_self
        rw [same, Function.update_self]
        exact kept
      · rw [Function.update_of_ne same] at unmixed ⊢
        exact sources key other unmixed
    · cases impossible
  | @complete bufs after held wholes origin fragment whole run sent allowed returned ih =>
    obtain ⟨sources, madeOf⟩ := ih
    obtain ⟨buffer, impossible, _⟩ | ⟨complete, same_whole, from_origin, rfl⟩ :=
      addFragment_sources sent (carries _ _ sent) (sources _ _ allowed) returned
    · cases impossible
    · cases same_whole
      refine ⟨fun key other unmixed => ?_, List.forall_mem_cons.mpr ⟨⟨origin, from_origin⟩, madeOf⟩⟩
      by_cases same : key = format.key fragment.header
      · rw [same, Function.update_self]
        exact new_sources _
      · rw [Function.update_of_ne same] at unmixed ⊢
        exact sources key other unmixed

end FragmentFormat
end Inet.Packet
