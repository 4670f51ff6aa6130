import Inet.Ipv4Options.AnyStream
import Inet.TcpCommon.TcpHeaderSerializer

/-!
# Reading TCP headers from any bytes

Unlike the loop over the options of an IPv4 header, the one over the options of a TCP header does not
look at what is left of the stream, and nothing marks a TCP header.
-/
namespace Inet.TcpCommon

open Lib Packet

namespace TcpHeaderSerializer

/-- `deserialize` for a stream of any length: the fixed part is read from the buffer, the options from
what is left of the stream. -/
def deserializeAny (uninitialised : Fin 20 → UInt8) (stream : List UInt8) (rounds : Nat) :
    Option (TcpHeader × List UInt8) := do
  let total := stream.length
  let (buffer, stream) := readBuffer uninitialised stream
  let (srcPort, buffer) := readUint16Be buffer
  let (destPort, buffer) := readUint16Be buffer
  let (sequenceNo, buffer) := readUint32Be buffer
  let (ackNo, buffer) := readUint32Be buffer
  let (offs, buffer) := readByte buffer
  let (flags, buffer) := readByte buffer
  let (window, buffer) := readUint16Be buffer
  let (crc, buffer) := readUint16Be buffer
  let (urgentPointer, _) := readUint16Be buffer
  let headerLength := offs.toNat / 16 * 4
  let (headerOption, stream) ← if TCP_MIN_HEADER_LENGTH < headerLength then
    readWhile deserializeOption (fun left => total - left.length < headerLength) rounds stream
    else some ([], stream)
  return ({
    srcPort, destPort, sequenceNo, ackNo, headerLength
    cwrBit := has flags TH_CWR, eceBit := has flags TH_ECE, urgBit := has flags TH_URG
    ackBit := has flags TH_ACK, pshBit := has flags TH_PUSH, rstBit := has flags TH_RST
    synBit := has flags TH_SYN, finBit := has flags TH_FIN
    window, urgentPointer, crc, crcMode := .CRC_COMPUTED, headerOption }, stream)

/-- For the numerals of offsets into the buffer. -/
local instance neZero_buffer : NeZero 20 := ⟨by decide⟩

/-- What the length of the header is by its data offset. -/
def announcedLength (uninitialised : Fin 20 → UInt8) (stream : List UInt8) : Nat :=
  (stream.getD 12 (uninitialised 12)).toNat / 16 * 4

/-- The parser of TCP headers marks none. -/
def received (result : TcpHeader × List UInt8) : Received where
  options := result.1.headerOption.length
  left := result.2
  marked := false

/-! ### The size of an option -/

/-- How many bytes an option takes: as many as its length byte says. -/
def optionSize (stream : List UInt8) : Nat :=
  let kind := (stream.getD 0 0).toUInt32
  if kind = TCPOPTION_END_OF_OPTION_LIST ∨ kind = TCPOPTION_NO_OPERATION then 1
  else max 2 (stream.getD 1 0).toNat

theorem readSackItems_left (count : Nat) (stream : List UInt8) :
    (readSackItems count stream).2 = stream.drop (8 * count) := by
  induction count generalizing stream with
  | zero => rfl
  | succ count ih =>
    change (readSackItems count (readUint32Be (readUint32Be stream).2).2).2 = _
    rw [ih, readUint32Be_left, readUint32Be_left, List.drop_drop, List.drop_drop]
    congr 1
    omega

/-- An option takes its size. -/
theorem deserializeOption_left (stream : List UInt8) :
    (deserializeOption stream).2 = stream.drop (optionSize stream) := by
  simp only [deserializeOption, readByte_eq stream, readByte_drop, Nat.reduceAdd, optionSize]
  split
  · next end_ => rw [if_pos (.inl end_)]
  · next notEnd =>
    split
    · next nop => rw [if_pos (.inr nop)]
    · next notNop =>
      rw [if_neg (not_or.mpr ⟨notEnd, notNop⟩)]
      split
      · next four =>
        rw [four.2, readUint16Be_left, List.drop_drop]
        rfl
      · split
        · next three =>
          rw [three.2]
          rfl
        · split
          · next two =>
            rw [two.2]
            rfl
          · split
            · next sack =>
              obtain ⟨-, longer, remainder⟩ := sack
              have more : 2 < (stream.getD 1 0).toNat := UInt8.lt_iff_toNat_lt.mp longer
              have value : (stream.getD 1 0).toNat % 8 = 2 := by
                have := congrArg UInt8.toNat remainder
                rwa [UInt8.toNat_mod] at this
              rw [readSackItems_left, List.drop_drop]
              congr 1
              omega
            · split
              · next ten =>
                rw [ten.2, readUint32Be_left, readUint32Be_left, List.drop_drop, List.drop_drop]
                rfl
              · simp only [deserializeUnknown, readEach_left, List.drop_drop]
                congr 1
                omega

theorem takes : Takes deserializeOption optionSize where
  positive stream := by
    simp only [optionSize]
    split
    · exact Nat.one_pos
    · exact Nat.lt_of_lt_of_le Nat.two_pos (Nat.le_max_left _ _)
  left := deserializeOption_left

/-! ### Any stream -/

/-- All that the loop depends on. -/
theorem deserializeAny_eq (uninitialised : Fin 20 → UInt8) (stream : List UInt8) (rounds : Nat) :
    (deserializeAny uninitialised stream rounds).map received =
      (if MIN_HEADER_LENGTH < announcedLength uninitialised stream then
        readWhile deserializeOption
          (fun left => stream.length - left.length < announcedLength uninitialised stream) rounds
          (stream.drop MIN_HEADER_LENGTH)
        else some ([], stream.drop MIN_HEADER_LENGTH)).map
        fun result => ⟨result.1.length, result.2, false⟩ := by
  have offs : (readByte (readUint32Be (readUint32Be (readUint16Be (readUint16Be
      (readBuffer uninitialised stream).1).2).2).2).2).1 = stream.getD 12 (uninitialised 12) := rfl
  unfold deserializeAny announcedLength
  simp only [offs]
  by_cases long : 20 < (stream.getD 12 (uninitialised 12)).toNat / 16 * 4
  · simp only [TCP_MIN_HEADER_LENGTH, MIN_HEADER_LENGTH, long, if_true]
    change Option.map _ ((readWhile _ _ _ (stream.drop 20)).bind _) = _
    cases readWhile deserializeOption _ rounds (stream.drop 20) <;> rfl
  · simp only [TCP_MIN_HEADER_LENGTH, MIN_HEADER_LENGTH, long, if_false]
    rfl

/-- A header survives exactly if it is long enough, all there, and no option of it reaches into bytes
behind it. -/
theorem survives_iff (uninitialised : Fin 20 → UInt8) (stream : List UInt8) :
    Survives stream (announcedLength uninitialised stream)
      (fun rounds => (deserializeAny uninitialised stream rounds).map received) ↔
    MIN_HEADER_LENGTH ≤ announcedLength uninitialised stream ∧
      announcedLength uninitialised stream ≤ stream.length ∧
      (stream.length ≤ announcedLength uninitialised stream ∨
        Tile optionSize (announcedLength uninitialised stream - MIN_HEADER_LENGTH)
          (stream.drop MIN_HEADER_LENGTH)) := by
  by_cases long : MIN_HEADER_LENGTH < announcedLength uninitialised stream
  · rcases Nat.lt_or_ge stream.length (announcedLength uninitialised stream) with less | all
    · constructor
      · rintro ⟨rounds, received, returned, -⟩
        dsimp only at returned
        rw [deserializeAny_eq, if_pos long, readWhile_stuck less] at returned
        cases returned
      · intro ⟨_, all, _⟩
        omega
    · rw [and_iff_right (Nat.le_of_lt long), and_iff_right all]
      refine survives_iff_tile takes false long (fun rounds => ?_)
        (fun less => absurd all (by omega))
      rw [deserializeAny_eq, if_pos long, Nat.min_eq_left all]
  · rw [survives_iff_marked false fun rounds => by
      rw [deserializeAny_eq, if_neg long]; rfl]
    constructor
    · intro marks
      have whole : ¬(announcedLength uninitialised stream < MIN_HEADER_LENGTH ∨
          stream.length < announcedLength uninitialised stream) :=
        fun wrong => Bool.false_ne_true (marks wrong)
      refine ⟨by omega, by omega, .inr ?_⟩
      rw [Nat.sub_eq_zero_of_le (by omega)]
      exact .done _
    · intro ⟨_, _, _⟩ wrong
      omega

end TcpHeaderSerializer

open Ipv4Options (Ipv4HeaderSerializer.deserializeAny Ipv4HeaderSerializer.announcedLength
  Ipv4HeaderSerializer.received Ipv4HeaderSerializer.optionSize)

/-- When the two parsers survive a stream: that of IPv4 headers unless an option reaches into bytes
behind the header, that of TCP headers unless besides the header is too short or not all there. -/
theorem headers_survive_iff (uninitialised : Fin 20 → UInt8) (stream : List UInt8) :
    (Survives stream (Ipv4HeaderSerializer.announcedLength uninitialised stream)
        (fun rounds => (Ipv4HeaderSerializer.deserializeAny uninitialised stream rounds).map
          Ipv4HeaderSerializer.received) ↔
      stream.length ≤ Ipv4HeaderSerializer.announcedLength uninitialised stream ∨
        Tile Ipv4HeaderSerializer.optionSize
          (Ipv4HeaderSerializer.announcedLength uninitialised stream - MIN_HEADER_LENGTH)
          (stream.drop MIN_HEADER_LENGTH)) ∧
    (Survives stream (TcpHeaderSerializer.announcedLength uninitialised stream)
        (fun rounds => (TcpHeaderSerializer.deserializeAny uninitialised stream rounds).map
          TcpHeaderSerializer.received) ↔
      MIN_HEADER_LENGTH ≤ TcpHeaderSerializer.announcedLength uninitialised stream ∧
        TcpHeaderSerializer.announcedLength uninitialised stream ≤ stream.length ∧
        (stream.length ≤ TcpHeaderSerializer.announcedLength uninitialised stream ∨
          Tile TcpHeaderSerializer.optionSize
            (TcpHeaderSerializer.announcedLength uninitialised stream - MIN_HEADER_LENGTH)
            (stream.drop MIN_HEADER_LENGTH))) :=
  ⟨Ipv4Options.Ipv4HeaderSerializer.survives_iff uninitialised stream,
    TcpHeaderSerializer.survives_iff uninitialised stream⟩

/-- The fixed part of a TCP header that announces four bytes of options, and nothing else. -/
def withoutOptions : List UInt8 :=
  [4, 0, 0, 80, 0, 0, 0, 1, 0, 0, 0, 0, 0x60, 2, 255, 255, 0, 0, 0, 0]

/-- An IPv4 header with four bytes of options, of which the first says that it has eight, and four
bytes behind the header. -/
def longOption : List UInt8 :=
  [0x46, 0, 0, 28, 0, 0, 0, 0, 64, 17, 0, 0, 10, 0, 0, 1, 10, 0, 0, 2, 130, 8, 0, 0, 1, 2, 3, 4]

/-- The one is read for ever, and the other with what is behind it. -/
theorem headers_not_survived :
    ¬Survives withoutOptions (TcpHeaderSerializer.announcedLength (fun _ => 0) withoutOptions)
      (fun rounds => (TcpHeaderSerializer.deserializeAny (fun _ => 0) withoutOptions rounds).map
        TcpHeaderSerializer.received) ∧
    ¬Survives longOption (Ipv4HeaderSerializer.announcedLength (fun _ => 0) longOption)
      (fun rounds => (Ipv4HeaderSerializer.deserializeAny (fun _ => 0) longOption rounds).map
        Ipv4HeaderSerializer.received) := by
  constructor
  · intro survives
    have all := ((TcpHeaderSerializer.survives_iff _ _).mp survives).2.1
    exact absurd all (by decide)
  · intro survives
    rcases (Ipv4Options.Ipv4HeaderSerializer.survives_iff _ _).mp survives with less | tile
    · exact absurd less (by decide)
    · have fits := ((tile_iff _ (by decide)).mp tile).1
      exact absurd fits (by decide)

end Inet.TcpCommon
