import Inet.TcpCommon.TcpHeaderSerializer

/-!
# The round trip of TCP headers
-/
namespace Inet.TcpCommon

open Lib Packet
open Rdma (CrcMode)

namespace TcpOption

/-- The kinds that have a class of their own. -/
def knownKinds : List UInt32 :=
  [TCPOPTION_END_OF_OPTION_LIST, TCPOPTION_NO_OPERATION, TCPOPTION_MAXIMUM_SEGMENT_SIZE,
    TCPOPTION_WINDOW_SCALE, TCPOPTION_SACK_PERMITTED, TCPOPTION_SACK, TCPOPTION_TIMESTAMP]

/-- An option has the kind and the length of its class. -/
def WellFormed (option : TcpOption) : Prop :=
  match option.fields with
  | .end_ => option.kind = TCPOPTION_END_OF_OPTION_LIST ∧ option.length = 1
  | .nop => option.kind = TCPOPTION_NO_OPERATION ∧ option.length = 1
  | .maxSegmentSize _ => option.kind = TCPOPTION_MAXIMUM_SEGMENT_SIZE ∧ option.length = 4
  | .windowScale _ => option.kind = TCPOPTION_WINDOW_SCALE ∧ option.length = 3
  | .sackPermitted => option.kind = TCPOPTION_SACK_PERMITTED ∧ option.length = 2
  | .sack sackItem => option.kind = TCPOPTION_SACK ∧ sackItem ≠ [] ∧
    option.length.toNat = 2 + sackItem.length * 8
  | .timestamp _ _ => option.kind = TCPOPTION_TIMESTAMP ∧ option.length = 10
  | .unknown bytes => option.kind ∉ knownKinds ∧ option.length.toNat = 2 + bytes.length

/-- The window scale and the kind are written as a byte. -/
def FitsByte (option : TcpOption) : Prop :=
  option.kind.toNat < 256 ∧
    match option.fields with
    | .windowScale windowScale => windowScale.toNat < 256
    | _ => True

end TcpOption

namespace TcpHeader

/-- A header with a computed checksum, and a length that is the length of its options and fits. -/
structure WellFormed (tcpHeader : TcpHeader) : Prop where
  crcMode : tcpHeader.crcMode = .CRC_COMPUTED
  options : ∀ option ∈ tcpHeader.headerOption, option.WellFormed
  aligned : (tcpHeader.headerOption.map (·.length.toNat)).sum % 4 = 0
  fits : (tcpHeader.headerOption.map (·.length.toNat)).sum ≤ 40
  headerLength : tcpHeader.headerLength =
    TCP_MIN_HEADER_LENGTH + (tcpHeader.headerOption.map (·.length.toNat)).sum

end TcpHeader

namespace TcpHeaderSerializer

/-- Reading the bytes of a header, with others behind them, takes as many bytes as the header is
long and returns an equal header, once there are enough rounds for the options. -/
def RoundTrips (tcpHeader : TcpHeader) : Prop :=
  ∃ bytes, serialize tcpHeader = .ok bytes ∧ bytes.length = tcpHeader.headerLength ∧
    ∀ rest rounds, tcpHeader.headerOption.length < rounds →
      deserialize rounds (bytes ++ rest) = .ok (some (tcpHeader, rest))

/-! ### Options -/

theorem readSackItems_append (sackItem : List SackItem) (rest : List UInt8) :
    readSackItems sackItem.length (sackItem.flatMap writeSackItem ++ rest) = (sackItem, rest) := by
  induction sackItem with
  | nil => rfl
  | cons si sackItem ih =>
    rw [List.length_cons, readSackItems, List.flatMap_cons, writeSackItem, List.append_assoc,
      List.append_assoc, readUint32Be_write]
    dsimp only
    rw [readUint32Be_write]
    dsimp only
    rw [ih]

theorem length_flatMap_writeSackItem (sackItem : List SackItem) :
    (sackItem.flatMap writeSackItem).length = sackItem.length * 8 := by
  induction sackItem with
  | nil => rfl
  | cons si sackItem ih =>
    rw [List.flatMap_cons, List.length_append, ih, List.length_cons]
    change 8 + _ = _
    omega

theorem toUInt8_toUInt32 {kind : UInt32} (fits : kind.toNat < 256) :
    kind.toUInt8.toUInt32 = kind := by
  apply UInt32.toNat_inj.mp
  rw [UInt8.toNat_toUInt32, UInt32.toNat_toUInt8, Nat.mod_eq_of_lt fits]

theorem toUInt8_toUInt16 {value : UInt16} (fits : value.toNat < 256) :
    value.toUInt8.toUInt16 = value := by
  apply UInt16.toNat_inj.mp
  rw [UInt8.toNat_toUInt16, UInt16.toNat_toUInt8, Nat.mod_eq_of_lt fits]

/-- An option is read as it was written. -/
theorem option_roundTrip {option : TcpOption} (wellFormed : option.WellFormed)
    (fitsByte : option.FitsByte) (short : option.length.toNat < 256) :
    ∃ bytes, serializeOption option = .ok bytes ∧ bytes.length = option.length.toNat ∧
      ∀ rest, deserializeOption (bytes ++ rest) = (option, rest) := by
  obtain ⟨kind, length, fields⟩ := option
  obtain ⟨smallKind, small⟩ := fitsByte
  dsimp only [TcpOption.WellFormed] at *
  cases fields with
  | end_ =>
    obtain ⟨rfl, rfl⟩ := wellFormed
    exact ⟨[0], rfl, rfl, fun _ => rfl⟩
  | nop =>
    obtain ⟨rfl, rfl⟩ := wellFormed
    exact ⟨[1], rfl, rfl, fun _ => rfl⟩
  | maxSegmentSize maxSegmentSize =>
    obtain ⟨rfl, rfl⟩ := wellFormed
    refine ⟨2 :: 4 :: writeUint16Be maxSegmentSize, rfl, rfl, fun rest => ?_⟩
    change (fun read => (({ kind := 2, length := 4, fields := .maxSegmentSize read.1 } : TcpOption),
      read.2)) (readUint16Be (writeUint16Be maxSegmentSize ++ rest)) = _
    rw [readUint16Be_write]
    rfl
  | windowScale windowScale =>
    obtain ⟨rfl, rfl⟩ := wellFormed
    refine ⟨[3, 3, windowScale.toUInt8], rfl, rfl, fun rest => ?_⟩
    change (({ kind := 3, length := 3, fields := .windowScale windowScale.toUInt8.toUInt16 } :
      TcpOption), rest) = _
    rw [toUInt8_toUInt16 small]
    rfl
  | sackPermitted =>
    obtain ⟨rfl, rfl⟩ := wellFormed
    exact ⟨[4, 2], rfl, rfl, fun _ => rfl⟩
  | sack sackItem =>
    obtain ⟨rfl, some, blocks⟩ := wellFormed
    have blocks_pos := List.length_pos_iff.mpr some
    have same : length.toUInt8.toUInt16 = length := toUInt8_toUInt16 short
    have value : length.toUInt8.toNat = 2 + sackItem.length * 8 := by
      rw [UInt16.toNat_toUInt8, Nat.mod_eq_of_lt short, blocks]
    refine ⟨5 :: length.toUInt8 :: sackItem.flatMap writeSackItem, ?_, ?_, fun rest => ?_⟩
    · have some : 1 < length := UInt16.lt_iff_toNat_lt.mpr (by rw [blocks]; change 1 < _; omega)
      have fields : serializeFields TCPOPTION_SACK length.toNat (.sack sackItem) =
          .ok (sackItem.flatMap writeSackItem) := by
        rw [blocks]
        change (do assert (decide _) _; return _) = _
        rw [decide_eq_true rfl]
        rfl
      unfold serializeOption
      dsimp only
      rw [fields, ok_bind, if_pos some]
      rfl
    · rw [List.length_cons, List.length_cons, length_flatMap_writeSackItem, blocks]
      omega
    · have longer : 2 < length.toUInt8 :=
        UInt8.lt_iff_toNat_lt.mpr (by rw [value]; change 2 < _; omega)
      have remainder : length.toUInt8 % 8 = 2 := by
        apply UInt8.toNat_inj.mp
        rw [UInt8.toNat_mod, value]
        change (2 + sackItem.length * 8) % 8 = 2
        omega
      change (if TCPOPTION_SACK = TCPOPTION_SACK ∧ 2 < length.toUInt8 ∧ length.toUInt8 % 8 = 2 then
        (fun read => (({ kind := 5, length := length.toUInt8.toUInt16
                         fields := .sack read.1 } : TcpOption), read.2))
          (readSackItems (length.toUInt8.toNat / 8) (sackItem.flatMap writeSackItem ++ rest))
        else _) = _
      rw [if_pos ⟨rfl, longer, remainder⟩, value,
        show (2 + sackItem.length * 8) / 8 = sackItem.length by omega, readSackItems_append, same]
      rfl
  | timestamp senderTimestamp echoedTimestamp =>
    obtain ⟨rfl, rfl⟩ := wellFormed
    refine ⟨8 :: 10 :: (writeUint32Be senderTimestamp ++ writeUint32Be echoedTimestamp), rfl, rfl,
      fun rest => ?_⟩
    change (fun first => (fun second => (({ kind := 8, length := 10
                                            fields := .timestamp first.1 second.1 } : TcpOption),
      second.2)) (readUint32Be first.2)) (readUint32Be (writeUint32Be senderTimestamp ++
        (writeUint32Be echoedTimestamp ++ rest))) = _
    rw [readUint32Be_write]
    dsimp only
    rw [readUint32Be_write]
    rfl
  | unknown bytes =>
    obtain ⟨other, data⟩ := wellFormed
    have same : length.toUInt8.toUInt16 = length := toUInt8_toUInt16 short
    have value : length.toUInt8.toNat - 2 = bytes.length := by
      rw [UInt16.toNat_toUInt8, Nat.mod_eq_of_lt short, data]
      omega
    refine ⟨kind.toUInt8 :: length.toUInt8 :: bytes, ?_, ?_, fun rest => ?_⟩
    · have some : 1 < length := UInt16.lt_iff_toNat_lt.mpr (by rw [data]; change 1 < _; omega)
      have fields : serializeFields kind length.toNat (.unknown bytes) = .ok bytes := by
        rw [data]
        change (do assert (decide _) _; return _) = _
        rw [decide_eq_true rfl]
        rfl
      unfold serializeOption
      dsimp only
      rw [fields, ok_bind, if_pos some]
      rfl
    · rw [List.length_cons, List.length_cons, data]
      omega
    · rw [TcpOption.knownKinds] at other
      simp only [List.mem_cons, List.not_mem_nil, or_false, not_or] at other
      obtain ⟨end_, nop, maxSegmentSize, windowScale, sackPermitted, sack, timestamp⟩ := other
      unfold deserializeOption
      rw [List.cons_append, List.cons_append, readByte_cons]
      dsimp only
      rw [toUInt8_toUInt32 smallKind, if_neg end_, if_neg nop, readByte_cons]
      dsimp only
      rw [if_neg (fun holds => maxSegmentSize holds.1), if_neg (fun holds => windowScale holds.1),
        if_neg (fun holds => sackPermitted holds.1), if_neg (fun holds => sack holds.1),
        if_neg (fun holds => timestamp holds.1), deserializeUnknown, value, readEach_append, same]

theorem length_pos {option : TcpOption} (wellFormed : option.WellFormed) :
    0 < option.length.toNat := by
  obtain ⟨kind, length, fields⟩ := option
  dsimp only [TcpOption.WellFormed] at *
  cases fields with
  | sack sackItem => omega
  | unknown bytes => omega
  | end_ | nop | maxSegmentSize | windowScale | sackPermitted | timestamp =>
    obtain ⟨_, rfl⟩ := wellFormed
    decide

/-- The loop ends with the last option, where the length of the header has been read. -/
theorem options_roundTrip {options : List TcpOption}
    (wellFormed : ∀ option ∈ options, option.WellFormed)
    (fitsByte : ∀ option ∈ options, option.FitsByte)
    (short : (options.map (·.length.toNat)).sum < 256) :
    ∃ bytes, options.mapM serializeOption = .ok bytes ∧
      bytes.flatten.length = (options.map (·.length.toNat)).sum ∧
      ∀ rest total headerLength rounds, options.length < rounds →
        (bytes.flatten ++ rest).length ≤ total →
        total - (bytes.flatten ++ rest).length + (options.map (·.length.toNat)).sum =
          headerLength →
        deserializeOptions total headerLength rounds (bytes.flatten ++ rest) =
          some (options, rest) := by
  induction options with
  | nil =>
    refine ⟨[], rfl, rfl, fun rest total headerLength rounds enough within reached => ?_⟩
    obtain ⟨rounds, rfl⟩ := Nat.exists_eq_succ_of_ne_zero (Nat.pos_iff_ne_zero.mp enough)
    rw [List.map_nil, List.sum_nil, Nat.add_zero] at reached
    rw [deserializeOptions, if_neg (by omega)]
    rfl
  | cons option options ih =>
    rw [List.map_cons, List.sum_cons] at short
    obtain ⟨first, written, length, read⟩ := option_roundTrip
      (wellFormed option List.mem_cons_self) (fitsByte option List.mem_cons_self) (by omega)
    obtain ⟨bytes, others, lengths, loop⟩ := ih
      (fun other member => wellFormed other (List.mem_cons_of_mem _ member))
      (fun other member => fitsByte other (List.mem_cons_of_mem _ member)) (by omega)
    have positive := length_pos (wellFormed option List.mem_cons_self)
    refine ⟨first :: bytes, ?_, ?_, fun rest total headerLength rounds enough within reached => ?_⟩
    · rw [List.mapM_cons, written, ok_bind, others]
      rfl
    · rw [List.flatten_cons, List.length_append, length, lengths, List.map_cons, List.sum_cons]
    · obtain ⟨rounds, rfl⟩ := Nat.exists_eq_succ_of_ne_zero (Nat.pos_iff_ne_zero.mp
        (Nat.lt_of_le_of_lt (Nat.zero_le _) enough))
      rw [List.map_cons, List.sum_cons] at reached
      rw [List.flatten_cons, List.append_assoc] at *
      rw [List.length_append] at within reached
      rw [deserializeOptions, List.length_append, if_pos (by omega), read]
      dsimp only
      rw [loop rest total headerLength rounds (Nat.lt_of_succ_lt_succ enough) (by omega)
        (by omega)]
      rfl

/-! ### Headers -/

theorem has_set {flags flag : UInt8} (bit : Bool) :
    has (if bit then flags ||| flag else flags) flag = (bit || has flags flag) := by
  cases bit with
  | false => rfl
  | true =>
    have all : (flags ||| flag) &&& flag = flag := by
      refine UInt8.toBitVec_inj.mp (BitVec.eq_of_getElem_eq fun i below => ?_)
      simp [Bool.and_or_distrib_right]
    simp [has, all]

theorem has_other {flags other flag : UInt8} (bit : Bool) (apart : other &&& flag = 0) :
    has (if bit then flags ||| other else flags) flag = has flags flag := by
  cases bit with
  | false => rfl
  | true =>
    have same : (flags ||| other) &&& flag = flags &&& flag := by
      have bits := congrArg UInt8.toBitVec apart
      refine UInt8.toBitVec_inj.mp ?_
      simp only [UInt8.toBitVec_and, UInt8.toBitVec_or, UInt8.toBitVec_zero] at bits ⊢
      rw [BitVec.and_or_distrib_right, bits, BitVec.or_zero]
    simp only [has, same, if_true]

/-- Each flag is a bit of its own. -/
theorem has_flagsOf (tcpHeader : TcpHeader) :
    has (flagsOf tcpHeader) TH_CWR = tcpHeader.cwrBit ∧
    has (flagsOf tcpHeader) TH_ECE = tcpHeader.eceBit ∧
    has (flagsOf tcpHeader) TH_URG = tcpHeader.urgBit ∧
    has (flagsOf tcpHeader) TH_ACK = tcpHeader.ackBit ∧
    has (flagsOf tcpHeader) TH_PUSH = tcpHeader.pshBit ∧
    has (flagsOf tcpHeader) TH_RST = tcpHeader.rstBit ∧
    has (flagsOf tcpHeader) TH_SYN = tcpHeader.synBit ∧
    has (flagsOf tcpHeader) TH_FIN = tcpHeader.finBit := by
  unfold flagsOf
  refine ⟨?_, ?_, ?_, ?_, ?_, ?_, ?_, ?_⟩
  all_goals
    dsimp only
    repeat first
      | rw [has_set]
      | rw [has_other]
  all_goals first
    | rfl
    | exact Bool.or_false _

theorem offs_roundTrip {headerLength : Nat} (aligned : headerLength % 4 = 0)
    (fits : headerLength ≤ 60) :
    (UInt8.ofNat (headerLength / 4 % 16 * 16)).toNat / 16 * 4 = headerLength := by
  rw [UInt8.toNat_ofNat']
  omega

theorem length_serializeFixed (tcpHeader : TcpHeader) :
    (serializeFixed tcpHeader).length = TCP_MIN_HEADER_LENGTH := rfl

/-- What is read of a fixed part, with the options behind it. -/
theorem deserialize_fixed {tcpHeader : TcpHeader} (wellFormed : tcpHeader.WellFormed)
    {rounds : Nat} {options rest : List UInt8}
    (loop : (if TCP_MIN_HEADER_LENGTH < tcpHeader.headerLength then
      deserializeOptions (TCP_MIN_HEADER_LENGTH + options.length) tcpHeader.headerLength rounds
        options else some ([], options)) = some (tcpHeader.headerOption, rest)) :
    deserialize rounds (serializeFixed tcpHeader ++ options) = .ok (some (tcpHeader, rest)) := by
  have small := wellFormed.fits
  have length := wellFormed.headerLength
  have aligned := wellFormed.aligned
  have offs : (UInt8.ofNat (tcpHeader.headerLength / 4 % 16 * 16)).toNat / 16 * 4 =
      tcpHeader.headerLength := offs_roundTrip
    (by rw [length, TCP_MIN_HEADER_LENGTH]; omega) (by rw [length, TCP_MIN_HEADER_LENGTH]; omega)
  obtain ⟨cwr, ece, urg, ack, psh, rst, syn, fin⟩ := has_flagsOf tcpHeader
  have total : (serializeFixed tcpHeader ++ options).length =
      TCP_MIN_HEADER_LENGTH + options.length := by
    rw [List.length_append, length_serializeFixed]
  unfold deserialize
  rw [total, if_neg (by omega)]
  simp only [serializeFixed, List.append_assoc, List.cons_append, List.nil_append,
    readUint16Be_write, readUint32Be_write, readByte_cons, offs]
  rw [loop, Option.map_some, cwr, ece, urg, ack, psh, rst, syn, fin, ← wellFormed.crcMode]
  rfl

/-- A header is read as it was written if its window scales and its kinds of options fit a byte. -/
theorem roundTrips {tcpHeader : TcpHeader} (wellFormed : tcpHeader.WellFormed)
    (fitsByte : ∀ option ∈ tcpHeader.headerOption, option.FitsByte) : RoundTrips tcpHeader := by
  have small := wellFormed.fits
  have length := wellFormed.headerLength
  have aligned := wellFormed.aligned
  obtain ⟨bytes, written, lengths, loop⟩ :=
    options_roundTrip wellFormed.options fitsByte (by omega)
  have counted : tcpHeader.headerOption.length ≤
      (tcpHeader.headerOption.map (·.length.toNat)).sum := by
    rw [← List.length_map (f := (·.length.toNat))]
    refine List.length_le_sum_of_one_le _ fun value member => ?_
    obtain ⟨option, inside, rfl⟩ := List.mem_map.mp member
    exact length_pos (wellFormed.options option inside)
  have all : tcpHeader.headerOption.take (tcpHeader.headerOption.length % 65536) =
      tcpHeader.headerOption := by
    rw [Nat.mod_eq_of_lt (by omega), List.take_length]
  refine ⟨serializeFixed tcpHeader ++ bytes.flatten, ?_, ?_, fun rest rounds enough => ?_⟩
  · unfold serialize
    rw [if_neg (not_not.mpr wellFormed.crcMode), if_neg (by rw [length, TCP_MIN_HEADER_LENGTH]; omega)]
    dsimp only
    rw [all, written]
    change (do assert (decide _) _; _) = _
    rw [decide_eq_true length, if_neg (not_not.mpr aligned), List.append_nil]
    rfl
  · rw [List.length_append, length_serializeFixed, lengths, length]
  · rw [List.append_assoc]
    refine deserialize_fixed wellFormed ?_
    split
    · exact loop rest _ _ rounds enough (Nat.le_add_left _ _) (by omega)
    · have none : bytes.flatten = [] := List.length_eq_zero_iff.mp (by omega)
      have empty : tcpHeader.headerOption = [] := List.length_eq_zero_iff.mp (by omega)
      rw [none, empty]
      rfl

/-- A header of a SYN with some options. -/
def synHeader (windowScale : UInt16) : TcpHeader where
  srcPort := 1025
  destPort := 80
  sequenceNo := 4294967295
  ackNo := 0
  headerLength := 44
  cwrBit := true
  eceBit := true
  urgBit := false
  ackBit := false
  pshBit := false
  rstBit := false
  synBit := true
  finBit := false
  window := 65535
  urgentPointer := 0
  crc := 0xbeef
  crcMode := .CRC_COMPUTED
  headerOption := [{ kind := 2, length := 4, fields := .maxSegmentSize 1460 },
    { kind := 1, length := 1, fields := .nop },
    { kind := 3, length := 3, fields := .windowScale windowScale },
    { kind := 5, length := 10, fields := .sack [{ start := 1, end_ := 4294967294 }] },
    { kind := 254, length := 4, fields := .unknown [0, 255] },
    { kind := 4, length := 2, fields := .sackPermitted }]

theorem synHeader_length (windowScale : UInt16) :
    ((synHeader windowScale).headerOption.map (·.length.toNat)).sum = 24 := rfl

theorem synHeader_wellFormed (windowScale : UInt16) : (synHeader windowScale).WellFormed where
  crcMode := rfl
  options := by
    simp only [synHeader, List.forall_mem_cons, List.not_mem_nil, false_implies, implies_true,
      and_true, TcpOption.WellFormed]
    decide
  aligned := by rw [synHeader_length]
  fits := by rw [synHeader_length]; decide
  headerLength := by rw [synHeader_length]; rfl

theorem synHeader_roundTrips : RoundTrips (synHeader 7) :=
  roundTrips (synHeader_wellFormed 7) (by
    simp only [synHeader, List.forall_mem_cons, List.not_mem_nil, false_implies, implies_true,
      and_true, TcpOption.FitsByte]
    decide)

/-- A window scale of 256 is read as 0. -/
theorem synHeader_loses_windowScale :
    ¬∀ tcpHeader : TcpHeader, tcpHeader.WellFormed → RoundTrips tcpHeader := by
  intro all
  obtain ⟨bytes, written, _, read⟩ := all (synHeader 256) (synHeader_wellFormed 256)
  have same : serialize (synHeader 256) = serialize (synHeader 0) := by decide
  obtain ⟨bytes', written', _, read'⟩ := all (synHeader 0) (synHeader_wellFormed 0)
  obtain rfl : bytes = bytes' := Except.ok.inj (written.symm.trans (same.trans written'))
  have equal := (read [] 7 (by decide)).symm.trans (read' [] 7 (by decide))
  exact absurd (Prod.mk.inj (Option.some.inj (Except.ok.inj equal))).1 (by decide)

end TcpHeaderSerializer
end Inet.TcpCommon
