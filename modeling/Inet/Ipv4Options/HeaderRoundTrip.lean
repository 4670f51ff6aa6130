import Inet.Ipv4Options.OptionRoundTrip

/-!
# The round trip of IPv4 headers

A header with options is read as it was written if the options are readable, and only then: the loop
over the options ends where the length of the header says, so that it does not leave bytes behind.
-/
namespace Inet.Ipv4Options

open Lib Packet
open Rdma (CrcMode)

variable (count : Nat) (stream : List UInt8) {ipv4Header : Ipv4Header} {options : List TlvOption}
  {read : TlvOption × List UInt8} {type : Int16}

namespace Ipv4HeaderSerializer

def endOption : TlvOption where
  type := IPOPTION_END_OF_OPTIONS
  length := 1
  fields := .end_

/-- How many bytes the options of a header have. -/
def optionsLength (options : List TlvOption) : Nat := (options.map lengthOf).sum

end Ipv4HeaderSerializer

namespace Ipv4Header

open Ipv4HeaderSerializer (optionsLength)

/-- A header of this version with a computed checksum, values that fit their bytes, and room for its
options. -/
structure WellFormed (ipv4Header : Ipv4Header) : Prop where
  version : ipv4Header.version = 4
  crcMode : ipv4Header.crcMode = .CRC_COMPUTED
  correct : ipv4Header.isIncorrect = false
  complete : ipv4Header.isIncomplete = false
  typeOfService : 0 ≤ ipv4Header.typeOfService.toInt ∧ ipv4Header.typeOfService.toInt < 256
  timeToLive : 0 ≤ ipv4Header.timeToLive.toInt ∧ ipv4Header.timeToLive.toInt < 256
  protocolId : ipv4Header.protocolId < 256
  fragmentOffset : ipv4Header.fragmentOffset.toNat % 8 = 0
  aligned : ipv4Header.headerLength % 4 = 0
  least : IPv4_MIN_HEADER_LENGTH ≤ ipv4Header.headerLength
  most : ipv4Header.headerLength ≤ IPv4_MAX_HEADER_LENGTH
  totalLength : ipv4Header.headerLength ≤ ipv4Header.totalLengthField
  small : ipv4Header.totalLengthField < 65536
  options : ∀ option ∈ ipv4Header.options, option.WellFormed
  room : IPv4_MIN_HEADER_LENGTH + optionsLength ipv4Header.options ≤ ipv4Header.headerLength

end Ipv4Header

namespace Ipv4HeaderSerializer

/-- What is read of a header: options that end the list stand for what fills it up. -/
def padded (ipv4Header : Ipv4Header) : Ipv4Header :=
  { ipv4Header with
    options := ipv4Header.options ++ List.replicate
      (ipv4Header.headerLength - IPv4_MIN_HEADER_LENGTH - optionsLength ipv4Header.options)
      endOption }

/-- Reading the bytes of a header, with others behind them, takes as many bytes as the header is
long and returns an equal header with the padding. -/
def RoundTrips (ipv4Header : Ipv4Header) : Prop :=
  ∃ bytes, serialize ipv4Header = .ok bytes ∧ bytes.length = ipv4Header.headerLength ∧
    ∀ rest, deserialize (bytes ++ rest) = .ok (padded ipv4Header, rest)

/-! ### The loop over the options -/

theorem lengthOf_pos {option : TlvOption} (wellFormed : option.WellFormed) :
    0 < lengthOf option := by
  have positive := length_pos wellFormed
  rw [lengthOf]
  omega

theorem endOption_wellFormed : endOption.WellFormed := ⟨rfl, rfl⟩

@[simp] theorem optionsLength_nil : optionsLength [] = 0 := rfl

@[simp] theorem optionsLength_cons (option : TlvOption) (options : List TlvOption) :
    optionsLength (option :: options) = lengthOf option + optionsLength options := by
  rw [optionsLength, List.map_cons, List.sum_cons, optionsLength]

theorem optionsLength_append (options others : List TlvOption) :
    optionsLength (options ++ others) = optionsLength options + optionsLength others := by
  rw [optionsLength, List.map_append, List.sum_append, optionsLength, optionsLength]

theorem optionsLength_replicate :
    optionsLength (List.replicate count endOption) = count := by
  rw [optionsLength, List.map_replicate, List.sum_replicate_nat]
  exact Nat.mul_one count

/-- The loop takes one byte of the padding after the other. -/
theorem padding_read (total headerLength : Nat) (rest : List UInt8) (count rounds : Nat)
    (enough : count ≤ rounds) (within : count + rest.length ≤ total)
    (reached : total - rest.length = headerLength) :
    deserializeOptions total headerLength rounds (List.replicate count 0 ++ rest) =
      (List.replicate count endOption, rest) := by
  induction count generalizing rounds with
  | zero =>
    rw [List.replicate_zero, List.nil_append, List.replicate_zero]
    cases rounds with
    | zero => rfl
    | succ rounds => rw [deserializeOptions, if_neg (by omega)]
  | succ count ih =>
    obtain ⟨rounds, rfl⟩ := Nat.exists_eq_succ_of_ne_zero (by omega : rounds ≠ 0)
    have length : (List.replicate (count + 1) (0 : UInt8) ++ rest).length =
        count + 1 + rest.length := by
      rw [List.length_append, List.length_replicate]
    rw [deserializeOptions, length, if_pos (by omega), List.replicate_succ, List.cons_append]
    change (fun read => (endOption :: read.1, read.2))
      (deserializeOptions total headerLength rounds (List.replicate count 0 ++ rest)) = _
    rw [ih rounds (by omega) (by omega)]
    rfl

/-- The loop reads the options and their padding as they were written. -/
theorem options_roundTrip (wellFormed : ∀ option ∈ options, option.WellFormed)
    (readable : ∀ option ∈ options, option.Readable) (short : optionsLength options < 256) :
    ∃ bytes, options.mapM serializeOption = .ok bytes ∧
      bytes.flatten.length = optionsLength options ∧
      ∀ rest total headerLength count rounds, optionsLength options + count ≤ rounds →
        optionsLength options + count + rest.length ≤ total →
        total - rest.length = headerLength →
        deserializeOptions total headerLength rounds
          (bytes.flatten ++ (List.replicate count 0 ++ rest)) =
          (options ++ List.replicate count endOption, rest) := by
  induction options with
  | nil =>
    refine ⟨[], rfl, rfl, fun rest total headerLength count rounds enough within reached => ?_⟩
    rw [optionsLength_nil, Nat.zero_add] at enough within
    exact padding_read total headerLength rest count rounds enough within reached
  | cons option options ih =>
    rw [optionsLength_cons] at short
    have positive := lengthOf_pos (wellFormed option List.mem_cons_self)
    obtain ⟨first, written, length, read⟩ := option_roundTrips
      (wellFormed option List.mem_cons_self) (readable option List.mem_cons_self)
      (by rw [lengthOf] at short; omega)
    have length : first.length = lengthOf option := by rw [lengthOf]; omega
    obtain ⟨bytes, others, lengths, loop⟩ := ih
      (fun other member => wellFormed other (List.mem_cons_of_mem _ member))
      (fun other member => readable other (List.mem_cons_of_mem _ member)) (by omega)
    refine ⟨first :: bytes, ?_, ?_,
      fun rest total headerLength count rounds enough within reached => ?_⟩
    · rw [List.mapM_cons, written, ok_bind, others]
      rfl
    · rw [List.flatten_cons, List.length_append, length, lengths, optionsLength_cons]
    · rw [optionsLength_cons] at enough within
      obtain ⟨rounds, rfl⟩ := Nat.exists_eq_succ_of_ne_zero (by omega : rounds ≠ 0)
      have left : (first ++ (bytes.flatten ++ (List.replicate count 0 ++ rest))).length =
          lengthOf option + (optionsLength options + (count + rest.length)) := by
        rw [List.length_append, List.length_append, List.length_append, List.length_replicate,
          length, lengths]
      rw [List.flatten_cons, List.append_assoc, deserializeOptions, left, if_pos (by omega), read]
      dsimp only
      rw [loop rest total headerLength count rounds (by omega) (by omega) reached]
      rfl

/-! ### The fixed part -/

theorem and_flag (word flag other : UInt16) (set : Bool) :
    (if set then word ||| flag else word) &&& other =
      (word &&& other) ||| (if set then flag &&& other else 0) := by
  cases set with
  | true =>
    apply UInt16.toBitVec_inj.mp
    exact BitVec.and_or_distrib_right
  | false =>
    change word &&& other = word &&& other ||| 0
    rw [UInt16.or_zero]

/-- The flags and the offset have bits of their own. -/
theorem offOf_roundTrip (aligned : ipv4Header.fragmentOffset.toNat % 8 = 0) :
    (offOf ipv4Header &&& IP_RF != 0) = ipv4Header.reservedBit ∧
    (offOf ipv4Header &&& IP_MF != 0) = ipv4Header.moreFragments ∧
    (offOf ipv4Header &&& IP_DF != 0) = ipv4Header.dontFragment ∧
    (offOf ipv4Header &&& IP_OFFMASK) * 8 = ipv4Header.fragmentOffset := by
  have offset : (ipv4Header.fragmentOffset / 8 &&& IP_OFFMASK) * 8 = ipv4Header.fragmentOffset := by
    have small := ipv4Header.fragmentOffset.toNat_lt
    have low : (ipv4Header.fragmentOffset / 8 &&& IP_OFFMASK).toNat =
        ipv4Header.fragmentOffset.toNat / 8 := by
      rw [UInt16.toNat_and, UInt16.toNat_div]
      change ipv4Header.fragmentOffset.toNat / 8 &&& (2 ^ 13 - 1) = _
      rw [Nat.and_two_pow_sub_one_eq_mod]
      omega
    apply UInt16.toNat_inj.mp
    rw [UInt16.toNat_mul, low]
    change ipv4Header.fragmentOffset.toNat / 8 * 8 % 65536 = _
    omega
  unfold offOf
  dsimp only
  simp only [and_flag, UInt16.and_assoc]
  rw [show IP_OFFMASK &&& IP_RF = 0 by decide, show IP_OFFMASK &&& IP_MF = 0 by decide,
    show IP_OFFMASK &&& IP_DF = 0 by decide, show IP_OFFMASK &&& IP_OFFMASK = IP_OFFMASK by decide,
    show IP_RF &&& IP_OFFMASK = 0 by decide, show IP_MF &&& IP_OFFMASK = 0 by decide,
    show IP_DF &&& IP_OFFMASK = 0 by decide, UInt16.and_zero]
  refine ⟨?_, ?_, ?_, ?_⟩
  · cases ipv4Header.reservedBit <;> cases ipv4Header.moreFragments <;>
      cases ipv4Header.dontFragment <;> decide
  · cases ipv4Header.reservedBit <;> cases ipv4Header.moreFragments <;>
      cases ipv4Header.dontFragment <;> decide
  · cases ipv4Header.reservedBit <;> cases ipv4Header.moreFragments <;>
      cases ipv4Header.dontFragment <;> decide
  · simp only [ite_self, UInt16.or_zero]
    exact offset

theorem length_serializeFixed (ipv4Header : Ipv4Header) :
    (serializeFixed ipv4Header).length = IPv4_MIN_HEADER_LENGTH := rfl

/-- The version and the length of the header have four bits each. -/
theorem vhl_roundTrip {headerLength : Nat} (aligned : headerLength % 4 = 0)
    (fits : headerLength ≤ IPv4_MAX_HEADER_LENGTH) :
    (UInt8.ofNat ((byteOf 4).toNat % 16 * 16 + headerLength / 4 % 16)).toNat / 16 = 4 ∧
    (UInt8.ofNat ((byteOf 4).toNat % 16 * 16 + headerLength / 4 % 16)).toNat % 16 * 4 =
      headerLength := by
  rw [show (byteOf 4).toNat = 4 by decide, UInt8.toNat_ofNat']
  rw [IPv4_MAX_HEADER_LENGTH] at fits
  omega

/-- What is read of a fixed part, with what the loop returns for the options behind it. -/
theorem deserialize_fixed (wellFormed : ipv4Header.WellFormed) {behind rest : List UInt8}
    (enough : ipv4Header.headerLength ≤ IPv4_MIN_HEADER_LENGTH + behind.length)
    (loop : (if IPv4_MIN_HEADER_LENGTH < ipv4Header.headerLength then
      deserializeOptions (IPv4_MIN_HEADER_LENGTH + behind.length) ipv4Header.headerLength
        ipv4Header.headerLength behind else ([], behind)) = (options, rest)) :
    deserialize (serializeFixed ipv4Header ++ behind) = .ok ({ ipv4Header with options }, rest) := by
  have total : (serializeFixed ipv4Header ++ behind).length =
      IPv4_MIN_HEADER_LENGTH + behind.length := by
    rw [List.length_append, length_serializeFixed]
  have least := wellFormed.least
  have totalLength := wellFormed.totalLength
  obtain ⟨version, headerLength⟩ := vhl_roundTrip wellFormed.aligned wellFormed.most
  obtain ⟨reserved, more, dont, offset⟩ := offOf_roundTrip wellFormed.fragmentOffset
  have protocol : (UInt8.ofNat ipv4Header.protocolId).toNat = ipv4Header.protocolId := by
    rw [UInt8.toNat_ofNat', Nat.mod_eq_of_lt wellFormed.protocolId]
  have field := toNat_toUint16_of_lt (by omega) wellFormed.small
  have tos := shortOf_byteOf wellFormed.typeOfService.1 wellFormed.typeOfService.2
  have ttl := shortOf_byteOf wellFormed.timeToLive.1 wellFormed.timeToLive.2
  have short : decide (ipv4Header.headerLength < IPv4_MIN_HEADER_LENGTH) = false :=
    decide_eq_false (Nat.not_lt.mpr least)
  have whole : decide ((toUint16 ipv4Header.totalLengthField).toNat < ipv4Header.headerLength) =
      false := decide_eq_false (by omega)
  have complete : decide (IPv4_MIN_HEADER_LENGTH + behind.length < ipv4Header.headerLength) =
      false := decide_eq_false (Nat.not_lt.mpr enough)
  unfold deserialize
  rw [total, if_neg (by omega)]
  simp only [serializeFixed, List.append_assoc, List.cons_append, List.nil_append,
    readUint16Be_write, readUint32Be_write, readByte_cons, wellFormed.version, version,
    headerLength, reserved, more, dont, offset, protocol, field, tos, ttl, short, whole, complete,
    Bool.false_eq_true, if_false, loop]
  rw [← wellFormed.crcMode, ← wellFormed.version]
  refine congrArg Except.ok (congrArg (·, rest) ?_)
  rw [Ipv4Header.mk.injEq]
  exact ⟨wellFormed.version.symm, rfl, rfl, rfl, rfl, rfl, rfl, rfl, rfl, rfl, rfl, rfl, rfl, rfl,
    rfl, rfl, wellFormed.correct.symm, wellFormed.complete.symm⟩

/-! ### Headers -/

theorem length_le_optionsLength (wellFormed : ∀ option ∈ options, option.WellFormed) :
    options.length ≤ optionsLength options := by
  induction options with
  | nil => exact Nat.le_refl 0
  | cons option options ih =>
    have positive := lengthOf_pos (wellFormed option List.mem_cons_self)
    have others := ih fun other member => wellFormed other (List.mem_cons_of_mem _ member)
    rw [List.length_cons, optionsLength_cons]
    omega

theorem sum_length (wellFormed : ∀ option ∈ options, option.WellFormed) :
    (options.map (·.length.toInt)).sum = optionsLength options := by
  induction options with
  | nil => rfl
  | cons option options ih =>
    have positive := length_pos (wellFormed option List.mem_cons_self)
    rw [List.map_cons, List.sum_cons, optionsLength_cons, lengthOf,
      ih fun other member => wellFormed other (List.mem_cons_of_mem _ member)]
    omega

/-- The bytes of a header: its fixed part, its options, and the padding. -/
theorem serialize_eq (wellFormed : ipv4Header.WellFormed)
    {bytes : List (List UInt8)} (written : ipv4Header.options.mapM serializeOption = .ok bytes)
    (lengths : bytes.flatten.length = optionsLength ipv4Header.options) :
    serialize ipv4Header = .ok (serializeFixed ipv4Header ++ (bytes.flatten ++ List.replicate
      (ipv4Header.headerLength - IPv4_MIN_HEADER_LENGTH - optionsLength ipv4Header.options) 0)) := by
  have room := wellFormed.room
  have counted := length_le_optionsLength wellFormed.options
  have most : ipv4Header.headerLength ≤ 60 := wellFormed.most
  have offset : ipv4Header.fragmentOffset &&& 7 = 0 := by
    apply UInt16.toNat_inj.mp
    rw [UInt16.toNat_and]
    change ipv4Header.fragmentOffset.toNat &&& (2 ^ 3 - 1) = 0
    rw [Nat.and_two_pow_sub_one_eq_mod]
    exact wellFormed.fragmentOffset
  have all : ipv4Header.options.take (ipv4Header.options.length % 65536) = ipv4Header.options := by
    rw [Nat.mod_eq_of_lt (by omega), List.take_length]
  have options : serializeOptions ipv4Header = .ok (bytes.flatten ++ List.replicate
      (ipv4Header.headerLength - IPv4_MIN_HEADER_LENGTH - optionsLength ipv4Header.options) 0) := by
    unfold serializeOptions
    split
    · dsimp only
      rw [all, written, ok_bind, sum_length wellFormed.options, if_neg (by omega), lengths,
        Nat.sub_add_eq]
      rfl
    · have none : bytes.flatten = [] := List.length_eq_zero_iff.mp (by omega)
      rw [none, show ipv4Header.headerLength - IPv4_MIN_HEADER_LENGTH -
        optionsLength ipv4Header.options = 0 by omega]
      rfl
  unfold serialize
  rw [decide_eq_true ⟨wellFormed.aligned, wellFormed.least, wellFormed.most⟩,
    decide_eq_true wellFormed.totalLength, decide_eq_true offset,
    if_neg (not_not.mpr wellFormed.crcMode)]
  change (serializeOptions ipv4Header >>= fun options =>
    pure (serializeFixed ipv4Header ++ options)) = _
  rw [options]
  rfl

/-- A header with readable options is read as it was written. -/
theorem roundTrips_of_readable (wellFormed : ipv4Header.WellFormed)
    (readable : ∀ option ∈ ipv4Header.options, option.Readable) : RoundTrips ipv4Header := by
  have room := wellFormed.room
  have most : ipv4Header.headerLength ≤ 60 := wellFormed.most
  obtain ⟨bytes, written, lengths, loop⟩ :=
    options_roundTrip wellFormed.options readable (by omega)
  refine ⟨_, serialize_eq wellFormed written lengths, ?_, fun rest => ?_⟩
  · rw [List.length_append, List.length_append, List.length_replicate, length_serializeFixed,
      lengths]
    omega
  · rw [List.append_assoc]
    have behind : ((bytes.flatten ++ List.replicate (ipv4Header.headerLength -
        IPv4_MIN_HEADER_LENGTH - optionsLength ipv4Header.options) 0) ++ rest).length =
        ipv4Header.headerLength - IPv4_MIN_HEADER_LENGTH + rest.length := by
      rw [List.length_append, List.length_append, List.length_replicate, lengths]
      omega
    refine deserialize_fixed wellFormed (by omega) ?_
    split
    · rw [behind, List.append_assoc]
      exact loop rest _ _ _ _ (by omega) (by omega) (by omega)
    · have none : bytes.flatten = [] := List.length_eq_zero_iff.mp (by omega)
      have empty : ipv4Header.options = [] :=
        List.length_eq_zero_iff.mp (by have := length_le_optionsLength wellFormed.options; omega)
      rw [none, empty, show ipv4Header.headerLength - IPv4_MIN_HEADER_LENGTH -
        optionsLength [] = 0 by rw [optionsLength_nil]; omega]
      rfl

/-! ### Options that are not readable -/

/-- How many bytes are read of an option. The records of an option with times only are not. -/
def readOf (option : TlvOption) : Nat :=
  match option.fields with
  | .timestamp .IP_TIMESTAMP_TIMESTAMP_ONLY _ _ _ _ => 4
  | _ => lengthOf option

theorem length_readByte : stream.length ≤ (readByte stream).2.length + 1 := by
  cases stream with
  | nil => exact Nat.zero_le _
  | cons byte stream => exact Nat.le_refl _

theorem length_readUint16Be :
    stream.length ≤ (readUint16Be stream).2.length + 2 := by
  have first := length_readByte stream
  have second := length_readByte (readByte stream).2
  change _ ≤ (readByte (readByte stream).2).2.length + 2
  omega

theorem length_readUint32Be :
    stream.length ≤ (readUint32Be stream).2.length + 4 := by
  have high := length_readUint16Be stream
  have low := length_readUint16Be (readUint16Be stream).2
  change _ ≤ (readUint16Be (readUint16Be stream).2).2.length + 4
  omega

theorem length_readEach :
    stream.length ≤ (readEach count stream).2.length + count ∧
      (readEach count stream).1.length = count := by
  induction count generalizing stream with
  | zero => exact ⟨Nat.le_refl _, rfl⟩
  | succ count ih =>
    have first := length_readByte stream
    obtain ⟨taken, length⟩ := ih (readByte stream).2
    exact ⟨by change _ ≤ (readEach count (readByte stream).2).2.length + _; omega,
      congrArg (· + 1) length⟩

theorem length_readAddresses :
    stream.length ≤ (readAddresses count stream).2.length + 4 * count ∧
      (readAddresses count stream).1.length = count := by
  induction count generalizing stream with
  | zero => exact ⟨Nat.le_refl _, rfl⟩
  | succ count ih =>
    have first := length_readUint32Be stream
    obtain ⟨taken, length⟩ := ih (readUint32Be stream).2
    exact ⟨by change _ ≤ (readAddresses count (readUint32Be stream).2).2.length + _; omega,
      congrArg (· + 1) length⟩

theorem length_readRecords :
    stream.length ≤ (readRecords count stream).2.length + 8 * count := by
  induction count generalizing stream with
  | zero => exact Nat.le_refl _
  | succ count ih =>
    have address := length_readUint32Be stream
    have time := length_readUint32Be (readUint32Be stream).2
    have others := ih (readUint32Be (readUint32Be stream).2).2
    change _ ≤ (readRecords count (readUint32Be (readUint32Be stream).2).2).2.length + _
    omega

theorem lengthOf_shortOf {length : UInt8} {fields : TlvOptionFields} :
    lengthOf { type, length := shortOf length, fields } = length.toNat := by
  have small := length.toNat_lt
  rw [lengthOf]
  dsimp only
  rw [shortOf, Int16.toInt_ofNat_of_lt (by omega)]
  omega

/-- What is known of an option behind its type: not more bytes are read than counted, and a route
has addresses. -/
def Known (stream : List UInt8) (read : TlvOption × List UInt8) : Prop :=
  stream.length + 1 ≤ read.2.length + readOf read.1 ∧
    ∀ nextAddressIdx recordAddress, read.1.fields = .recordRoute nextAddressIdx recordAddress →
      recordAddress ≠ []

theorem deserializeTwoBytes_known {fields : UInt16 → TlvOptionFields} {stream : List UInt8}
    (plain : ∀ value, (∀ length, readOf { type, length, fields := fields value } =
      lengthOf { type, length, fields := fields value }) ∧
        ∀ nextAddressIdx recordAddress, fields value ≠ .recordRoute nextAddressIdx recordAddress)
    (returned : deserializeTwoBytes type fields stream = some read) : Known stream read := by
  unfold deserializeTwoBytes at returned
  dsimp only at returned
  split at returned
  next four =>
    obtain rfl := Option.some.inj returned
    have first := length_readByte stream
    have second := length_readUint16Be (readByte stream).2
    refine ⟨?_, fun _ _ same => absurd same ((plain _).2 _ _)⟩
    rw [(plain _).1, lengthOf_shortOf, four]
    change _ ≤ (readUint16Be (readByte stream).2).2.length + 4
    omega
  next => cases returned

theorem deserializeRecordRoute_known {stream : List UInt8}
    (returned : deserializeRecordRoute type stream = some read) :
    Known stream read := by
  unfold deserializeRecordRoute at returned
  dsimp only at returned
  split at returned
  next kept =>
    obtain rfl := Option.some.inj returned
    have length := length_readByte stream
    have pointer := length_readByte (readByte stream).2
    obtain ⟨taken, addresses⟩ := length_readAddresses (((readByte stream).1.toNat - 3) / 4)
      (readByte (readByte stream).2).2
    refine ⟨?_, fun _ _ same => ?_⟩
    · change _ ≤ (readAddresses (((readByte stream).1.toNat - 3) / 4)
        (readByte (readByte stream).2).2).2.length + lengthOf _
      rw [lengthOf_shortOf]
      omega
    · obtain ⟨_, rfl⟩ := TlvOptionFields.recordRoute.inj same
      refine List.length_pos_iff.mp ?_
      rw [addresses]
      omega
  next => cases returned

theorem deserializeTimestamp_known {stream : List UInt8}
    (returned : deserializeTimestamp stream = some read) : Known stream read := by
  unfold deserializeTimestamp at returned
  dsimp only at returned
  have length := length_readByte stream
  have pointer := length_readByte (readByte stream).2
  have flagbyte := length_readByte (readByte (readByte stream).2).2
  split at returned
  next => cases returned
  next flag _ =>
    split at returned
    next kept =>
      obtain rfl := Option.some.inj returned
      refine ⟨?_, fun _ _ same => by cases same⟩
      cases flag with
      | IP_TIMESTAMP_TIMESTAMP_ONLY =>
        change _ ≤ List.length (readByte (readByte (readByte stream).2).2).2 + 4
        omega
      | IP_TIMESTAMP_WITH_ADDRESS | IP_TIMESTAMP_SENDER_INIT_ADDRESS =>
        have taken := length_readRecords (((readByte stream).1.toNat - 4) / 8)
          (readByte (readByte (readByte stream).2).2).2
        change _ ≤ (readRecords (((readByte stream).1.toNat - 4) / 8)
          (readByte (readByte (readByte stream).2).2).2).2.length + lengthOf _
        rw [lengthOf_shortOf]
        obtain ⟨some, whole, _⟩ := kept
        change ((readByte stream).1.toNat - 4) % 8 = 0 at whole
        omega
    next => cases returned

/-- What is known of an option that is read, if it is well formed. -/
theorem deserializeOption_known {stream : List UInt8}
    (wellFormed : (deserializeOption stream).1.WellFormed) :
    stream.length ≤ (deserializeOption stream).2.length + readOf (deserializeOption stream).1 ∧
      ∀ nextAddressIdx recordAddress,
        (deserializeOption stream).1.fields = .recordRoute nextAddressIdx recordAddress →
        recordAddress ≠ [] := by
  have first := length_readByte stream
  -- An option of a class is behind its type, a raw option starts with it.
  have behind : ∀ option, (∀ read, option = some read → Known (readByte stream).2 read) →
      (option.getD (deserializeRaw stream)).1.WellFormed →
      stream.length ≤ (option.getD (deserializeRaw stream)).2.length +
        readOf (option.getD (deserializeRaw stream)).1 ∧
      ∀ nextAddressIdx recordAddress, (option.getD (deserializeRaw stream)).1.fields =
        .recordRoute nextAddressIdx recordAddress → recordAddress ≠ [] := by
    intro option known wellFormed
    cases option with
    | some read =>
      obtain ⟨taken, addresses⟩ := known read rfl
      exact ⟨by rw [Option.getD_some]; omega, addresses⟩
    | none =>
      rw [Option.getD_none] at *
      refine ⟨?_, fun _ _ same => by cases same⟩
      have length := length_readByte (readByte stream).2
      obtain ⟨taken, bytes⟩ := length_readEach ((readByte (readByte stream).2).1.toNat - 2)
        (readByte (readByte stream).2).2
      have data : (shortOf (readByte (readByte stream).2).1).toInt =
          2 + (readEach ((readByte (readByte stream).2).1.toNat - 2)
            (readByte (readByte stream).2).2).1.length := wellFormed.2.2.2
      change _ ≤ (readEach ((readByte (readByte stream).2).1.toNat - 2)
        (readByte (readByte stream).2).2).2.length +
          (shortOf (readByte (readByte stream).2).1).toInt.toNat
      omega
  unfold deserializeOption at *
  dsimp only at *
  split at wellFormed
  next end_ =>
    rw [if_pos end_]
    exact ⟨first, fun _ _ same => by cases same⟩
  next end_ =>
    rw [if_neg end_]
    split at wellFormed
    next nop =>
      rw [if_pos nop]
      exact ⟨first, fun _ _ same => by cases same⟩
    next nop =>
      rw [if_neg nop]
      refine behind _ (fun read returned => ?_) wellFormed
      split at returned
      next =>
        exact deserializeTwoBytes_known
          (fun _ => ⟨fun _ => rfl, fun _ _ same => by cases same⟩) returned
      next =>
        split at returned
        next => exact deserializeTimestamp_known returned
        next =>
          split at returned
          next => exact deserializeRecordRoute_known returned
          next =>
            split at returned
            next =>
              exact deserializeTwoBytes_known
                (fun _ => ⟨fun _ => rfl, fun _ _ same => by cases same⟩) returned
            next => cases returned

/-- The bytes that the loop takes are counted, and the routes that it reads have addresses. -/
theorem deserializeOptions_known {total headerLength rounds : Nat} {stream : List UInt8}
    (wellFormed : ∀ option ∈ (deserializeOptions total headerLength rounds stream).1,
      option.WellFormed) :
    stream.length ≤ (deserializeOptions total headerLength rounds stream).2.length +
        ((deserializeOptions total headerLength rounds stream).1.map readOf).sum ∧
      ∀ option ∈ (deserializeOptions total headerLength rounds stream).1,
        ∀ nextAddressIdx recordAddress,
          option.fields = .recordRoute nextAddressIdx recordAddress → recordAddress ≠ [] := by
  induction rounds generalizing stream with
  | zero => exact ⟨Nat.le_refl _, fun _ member => by cases member⟩
  | succ rounds ih =>
    rw [deserializeOptions] at wellFormed ⊢
    split at wellFormed
    next left =>
      rw [if_pos left]
      dsimp only at *
      obtain ⟨taken, addresses⟩ := deserializeOption_known (wellFormed _ List.mem_cons_self)
      obtain ⟨others, routes⟩ := ih fun other member => wellFormed other (List.mem_cons_of_mem _ member)
      refine ⟨?_, fun option member => ?_⟩
      · rw [List.map_cons, List.sum_cons]
        omega
      · rcases List.mem_cons.mp member with rfl | member
        · exact addresses
        · exact routes option member
    next left =>
      rw [if_neg left]
      exact ⟨Nat.le_refl _, fun _ member => by cases member⟩

theorem readOf_le {option : TlvOption} (wellFormed : option.WellFormed) :
    readOf option ≤ lengthOf option ∧ (readOf option = lengthOf option →
      ∀ flag overflow nextIdx recordAddress recordTimestamp,
        option.fields = .timestamp flag overflow nextIdx recordAddress recordTimestamp →
        flag ≠ .IP_TIMESTAMP_TIMESTAMP_ONLY) := by
  obtain ⟨type, length, fields⟩ := option
  cases fields with
  | end_ | nop | streamId | routerAlert | recordRoute | raw =>
    exact ⟨Nat.le_refl _, fun _ _ _ _ _ _ same => by cases same⟩
  | timestamp flag overflow nextIdx recordAddress recordTimestamp =>
    cases flag with
    | IP_TIMESTAMP_WITH_ADDRESS | IP_TIMESTAMP_SENDER_INIT_ADDRESS =>
      refine ⟨Nat.le_refl _, fun _ _ _ _ _ _ same => ?_⟩
      obtain ⟨rfl, _⟩ := TlvOptionFields.timestamp.inj same
      decide
    | IP_TIMESTAMP_TIMESTAMP_ONLY =>
      obtain ⟨_, some, times, _⟩ := wellFormed
      have positive := List.length_pos_iff.mpr some
      have longer : 4 < lengthOf { type, length
                                   fields := .timestamp .IP_TIMESTAMP_TIMESTAMP_ONLY overflow
                                     nextIdx recordAddress recordTimestamp } := by
        rw [lengthOf]
        change length.toInt = 4 + 4 * recordTimestamp.length at times
        change 4 < length.toInt.toNat
        omega
      exact ⟨Nat.le_of_lt longer, fun same => absurd same (Nat.ne_of_lt longer)⟩

theorem readOf_sum_le (wellFormed : ∀ option ∈ options, option.WellFormed) :
    (options.map readOf).sum ≤ optionsLength options ∧
      (optionsLength options ≤ (options.map readOf).sum →
        ∀ option ∈ options, readOf option = lengthOf option) := by
  induction options with
  | nil => exact ⟨Nat.le_refl _, fun _ _ member => by cases member⟩
  | cons option options ih =>
    obtain ⟨le, others⟩ := ih fun other member => wellFormed other (List.mem_cons_of_mem _ member)
    have first := (readOf_le (wellFormed option List.mem_cons_self)).1
    rw [List.map_cons, List.sum_cons, optionsLength_cons]
    refine ⟨by omega, fun all other member => ?_⟩
    rcases List.mem_cons.mp member with rfl | member
    · omega
    · exact others (by omega) other member

theorem serialize_starts {bytes : List UInt8} (written : serialize ipv4Header = .ok bytes) :
    ∃ behind, bytes = serializeFixed ipv4Header ++ behind := by
  unfold serialize at written
  obtain ⟨_, _, written⟩ := bind_eq_ok.mp written
  obtain ⟨_, _, written⟩ := bind_eq_ok.mp written
  obtain ⟨_, _, written⟩ := bind_eq_ok.mp written
  split at written
  next => cases written
  next =>
    obtain ⟨behind, _, written⟩ := bind_eq_ok.mp written
    exact ⟨behind, (Except.ok.inj written).symm⟩

/-- The options of a header that is read as it was written are readable. -/
theorem readable_of_roundTrips (wellFormed : ipv4Header.WellFormed)
    (roundTrips : RoundTrips ipv4Header) : ∀ option ∈ ipv4Header.options, option.Readable := by
  obtain ⟨bytes, written, length, read⟩ := roundTrips
  obtain ⟨behind, rfl⟩ := serialize_starts written
  have room := wellFormed.room
  rw [List.length_append, length_serializeFixed] at length
  have paddedWellFormed : ∀ option ∈ (padded ipv4Header).options, option.WellFormed := by
    intro option member
    rcases List.mem_append.mp member with member | member
    · exact wellFormed.options option member
    · rw [List.eq_of_mem_replicate member]
      exact endOption_wellFormed
  have paddedLength : IPv4_MIN_HEADER_LENGTH + optionsLength (padded ipv4Header).options =
      ipv4Header.headerLength := by
    change _ + optionsLength (_ ++ _) = _
    rw [optionsLength_append, optionsLength_replicate]
    omega
  by_cases longer : IPv4_MIN_HEADER_LENGTH < ipv4Header.headerLength
  · -- The loop returns the padded options, and leaves nothing behind.
    obtain ⟨⟨options, rest⟩, loop⟩ : ∃ returned, deserializeOptions
        (IPv4_MIN_HEADER_LENGTH + behind.length) ipv4Header.headerLength ipv4Header.headerLength
          behind = returned := ⟨_, rfl⟩
    have returned : deserialize (serializeFixed ipv4Header ++ behind) =
        .ok ({ ipv4Header with options }, rest) :=
      deserialize_fixed wellFormed (by omega) ((if_pos longer).trans loop)
    have all := read []
    rw [List.append_nil, returned] at all
    obtain ⟨header, rfl⟩ := Prod.mk.inj (Except.ok.inj all)
    obtain rfl : options = (padded ipv4Header).options := congrArg Ipv4Header.options header
    have known : behind.length ≤ _ ∧ _ :=
      deserializeOptions_known (by rw [loop]; exact paddedWellFormed)
    rw [loop] at known
    obtain ⟨taken, routes⟩ := known
    have each := (readOf_sum_le paddedWellFormed).2 (by
      dsimp only at taken
      rw [List.length_nil] at taken
      omega)
    intro option member
    have member' : option ∈ (padded ipv4Header).options := List.mem_append_left _ member
    have times := (readOf_le (wellFormed.options option member)).2 (each option member')
    have addresses := routes option member'
    obtain ⟨type, optionLength, fields⟩ := option
    cases fields with
    | end_ | nop | streamId | routerAlert | raw => exact trivial
    | recordRoute nextAddressIdx recordAddress => exact addresses _ _ rfl
    | timestamp flag overflow nextIdx recordAddress recordTimestamp => exact times _ _ _ _ _ rfl
  · have none : ipv4Header.options = [] :=
      List.length_eq_zero_iff.mp (by have := length_le_optionsLength wellFormed.options; omega)
    rw [none]
    intro option member
    cases member

/-- A header is read as it was written, with its padding, if and only if none of its options has
times without addresses or is a route without addresses. -/
theorem padded_roundTrips_iff {ipv4Header : Ipv4Header} (wellFormed : ipv4Header.WellFormed) :
    RoundTrips ipv4Header ↔ ∀ option ∈ ipv4Header.options, option.Readable :=
  ⟨readable_of_roundTrips wellFormed, roundTrips_of_readable wellFormed⟩

/-- A header with a timestamp option, and some others before and behind it. -/
def timedHeader (flag : TimestampFlag) (length : Int16) (recordAddress : List UInt32) :
    Ipv4Header where
  headerLength := 40
  typeOfService := 255
  totalLengthField := 1500
  identification := 0xcafe
  moreFragments := true
  dontFragment := false
  fragmentOffset := 65528
  timeToLive := 64
  protocolId := 17
  crc := 0xbeef
  crcMode := .CRC_COMPUTED
  srcAddress := 0x0a000001
  destAddress := 0xe0000001
  options := [{ type := 1, length := 1, fields := .nop },
    { type := 68, length, fields := .timestamp flag 15 1 recordAddress [5 * SIMTIME_MS] },
    { type := 148, length := 4, fields := .routerAlert 1 }]

theorem timedHeader_wellFormed {flag : TimestampFlag} {length : Int16} {recordAddress : List UInt32}
    (times : length.toInt = 4 + flag.bytes)
    (addresses : recordAddress.length = if flag.bytes = 8 then 1 else 0) :
    (timedHeader flag length recordAddress).WellFormed := by
  have short : flag.bytes ≤ 8 := by cases flag <;> decide
  have fits : TlvOption.PointerFits 5 flag.bytes 1 := by
    unfold TlvOption.PointerFits
    cases flag <;> decide
  have total : optionsLength (timedHeader flag length recordAddress).options =
      1 + (4 + flag.bytes + 4) := by
    have value : length.toInt.toNat = 4 + flag.bytes := by omega
    change 1 + (length.toInt.toNat + (4 + 0)) = _
    rw [value]
  have options : ∀ option ∈ (timedHeader flag length recordAddress).options,
      option.WellFormed := by
    simp only [timedHeader, List.forall_mem_cons]
    refine ⟨⟨rfl, rfl⟩, ⟨rfl, by decide, ?_, addresses, by decide, by decide, fits, ?_⟩, ⟨rfl, rfl⟩,
      fun _ member => by cases member⟩
    · rw [times]
      exact congrArg (4 + ·) (Int.mul_one _).symm
    · exact fun time member => ⟨5, List.mem_singleton.mp member⟩
  exact {
    version := rfl, crcMode := rfl, correct := rfl, complete := rfl
    typeOfService := by simp only [timedHeader]; decide
    timeToLive := by simp only [timedHeader]; decide
    protocolId := by simp only [timedHeader]; decide
    fragmentOffset := by simp only [timedHeader]; decide
    aligned := by simp only [timedHeader]
    least := by simp only [timedHeader]; decide
    most := by simp only [timedHeader]; decide
    totalLength := by simp only [timedHeader]; decide
    small := by simp only [timedHeader]; decide
    options
    room := by
      rw [total]
      change 20 + (1 + (4 + flag.bytes + 4)) ≤ 40
      omega }

theorem timedHeader_roundTrips :
    RoundTrips (timedHeader .IP_TIMESTAMP_WITH_ADDRESS 12 [0xc0a80001]) :=
  (padded_roundTrips_iff (timedHeader_wellFormed rfl rfl)).mpr (by
    simp only [timedHeader, List.forall_mem_cons]
    exact ⟨trivial, by simp only [TlvOption.Readable]; decide, trivial,
      fun _ member => by cases member⟩)

/-- With times only, the bytes of the time are read as options. -/
theorem timedHeader_loses_times :
    ¬∀ ipv4Header : Ipv4Header, ipv4Header.WellFormed → RoundTrips ipv4Header := by
  intro all
  obtain ⟨bytes, written, _, read⟩ := all (timedHeader .IP_TIMESTAMP_TIMESTAMP_ONLY 8 [])
    (timedHeader_wellFormed rfl rfl)
  have other : (serialize (timedHeader .IP_TIMESTAMP_TIMESTAMP_ONLY 8 []) >>= deserialize) ≠
      .ok (padded (timedHeader .IP_TIMESTAMP_TIMESTAMP_ONLY 8 []), []) := by decide +kernel
  rw [written, ok_bind] at other
  exact other (List.append_nil bytes ▸ read [])

end Ipv4HeaderSerializer
end Inet.Ipv4Options
