import Inet.Ipv4Options.Ipv4HeaderSerializer

/-!
# Reading IPv4 headers from any bytes
-/
namespace Inet.Ipv4Options

open Lib Packet

namespace Ipv4HeaderSerializer

/-- `deserialize` for a stream of any length: the fixed part is read from the buffer, the options from
what is left of the stream while there is any. -/
def deserializeAny (uninitialised : Fin 20 → UInt8) (stream : List UInt8) (rounds : Nat) :
    Option (Ipv4Header × List UInt8) := do
  let bufsize := stream.length
  let (buffer, stream) := readBuffer uninitialised stream
  let (vhl, buffer) := readByte buffer
  let (tos, buffer) := readByte buffer
  let (len, buffer) := readUint16Be buffer
  let (identification, buffer) := readUint16Be buffer
  let (ip_off, buffer) := readUint16Be buffer
  let (ttl, buffer) := readByte buffer
  let (protocolId, buffer) := readByte buffer
  let (crc, buffer) := readUint16Be buffer
  let (srcAddress, buffer) := readUint32Be buffer
  let (destAddress, _) := readUint32Be buffer
  let ip_v := vhl.toNat / 16
  let ip_hl := vhl.toNat % 16
  let short : Bool := ip_hl * 4 < IPv4_MIN_HEADER_LENGTH
  let headerLength := if short then IPv4_MIN_HEADER_LENGTH else ip_hl * 4
  let (options, stream) ← if IPv4_MIN_HEADER_LENGTH < headerLength then
    readWhile deserializeOption
      (fun left => 0 < left.length && bufsize - left.length < headerLength) rounds stream
    else some ([], stream)
  return ({
    version := Int16.ofNat ip_v, headerLength, typeOfService := shortOf tos
    totalLengthField := len.toNat, identification
    reservedBit := ip_off &&& IP_RF != 0, moreFragments := ip_off &&& IP_MF != 0
    dontFragment := ip_off &&& IP_DF != 0, fragmentOffset := (ip_off &&& IP_OFFMASK) * 8
    timeToLive := shortOf ttl, protocolId := protocolId.toNat
    crc, crcMode := .CRC_COMPUTED, srcAddress, destAddress, options
    isIncorrect := ip_v ≠ 4 || short || len.toNat < headerLength
    isIncomplete := bufsize < headerLength }, stream)

/-- What the length of the header is by its first byte. -/
def announcedLength (uninitialised : Fin 20 → UInt8) (stream : List UInt8) : Nat :=
  (stream.getD 0 (uninitialised 0)).toNat % 16 * 4

def received (result : Ipv4Header × List UInt8) : Received where
  options := result.1.options.length
  left := result.2
  marked := result.1.isIncorrect || result.1.isIncomplete

/-! ### The size of an option -/

/-- The length and the pointer of a timestamp option are for records of some bytes. -/
def RecordsFit (bytes : Nat) (stream : List UInt8) : Prop :=
  4 < (stream.getD 1 0).toNat ∧ ((stream.getD 1 0).toNat - 4) % bytes = 0 ∧
    5 ≤ (stream.getD 2 0).toNat ∧ ((stream.getD 2 0).toNat - 5) % bytes = 0

instance (bytes : Nat) (stream : List UInt8) : Decidable (RecordsFit bytes stream) :=
  inferInstanceAs (Decidable (_ ∧ _))

/-- A timestamp option that is taken for one with times only, of which none is read. -/
def TimesOnly (stream : List UInt8) : Prop :=
  shortOf (stream.getD 0 0) = IPOPTION_TIMESTAMP ∧ (stream.getD 3 0).toNat % 16 = 0 ∧
    RecordsFit 4 stream

instance (stream : List UInt8) : Decidable (TimesOnly stream) :=
  inferInstanceAs (Decidable (_ ∧ _))

/-- How many bytes an option takes: as many as its length byte says, with few exceptions. -/
def optionSize (stream : List UInt8) : Nat :=
  let type := shortOf (stream.getD 0 0)
  if type = IPOPTION_END_OF_OPTIONS ∨ type = IPOPTION_NO_OPTION then 1
  else if TimesOnly stream then 4
  else max 2 (stream.getD 1 0).toNat

theorem readAddresses_left (count : Nat) (stream : List UInt8) :
    (readAddresses count stream).2 = stream.drop (4 * count) := by
  induction count generalizing stream with
  | zero => rfl
  | succ count ih =>
    change (readAddresses count (readUint32Be stream).2).2 = _
    rw [ih, readUint32Be_left, List.drop_drop]
    congr 1
    omega

theorem readRecords_left (count : Nat) (stream : List UInt8) :
    (readRecords count stream).2 = stream.drop (8 * count) := by
  induction count generalizing stream with
  | zero => rfl
  | succ count ih =>
    change (readRecords count (readUint32Be (readUint32Be stream).2).2).2 = _
    rw [ih, readUint32Be_left, readUint32Be_left, List.drop_drop, List.drop_drop]
    congr 1
    omega

theorem deserializeRaw_left (stream : List UInt8) :
    (deserializeRaw stream).2 = stream.drop (max 2 (stream.getD 1 0).toNat) := by
  simp only [deserializeRaw, readByte_eq stream, readByte_drop, readEach_left, List.drop_drop]
  congr 1
  omega

/-- What is read behind the type of an option takes the length of the option. -/
def TakesLength (stream : List UInt8) (option : Option (TlvOption × List UInt8)) : Prop :=
  ∀ result, option = some result → result.2 = stream.drop (max 2 (stream.getD 1 0).toNat)

theorem deserializeTwoBytes_left (type : Int16) (fields : UInt16 → TlvOptionFields)
    (stream : List UInt8) :
    TakesLength stream (deserializeTwoBytes type fields (stream.drop 1)) := by
  intro result read
  simp only [deserializeTwoBytes, readByte_drop, Option.ite_none_right_eq_some] at read
  obtain ⟨four, ⟨⟩⟩ := read
  rw [four, readUint16Be_left, List.drop_drop]
  rfl

theorem deserializeRecordRoute_left (type : Int16) (stream : List UInt8) :
    TakesLength stream (deserializeRecordRoute type (stream.drop 1)) := by
  intro result read
  simp only [deserializeRecordRoute, readByte_drop, Option.ite_none_right_eq_some] at read
  obtain ⟨⟨longer, remainder, -⟩, ⟨⟩⟩ := read
  rw [readAddresses_left, List.drop_drop]
  congr 1
  omega

theorem ofValue_eq {value : Nat} {flag : TimestampFlag}
    (known : TimestampFlag.ofValue value = some flag) : value = flag.value := by
  unfold TimestampFlag.ofValue at known
  split at known <;> cases known <;> rfl

/-- A timestamp option takes its length, unless it has times without addresses, which are not
read. -/
theorem deserializeTimestamp_left {stream : List UInt8} {result : TlvOption × List UInt8}
    (type : shortOf (stream.getD 0 0) = IPOPTION_TIMESTAMP)
    (read : deserializeTimestamp (stream.drop 1) = some result) :
    result.2 = stream.drop (if TimesOnly stream then 4 else max 2 (stream.getD 1 0).toNat) := by
  simp only [deserializeTimestamp, readByte_drop, Nat.reduceAdd] at read
  cases known : TimestampFlag.ofValue ((stream.getD 3 0).toNat % 16) with
  | none =>
    rw [known] at read
    cases read
  | some flag =>
    have value := ofValue_eq known
    rw [known] at read
    simp only [Option.ite_none_right_eq_some] at read
    obtain ⟨valid, ⟨⟩⟩ := read
    cases flag with
    | IP_TIMESTAMP_TIMESTAMP_ONLY =>
      have times : TimesOnly stream := ⟨type, value, valid⟩
      rw [if_pos times]
      rfl
    | IP_TIMESTAMP_WITH_ADDRESS | IP_TIMESTAMP_SENDER_INIT_ADDRESS =>
      obtain ⟨longer, whole, -⟩ := valid
      have other : ¬TimesOnly stream := fun times => by
        have := value.symm.trans times.2.1
        cases this
      rw [if_neg other]
      simp only [TimestampFlag.bytes, readRecords_left, List.drop_drop, if_true] at whole ⊢
      congr 1
      omega

theorem deserializeTimestamp_none {stream : List UInt8}
    (read : deserializeTimestamp (stream.drop 1) = none) : ¬TimesOnly stream := by
  rintro ⟨-, times, fit⟩
  simp only [deserializeTimestamp, readByte_drop, Nat.reduceAdd] at read
  rw [times] at read
  exact absurd fit (by
    simpa [TimestampFlag.ofValue, TimestampFlag.bytes, RecordsFit] using read)

/-- An option takes its size. -/
theorem deserializeOption_left (stream : List UInt8) :
    (deserializeOption stream).2 = stream.drop (optionSize stream) := by
  have known {option : Option (TlvOption × List UInt8)} (takes : TakesLength stream option) :
      (option.getD (deserializeRaw stream)).2 = stream.drop (max 2 (stream.getD 1 0).toNat) := by
    cases option with
    | none => exact deserializeRaw_left stream
    | some result => exact takes result rfl
  simp only [deserializeOption, readByte_eq]
  by_cases timestamp : shortOf (stream.getD 0 0) = IPOPTION_TIMESTAMP
  · have size : optionSize stream =
        if TimesOnly stream then 4 else max 2 (stream.getD 1 0).toNat := by
      unfold optionSize
      rw [timestamp]
      exact if_neg (by decide)
    rw [size, timestamp, if_neg (by decide), if_neg (by decide), if_neg (by decide), if_pos rfl]
    cases read : deserializeTimestamp (stream.drop 1) with
    | none =>
      rw [if_neg (deserializeTimestamp_none read)]
      exact deserializeRaw_left stream
    | some result => exact deserializeTimestamp_left timestamp read
  · have other : ¬TimesOnly stream := fun times => timestamp times.1
    simp only [optionSize, if_neg other]
    split
    · next end_ => rw [if_pos (.inl end_)]
    · next notEnd =>
      split
      · next nop => rw [if_pos (.inr nop)]
      · next notNop =>
        rw [if_neg (not_or.mpr ⟨notEnd, notNop⟩)]
        split
        · exact known (deserializeTwoBytes_left _ _ stream)
        · split
          · exact known (deserializeRecordRoute_left _ stream)
          · split
            · exact known (deserializeTwoBytes_left _ _ stream)
            · exact deserializeRaw_left stream

theorem takes : Takes deserializeOption optionSize where
  positive stream := by
    simp only [optionSize]
    split
    · exact Nat.one_pos
    · split
      · decide
      · exact Nat.lt_of_lt_of_le Nat.two_pos (Nat.le_max_left _ _)
  left := deserializeOption_left

/-- The loop goes on up to the end of the stream or of the header, whichever comes first. -/
theorem loop_eq {total rounds : Nat} {stream : List UInt8} (headerLength : Nat)
    (inside : stream.length ≤ total) :
    readWhile deserializeOption
      (fun left => 0 < left.length && total - left.length < headerLength) rounds stream =
    readWhile deserializeOption (fun left => total - left.length < min headerLength total) rounds
      stream := by
  refine readWhile_congr takes (fun left within => ?_) inside
  rw [Bool.eq_iff_iff, Bool.and_eq_true, decide_eq_true_eq, decide_eq_true_eq, decide_eq_true_eq]
  omega

/-! ### Any stream -/

/-- All that the loop and the marks depend on. -/
theorem deserializeAny_eq (uninitialised : Fin 20 → UInt8) (stream : List UInt8) :
    ∃ marked : Bool,
      (announcedLength uninitialised stream < MIN_HEADER_LENGTH → marked = true) ∧
      (stream.length < max MIN_HEADER_LENGTH (announcedLength uninitialised stream) →
        marked = true) ∧
      ∀ rounds, (deserializeAny uninitialised stream rounds).map received =
        (if MIN_HEADER_LENGTH < announcedLength uninitialised stream then
          readWhile deserializeOption (fun left => 0 < left.length &&
            stream.length - left.length < announcedLength uninitialised stream) rounds
            (stream.drop MIN_HEADER_LENGTH)
          else some ([], stream.drop MIN_HEADER_LENGTH)).map
          fun result => ⟨result.1.length, result.2, marked⟩ := by
  generalize buffered : (readBuffer uninitialised stream).1 = buffer
  have first : (readByte buffer).1 = stream.getD 0 (uninitialised 0) := by
    rw [← buffered]
    rfl
  have announced : announcedLength uninitialised stream = (readByte buffer).1.toNat % 16 * 4 := by
    rw [first, announcedLength]
  generalize announcedLength uninitialised stream = announcedLength at announced
  unfold MIN_HEADER_LENGTH
  by_cases short : announcedLength < 20
  · refine ⟨true, fun _ => rfl, fun _ => rfl, fun rounds => ?_⟩
    rw [if_neg (by omega)]
    simp only [deserializeAny, buffered, ← announced, IPv4_MIN_HEADER_LENGTH, short, decide_true,
      if_true, Nat.lt_irrefl, if_false, Option.bind_eq_bind, Option.bind_some, Option.pure_def,
      Option.map_some, Bool.or_true, Bool.true_or, received]
    rfl
  · refine ⟨decide ((readByte buffer).1.toNat / 16 ≠ 4) ||
      decide ((readUint16Be (readByte (readByte buffer).2).2).1.toNat < announcedLength) ||
      decide (stream.length < announcedLength), fun less => absurd less short, fun less => ?_,
      fun rounds => ?_⟩
    · rw [Nat.max_eq_right (Nat.le_of_not_lt short)] at less
      rw [decide_eq_true less, Bool.or_true]
    · by_cases long : 20 < announcedLength
      · rw [if_pos long]
        simp only [deserializeAny, buffered, ← announced, IPv4_MIN_HEADER_LENGTH, short,
          decide_false, Bool.false_eq_true, if_false, long, if_true, Option.bind_eq_bind,
          Option.pure_def, Bool.or_false]
        change Option.map _ ((readWhile _ _ _ (stream.drop 20)).bind _) = _
        cases readWhile deserializeOption (fun left => decide (0 < left.length) &&
          decide (stream.length - left.length < announcedLength)) rounds (stream.drop 20) <;> rfl
      · rw [if_neg long]
        simp only [deserializeAny, buffered, ← announced, IPv4_MIN_HEADER_LENGTH, short, long,
          decide_false, Bool.false_eq_true, if_false, Option.bind_eq_bind, Option.bind_some,
          Option.pure_def, Option.map_some, Bool.or_false, received]
        rfl

/-- A header survives exactly if no option of it reaches into bytes behind it. -/
theorem survives_iff (uninitialised : Fin 20 → UInt8) (stream : List UInt8) :
    Survives stream (announcedLength uninitialised stream)
      (fun rounds => (deserializeAny uninitialised stream rounds).map received) ↔
    stream.length ≤ announcedLength uninitialised stream ∨
      Tile optionSize (announcedLength uninitialised stream - MIN_HEADER_LENGTH)
        (stream.drop MIN_HEADER_LENGTH) := by
  obtain ⟨marked, short, incomplete, parsed⟩ := deserializeAny_eq uninitialised stream
  by_cases long : MIN_HEADER_LENGTH < announcedLength uninitialised stream
  · refine survives_iff_tile takes marked long (fun rounds => ?_) (fun less => incomplete (by omega))
    rw [parsed, if_pos long]
    refine congrArg _ (loop_eq _ ?_)
    rw [List.length_drop]
    omega
  · rw [survives_iff_marked marked fun rounds => by rw [parsed, if_neg long]; rfl]
    rw [Nat.sub_eq_zero_of_le (by omega)]
    refine ⟨fun _ => .inr (.done _), fun _ shortOrLess => ?_⟩
    rcases shortOrLess with small | less
    · exact short small
    · exact incomplete (by omega)

end Ipv4HeaderSerializer

end Inet.Ipv4Options
