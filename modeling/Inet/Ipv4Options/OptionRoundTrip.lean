import Inet.Ipv4Options.Ipv4HeaderSerializer

/-!
# The round trip of IPv4 options
-/
namespace Inet.Ipv4Options

open Lib Packet

variable {length value : Int16} {option : TlvOption} {recordAddress : List UInt32}

namespace TlvOption

/-- The types that have a class of their own. -/
def knownTypes : List Int16 :=
  [IPOPTION_END_OF_OPTIONS, IPOPTION_NO_OPTION, IPOPTION_STREAM_ID, IPOPTION_TIMESTAMP,
    IPOPTION_RECORD_ROUTE, IPOPTION_LOOSE_SOURCE_ROUTING, IPOPTION_STRICT_SOURCE_ROUTING,
    IPOPTION_ROUTER_ALERT]

/-- The slot that a pointer is for can be written to a byte. -/
def PointerFits (first size : Nat) (idx : Int16) : Prop :=
  0 ≤ idx.toInt ∧ first + idx.toInt * size < 256

/-- A whole number of milliseconds that fits four bytes. -/
def MsFits (time : SimTime) : Prop :=
  ∃ ms : UInt32, time = ms.toNat * SIMTIME_MS

/-- An option has the type and the length of its class, and values that fit their bytes. A timestamp
option has times, and addresses for them unless its flag says that there are none. -/
def WellFormed (option : TlvOption) : Prop :=
  match option.fields with
  | .end_ => option.type = IPOPTION_END_OF_OPTIONS ∧ option.length = 1
  | .nop => option.type = IPOPTION_NO_OPTION ∧ option.length = 1
  | .streamId _ => option.type = IPOPTION_STREAM_ID ∧ option.length = 4
  | .routerAlert _ => option.type = IPOPTION_ROUTER_ALERT ∧ option.length = 4
  | .recordRoute nextAddressIdx recordAddress =>
    (option.type = IPOPTION_RECORD_ROUTE ∨ option.type = IPOPTION_LOOSE_SOURCE_ROUTING ∨
      option.type = IPOPTION_STRICT_SOURCE_ROUTING) ∧
    option.length.toInt = 3 + 4 * recordAddress.length ∧ PointerFits 4 4 nextAddressIdx
  | .timestamp flag overflow nextIdx recordAddress recordTimestamp =>
    option.type = IPOPTION_TIMESTAMP ∧ recordTimestamp ≠ [] ∧
    option.length.toInt = 4 + flag.bytes * recordTimestamp.length ∧
    recordAddress.length = (if flag.bytes = 8 then recordTimestamp.length else 0) ∧
    0 ≤ overflow.toInt ∧ overflow.toInt < 16 ∧ PointerFits 5 flag.bytes nextIdx ∧
    ∀ time ∈ recordTimestamp, MsFits time
  | .raw bytes => option.type ∉ knownTypes ∧ 0 ≤ option.type.toInt ∧ option.type.toInt < 256 ∧
    option.length.toInt = 2 + bytes.length

/-- Times without addresses, and routes without addresses, are not read as they were written. -/
def Readable (option : TlvOption) : Prop :=
  match option.fields with
  | .recordRoute _ recordAddress => recordAddress ≠ []
  | .timestamp flag _ _ _ _ => flag ≠ .IP_TIMESTAMP_TIMESTAMP_ONLY
  | _ => True

end TlvOption

namespace Ipv4HeaderSerializer

/-! ### Bytes of shorts -/

theorem toNat_toUInt16 (value : Int16) (nonneg : 0 ≤ value.toInt) :
    (value.toUInt16.toNat : Int) = value.toInt := by
  have small := value.toBitVec.isLt
  have cases := BitVec.toInt_eq_toNat_cond value.toBitVec
  change value.toInt = _ at cases
  change (value.toBitVec.toNat : Int) = _
  split at cases <;> omega

theorem toNat_byteOf (nonneg : 0 ≤ value.toInt) (fits : value.toInt < 256) :
    ((byteOf value).toNat : Int) = value.toInt := by
  have same := toNat_toUInt16 value nonneg
  rw [byteOf, UInt16.toNat_toUInt8, Nat.mod_eq_of_lt (by omega), same]

theorem shortOf_eq {byte : UInt8} (same : (byte.toNat : Int) = value.toInt) :
    shortOf byte = value := by
  have small := byte.toNat_lt
  apply Int16.toInt.inj
  rw [shortOf, Int16.toInt_ofNat_of_lt (by omega), same]

theorem shortOf_byteOf (nonneg : 0 ≤ value.toInt) (fits : value.toInt < 256) :
    shortOf (byteOf value) = value :=
  shortOf_eq (toNat_byteOf nonneg fits)

theorem toNat_pointerTo {first size : Nat} {idx : Int16}
    (fits : TlvOption.PointerFits first size idx) :
    ((pointerTo first size idx).toNat : Int) = first + idx.toInt * size := by
  obtain ⟨nonneg, small⟩ := fits
  have product := Int.mul_nonneg nonneg (Int.natCast_nonneg size)
  rw [pointerTo, UInt8.toNat_ofNat', Int.emod_eq_of_lt (by omega) small]
  omega

/-- The slot of a pointer is found again. -/
theorem pointer_roundTrip {first size : Nat} {idx : Int16} (positive : 0 < size)
    (fits : TlvOption.PointerFits first size idx) :
    first ≤ (pointerTo first size idx).toNat ∧ ((pointerTo first size idx).toNat - first) % size = 0 ∧
      Int16.ofNat (((pointerTo first size idx).toNat - first) / size) = idx := by
  have pointer := toNat_pointerTo fits
  obtain ⟨n, nonneg⟩ := Int.eq_ofNat_of_zero_le fits.1
  have small := idx.toInt_lt
  rw [nonneg] at pointer small
  have value : (pointerTo first size idx).toNat = first + n * size := by exact_mod_cast pointer
  rw [value, Nat.add_sub_cancel_left, Nat.mul_mod_left, Nat.mul_div_cancel _ positive]
  refine ⟨Nat.le_add_right _ _, rfl, ?_⟩
  apply Int16.toInt.inj
  rw [Int16.toInt_ofNat_of_lt (by omega), nonneg]

/-! ### Records -/

theorem readAddresses_append (recordAddress : List UInt32) (rest : List UInt8) :
    readAddresses recordAddress.length (recordAddress.flatMap writeUint32Be ++ rest) =
      (recordAddress, rest) := by
  induction recordAddress with
  | nil => rfl
  | cons address recordAddress ih =>
    rw [List.length_cons, readAddresses, List.flatMap_cons, List.append_assoc, readUint32Be_write]
    dsimp only
    rw [ih]

theorem length_addresses (recordAddress : List UInt32) :
    (recordAddress.flatMap writeUint32Be).length = 4 * recordAddress.length := by
  induction recordAddress with
  | nil => rfl
  | cons address recordAddress ih =>
    rw [List.flatMap_cons, List.length_append, ih, length_writeUint32Be, List.length_cons]
    omega

theorem ms_written (ms : UInt32) :
    UInt32.ofNat ((ms.toNat * SIMTIME_MS).tdiv SIMTIME_MS % 2 ^ 32).toNat = ms := by
  have small := ms.toNat_lt
  apply UInt32.toNat_inj.mp
  rw [Int.mul_tdiv_cancel _ (by decide), UInt32.toNat_ofNat']
  omega

/-- Records with addresses are read as they were written. -/
theorem records_roundTrip {flag : TimestampFlag} (addresses : flag.bytes = 8)
    {recordTimestamp : List SimTime} (lengths : recordAddress.length = recordTimestamp.length)
    (fits : ∀ time ∈ recordTimestamp, TlvOption.MsFits time) :
    ∃ bytes, writeRecords flag recordAddress recordTimestamp = .ok bytes ∧
      bytes.length = 8 * recordTimestamp.length ∧
      ∀ rest, readRecords recordTimestamp.length (bytes ++ rest) =
        ((recordAddress, recordTimestamp), rest) := by
  induction recordTimestamp generalizing recordAddress with
  | nil =>
    obtain rfl := List.length_eq_zero_iff.mp lengths
    exact ⟨[], rfl, rfl, fun _ => rfl⟩
  | cons time recordTimestamp ih =>
    cases recordAddress with
    | nil => cases lengths
    | cons address recordAddress =>
      obtain ⟨ms, rfl⟩ := fits time List.mem_cons_self
      obtain ⟨bytes, written, length, read⟩ := ih (Nat.succ.inj lengths)
        fun other member => fits other (List.mem_cons_of_mem _ member)
      refine ⟨writeUint32Be address ++ (writeUint32Be ms ++ bytes), ?_, ?_, fun rest => ?_⟩
      · rw [writeRecords, ms_written, if_pos addresses, written]
        rfl
      · rw [List.length_append, List.length_append, length, length_writeUint32Be,
          length_writeUint32Be, List.length_cons]
        omega
      · rw [List.length_cons, readRecords, List.append_assoc, List.append_assoc,
          readUint32Be_write]
        dsimp only
        rw [readUint32Be_write]
        dsimp only
        rw [read]

/-! ### Options -/

/-- How long an option says it is. -/
def lengthOf (option : TlvOption) : Nat := option.length.toInt.toNat

theorem length_pos (wellFormed : option.WellFormed) :
    0 < option.length.toInt := by
  obtain ⟨type, length, fields⟩ := option
  dsimp only [TlvOption.WellFormed] at *
  cases fields with
  | end_ | nop | streamId | routerAlert =>
    obtain ⟨_, rfl⟩ := wellFormed
    decide
  | recordRoute nextAddressIdx recordAddress => omega
  | timestamp flag overflow nextIdx recordAddress recordTimestamp =>
    have length := wellFormed.2.2.1
    have nonneg := Int.mul_nonneg (Int.natCast_nonneg flag.bytes)
      (Int.natCast_nonneg recordTimestamp.length)
    omega
  | raw bytes => omega

/-- An option with a length is written with it. -/
theorem serializeOption_eq (bytes : List UInt8) (longer : 1 < option.length.toInt)
    (fields : serializeFields option.type (lengthOf option) option.fields = .ok bytes) :
    serializeOption option = .ok (byteOf option.type :: byteOf option.length :: bytes) := by
  have value := toNat_toUInt16 option.length (by omega)
  have same : option.length.toUInt16.toNat = lengthOf option := by rw [lengthOf]; omega
  have some : 1 < option.length.toUInt16 :=
    UInt16.lt_iff_toNat_lt.mpr (by rw [same, lengthOf]; change 1 < _; omega)
  unfold serializeOption
  dsimp only
  rw [same, fields, ok_bind, if_pos some]
  rfl

/-- The overflow and the flag have four bits each. -/
theorem flagbyte_roundTrip {overflow : Int16} (flag : TimestampFlag) (nonneg : 0 ≤ overflow.toInt)
    (fits : overflow.toInt < 16) :
    Int16.ofNat ((UInt8.ofNat (overflow.toInt * 16 % 256).toNat |||
      UInt8.ofNat flag.value).toNat / 16) = overflow ∧
    TimestampFlag.ofValue ((UInt8.ofNat (overflow.toInt * 16 % 256).toNat |||
      UInt8.ofNat flag.value).toNat % 16) = some flag := by
  obtain ⟨n, value⟩ := Int.eq_ofNat_of_zero_le nonneg
  have small : n < 16 := by omega
  have same : overflow = Int16.ofNat n := by
    apply Int16.toInt.inj
    rw [Int16.toInt_ofNat_of_lt (by omega), value]
  have each : ∀ n : Fin 16, ∀ flag : Fin 3,
      let flag := [TimestampFlag.IP_TIMESTAMP_TIMESTAMP_ONLY, .IP_TIMESTAMP_WITH_ADDRESS,
        .IP_TIMESTAMP_SENDER_INIT_ADDRESS][flag]
      let flagbyte := UInt8.ofNat ((n : Int) * 16 % 256).toNat ||| UInt8.ofNat flag.value
      flagbyte.toNat / 16 = n ∧ TimestampFlag.ofValue (flagbyte.toNat % 16) = some flag := by
    decide
  rw [value, same]
  cases flag with
  | IP_TIMESTAMP_TIMESTAMP_ONLY =>
    obtain ⟨high, low⟩ := each ⟨n, small⟩ 0
    exact ⟨congrArg Int16.ofNat high, low⟩
  | IP_TIMESTAMP_WITH_ADDRESS =>
    obtain ⟨high, low⟩ := each ⟨n, small⟩ 1
    exact ⟨congrArg Int16.ofNat high, low⟩
  | IP_TIMESTAMP_SENDER_INIT_ADDRESS =>
    obtain ⟨high, low⟩ := each ⟨n, small⟩ 2
    exact ⟨congrArg Int16.ofNat high, low⟩

/-- Reading the bytes of an option, with others behind them, returns the option. -/
def OptionRoundTrips (option : TlvOption) : Prop :=
  ∃ bytes, serializeOption option = .ok bytes ∧ (bytes.length : Int) = option.length.toInt ∧
    ∀ rest, deserializeOption (bytes ++ rest) = (option, rest)

theorem recordRoute_roundTrips {type nextAddressIdx : Int16}
    (known : type = IPOPTION_RECORD_ROUTE ∨ type = IPOPTION_LOOSE_SOURCE_ROUTING ∨
      type = IPOPTION_STRICT_SOURCE_ROUTING)
    (addresses : length.toInt = 3 + 4 * recordAddress.length) (some : recordAddress ≠ [])
    (fits : TlvOption.PointerFits 4 4 nextAddressIdx) (short : length.toInt < 256) :
    OptionRoundTrips { type, length, fields := .recordRoute nextAddressIdx recordAddress } := by
  have positive := List.length_pos_iff.mpr some
  obtain ⟨first, slot, index⟩ := pointer_roundTrip (by decide) fits
  have value := toNat_byteOf (by omega) short
  have count : ((byteOf length).toNat - 3) / 4 = recordAddress.length := by omega
  refine ⟨_, serializeOption_eq (pointerTo 4 4 nextAddressIdx ::
    recordAddress.flatMap writeUint32Be) ?_ ?_, ?_, fun rest => ?_⟩
  · dsimp only
    omega
  · have same : lengthOf { type, length, fields := .recordRoute nextAddressIdx recordAddress } =
        3 + 4 * recordAddress.length := by
      rw [lengthOf]
      dsimp only
      omega
    dsimp only
    rw [same]
    rcases known with rfl | rfl | rfl <;>
      change (do assert (decide _) _; return _) = _ <;>
      rw [decide_eq_true rfl] <;> rfl
  · simp only [List.length_cons, length_addresses]
    omega
  · have read : deserializeRecordRoute type (byteOf length :: pointerTo 4 4 nextAddressIdx ::
        (recordAddress.flatMap writeUint32Be ++ rest)) =
        .some ({ type, length, fields := .recordRoute nextAddressIdx recordAddress }, rest) := by
      have kept : 3 < (byteOf length).toNat ∧ (byteOf length).toNat % 4 = 3 ∧
          4 ≤ (pointerTo 4 4 nextAddressIdx).toNat ∧
          (pointerTo 4 4 nextAddressIdx).toNat % 4 = 0 := by omega
      unfold deserializeRecordRoute
      simp only [readByte_cons]
      refine (if_pos kept).trans ?_
      rw [count, readAddresses_append, index, shortOf_eq value]
    have known : deserializeOption (byteOf type :: byteOf length :: pointerTo 4 4 nextAddressIdx ::
        (recordAddress.flatMap writeUint32Be ++ rest)) =
        (deserializeRecordRoute type (byteOf length :: pointerTo 4 4 nextAddressIdx ::
          (recordAddress.flatMap writeUint32Be ++ rest))).getD
          (deserializeRaw (byteOf type :: byteOf length :: pointerTo 4 4 nextAddressIdx ::
            (recordAddress.flatMap writeUint32Be ++ rest))) := by
      rcases known with rfl | rfl | rfl <;> rfl
    exact known.trans (by rw [read]; rfl)

theorem timestamp_roundTrips {overflow nextIdx : Int16} {flag : TimestampFlag}
    {recordTimestamp : List SimTime} (both : flag.bytes = 8)
    (some : recordTimestamp ≠ []) (times : length.toInt = 4 + flag.bytes * recordTimestamp.length)
    (addresses : recordAddress.length = recordTimestamp.length) (nonneg : 0 ≤ overflow.toInt)
    (small : overflow.toInt < 16) (fits : TlvOption.PointerFits 5 flag.bytes nextIdx)
    (whole : ∀ time ∈ recordTimestamp, TlvOption.MsFits time) (short : length.toInt < 256) :
    OptionRoundTrips { type := IPOPTION_TIMESTAMP, length
                       fields := .timestamp flag overflow nextIdx recordAddress
                         recordTimestamp } := by
  have positive := List.length_pos_iff.mpr some
  obtain ⟨records, written, bytes, read⟩ := records_roundTrip both addresses whole
  obtain ⟨high, low⟩ := flagbyte_roundTrip flag nonneg small
  rw [both] at times
  have value := toNat_byteOf (by omega) short
  have count : ((byteOf length).toNat - 4) / 8 = recordTimestamp.length := by omega
  have pointer := pointer_roundTrip (by rw [both]; decide) fits
  rw [both] at pointer
  obtain ⟨first, slot, index⟩ := pointer
  refine ⟨_, serializeOption_eq (pointerTo 5 8 nextIdx ::
    (UInt8.ofNat (overflow.toInt * 16 % 256).toNat ||| UInt8.ofNat flag.value) :: records) ?_ ?_,
    ?_, fun rest => ?_⟩
  · dsimp only
    omega
  · have same : lengthOf { type := IPOPTION_TIMESTAMP, length
                           fields := .timestamp flag overflow nextIdx recordAddress
                             recordTimestamp } = 4 + 8 * recordTimestamp.length := by
      rw [lengthOf]
      dsimp only
      omega
    dsimp only
    rw [same]
    change (do assert (decide _) _; let records ← _; return _) = _
    rw [both, decide_eq_true rfl, written]
    rfl
  · simp only [List.length_cons, bytes]
    omega
  · have option : deserializeTimestamp (byteOf length :: pointerTo 5 8 nextIdx ::
        (UInt8.ofNat (overflow.toInt * 16 % 256).toNat ||| UInt8.ofNat flag.value) ::
          (records ++ rest)) =
        .some ({ type := IPOPTION_TIMESTAMP, length
                 fields := .timestamp flag overflow nextIdx recordAddress recordTimestamp },
          rest) := by
      have kept : 4 < (byteOf length).toNat ∧ ((byteOf length).toNat - 4) % flag.bytes = 0 ∧
          5 ≤ (pointerTo 5 8 nextIdx).toNat ∧
          ((pointerTo 5 8 nextIdx).toNat - 5) % flag.bytes = 0 := by
        rw [both]
        omega
      unfold deserializeTimestamp
      simp only [readByte_cons]
      rw [low]
      refine (if_pos kept).trans ?_
      rw [both, count, if_pos rfl, read, high, index, shortOf_eq value, Nat.sub_self,
        List.replicate_zero, List.append_nil]
    change Option.getD (deserializeTimestamp (_ :: _ :: _ :: (_ ++ rest))) _ = _
    rw [option]
    rfl

theorem raw_roundTrips {type : Int16} {bytes : List UInt8}
    (other : type ∉ TlvOption.knownTypes) (nonneg : 0 ≤ type.toInt) (fits : type.toInt < 256)
    (data : length.toInt = 2 + bytes.length) (short : length.toInt < 256) :
    OptionRoundTrips { type, length, fields := .raw bytes } := by
  have value := toNat_byteOf (by omega) short
  have count : (byteOf length).toNat - 2 = bytes.length := by omega
  refine ⟨_, serializeOption_eq bytes ?_ ?_, ?_, fun rest => ?_⟩
  · dsimp only
    omega
  · have same : lengthOf { type, length, fields := .raw bytes } = 2 + bytes.length := by
      rw [lengthOf]
      dsimp only
      omega
    dsimp only
    rw [same]
    change (do assert (decide _) _; return _) = _
    rw [decide_eq_true rfl]
    rfl
  · simp only [List.length_cons]
    omega
  · rw [TlvOption.knownTypes] at other
    simp only [List.mem_cons, List.not_mem_nil, or_false, not_or] at other
    obtain ⟨end_, nop, streamId, timestamp, recordRoute, loose, strict, routerAlert⟩ := other
    have unknown : ¬(type = IPOPTION_RECORD_ROUTE ∨ type = IPOPTION_LOOSE_SOURCE_ROUTING ∨
        type = IPOPTION_STRICT_SOURCE_ROUTING) := by
      rintro (same | same | same)
      exacts [recordRoute same, loose same, strict same]
    unfold deserializeOption
    dsimp only
    rw [List.cons_append, List.cons_append, readByte_cons]
    dsimp only
    rw [shortOf_byteOf nonneg fits, if_neg end_, if_neg nop, if_neg streamId, if_neg timestamp,
      if_neg unknown, if_neg routerAlert, Option.getD_none, deserializeRaw]
    simp only [readByte_cons]
    rw [count, readEach_append, shortOf_byteOf nonneg fits, shortOf_eq value]

/-- A readable option is read as it was written. -/
theorem option_roundTrips (wellFormed : option.WellFormed)
    (readable : option.Readable) (short : option.length.toInt < 256) :
    OptionRoundTrips option := by
  obtain ⟨type, length, fields⟩ := option
  dsimp only [TlvOption.WellFormed, TlvOption.Readable] at *
  cases fields with
  | end_ =>
    obtain ⟨rfl, rfl⟩ := wellFormed
    exact ⟨[0], rfl, rfl, fun _ => rfl⟩
  | nop =>
    obtain ⟨rfl, rfl⟩ := wellFormed
    exact ⟨[1], rfl, rfl, fun _ => rfl⟩
  | streamId streamId =>
    obtain ⟨rfl, rfl⟩ := wellFormed
    refine ⟨136 :: 4 :: writeUint16Be streamId.toUInt16, rfl, rfl, fun rest => ?_⟩
    change (fun read => (({ type := 136, length := 4, fields := .streamId read.1.toInt16 } :
      TlvOption), read.2)) (readUint16Be (writeUint16Be streamId.toUInt16 ++ rest)) = _
    rw [readUint16Be_write]
    rfl
  | routerAlert routerAlert =>
    obtain ⟨rfl, rfl⟩ := wellFormed
    refine ⟨148 :: 4 :: writeUint16Be routerAlert, rfl, rfl, fun rest => ?_⟩
    change (fun read => (({ type := 148, length := 4, fields := .routerAlert read.1 } :
      TlvOption), read.2)) (readUint16Be (writeUint16Be routerAlert ++ rest)) = _
    rw [readUint16Be_write]
    rfl
  | recordRoute nextAddressIdx recordAddress =>
    obtain ⟨known, addresses, fits⟩ := wellFormed
    exact recordRoute_roundTrips known addresses readable fits short
  | timestamp flag overflow nextIdx recordAddress recordTimestamp =>
    obtain ⟨rfl, some, times, addresses, nonneg, small, fits, whole⟩ := wellFormed
    have both : flag.bytes = 8 := by
      cases flag with
      | IP_TIMESTAMP_TIMESTAMP_ONLY => exact absurd rfl readable
      | IP_TIMESTAMP_WITH_ADDRESS | IP_TIMESTAMP_SENDER_INIT_ADDRESS => rfl
    rw [if_pos both] at addresses
    exact timestamp_roundTrips both some times addresses nonneg small fits whole short
  | raw bytes =>
    obtain ⟨other, nonneg, fits, data⟩ := wellFormed
    exact raw_roundTrips other nonneg fits data short

end Ipv4HeaderSerializer
end Inet.Ipv4Options
