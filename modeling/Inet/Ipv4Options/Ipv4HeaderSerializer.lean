import Inet.Rdma.RdmaHeader

/-!
# The serializer of IPv4 headers with options

Each class of options is written and read in its own way. A stretch without an option is filled with
options that end the list.
-/
namespace Inet.Ipv4Options

open Lib Packet
open Rdma (CrcMode)

def IPv4_MIN_HEADER_LENGTH : Nat := 20
def IPv4_MAX_HEADER_LENGTH : Nat := 60

def IPOPTION_END_OF_OPTIONS : Int16 := 0
def IPOPTION_NO_OPTION : Int16 := 1
def IPOPTION_STREAM_ID : Int16 := 136
def IPOPTION_TIMESTAMP : Int16 := 68
def IPOPTION_LOOSE_SOURCE_ROUTING : Int16 := 131
def IPOPTION_RECORD_ROUTE : Int16 := 7
def IPOPTION_STRICT_SOURCE_ROUTING : Int16 := 137
def IPOPTION_ROUTER_ALERT : Int16 := 148

inductive TimestampFlag
  | IP_TIMESTAMP_TIMESTAMP_ONLY
  | IP_TIMESTAMP_WITH_ADDRESS
  | IP_TIMESTAMP_SENDER_INIT_ADDRESS
deriving DecidableEq

namespace TimestampFlag

def value : TimestampFlag → Nat
  | IP_TIMESTAMP_TIMESTAMP_ONLY => 0
  | IP_TIMESTAMP_WITH_ADDRESS => 1
  | IP_TIMESTAMP_SENDER_INIT_ADDRESS => 3

/-- How many bytes there are for each timestamp. -/
def bytes : TimestampFlag → Nat
  | IP_TIMESTAMP_TIMESTAMP_ONLY => 4
  | _ => 8

def ofValue : Nat → Option TimestampFlag
  | 0 => some IP_TIMESTAMP_TIMESTAMP_ONLY
  | 1 => some IP_TIMESTAMP_WITH_ADDRESS
  | 3 => some IP_TIMESTAMP_SENDER_INIT_ADDRESS
  | _ => none

end TimestampFlag

/-- A time in picoseconds. -/
abbrev SimTime := Int

def SIMTIME_MS : Int := 1000000000

/-- The classes of options, with what each adds. -/
inductive TlvOptionFields
  | end_
  | nop
  | streamId (streamId : Int16)
  | routerAlert (routerAlert : UInt16)
  | recordRoute (nextAddressIdx : Int16) (recordAddress : List UInt32)
  | timestamp (flag : TimestampFlag) (overflow nextIdx : Int16) (recordAddress : List UInt32)
    (recordTimestamp : List SimTime)
  | raw (bytes : List UInt8)
deriving DecidableEq

structure TlvOption where
  type : Int16
  length : Int16
  fields : TlvOptionFields
deriving DecidableEq

structure Ipv4Header where
  version : Int16 := 4
  headerLength : Nat := IPv4_MIN_HEADER_LENGTH
  typeOfService : Int16
  totalLengthField : Int
  identification : UInt16
  reservedBit : Bool := false
  moreFragments : Bool
  dontFragment : Bool
  fragmentOffset : UInt16
  timeToLive : Int16
  protocolId : Nat
  crc : UInt16 := 0
  crcMode : CrcMode := .CRC_MODE_UNDEFINED
  srcAddress : UInt32
  destAddress : UInt32
  options : List TlvOption := []
  isIncorrect : Bool := false
  isIncomplete : Bool := false
deriving DecidableEq

namespace Ipv4HeaderSerializer

/-- The low byte of a `short`. -/
def byteOf (value : Int16) : UInt8 := value.toUInt16.toUInt8

def shortOf (byte : UInt8) : Int16 := Int16.ofNat byte.toNat

def assert (condition : Bool) (text : String) : Except String Unit :=
  if condition then return else throw text

/-! ### Writing -/

/-- The option is of another class than its type says. -/
def wrongClass : String := "check_and_cast(): Cannot cast an option to the class of its type"

/-- The next slot of an option with slots from a position on. -/
def pointerTo (first size : Nat) (idx : Int16) : UInt8 :=
  UInt8.ofNat ((first + idx.toInt * size) % 256).toNat

/-- The records of a timestamp option, with an address before each time if there are eight bytes for
each. -/
def writeRecords (flag : TimestampFlag) : List UInt32 → List SimTime → Except String (List UInt8)
  | _, [] => return []
  | recordAddress, time :: recordTimestamp => do
    let ms := UInt32.ofNat (time.tdiv SIMTIME_MS % 2 ^ 32).toNat
    if flag.bytes = 8 then
      match recordAddress with
      | [] => throw "Array indexed beyond its size"
      | address :: recordAddress =>
        let rest ← writeRecords flag recordAddress recordTimestamp
        return writeUint32Be address ++ (writeUint32Be ms ++ rest)
    else
      let rest ← writeRecords flag recordAddress recordTimestamp
      return writeUint32Be ms ++ rest

/-- What is written behind the type and the length. -/
def serializeFields (type : Int16) (length : Nat) : TlvOptionFields → Except String (List UInt8)
  | .raw bytes => do
    assert (length = 2 + bytes.length) "length == 2 + datalen"
    return bytes
  | fields =>
    if type = IPOPTION_END_OF_OPTIONS then
      match fields with
      | .end_ => do
        assert (length = 1) "length == 1"
        return []
      | _ => throw wrongClass
    else if type = IPOPTION_NO_OPTION then
      match fields with
      | .nop => do
        assert (length = 1) "length == 1"
        return []
      | _ => throw wrongClass
    else if type = IPOPTION_STREAM_ID then
      match fields with
      | .streamId streamId => do
        assert (length = 4) "length == 4"
        return writeUint16Be streamId.toUInt16
      | _ => throw wrongClass
    else if type = IPOPTION_TIMESTAMP then
      match fields with
      | .timestamp flag overflow nextIdx recordAddress recordTimestamp => do
        assert (length = 4 + flag.bytes * recordTimestamp.length)
          "length == 4 + bytes * opt->getRecordTimestampArraySize()"
        let flagbyte := UInt8.ofNat (overflow.toInt * 16 % 256).toNat ||| UInt8.ofNat flag.value
        let records ← writeRecords flag recordAddress recordTimestamp
        return pointerTo 5 flag.bytes nextIdx :: flagbyte :: records
      | _ => throw wrongClass
    else if type = IPOPTION_RECORD_ROUTE ∨ type = IPOPTION_LOOSE_SOURCE_ROUTING ∨
        type = IPOPTION_STRICT_SOURCE_ROUTING then
      match fields with
      | .recordRoute nextAddressIdx recordAddress => do
        assert (length = 3 + 4 * recordAddress.length)
          "length == 3 + 4 * opt->getRecordAddressArraySize()"
        return pointerTo 4 4 nextAddressIdx :: recordAddress.flatMap writeUint32Be
      | _ => throw wrongClass
    else if type = IPOPTION_ROUTER_ALERT then
      match fields with
      | .routerAlert routerAlert => do
        assert (length = 4) "length == 4"
        return writeUint16Be routerAlert
      | _ => throw wrongClass
    else throw "Unknown Ipv4Option type (not in an TlvOptionRaw option)"

def serializeOption (option : TlvOption) : Except String (List UInt8) := do
  let length := option.length.toUInt16
  let fields ← serializeFields option.type length.toNat option.fields
  return byteOf option.type :: (if 1 < length then [length.toUInt8] else []) ++ fields

def IP_OFFMASK : UInt16 := 0x1fff
def IP_RF : UInt16 := 0x8000
def IP_DF : UInt16 := 0x4000
def IP_MF : UInt16 := 0x2000

def offOf (ipv4Header : Ipv4Header) : UInt16 :=
  let ip_off := ipv4Header.fragmentOffset / 8 &&& IP_OFFMASK
  let ip_off := if ipv4Header.reservedBit then ip_off ||| IP_RF else ip_off
  let ip_off := if ipv4Header.moreFragments then ip_off ||| IP_MF else ip_off
  if ipv4Header.dontFragment then ip_off ||| IP_DF else ip_off

/-- The bytes of an `ip`. The version and the length of the header have four bits each. -/
def serializeFixed (ipv4Header : Ipv4Header) : List UInt8 :=
  [UInt8.ofNat ((byteOf ipv4Header.version).toNat % 16 * 16 + ipv4Header.headerLength / 4 % 16),
    byteOf ipv4Header.typeOfService] ++
    writeUint16Be (toUint16 ipv4Header.totalLengthField) ++
    writeUint16Be ipv4Header.identification ++ writeUint16Be (offOf ipv4Header) ++
    [byteOf ipv4Header.timeToLive, UInt8.ofNat ipv4Header.protocolId] ++
    writeUint16Be ipv4Header.crc ++ writeUint32Be ipv4Header.srcAddress ++
    writeUint32Be ipv4Header.destAddress

/-- The options, and what fills the header up. -/
def serializeOptions (ipv4Header : Ipv4Header) : Except String (List UInt8) :=
  if IPv4_MIN_HEADER_LENGTH < ipv4Header.headerLength then do
    -- The number of options is an `unsigned short`.
    let written := ipv4Header.options.take (ipv4Header.options.length % 65536)
    let options ← written.mapM serializeOption
    let optionsLength := (written.map (·.length.toInt)).sum
    if (ipv4Header.headerLength : Int) < IPv4_MIN_HEADER_LENGTH + optionsLength then
      throw ("Serializing an Ipv4 packet with wrong headerLength value: " ++
        "not enough for store options.\n")
    let writtenLength := IPv4_MIN_HEADER_LENGTH + options.flatten.length
    return options.flatten ++ List.replicate (ipv4Header.headerLength - writtenLength) 0
  else return []

def serialize (ipv4Header : Ipv4Header) : Except String (List UInt8) := do
  assert (ipv4Header.headerLength % 4 = 0 ∧ IPv4_MIN_HEADER_LENGTH ≤ ipv4Header.headerLength ∧
    ipv4Header.headerLength ≤ IPv4_MAX_HEADER_LENGTH)
    ("(headerLength.get() & 3) == 0 && headerLength >= IPv4_MIN_HEADER_LENGTH && " ++
      "headerLength <= IPv4_MAX_HEADER_LENGTH")
  assert (ipv4Header.headerLength ≤ ipv4Header.totalLengthField)
    "headerLength <= ipv4Header->getTotalLengthField()"
  assert (ipv4Header.fragmentOffset &&& 7 = 0) "(ipv4Header->getFragmentOffset() & 7) == 0"
  if ipv4Header.crcMode ≠ .CRC_COMPUTED then
    throw "Cannot serialize Ipv4 header without a properly computed CRC"
  let options ← serializeOptions ipv4Header
  return serializeFixed ipv4Header ++ options

/-! ### Reading -/

def readAddresses : Nat → List UInt8 → List UInt32 × List UInt8
  | 0, stream => ([], stream)
  | count + 1, stream =>
    let (address, stream) := readUint32Be stream
    let (recordAddress, stream) := readAddresses count stream
    (address :: recordAddress, stream)

/-- The addresses and the times of records that have both. -/
def readRecords : Nat → List UInt8 → (List UInt32 × List SimTime) × List UInt8
  | 0, stream => (([], []), stream)
  | count + 1, stream =>
    let (address, stream) := readUint32Be stream
    let (ms, stream) := readUint32Be stream
    let ((recordAddress, recordTimestamp), stream) := readRecords count stream
    ((address :: recordAddress, ms.toNat * SIMTIME_MS :: recordTimestamp), stream)

/-- An option whose class is not known, or that is not as its class has it. -/
def deserializeRaw (stream : List UInt8) : TlvOption × List UInt8 :=
  let (type, stream) := readByte stream
  let (length, stream) := readByte stream
  let (bytes, stream) := readEach (length.toNat - 2) stream
  ({ type := shortOf type, length := shortOf length, fields := .raw bytes }, stream)

/-- A timestamp option, from what is behind its type. The loop over the records goes over the
addresses. -/
def deserializeTimestamp (stream : List UInt8) : Option (TlvOption × List UInt8) :=
  let (length, stream) := readByte stream
  let (pointer, stream) := readByte stream
  let (flagbyte, stream) := readByte stream
  let overflow := flagbyte.toNat / 16
  match TimestampFlag.ofValue (flagbyte.toNat % 16) with
  | none => none
  | some flag =>
    if 4 < length.toNat ∧ (length.toNat - 4) % flag.bytes = 0 ∧ 5 ≤ pointer.toNat ∧
        (pointer.toNat - 5) % flag.bytes = 0 then
      let recordTimestampArraySize := (length.toNat - 4) / flag.bytes
      let recordAddressArraySize := if flag.bytes = 8 then recordTimestampArraySize else 0
      let ((recordAddress, recordTimestamp), stream) := readRecords recordAddressArraySize stream
      let unread := List.replicate (recordTimestampArraySize - recordAddressArraySize) 0
      some ({ type := IPOPTION_TIMESTAMP, length := shortOf length
              fields := .timestamp flag (Int16.ofNat overflow)
                (Int16.ofNat ((pointer.toNat - 5) / flag.bytes)) recordAddress
                (recordTimestamp ++ unread) }, stream)
    else none

def deserializeRecordRoute (type : Int16) (stream : List UInt8) :
    Option (TlvOption × List UInt8) :=
  let (length, stream) := readByte stream
  let (pointer, stream) := readByte stream
  if 3 < length.toNat ∧ length.toNat % 4 = 3 ∧ 4 ≤ pointer.toNat ∧ pointer.toNat % 4 = 0 then
    let (recordAddress, stream) := readAddresses ((length.toNat - 3) / 4) stream
    some ({ type, length := shortOf length
            fields := .recordRoute (Int16.ofNat ((pointer.toNat - 4) / 4)) recordAddress }, stream)
  else none

/-- An option with two bytes behind its length. -/
def deserializeTwoBytes (type : Int16) (fields : UInt16 → TlvOptionFields) (stream : List UInt8) :
    Option (TlvOption × List UInt8) :=
  let (length, stream) := readByte stream
  if length = 4 then
    let (value, stream) := readUint16Be stream
    some ({ type, length := shortOf length, fields := fields value }, stream)
  else none

def deserializeOption (stream : List UInt8) : TlvOption × List UInt8 :=
  let (byte, behind) := readByte stream
  let type := shortOf byte
  if type = IPOPTION_END_OF_OPTIONS then ({ type, length := 1, fields := .end_ }, behind)
  else if type = IPOPTION_NO_OPTION then ({ type, length := 1, fields := .nop }, behind)
  else
    let option :=
      if type = IPOPTION_STREAM_ID then
        deserializeTwoBytes type (fun value => .streamId value.toInt16) behind
      else if type = IPOPTION_TIMESTAMP then deserializeTimestamp behind
      else if type = IPOPTION_RECORD_ROUTE ∨ type = IPOPTION_LOOSE_SOURCE_ROUTING ∨
          type = IPOPTION_STRICT_SOURCE_ROUTING then deserializeRecordRoute type behind
      else if type = IPOPTION_ROUTER_ALERT then deserializeTwoBytes type .routerAlert behind
      else none
    -- Otherwise the stream is read once more from the type on.
    option.getD (deserializeRaw stream)

/-- The loop over the options of a header that began with `total` bytes left. Each round takes a byte
at least. -/
def deserializeOptions (total headerLength : Nat) :
    Nat → List UInt8 → List TlvOption × List UInt8
  | 0, stream => ([], stream)
  | rounds + 1, stream =>
    if 0 < stream.length ∧ total - stream.length < headerLength then
      let (option, stream) := deserializeOption stream
      let (options, stream) := deserializeOptions total headerLength rounds stream
      (option :: options, stream)
    else ([], stream)

/-- The header that is read, and what is left of the stream. Before the options, a whole `ip` has to
be there. -/
def deserialize (stream : List UInt8) : Except String (Ipv4Header × List UInt8) :=
  let bufsize := stream.length
  if bufsize < IPv4_MIN_HEADER_LENGTH then throw "The buffer has not been filled"
  else
    let (vhl, stream) := readByte stream
    let (tos, stream) := readByte stream
    let (len, stream) := readUint16Be stream
    let (identification, stream) := readUint16Be stream
    let (ip_off, stream) := readUint16Be stream
    let (ttl, stream) := readByte stream
    let (protocolId, stream) := readByte stream
    let (crc, stream) := readUint16Be stream
    let (srcAddress, stream) := readUint32Be stream
    let (destAddress, stream) := readUint32Be stream
    let ip_v := vhl.toNat / 16
    let ip_hl := vhl.toNat % 16
    let short : Bool := ip_hl * 4 < IPv4_MIN_HEADER_LENGTH
    let headerLength := if short then IPv4_MIN_HEADER_LENGTH else ip_hl * 4
    let (options, stream) := if IPv4_MIN_HEADER_LENGTH < headerLength then
      deserializeOptions bufsize headerLength headerLength stream else ([], stream)
    return ({
      version := Int16.ofNat ip_v, headerLength, typeOfService := shortOf tos
      totalLengthField := len.toNat, identification
      reservedBit := ip_off &&& IP_RF != 0, moreFragments := ip_off &&& IP_MF != 0
      dontFragment := ip_off &&& IP_DF != 0, fragmentOffset := (ip_off &&& IP_OFFMASK) * 8
      timeToLive := shortOf ttl, protocolId := protocolId.toNat
      crc, crcMode := .CRC_COMPUTED, srcAddress, destAddress, options
      isIncorrect := ip_v ≠ 4 || short || len.toNat < headerLength
      isIncomplete := bufsize < headerLength }, stream)

end Ipv4HeaderSerializer
end Inet.Ipv4Options
