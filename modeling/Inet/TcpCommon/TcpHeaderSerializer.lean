import Inet.Rdma.RdmaHeader

/-!
# The serializer of TCP headers

A header has a fixed part and options. Nothing tells where an option ends but its own length.
-/
namespace Inet.TcpCommon

open Lib Packet
open Rdma (CrcMode)

def TCP_MIN_HEADER_LENGTH : Nat := 20

def TCPOPTION_END_OF_OPTION_LIST : UInt32 := 0
def TCPOPTION_NO_OPERATION : UInt32 := 1
def TCPOPTION_MAXIMUM_SEGMENT_SIZE : UInt32 := 2
def TCPOPTION_WINDOW_SCALE : UInt32 := 3
def TCPOPTION_SACK_PERMITTED : UInt32 := 4
def TCPOPTION_SACK : UInt32 := 5
def TCPOPTION_TIMESTAMP : UInt32 := 8

structure SackItem where
  start : UInt32
  end_ : UInt32
deriving DecidableEq

/-- The classes of options, with what each adds. -/
inductive TcpOptionFields
  | end_
  | nop
  | maxSegmentSize (maxSegmentSize : UInt16)
  | windowScale (windowScale : UInt16)
  | sackPermitted
  | sack (sackItem : List SackItem)
  | timestamp (senderTimestamp echoedTimestamp : UInt32)
  | unknown (bytes : List UInt8)
deriving DecidableEq

structure TcpOption where
  kind : UInt32
  length : UInt16
  fields : TcpOptionFields
deriving DecidableEq

structure TcpHeader where
  srcPort : UInt16
  destPort : UInt16
  sequenceNo : UInt32
  ackNo : UInt32
  headerLength : Nat := TCP_MIN_HEADER_LENGTH
  cwrBit : Bool
  eceBit : Bool
  urgBit : Bool
  ackBit : Bool
  pshBit : Bool
  rstBit : Bool
  synBit : Bool
  finBit : Bool
  window : UInt16
  urgentPointer : UInt16
  crc : UInt16 := 0
  crcMode : CrcMode := .CRC_MODE_UNDEFINED
  headerOption : List TcpOption := []
deriving DecidableEq

def TH_FIN : UInt8 := 0x01
def TH_SYN : UInt8 := 0x02
def TH_RST : UInt8 := 0x04
def TH_PUSH : UInt8 := 0x08
def TH_ACK : UInt8 := 0x10
def TH_URG : UInt8 := 0x20
def TH_ECE : UInt8 := 0x40
def TH_CWR : UInt8 := 0x80

namespace TcpHeaderSerializer

/-! ### Writing -/

def assert (condition : Bool) (text : String) : Except String Unit :=
  if condition then return else throw text

def writeSackItem (si : SackItem) : List UInt8 := writeUint32Be si.start ++ writeUint32Be si.end_

/-- The option is of another class than its kind says. -/
def wrongClass : String := "check_and_cast(): Cannot cast an option to the class of its kind"

/-- What is written behind the kind and the length. -/
def serializeFields (kind : UInt32) (length : Nat) : TcpOptionFields → Except String (List UInt8)
  | .unknown bytes => do
    assert (length = 2 + bytes.length) "length == 2 + datalen"
    return bytes
  | fields =>
    if kind = TCPOPTION_END_OF_OPTION_LIST then
      match fields with
      | .end_ => do
        assert (length = 1) "length == 1"
        return []
      | _ => throw wrongClass
    else if kind = TCPOPTION_NO_OPERATION then
      match fields with
      | .nop => do
        assert (length = 1) "length == 1"
        return []
      | _ => throw wrongClass
    else if kind = TCPOPTION_MAXIMUM_SEGMENT_SIZE then
      match fields with
      | .maxSegmentSize maxSegmentSize => do
        assert (length = 4) "length == 4"
        return writeUint16Be maxSegmentSize
      | _ => throw wrongClass
    else if kind = TCPOPTION_WINDOW_SCALE then
      match fields with
      | .windowScale windowScale => do
        assert (length = 3) "length == 3"
        return [windowScale.toUInt8]
      | _ => throw wrongClass
    else if kind = TCPOPTION_SACK_PERMITTED then
      match fields with
      | .sackPermitted => do
        assert (length = 2) "length == 2"
        return []
      | _ => throw wrongClass
    else if kind = TCPOPTION_SACK then
      match fields with
      | .sack sackItem => do
        assert (length = 2 + sackItem.length * 8) "length == 2 + opt->getSackItemArraySize() * 8"
        return sackItem.flatMap writeSackItem
      | _ => throw wrongClass
    else if kind = TCPOPTION_TIMESTAMP then
      match fields with
      | .timestamp senderTimestamp echoedTimestamp => do
        assert (length = 10) "length == 10"
        return writeUint32Be senderTimestamp ++ writeUint32Be echoedTimestamp
      | _ => throw wrongClass
    else throw s!"Unknown TCPOption kind={kind} (not in a TCPOptionUnknown option)"

def serializeOption (option : TcpOption) : Except String (List UInt8) := do
  let fields ← serializeFields option.kind option.length.toNat option.fields
  return option.kind.toUInt8 :: (if 1 < option.length then [option.length.toUInt8] else []) ++ fields

def flagsOf (tcpHeader : TcpHeader) : UInt8 :=
  let flags := 0
  let flags := if tcpHeader.finBit then flags ||| TH_FIN else flags
  let flags := if tcpHeader.synBit then flags ||| TH_SYN else flags
  let flags := if tcpHeader.rstBit then flags ||| TH_RST else flags
  let flags := if tcpHeader.pshBit then flags ||| TH_PUSH else flags
  let flags := if tcpHeader.ackBit then flags ||| TH_ACK else flags
  let flags := if tcpHeader.urgBit then flags ||| TH_URG else flags
  let flags := if tcpHeader.eceBit then flags ||| TH_ECE else flags
  if tcpHeader.cwrBit then flags ||| TH_CWR else flags

/-- The bytes of a `tcphdr`. The data offset has four bits, above four unused ones. -/
def serializeFixed (tcpHeader : TcpHeader) : List UInt8 :=
  writeUint16Be tcpHeader.srcPort ++ writeUint16Be tcpHeader.destPort ++
    writeUint32Be tcpHeader.sequenceNo ++ writeUint32Be tcpHeader.ackNo ++
    [UInt8.ofNat (tcpHeader.headerLength / 4 % 16 * 16), flagsOf tcpHeader] ++
    writeUint16Be tcpHeader.window ++ writeUint16Be tcpHeader.crc ++
    writeUint16Be tcpHeader.urgentPointer

def serialize (tcpHeader : TcpHeader) : Except String (List UInt8) := do
  if tcpHeader.crcMode ≠ .CRC_COMPUTED then
    throw "Cannot serialize Tcp header without a properly computed CRC"
  if tcpHeader.headerLength % 4 ≠ 0 then
    throw s!"invalid Tcp header length={tcpHeader.headerLength} B: must be dividable by 4 bytes"
  -- The number of options is an `unsigned short`.
  let written := tcpHeader.headerOption.take (tcpHeader.headerOption.length % 65536)
  let options ← written.mapM serializeOption
  let optionsLength := (written.map (·.length.toNat)).sum
  assert (tcpHeader.headerLength = TCP_MIN_HEADER_LENGTH + optionsLength)
    "tcpHeader->getHeaderLength() == TCP_MIN_HEADER_LENGTH + B(optionsLength)"
  let padding := if optionsLength % 4 ≠ 0 then List.replicate (4 - optionsLength % 4) 0 else []
  return serializeFixed tcpHeader ++ options.flatten ++ padding

/-! ### Reading -/

def readSackItems : Nat → List UInt8 → List SackItem × List UInt8
  | 0, stream => ([], stream)
  | count + 1, stream =>
    let (start, stream) := readUint32Be stream
    let (end_, stream) := readUint32Be stream
    let (sackItem, stream) := readSackItems count stream
    ({ start, end_ } :: sackItem, stream)

def deserializeUnknown (kind : UInt32) (length : UInt8) (stream : List UInt8) :
    TcpOption × List UInt8 :=
  let (bytes, stream) := readEach (length.toNat - 2) stream
  ({ kind, length := length.toUInt16, fields := .unknown bytes }, stream)

def deserializeOption (stream : List UInt8) : TcpOption × List UInt8 :=
  let (byte, stream) := readByte stream
  let kind := byte.toUInt32
  if kind = TCPOPTION_END_OF_OPTION_LIST then ({ kind, length := 1, fields := .end_ }, stream)
  else if kind = TCPOPTION_NO_OPERATION then ({ kind, length := 1, fields := .nop }, stream)
  else
    let (length, stream) := readByte stream
    if kind = TCPOPTION_MAXIMUM_SEGMENT_SIZE ∧ length = 4 then
      let (maxSegmentSize, stream) := readUint16Be stream
      ({ kind, length := length.toUInt16, fields := .maxSegmentSize maxSegmentSize }, stream)
    else if kind = TCPOPTION_WINDOW_SCALE ∧ length = 3 then
      let (windowScale, stream) := readByte stream
      ({ kind, length := length.toUInt16, fields := .windowScale windowScale.toUInt16 }, stream)
    else if kind = TCPOPTION_SACK_PERMITTED ∧ length = 2 then
      ({ kind, length := length.toUInt16, fields := .sackPermitted }, stream)
    else if kind = TCPOPTION_SACK ∧ 2 < length ∧ length % 8 = 2 then
      let (sackItem, stream) := readSackItems (length.toNat / 8) stream
      ({ kind, length := length.toUInt16, fields := .sack sackItem }, stream)
    else if kind = TCPOPTION_TIMESTAMP ∧ length = 10 then
      let (senderTimestamp, stream) := readUint32Be stream
      let (echoedTimestamp, stream) := readUint32Be stream
      ({ kind, length := length.toUInt16, fields := .timestamp senderTimestamp echoedTimestamp },
        stream)
    else deserializeUnknown kind length stream

/-- The loop over the options, if it has ended after some rounds. The header began with `total` bytes
left. -/
def deserializeOptions (total headerLength : Nat) :
    Nat → List UInt8 → Option (List TcpOption × List UInt8)
  | 0, _ => none
  | rounds + 1, stream =>
    if total - stream.length < headerLength then do
      let (option, stream) := deserializeOption stream
      let (options, stream) ← deserializeOptions total headerLength rounds stream
      return (option :: options, stream)
    else return ([], stream)

def has (flags flag : UInt8) : Bool := flags &&& flag = flag

/-- The header that is read with what is left of the stream, if the loop over the options has ended
after some rounds. Before the loop, a whole `tcphdr` has to be there. -/
def deserialize (rounds : Nat) (stream : List UInt8) :
    Except String (Option (TcpHeader × List UInt8)) :=
  let total := stream.length
  if total < TCP_MIN_HEADER_LENGTH then throw "The buffer has not been filled"
  else
    let (srcPort, stream) := readUint16Be stream
    let (destPort, stream) := readUint16Be stream
    let (sequenceNo, stream) := readUint32Be stream
    let (ackNo, stream) := readUint32Be stream
    let (offs, stream) := readByte stream
    let (flags, stream) := readByte stream
    let (window, stream) := readUint16Be stream
    let (crc, stream) := readUint16Be stream
    let (urgentPointer, stream) := readUint16Be stream
    let headerLength := offs.toNat / 16 * 4
    let read := if TCP_MIN_HEADER_LENGTH < headerLength then
      deserializeOptions total headerLength rounds stream else some ([], stream)
    return read.map fun (headerOption, stream) => ({
      srcPort, destPort, sequenceNo, ackNo, headerLength
      cwrBit := has flags TH_CWR, eceBit := has flags TH_ECE, urgBit := has flags TH_URG
      ackBit := has flags TH_ACK, pshBit := has flags TH_PUSH, rstBit := has flags TH_RST
      synBit := has flags TH_SYN, finBit := has flags TH_FIN
      window, urgentPointer, crc, crcMode := .CRC_COMPUTED, headerOption }, stream)

end TcpHeaderSerializer
end Inet.TcpCommon
