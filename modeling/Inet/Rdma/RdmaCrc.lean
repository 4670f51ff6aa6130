import Inet.Common.TcpIpChecksum
import Inet.Rdma.RdmaHeader

/-!
# The checksum of RDMA packets

The data of a packet is given by its bytes here.
-/
namespace Inet.Rdma

open Lib Packet RdmaHeaderSerializer

variable {bytes : List UInt8} {base : Nat}

inductive Protocol where
  | ipv4
  | ipv6
  | other (name : String)

inductive L3Address where
  | none
  | ipv4 (address : UInt32)
  | ipv6 (words : Vector UInt32 4)
  | other

def L3Address.toIpv4 : L3Address → Except ChunkError UInt32
  | none => .ok 0
  | ipv4 address => .ok address
  | _ => .error (.error "Address is not of the given type")

def L3Address.toIpv6 : L3Address → Except ChunkError (Vector UInt32 4)
  | none => .ok (Vector.replicate 4 0)
  | ipv6 words => .ok words
  | _ => .error (.error "Address is not of the given type")

def IP_PROT_RDMA : UInt8 := 30

/-- The bytes of the `TransportPseudoHeader`. -/
def pseudoHeader (networkProtocol : Protocol) (srcAddress destAddress : L3Address)
    (packetLength : Nat) : Except ChunkError (List UInt8) :=
  match networkProtocol with
  | .ipv4 => do
    let src ← srcAddress.toIpv4
    let dest ← destAddress.toIpv4
    return writeUint32Be src ++ writeUint32Be dest ++ [0, IP_PROT_RDMA] ++
      writeUint16Be (toUint16 packetLength)
  | .ipv6 => do
    let src ← srcAddress.toIpv6
    let dest ← destAddress.toIpv6
    return src.toList.flatMap writeUint32Be ++ dest.toList.flatMap writeUint32Be ++
      writeUint32Be (UInt32.ofNat packetLength) ++ [0, 0, 0, IP_PROT_RDMA]
  | .other name => .error (.error ("Unknown network protocol: " ++ name))

def computeCrc (networkProtocol : Protocol) (srcAddress destAddress : L3Address)
    (rdmaHeader : RdmaHeader) (rdmaData : List UInt8) : Except ChunkError UInt16 := do
  let pseudo ← pseudoHeader networkProtocol srcAddress destAddress
    (RDMA_HEADER_LENGTH + rdmaData.length)
  let header ← serialize rdmaHeader
  let crc := TcpIpChecksum.checksum (pseudo ++ header ++ rdmaData)
  -- an all zero transmitted checksum value means that the transmitter generated no checksum
  return if crc = 0 then 0xFFFF else crc

def insertCrc (networkProtocol : Protocol) (srcAddress destAddress : L3Address)
    (rdmaHeader : RdmaHeader) (rdmaData : List UInt8) : Except ChunkError RdmaHeader :=
  match rdmaHeader.crcMode with
  | .CRC_DISABLED => .ok { rdmaHeader with crc := 0 }
  | .CRC_DECLARED_CORRECT => .ok { rdmaHeader with crc := 0xC00D }
  | .CRC_DECLARED_INCORRECT => .ok { rdmaHeader with crc := 0xBAAD }
  | .CRC_COMPUTED => do
    -- deserializer sets the crcMode to disabled when crc is 0
    let crc ← computeCrc networkProtocol srcAddress destAddress
      { rdmaHeader with crc := 0, crcMode := .CRC_DISABLED } rdmaData
    return { rdmaHeader with crc, crcMode := .CRC_COMPUTED }
  | .CRC_MODE_UNDEFINED => .error (.error "Unknown CRC mode: -1")

/-- `peekDataAt<BytesChunk>(B(0), length, PF_ALLOW_INCORRECT)`, for a length in bytes. -/
def peekDataAsBytes (data : List UInt8) (length : Int) : Except ChunkError (List UInt8) :=
  if length < 0 ∨ data.length < length then .error (.error "length is invalid")
  else if length = 0 then
    .error (.error "Returning an empty chunk is not allowed according to the flags")
  else .ok (data.take length.toNat)

/-- Whether chunks are marked incorrect is given by `isCorrect`. -/
def verifyCrc (networkProtocol : Protocol) (srcAddress destAddress : L3Address)
    (rdmaHeader : RdmaHeader) (data : List UInt8) (isCorrect : Bool) : Except ChunkError Bool :=
  match rdmaHeader.crcMode with
  | .CRC_DISABLED => .ok (rdmaHeader.crc = 0)
  | .CRC_DECLARED_CORRECT => do
    let _ ← peekDataAsBytes data (rdmaHeader.totalLengthField - RDMA_HEADER_LENGTH)
    return isCorrect
  | .CRC_DECLARED_INCORRECT => .ok false
  | .CRC_COMPUTED =>
    if rdmaHeader.crc = 0 then .ok true
    else do
      let rdmaData ← peekDataAsBytes data (rdmaHeader.totalLengthField - RDMA_HEADER_LENGTH)
      let computedCrc ← computeCrc networkProtocol srcAddress destAddress rdmaHeader rdmaData
      return computedCrc = 0xFFFF ∧ isCorrect
  | .CRC_MODE_UNDEFINED => .error (.error "Unknown CRC mode")

/-- The receiver parses the bytes and verifies the checksum, with no chunk marked incorrect. -/
def receive (networkProtocol : Protocol) (srcAddress destAddress : L3Address)
    (transmitted : List UInt8) : Except ChunkError Bool :=
  let (rdmaHeader, data) := deserialize transmitted
  verifyCrc networkProtocol srcAddress destAddress rdmaHeader data true

/-! ### The sum over a packet -/

variable {networkProtocol : Protocol} {srcAddress destAddress : L3Address}

theorem wordSum_writeUint16Be (value : UInt16) :
    wordSum false (writeUint16Be value) = value.toNat := by
  have bound := value.toNat_lt
  simp only [writeUint16Be, wordSum, UInt8.toNat_ofNat']
  omega

theorem wordSum_bytes (rdmaHeader : RdmaHeader) :
    wordSum false rdmaHeader.bytes = rdmaHeader.srcPort.toNat + rdmaHeader.destPort.toNat +
      (toUint16 rdmaHeader.totalLengthField).toNat + rdmaHeader.crc.toNat := by
  rw [RdmaHeader.bytes, wordSum_append_even _ _ (by simp), wordSum_append_even _ _ (by simp),
    wordSum_append_even _ _ (by simp), wordSum_writeUint16Be, wordSum_writeUint16Be,
    wordSum_writeUint16Be, wordSum_writeUint16Be]

theorem wordSum_writeUint32Be_small {length : Nat} (small : length < 65536) :
    wordSum false (writeUint32Be (UInt32.ofNat length)) = length := by
  simp only [writeUint32Be, wordSum, UInt8.toNat_ofNat', UInt32.toNat_ofNat']
  omega

theorem even_length_writeUint32Be (words : List UInt32) :
    (words.flatMap writeUint32Be).length % 2 = 0 := by
  induction words with
  | nil => rfl
  | cons word rest ih =>
    rw [List.flatMap_cons, List.length_append, length_writeUint32Be]
    omega

/-- Pseudo headers consist of whole words and count their length once. -/
def PseudoSums (networkProtocol : Protocol) (srcAddress destAddress : L3Address) (base : Nat) :
    Prop :=
  ∀ length, length < 65536 → ∃ bytes,
    pseudoHeader networkProtocol srcAddress destAddress length = .ok bytes ∧
    bytes.length % 2 = 0 ∧ wordSum false bytes = base + length

theorem pseudoHeader_sums {pseudo : List UInt8} {packetLength : Nat}
    (returned : pseudoHeader networkProtocol srcAddress destAddress packetLength = .ok pseudo) :
    ∃ base, PseudoSums networkProtocol srcAddress destAddress base := by
  cases networkProtocol with
  | ipv4 =>
    obtain ⟨src, src_eq, returned⟩ := bind_eq_ok.mp returned
    obtain ⟨dest, dest_eq, _⟩ := bind_eq_ok.mp returned
    refine ⟨wordSum false (writeUint32Be src ++ writeUint32Be dest ++ [0, IP_PROT_RDMA]), ?_⟩
    intro length small
    have length_eq : ((toUint16 length).toNat : Int) = length :=
      toNat_toUint16_of_lt (by omega) (by omega)
    refine ⟨writeUint32Be src ++ writeUint32Be dest ++ [0, IP_PROT_RDMA] ++
      writeUint16Be (toUint16 length), ?_, ?_, ?_⟩
    · rw [pseudoHeader, src_eq, ok_bind, dest_eq, ok_bind]
      rfl
    · simp only [List.length_append, length_writeUint32Be, length_writeUint16Be, List.length_cons,
        List.length_nil]
    · rw [wordSum_append_even _ _ (by simp), wordSum_writeUint16Be]
      omega
  | ipv6 =>
    obtain ⟨src, src_eq, returned⟩ := bind_eq_ok.mp returned
    obtain ⟨dest, dest_eq, _⟩ := bind_eq_ok.mp returned
    have src_even := even_length_writeUint32Be src.toList
    have dest_even := even_length_writeUint32Be dest.toList
    refine ⟨wordSum false (src.toList.flatMap writeUint32Be ++ dest.toList.flatMap writeUint32Be) +
      wordSum false [0, 0, 0, IP_PROT_RDMA], ?_⟩
    intro length small
    have both_even : (src.toList.flatMap writeUint32Be ++
        dest.toList.flatMap writeUint32Be).length % 2 = 0 := by
      rw [List.length_append]
      omega
    have front_even : (src.toList.flatMap writeUint32Be ++ dest.toList.flatMap writeUint32Be ++
        writeUint32Be (UInt32.ofNat length)).length % 2 = 0 := by
      rw [List.length_append, length_writeUint32Be]
      omega
    refine ⟨src.toList.flatMap writeUint32Be ++ dest.toList.flatMap writeUint32Be ++
      writeUint32Be (UInt32.ofNat length) ++ [0, 0, 0, IP_PROT_RDMA], ?_, ?_, ?_⟩
    · rw [pseudoHeader, src_eq, ok_bind, dest_eq, ok_bind]
      rfl
    · rw [List.length_append]
      simp only [List.length_cons, List.length_nil]
      omega
    · rw [wordSum_append_even _ _ front_even, wordSum_append_even _ _ both_even,
        wordSum_writeUint32Be_small small]
      omega
  | other name => cases returned

/-- What is made of a checksum: it is not 0, together with the sum it is a multiple of 65535, and
it is all ones if the sum is one. -/
theorem complement_sum (vec : List UInt8) :
    let crc := TcpIpChecksum.checksum vec
    let stored : UInt16 := if crc = 0 then 0xFFFF else crc
    stored ≠ 0 ∧ 65535 ∣ stored.toNat + wordSum false vec ∧
      (stored = 0xFFFF ↔ 65535 ∣ wordSum false vec) := by
  intro crc stored
  have crc_eq : crc.toNat = 65535 - (TcpIpChecksum.sum vec).toNat :=
    TcpIpChecksum.toNat_checksum vec
  have bound := (TcpIpChecksum.sum vec).toNat_lt
  obtain ⟨same, zero⟩ := TcpIpChecksum.sum_stands vec
  have zero_iff : crc = 0 ↔ (TcpIpChecksum.sum vec).toNat = 65535 := by
    rw [← UInt16.toNat_inj, crc_eq]
    change _ = 0 ↔ _
    omega
  have ones_iff (value : UInt16) : value = 0xFFFF ↔ value.toNat = 65535 := by
    rw [← UInt16.toNat_inj]
    rfl
  have stored_eq : stored.toNat = if crc = 0 then 65535 else crc.toNat := by
    simp only [stored]
    split <;> rfl
  by_cases none : crc = 0
  · rw [if_pos none] at stored_eq
    have full := zero_iff.mp none
    refine ⟨?_, ?_, ?_⟩
    · intro nothing
      rw [nothing] at stored_eq
      cases stored_eq
    · omega
    · rw [ones_iff]
      omega
  · rw [if_neg none] at stored_eq
    have less := mt zero_iff.mpr none
    refine ⟨?_, ?_, ?_⟩
    · intro nothing
      rw [nothing] at stored_eq
      exact none (UInt16.toNat_inj.mp stored_eq.symm)
    · omega
    · rw [ones_iff]
      omega

/-- The checksum that is computed for a serializable header and its data. -/
theorem computeCrc_sum (rdmaHeader : RdmaHeader) (rdmaData : List UInt8)
    (pseudo : PseudoSums networkProtocol srcAddress destAddress base)
    (short : rdmaData.length < 65528) (serializable : serialize rdmaHeader = .ok rdmaHeader.bytes) :
    ∃ crc, computeCrc networkProtocol srcAddress destAddress rdmaHeader rdmaData = .ok crc ∧
      crc ≠ 0 ∧
      65535 ∣ crc.toNat + (base + (8 + rdmaData.length) +
        wordSum false (rdmaHeader.bytes ++ rdmaData)) ∧
      (crc = 0xFFFF ↔ 65535 ∣ base + (8 + rdmaData.length) +
        wordSum false (rdmaHeader.bytes ++ rdmaData)) := by
  obtain ⟨bytes, returned, even, sum_eq⟩ := pseudo (8 + rdmaData.length) (by omega)
  have facts := complement_sum (bytes ++ rdmaHeader.bytes ++ rdmaData)
  rw [List.append_assoc, wordSum_append_even _ _ even, sum_eq, ← List.append_assoc] at facts
  refine ⟨_, ?_, facts⟩
  unfold computeCrc
  rw [RDMA_HEADER_LENGTH, returned, ok_bind, serializable, ok_bind]
  rfl

/-! ### Receiving bytes -/

/-- The total length that is read of some bytes. -/
def totalLength (bytes : List UInt8) : Nat := (deserialize bytes).1.totalLengthField.toNat

theorem writeUint16Be_read (high low : UInt8) :
    writeUint16Be (UInt16.ofNat (256 * high.toNat + low.toNat)) = [high, low] := by
  have high_bound := high.toNat_lt
  have low_bound := low.toNat_lt
  rw [writeUint16Be, List.cons.injEq, List.cons.injEq]
  refine ⟨?_, ?_, rfl⟩
  · apply UInt8.toNat_inj.mp
    simp only [UInt8.toNat_ofNat', UInt16.toNat_ofNat']
    omega
  · apply UInt8.toNat_inj.mp
    simp only [UInt8.toNat_ofNat', UInt16.toNat_ofNat']
    omega

/-- A header that is read has the bytes that were read. -/
theorem bytes_deserialize (long : 8 ≤ bytes.length) :
    (deserialize bytes).1.bytes = bytes.take 8 ∧ (deserialize bytes).2 = bytes.drop 8 := by
  match bytes, long with
  | b0 :: b1 :: b2 :: b3 :: b4 :: b5 :: b6 :: b7 :: rest, _ =>
    have length_eq (value : UInt16) : toUint16 (value.toNat : Int) = value := by
      have bound := value.toNat_lt
      apply UInt16.toNat_inj.mp
      rw [toNat_toUint16]
      omega
    constructor
    · simp only [deserialize, readUint16Be, readByte, List.headD_cons, List.tail_cons,
        RdmaHeader.bytes, length_eq, writeUint16Be_read]
      rfl
    · rfl

/-- What is received is accepted if it is as long as it says and its sum is a multiple of
65535. -/
theorem receive_iff (pseudo : PseudoSums networkProtocol srcAddress destAddress base)
    (long : 8 ≤ bytes.length) (short : bytes.length < 65536)
    (computed : (deserialize bytes).1.crc ≠ 0) :
    receive networkProtocol srcAddress destAddress bytes = .ok true ↔
      8 < totalLength bytes ∧ totalLength bytes ≤ bytes.length ∧
        65535 ∣ base + totalLength bytes + wordSum false (bytes.take (totalLength bytes)) := by
  obtain ⟨bytes_eq, rest_eq⟩ := bytes_deserialize long
  have length_eq : (deserialize bytes).1.totalLengthField = totalLength bytes := rfl
  have mode : (deserialize bytes).1.crcMode = .CRC_COMPUTED := by
    simp only [deserialize] at computed ⊢
    rw [if_neg computed]
  unfold receive verifyCrc
  simp only [mode, if_neg computed, rest_eq, length_eq, RDMA_HEADER_LENGTH]
  unfold peekDataAsBytes
  split
  next invalid =>
    rw [List.length_drop] at invalid
    constructor
    · intro returned
      cases returned
    · omega
  next valid =>
    rw [List.length_drop] at valid
    split
    next empty =>
      constructor
      · intro returned
        cases returned
      · omega
    next some_data =>
      have taken : ((totalLength bytes : Int) - (8 : Nat)).toNat = totalLength bytes - 8 := by omega
      have joined : (deserialize bytes).1.bytes ++ (bytes.drop 8).take (totalLength bytes - 8) =
          bytes.take (totalLength bytes) := by
        rw [bytes_eq, ← List.take_add]
        congr 1
        omega
      have data_length : 8 + ((bytes.drop 8).take (totalLength bytes - 8)).length =
          totalLength bytes := by
        rw [List.length_take, List.length_drop]
        omega
      have serializable : serialize (deserialize bytes).1 = .ok (deserialize bytes).1.bytes := by
        unfold serialize
        rw [if_neg (by simp [mode])]
      obtain ⟨crc, crc_eq, _, _, ones_iff⟩ := computeCrc_sum (deserialize bytes).1
        ((bytes.drop 8).take (totalLength bytes - 8)) pseudo (by omega) serializable
      rw [joined, data_length] at ones_iff
      rw [taken, ok_bind, crc_eq, ok_bind]
      simp only [pure, Except.pure, Except.ok.injEq, and_true, decide_eq_true_eq]
      rw [ones_iff]
      constructor
      · exact fun divides => ⟨by omega, by omega, divides⟩
      · exact fun accepted => accepted.2.2

/-- A flipped bit leaves the length as it is, or changes nothing else. -/
theorem totalLength_flipBit (i k : Nat) (long : 8 ≤ bytes.length) :
    totalLength (flipBit bytes i k) = totalLength bytes ∨
      (flipBit bytes i k).drop 8 = bytes.drop 8 ∧
      wordSum false (flipBit bytes i k) + totalLength bytes =
        wordSum false bytes + totalLength (flipBit bytes i k) := by
  match bytes, long with
  | b0 :: b1 :: b2 :: b3 :: b4 :: b5 :: b6 :: b7 :: rest, _ =>
    match i with
    | 0 | 1 | 2 | 3 | 6 | 7 => exact .inl rfl
    | n + 8 => exact .inl rfl
    | 4 =>
      refine .inr ⟨rfl, ?_⟩
      have b5_bound := b5.toNat_lt
      have b4_bound := b4.toNat_lt
      have flipped_bound := (b4 ^^^ UInt8.ofNat (2 ^ k)).toNat_lt
      simp only [flipBit, List.modify_succ_cons, List.modify_zero_cons, wordSum, totalLength,
        deserialize, readUint16Be, readByte, List.headD_cons, List.tail_cons, Int.toNat_natCast,
        UInt16.toNat_ofNat']
      omega
    | 5 =>
      refine .inr ⟨rfl, ?_⟩
      have b4_bound := b4.toNat_lt
      have b5_bound := b5.toNat_lt
      have flipped_bound := (b5 ^^^ UInt8.ofNat (2 ^ k)).toNat_lt
      simp only [flipBit, List.modify_succ_cons, List.modify_zero_cons, wordSum, totalLength,
        deserialize, readUint16Be, readByte, List.headD_cons, List.tail_cons, Int.toNat_natCast,
        UInt16.toNat_ofNat']
      omega

/-! ### Accepting and detecting -/

/-- A transmitted packet with one bit flipped is accepted only if the bit makes it shorter and
what is cut off makes up for it. -/
theorem receive_flipped_iff (pseudo : PseudoSums networkProtocol srcAddress destAddress base)
    (long : 8 ≤ bytes.length) (short : bytes.length < 65536)
    (whole : totalLength bytes = bytes.length)
    (divides : 65535 ∣ base + bytes.length + wordSum false bytes) {i k : Nat}
    (inside : i < bytes.length) (small : k < 8)
    (computed : (deserialize (flipBit bytes i k)).1.crc ≠ 0) :
    receive networkProtocol srcAddress destAddress (flipBit bytes i k) = .ok true ↔
      8 < totalLength (flipBit bytes i k) ∧ totalLength (flipBit bytes i k) < bytes.length ∧
        65535 ∣ 2 * (bytes.length - totalLength (flipBit bytes i k)) +
          wordSum (behind false (totalLength (flipBit bytes i k)))
            (bytes.drop (totalLength (flipBit bytes i k))) := by
  have differ := wordSum_flipBit false bytes i k inside small
  have length_cases := totalLength_flipBit i k long
  rw [receive_iff pseudo (by rw [length_flipBit]; exact long) (by rw [length_flipBit]; exact short)
    computed, length_flipBit, and_congr_right_iff]
  intro some_data
  generalize flipped_eq : flipBit bytes i k = flipped at *
  have flipped_length : flipped.length = bytes.length := by rw [← flipped_eq, length_flipBit]
  rcases length_cases with same | ⟨rest_eq, sum_eq⟩
  · -- the sum is that of the whole packet, and one bit is not a multiple of 65535
    rw [same, whole, List.take_of_length_le (Nat.le_of_eq flipped_length)]
    constructor
    · rintro ⟨_, accepted⟩
      have both : DifferByBit (base + bytes.length + wordSum false flipped)
          (base + bytes.length + wordSum false bytes) := by
        obtain ⟨m, bound, changed⟩ := differ
        exact ⟨m, bound, by omega⟩
      exact absurd accepted (both.not_dvd divides)
    · rintro ⟨shorter, _⟩
      exact absurd shorter (Nat.lt_irrefl _)
  · rw [whole] at sum_eq
    rcases Nat.lt_trichotomy (totalLength flipped) bytes.length with shorter | equal | longer
    · have cut_eq : flipped.drop (totalLength flipped) = bytes.drop (totalLength flipped) := by
        have := congrArg (List.drop (totalLength flipped - 8)) rest_eq
        rwa [List.drop_drop, List.drop_drop, Nat.add_sub_cancel' (by omega)] at this
      have split := wordSum_append false (flipped.take (totalLength flipped))
        (flipped.drop (totalLength flipped))
      rw [List.take_append_drop, List.length_take, Nat.min_eq_left (by omega), cut_eq] at split
      omega
    · -- the flip is in the length, so the length is another one
      rw [equal] at sum_eq
      obtain ⟨m, bound, changed⟩ := differ
      have := Nat.two_pow_pos m
      omega
    · omega

/-- What `insertCrc` makes of a header whose checksum is to be computed. -/
theorem insertCrc_computed {rdmaHeader inserted : RdmaHeader} {rdmaData : List UInt8}
    (computed : rdmaHeader.crcMode = .CRC_COMPUTED) (short : rdmaData.length < 65528)
    (length_eq : rdmaHeader.totalLengthField = RDMA_HEADER_LENGTH + rdmaData.length)
    (returned : insertCrc networkProtocol srcAddress destAddress rdmaHeader rdmaData =
      .ok inserted) :
    inserted.crc ≠ 0 ∧ Serializable inserted ∧
      totalLength (inserted.bytes ++ rdmaData) = 8 + rdmaData.length ∧
      ∃ base, PseudoSums networkProtocol srcAddress destAddress base ∧
        65535 ∣ base + (8 + rdmaData.length) + wordSum false (inserted.bytes ++ rdmaData) := by
  rw [RDMA_HEADER_LENGTH] at length_eq
  unfold insertCrc at returned
  simp only [computed] at returned
  obtain ⟨crc, crc_eq, ⟨⟩⟩ := bind_eq_ok.mp returned
  obtain ⟨pseudo, pseudo_eq, _⟩ := bind_eq_ok.mp crc_eq
  obtain ⟨base, sums⟩ := pseudoHeader_sums pseudo_eq
  let unset : RdmaHeader := { rdmaHeader with crc := 0, crcMode := .CRC_DISABLED }
  obtain ⟨crc', crc_eq', crc_ne, divides, _⟩ := computeCrc_sum unset rdmaData sums short rfl
  rw [crc_eq] at crc_eq'
  cases crc_eq'
  have serializable : Serializable { rdmaHeader with crc, crcMode := .CRC_COMPUTED } := by
    refine ⟨?_, ?_, ?_⟩
    · simp only
      omega
    · simp only
      omega
    · rw [if_neg crc_ne]
  refine ⟨crc_ne, serializable, ?_, base, sums, ?_⟩
  · rw [totalLength, deserialize_bytes serializable]
    simp only
    omega
  · -- the checksum is the one word in which the headers differ
    have crc_sum : wordSum false
        (({ rdmaHeader with crc, crcMode := .CRC_COMPUTED } : RdmaHeader).bytes ++ rdmaData) =
          crc.toNat + wordSum false (unset.bytes ++ rdmaData) := by
      have none : (0 : UInt16).toNat = 0 := rfl
      rw [wordSum_append_even _ _ (by simp), wordSum_append_even _ _ (by simp), wordSum_bytes,
        wordSum_bytes]
      simp only [unset, none]
      omega
    rw [crc_sum]
    omega

/-- A packet with a computed checksum is accepted. With one bit flipped, unless that makes the
checksum 0, it is accepted only if the bit makes the packet shorter and the bytes that are cut off
make up for it. -/
theorem checksum_detects (networkProtocol : Protocol) (srcAddress destAddress : L3Address)
    (rdmaHeader : RdmaHeader) (rdmaData : List UInt8)
    (computed : rdmaHeader.crcMode = .CRC_COMPUTED) (nonempty : rdmaData ≠ [])
    (short : rdmaData.length < 65528)
    (length_eq : rdmaHeader.totalLengthField = RDMA_HEADER_LENGTH + rdmaData.length)
    (inserted : RdmaHeader)
    (returned : insertCrc networkProtocol srcAddress destAddress rdmaHeader rdmaData =
      .ok inserted) :
    inserted.crc ≠ 0 ∧ ∃ bytes, serialize inserted = .ok bytes ∧
      receive networkProtocol srcAddress destAddress (bytes ++ rdmaData) = .ok true ∧
      ∀ i k, i < 8 + rdmaData.length → k < 8 →
        (deserialize (flipBit (bytes ++ rdmaData) i k)).1.crc ≠ 0 →
          (receive networkProtocol srcAddress destAddress (flipBit (bytes ++ rdmaData) i k) =
              .ok true ↔
            let length := totalLength (flipBit (bytes ++ rdmaData) i k)
            8 < length ∧ length < 8 + rdmaData.length ∧
              65535 ∣ 2 * (8 + rdmaData.length - length) +
                wordSum (behind false length) (rdmaData.drop (length - 8))) := by
  have positive := List.length_pos_of_ne_nil nonempty
  obtain ⟨crc_ne, serializable, whole, base, sums, divides⟩ := insertCrc_computed computed short
    length_eq returned
  have length_eq : (inserted.bytes ++ rdmaData).length = 8 + rdmaData.length := by
    rw [List.length_append, RdmaHeader.length_bytes]
  refine ⟨crc_ne, inserted.bytes, serialize_eq serializable, ?_, ?_⟩
  · have parsed_crc : (deserialize (inserted.bytes ++ rdmaData)).1.crc ≠ 0 := by
      rw [deserialize_bytes serializable]
      exact crc_ne
    rw [receive_iff sums (by omega) (by omega) parsed_crc, whole, length_eq,
      List.take_of_length_le (by omega)]
    exact ⟨by omega, Nat.le_refl _, divides⟩
  · intro i k inside small still_computed
    rw [receive_flipped_iff sums (by omega) (by omega) (by rw [whole, length_eq])
      (by rw [length_eq]; exact divides) (by omega) small still_computed, length_eq]
    refine and_congr_right fun some_data => ?_
    rw [List.drop_append, List.drop_of_length_le (by rw [RdmaHeader.length_bytes]; omega),
      List.nil_append, RdmaHeader.length_bytes]

/-! ### Examples -/

/-- A packet whose last word is 65531. -/
def sampleHeader : RdmaHeader where
  srcPort := 1000
  destPort := 2000
  totalLengthField := 14
  crcMode := .CRC_COMPUTED

def sampleData : List UInt8 := [1, 2, 3, 4, 0xFF, 0xFB]

theorem insertCrc_sample : ∃ crc, crc ≠ 0 ∧
    insertCrc .ipv4 (.ipv4 0x0a000001) (.ipv4 0x0a000002) sampleHeader sampleData =
      .ok { sampleHeader with crc } := by
  obtain ⟨base, sums⟩ : ∃ base, PseudoSums .ipv4 (.ipv4 0x0a000001) (.ipv4 0x0a000002) base :=
    @pseudoHeader_sums _ _ _ _ 14 rfl
  obtain ⟨crc, crc_eq, crc_ne, _⟩ := computeCrc_sum
    { sampleHeader with crc := 0, crcMode := .CRC_DISABLED } sampleData sums (by decide) rfl
  refine ⟨crc, crc_ne, ?_⟩
  unfold insertCrc
  simp only [sampleHeader] at crc_eq ⊢
  rw [crc_eq, ok_bind]
  rfl

theorem checksum_detects_sample : ∃ inserted bytes, serialize inserted = .ok bytes ∧
    receive .ipv4 (.ipv4 0x0a000001) (.ipv4 0x0a000002) (bytes ++ sampleData) = .ok true := by
  obtain ⟨crc, _, returned⟩ := insertCrc_sample
  obtain ⟨_, bytes, serialized, received, _⟩ := checksum_detects .ipv4 _ _ sampleHeader sampleData
    rfl (by decide) (by decide) rfl _ returned
  exact ⟨_, bytes, serialized, received⟩

/-- The bit of the total length that takes away the last word is not detected. -/
theorem checksum_misses_length :
    ¬ ∀ (rdmaHeader inserted : RdmaHeader) (rdmaData bytes : List UInt8),
      rdmaHeader.crcMode = .CRC_COMPUTED → rdmaData ≠ [] → rdmaData.length < 65528 →
      rdmaHeader.totalLengthField = RDMA_HEADER_LENGTH + rdmaData.length →
      insertCrc .ipv4 (.ipv4 0x0a000001) (.ipv4 0x0a000002) rdmaHeader rdmaData = .ok inserted →
      serialize inserted = .ok bytes →
      ∀ i k, i < 8 + rdmaData.length → k < 8 →
        (deserialize (flipBit (bytes ++ rdmaData) i k)).1.crc ≠ 0 →
        receive .ipv4 (.ipv4 0x0a000001) (.ipv4 0x0a000002) (flipBit (bytes ++ rdmaData) i k) ≠
          .ok true := by
  intro all
  obtain ⟨crc, crc_ne, returned⟩ := insertCrc_sample
  have length_fits : (0 : Int) ≤ sampleHeader.totalLengthField ∧
      sampleHeader.totalLengthField < 65536 := by decide
  have serializable : Serializable { sampleHeader with crc } :=
    ⟨length_fits.1, length_fits.2, (if_neg crc_ne).symm⟩
  have parsed := deserialize_bytes serializable sampleData
  -- the bit with the value 2 in the low byte of the length
  have still_computed : (deserialize (flipBit
      (({ sampleHeader with crc } : RdmaHeader).bytes ++ sampleData) 5 1)).1.crc ≠ 0 := by
    have same : (deserialize (flipBit
        (({ sampleHeader with crc } : RdmaHeader).bytes ++ sampleData) 5 1)).1.crc =
          (deserialize (({ sampleHeader with crc } : RdmaHeader).bytes ++ sampleData)).1.crc := rfl
    rw [same, parsed]
    exact crc_ne
  apply all sampleHeader _ sampleData _ rfl (by decide) (by decide) rfl returned rfl 5 1 (by decide)
    (by decide) still_computed
  obtain ⟨_, _, whole, base, sums, divides⟩ := insertCrc_computed rfl (by decide) rfl returned
  have long : (({ sampleHeader with crc } : RdmaHeader).bytes ++ sampleData).length = 14 := by
    simp [sampleData]
  have length_eq : totalLength (flipBit
      (({ sampleHeader with crc } : RdmaHeader).bytes ++ sampleData) 5 1) = 12 := by
    have fields : writeUint16Be (toUint16 14) = [0, 14] := by decide
    have flipped : (14 : UInt8) ^^^ UInt8.ofNat (2 ^ 1) = 12 := by decide
    have value : (UInt16.ofNat (256 * (0 : UInt8).toNat + (12 : UInt8).toNat)).toNat = 12 := by
      decide
    simp only [sampleHeader, RdmaHeader.bytes, fields]
    simp only [writeUint16Be, List.cons_append,
      List.nil_append, flipBit, List.modify_succ_cons, List.modify_zero_cons, flipped, totalLength,
      deserialize, readUint16Be, readByte, List.headD_cons, List.tail_cons, Int.toNat_natCast,
      value]
  apply (receive_flipped_iff sums (by omega) (by omega) (by rw [whole, long]; rfl)
    (by rw [long]; exact divides) (by omega) (by decide) still_computed).mpr
  have cut_eq : (({ sampleHeader with crc } : RdmaHeader).bytes ++ sampleData).drop 12 =
      [0xFF, 0xFB] := rfl
  rw [length_eq, cut_eq, long]
  exact ⟨by decide, by decide, by decide⟩

end Inet.Rdma
