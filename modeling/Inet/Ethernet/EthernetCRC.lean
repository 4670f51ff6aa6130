import Mathlib.Tactic.IntervalCases
import Inet.Lib.Crc

/-!
# Ethernet frame check sequences

Bits are in the order in which they are sent: of each byte, the lowest one first.
-/
namespace Inet.Ethernet

open Lib Crc

abbrev Bytes := List (BitVec 8)

def crc32_tab : List (BitVec 32) :=
  [0x00000000, 0x77073096, 0xee0e612c, 0x990951ba, 0x076dc419, 0x706af48f, 0xe963a535, 0x9e6495a3,
   0x0edb8832, 0x79dcb8a4, 0xe0d5e91e, 0x97d2d988, 0x09b64c2b, 0x7eb17cbd, 0xe7b82d07, 0x90bf1d91,
   0x1db71064, 0x6ab020f2, 0xf3b97148, 0x84be41de, 0x1adad47d, 0x6ddde4eb, 0xf4d4b551, 0x83d385c7,
   0x136c9856, 0x646ba8c0, 0xfd62f97a, 0x8a65c9ec, 0x14015c4f, 0x63066cd9, 0xfa0f3d63, 0x8d080df5,
   0x3b6e20c8, 0x4c69105e, 0xd56041e4, 0xa2677172, 0x3c03e4d1, 0x4b04d447, 0xd20d85fd, 0xa50ab56b,
   0x35b5a8fa, 0x42b2986c, 0xdbbbc9d6, 0xacbcf940, 0x32d86ce3, 0x45df5c75, 0xdcd60dcf, 0xabd13d59,
   0x26d930ac, 0x51de003a, 0xc8d75180, 0xbfd06116, 0x21b4f4b5, 0x56b3c423, 0xcfba9599, 0xb8bda50f,
   0x2802b89e, 0x5f058808, 0xc60cd9b2, 0xb10be924, 0x2f6f7c87, 0x58684c11, 0xc1611dab, 0xb6662d3d,
   0x76dc4190, 0x01db7106, 0x98d220bc, 0xefd5102a, 0x71b18589, 0x06b6b51f, 0x9fbfe4a5, 0xe8b8d433,
   0x7807c9a2, 0x0f00f934, 0x9609a88e, 0xe10e9818, 0x7f6a0dbb, 0x086d3d2d, 0x91646c97, 0xe6635c01,
   0x6b6b51f4, 0x1c6c6162, 0x856530d8, 0xf262004e, 0x6c0695ed, 0x1b01a57b, 0x8208f4c1, 0xf50fc457,
   0x65b0d9c6, 0x12b7e950, 0x8bbeb8ea, 0xfcb9887c, 0x62dd1ddf, 0x15da2d49, 0x8cd37cf3, 0xfbd44c65,
   0x4db26158, 0x3ab551ce, 0xa3bc0074, 0xd4bb30e2, 0x4adfa541, 0x3dd895d7, 0xa4d1c46d, 0xd3d6f4fb,
   0x4369e96a, 0x346ed9fc, 0xad678846, 0xda60b8d0, 0x44042d73, 0x33031de5, 0xaa0a4c5f, 0xdd0d7cc9,
   0x5005713c, 0x270241aa, 0xbe0b1010, 0xc90c2086, 0x5768b525, 0x206f85b3, 0xb966d409, 0xce61e49f,
   0x5edef90e, 0x29d9c998, 0xb0d09822, 0xc7d7a8b4, 0x59b33d17, 0x2eb40d81, 0xb7bd5c3b, 0xc0ba6cad,
   0xedb88320, 0x9abfb3b6, 0x03b6e20c, 0x74b1d29a, 0xead54739, 0x9dd277af, 0x04db2615, 0x73dc1683,
   0xe3630b12, 0x94643b84, 0x0d6d6a3e, 0x7a6a5aa8, 0xe40ecf0b, 0x9309ff9d, 0x0a00ae27, 0x7d079eb1,
   0xf00f9344, 0x8708a3d2, 0x1e01f268, 0x6906c2fe, 0xf762575d, 0x806567cb, 0x196c3671, 0x6e6b06e7,
   0xfed41b76, 0x89d32be0, 0x10da7a5a, 0x67dd4acc, 0xf9b9df6f, 0x8ebeeff9, 0x17b7be43, 0x60b08ed5,
   0xd6d6a3e8, 0xa1d1937e, 0x38d8c2c4, 0x4fdff252, 0xd1bb67f1, 0xa6bc5767, 0x3fb506dd, 0x48b2364b,
   0xd80d2bda, 0xaf0a1b4c, 0x36034af6, 0x41047a60, 0xdf60efc3, 0xa867df55, 0x316e8eef, 0x4669be79,
   0xcb61b38c, 0xbc66831a, 0x256fd2a0, 0x5268e236, 0xcc0c7795, 0xbb0b4703, 0x220216b9, 0x5505262f,
   0xc5ba3bbe, 0xb2bd0b28, 0x2bb45a92, 0x5cb36a04, 0xc2d7ffa7, 0xb5d0cf31, 0x2cd99e8b, 0x5bdeae1d,
   0x9b64c2b0, 0xec63f226, 0x756aa39c, 0x026d930a, 0x9c0906a9, 0xeb0e363f, 0x72076785, 0x05005713,
   0x95bf4a82, 0xe2b87a14, 0x7bb12bae, 0x0cb61b38, 0x92d28e9b, 0xe5d5be0d, 0x7cdcefb7, 0x0bdbdf21,
   0x86d3d2d4, 0xf1d4e242, 0x68ddb3f8, 0x1fda836e, 0x81be16cd, 0xf6b9265b, 0x6fb077e1, 0x18b74777,
   0x88085ae6, 0xff0f6a70, 0x66063bca, 0x11010b5c, 0x8f659eff, 0xf862ae69, 0x616bffd3, 0x166ccf45,
   0xa00ae278, 0xd70dd2ee, 0x4e048354, 0x3903b3c2, 0xa7672661, 0xd06016f7, 0x4969474d, 0x3e6e77db,
   0xaed16a4a, 0xd9d65adc, 0x40df0b66, 0x37d83bf0, 0xa9bcae53, 0xdebb9ec5, 0x47b2cf7f, 0x30b5ffe9,
   0xbdbdf21c, 0xcabac28a, 0x53b39330, 0x24b4a3a6, 0xbad03605, 0xcdd70693, 0x54de5729, 0x23d967bf,
   0xb3667a2e, 0xc4614ab8, 0x5d681b02, 0x2a6f2b94, 0xb40bbe37, 0xc30c8ea1, 0x5a05df1b, 0x2d02ef8d]

def swapByteOrder (crc : BitVec 32) : BitVec 32 :=
  (crc >>> 24) ||| ((crc >>> 8) &&& 0x0000FF00) ||| ((crc <<< 8) &&& 0x00FF0000) ||| (crc <<< 24)

/-- The loop body. -/
def crcByte (crc : BitVec 32) (p : BitVec 8) : BitVec 32 :=
  crc32_tab.getD ((crc ^^^ p.setWidth 32) &&& 0xFF).toNat 0 ^^^ (crc >>> 8)

def ethernetCRC (buf : Bytes) (crc : BitVec 32) : BitVec 32 :=
  swapByteOrder (buf.foldl crcByte (swapByteOrder crc ^^^ ~~~0) ^^^ ~~~0)

/-! ### The table -/

def poly : BitVec 32 := 0xEDB88320

def sentBits (buf : Bytes) : List Bool :=
  buf.flatMap (lowBits 8)

/-- An entry is its index after eight shifts. -/
theorem crc32_tab_shifted :
    crc32_tab = (List.range 256).map fun i => (shift poly)^[8] (BitVec.ofNat 32 i) := by
  decide +kernel

theorem crc32_tab_eq {i : Nat} (inside : i < 256) :
    crc32_tab.getD i 0 = feeds poly 0#32 (lowBits 8 (BitVec.ofNat 8 i)) := by
  have zeros : List.zipWith xor (lowBits 8 (BitVec.ofNat 32 i)) (List.replicate 8 false) =
      lowBits 8 (BitVec.ofNat 8 i) := by
    rw [zipWith_zeros (length_lowBits 8)]
    refine List.ext_getElem (by simp) fun k small _ => ?_
    have below : k < 8 := by simpa using small
    simp [lowBits, below, BitVec.getLsbD_ofNat, Nat.lt_trans below (by decide : 8 < 32),
      -BitVec.getLsbD_eq_getElem]
  have high : (BitVec.ofNat 32 i) >>> 8 = 0#32 := by
    refine BitVec.eq_of_toNat_eq ?_
    simp
    omega
  have fed := @feeds_at_once _ poly (BitVec.ofNat 32 i) (List.replicate 8 false) (by decide) 8 rfl
    (by decide)
  rw [zeros, high, BitVec.zero_xor] at fed
  rw [← fed, crc32_tab_shifted, List.getD_eq_getElem _ _ (by simpa using inside)]
  simp [feeds, feed, List.replicate]

theorem crcByte_eq (crc : BitVec 32) (p : BitVec 8) :
    crcByte crc p = feeds poly crc (lowBits 8 p) := by
  have index : ((crc ^^^ p.setWidth 32) &&& 0xFF).toNat = (crc.setWidth 8 ^^^ p).toNat := by
    have small : p.toNat < 2 ^ 8 := p.isLt
    rw [BitVec.toNat_and, BitVec.toNat_xor, BitVec.toNat_setWidth, BitVec.toNat_xor,
      BitVec.toNat_setWidth, show (0xFF : BitVec 32).toNat = 2 ^ 8 - 1 from rfl,
      Nat.and_two_pow_sub_one_eq_mod, Nat.xor_mod_two_pow, Nat.mod_eq_of_lt (b := 2 ^ 32) (by omega),
      Nat.mod_eq_of_lt small]
  have met : List.zipWith xor (lowBits 8 crc) (lowBits 8 p) = lowBits 8 (crc.setWidth 8 ^^^ p) := by
    refine List.ext_getElem (by simp) fun i inside _ => ?_
    have small : i < 8 := by simpa using inside
    simp [lowBits, small]
  rw [feeds_at_once (by decide) (length_lowBits 8) (by decide), met, crcByte, index,
    crc32_tab_eq (BitVec.isLt _), BitVec.ofNat_toNat, BitVec.setWidth_eq, BitVec.xor_comm]

theorem foldl_crcByte (buf : Bytes) (crc : BitVec 32) :
    buf.foldl crcByte crc = feeds poly crc (sentBits buf) := by
  induction buf generalizing crc with
  | nil => rfl
  | cons p rest ih =>
    rw [List.foldl_cons, ih, crcByte_eq]
    exact (feeds_append (lowBits 8 p) (sentBits rest)).symm

theorem swapByteOrder_swapByteOrder (crc : BitVec 32) : swapByteOrder (swapByteOrder crc) = crc := by
  refine BitVec.eq_of_getLsbD_eq fun i inside => ?_
  unfold swapByteOrder
  interval_cases i <;> simp

/-! ### Frames -/

def writeUint32Be (value : BitVec 32) : Bytes :=
  [value.extractLsb' 24 8, value.extractLsb' 16 8, value.extractLsb' 8 8, value.extractLsb' 0 8]

def readUint32Be : Bytes → BitVec 32
  | [a, b, c, d] =>
    (a.setWidth 32 <<< 24) ||| (b.setWidth 32 <<< 16) ||| (c.setWidth 32 <<< 8) ||| d.setWidth 32
  | _ => 0

/-- `EthernetFcsInserter` with computed sequences: the frame with its trailer. -/
def insertFcs (data : Bytes) : Bytes :=
  data ++ writeUint32Be (ethernetCRC data 0)

/-- `checkComputedFcs`, for a packet that is marked correct or not. -/
def checkComputedFcs (bytes : Bytes) (receivedFcs : BitVec 32) (isCorrect : Bool) : Bool :=
  receivedFcs == ethernetCRC (bytes.take (bytes.length - 4)) 0 && isCorrect

/-- `EthernetFcsChecker` with computed sequences. -/
def matchesPacket (bytes : Bytes) (isCorrect : Bool) : Bool :=
  checkComputedFcs bytes (readUint32Be (bytes.drop (bytes.length - 4))) isCorrect

theorem readUint32Be_write (value : BitVec 32) : readUint32Be (writeUint32Be value) = value := by
  refine BitVec.eq_of_getLsbD_eq fun i inside => ?_
  unfold readUint32Be writeUint32Be
  interval_cases i <;> simp

/-- The trailer is sent from the lowest place of the register. -/
theorem sentBits_trailer (a b c d : BitVec 8) :
    sentBits [a, b, c, d] = lowBits 32 (swapByteOrder (readUint32Be [a, b, c, d])) := by
  simp [sentBits, lowBits, List.range_succ, swapByteOrder, readUint32Be]

theorem sentBits_append (first second : Bytes) :
    sentBits (first ++ second) = sentBits first ++ sentBits second :=
  List.flatMap_append

theorem length_sentBits (buf : Bytes) : (sentBits buf).length = 8 * buf.length := by
  induction buf with
  | nil => rfl
  | cons p rest ih =>
    rw [sentBits, List.flatMap_cons, List.length_append, length_lowBits, List.length_cons]
    rw [sentBits] at ih
    omega

theorem sentBits_xor {first second : Bytes} (same : first.length = second.length) :
    sentBits (List.zipWith (· ^^^ ·) first second) =
      List.zipWith xor (sentBits first) (sentBits second) := by
  induction first generalizing second with
  | nil => rfl
  | cons p rest ih =>
    cases second with
    | nil => cases same
    | cons q others =>
      have here : lowBits 8 (p ^^^ q) = List.zipWith xor (lowBits 8 p) (lowBits 8 q) := by
        simp [lowBits, List.range_succ]
      have later := ih (Nat.succ.inj same)
      unfold sentBits at later ⊢
      rw [List.zipWith_cons_cons, List.flatMap_cons, here, later, List.flatMap_cons,
        List.flatMap_cons, List.zipWith_append (by simp)]

theorem xor_eq_right (a b : BitVec 32) : a ^^^ b = b ↔ a = 0#32 := by
  conv_lhs => rhs; rw [← BitVec.zero_xor (x := b)]
  exact BitVec.xor_left_inj b

/-- What a frame that is accepted leaves in the register. -/
def residue : BitVec 32 :=
  feeds poly (~~~0) (List.replicate 32 false)

theorem matchesPacket_iff {bytes : Bytes} (long : 4 ≤ bytes.length) :
    matchesPacket bytes true = true ↔ feeds poly (~~~0) (sentBits bytes) = residue := by
  obtain ⟨data, a, b, c, d, rfl⟩ : ∃ data a b c d, bytes = data ++ [a, b, c, d] := by
    have four : (bytes.drop (bytes.length - 4)).length = 4 := by
      rw [List.length_drop]
      omega
    match split : bytes.drop (bytes.length - 4), four with
    | [a, b, c, d], _ => exact ⟨_, a, b, c, d, split ▸ (List.take_append_drop _ _).symm⟩
  set trailer := readUint32Be [a, b, c, d] with read
  set register := feeds poly (~~~0) (sentBits data) with fed
  have accepts : matchesPacket (data ++ [a, b, c, d]) true = true ↔
      swapByteOrder trailer = register ^^^ ~~~0 := by
    have start : swapByteOrder 0 ^^^ ~~~0 = (~~~0 : BitVec 32) := by decide
    simp only [matchesPacket, checkComputedFcs, List.length_append, List.length_cons,
      List.length_nil, Nat.add_sub_cancel, List.drop_left', List.take_left', Bool.and_true,
      beq_iff_eq, ethernetCRC, foldl_crcByte, start, ← read, ← fed]
    constructor
    · intro same
      rw [same, swapByteOrder_swapByteOrder]
    · intro same
      rw [← same, swapByteOrder_swapByteOrder]
  -- the register takes the trailer: nothing is left of its complement exactly if they are equal
  have length : (sentBits [a, b, c, d]).length = 32 := length_sentBits _
  have taken := @feeds_xor _ poly (register ^^^ ~~~0) (~~~0) (sentBits [a, b, c, d])
    (List.replicate 32 false) (by simp [length])
  rw [zipWith_zeros length, BitVec.xor_assoc, BitVec.xor_self, BitVec.xor_zero,
    sentBits_trailer, ← read] at taken
  rw [accepts, sentBits_append, feeds_append, ← fed, sentBits_trailer, ← read, taken, residue,
    eq_comm, ← @feeds_lowBits_eq_zero_iff _ poly _ (by decide)]
  exact (xor_eq_right _ _).symm

/-- Frames pass the check exactly if the errors leave nothing in an empty register. Bursts of up to 32 bits
do not pass, also in the trailer. -/
theorem errors_detected {data errors : Bytes} (covers : errors.length = data.length + 4) :
    (matchesPacket (List.zipWith (· ^^^ ·) (insertFcs data) errors) true = true ↔
      feeds poly 0#32 (sentBits errors) = 0#32) ∧
    (IsBurst 32 (sentBits errors) →
      ∀ isCorrect,
        matchesPacket (List.zipWith (· ^^^ ·) (insertFcs data) errors) isCorrect = false) := by
  have length : (insertFcs data).length = errors.length := by simp [insertFcs, writeUint32Be, covers]
  have sent : feeds poly (~~~0) (sentBits (insertFcs data)) = residue := by
    refine (matchesPacket_iff (by omega)).mp ?_
    have start : (insertFcs data).length - 4 = data.length := by omega
    rw [matchesPacket, checkComputedFcs, start, insertFcs, List.drop_left, List.take_left,
      readUint32Be_write]
    simp
  have received := @feeds_xor _ poly (~~~0) 0#32 (sentBits (insertFcs data))
    (sentBits errors) (by rw [length_sentBits, length_sentBits, length])
  rw [← sentBits_xor length, BitVec.xor_zero, sent] at received
  have passes : matchesPacket (List.zipWith (· ^^^ ·) (insertFcs data) errors) true = true ↔
      feeds poly 0#32 (sentBits errors) = 0#32 := by
    rw [matchesPacket_iff (by simp [length]; omega), received, BitVec.xor_comm]
    exact xor_eq_right _ _
  refine ⟨passes, fun burst isCorrect => ?_⟩
  have fails := mt passes.mp (burst.feeds_ne_zero (by decide))
  cases isCorrect with
  | false => simp [matchesPacket, checkComputedFcs]
  | true => simpa using fails

/-- One bit of a trailer. -/
theorem trailer_error_detected :
    matchesPacket (List.zipWith (· ^^^ ·) (insertFcs [0x31]) [0, 1, 0, 0, 0]) true = false :=
  (errors_detected (by decide)).2 ⟨8, [true], 31, by decide, by decide, by decide⟩ true

end Inet.Ethernet
