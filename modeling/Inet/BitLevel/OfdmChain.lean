import Inet.BitLevel.ConvolutionalRoundTrip
import Inet.BitLevel.OfdmInterleaver

/-!
# OFDM encoder and decoder

A packet is scrambled, encoded and interleaved, and a received one goes through the inverse steps.
-/
namespace Inet.BitLevel

open Lib

/-! ### Scrambling -/

structure AdditiveScrambling where
  seed : BitVector
  generatorPolynomial : BitVector
  deriving DecidableEq

namespace AdditiveScrambling

/-- One bit of the scrambling sequence after the other, with the shift registers. -/
def shift (generatorPolynomial : BitVector) : Nat → BitVector → BitVector
  | 0, _ => []
  | count + 1, shiftRegisters =>
    let registerSum := (generatorPolynomial.zip shiftRegisters).foldl (fun sum taps =>
      if taps.1 then taps.2 != sum else sum) false
    registerSum :: shift generatorPolynomial count ((registerSum :: shiftRegisters).take
      shiftRegisters.length)

def scramblingSequence (scrambling : AdditiveScrambling) : BitVector :=
  shift scrambling.generatorPolynomial (2 ^ scrambling.seed.length - 1) scrambling.seed

def scramble (scrambling : AdditiveScrambling) (bits : BitVector) : BitVector :=
  let sequence := scrambling.scramblingSequence
  bits.mapIdx fun i bit => bit != sequence.getD (i % sequence.length) false

def descramble (scrambling : AdditiveScrambling) (bits : BitVector) : BitVector :=
  scrambling.scramble bits

@[simp] theorem length_scramble (scrambling : AdditiveScrambling) (bits : BitVector) :
    (scrambling.scramble bits).length = bits.length := List.length_mapIdx

/-- Scrambling twice gives the bits back. -/
theorem descramble_scramble (scrambling : AdditiveScrambling) (bits : BitVector) :
    scrambling.descramble (scrambling.scramble bits) = bits := by
  refine List.ext_getElem? fun i => ?_
  simp only [descramble, scramble, List.getElem?_mapIdx]
  cases bits[i]? with
  | none => rfl
  | some bit =>
    rw [Option.map_some, Option.map_some]
    cases bit <;> cases scrambling.scramblingSequence.getD
      (i % scrambling.scramblingSequence.length) false <;> rfl

end AdditiveScrambling

/-! ### Codes -/

structure Ieee80211OfdmCode where
  convolutionalCode : Option ConvolutionalCode
  interleaving : Option Ieee80211OfdmInterleaving
  scrambling : Option AdditiveScrambling
  deriving DecidableEq

namespace Ieee80211OfdmCompliantCodes

def interleavingFor (numberOfCodedBitsPerSubcarrier : Nat) : Ieee80211OfdmInterleaving :=
  ⟨numberOfCodedBitsPerSubcarrier * NUMBER_OF_OFDM_DATA_SUBCARRIERS,
    numberOfCodedBitsPerSubcarrier⟩

def ofdmBPSKInterleaving := interleavingFor 1
def ofdmQPSKInterleaving := interleavingFor 2
def ofdmQAM16Interleaving := interleavingFor 4
def ofdmQAM64Interleaving := interleavingFor 6
def ofdmQAM256Interleaving := interleavingFor 8
def ofdmQAM1024Interleaving := interleavingFor 10

def ofdmScrambling : AdditiveScrambling where
  seed := [true, false, true, true, true, false, true]
  generatorPolynomial := [false, false, false, true, false, false, true]

end Ieee80211OfdmCompliantCodes

/-! ### Packets -/

/-- The data of a packet, in bytes if there is a whole number of them. -/
inductive PacketData
  | bytes (content : List UInt8)
  | bits (content : BitVector) (incomplete : content.length % 8 ≠ 0)
  deriving DecidableEq

namespace PacketData

/-- The length in bits. -/
def length : PacketData → Nat
  | bytes content => 8 * content.length
  | bits content _ => content.length

/-- The bits of the data, which may not be empty. -/
def peekAll (data : PacketData) : Except String BitVector :=
  if data.length = 0 then
    .error "Returning an empty chunk is not allowed according to the flags: 0"
  else
    match data with
    | bytes content => .ok (BitVector.ofBytes content)
    | bits content _ => .ok content

def ofBits (decodedBits : BitVector) : PacketData :=
  if complete : decodedBits.length % 8 = 0 then bytes decodedBits.getBytes
  else bits decodedBits complete

theorem peekAll_spec {data : PacketData} {peeked : BitVector} (returned : data.peekAll = .ok peeked) :
    peeked.length = data.length ∧ ofBits peeked = data := by
  unfold peekAll at returned
  split at returned
  next => cases returned
  next =>
    cases data with
    | bytes content =>
      cases returned
      have length : (BitVector.ofBytes content).length = 8 * content.length :=
        BitVector.length_ofBytes content
      refine ⟨length, ?_⟩
      rw [ofBits, dif_pos (by rw [length, Nat.mul_mod_right]), BitVector.getBytes_ofBytes]
    | bits content incomplete =>
      cases returned
      exact ⟨rfl, by rw [ofBits, dif_neg incomplete]⟩

end PacketData

structure ReceptionPacketModel where
  data : PacketData
  hasBitError : Bool

/-! ### Encoder and decoder -/

namespace Ieee80211OfdmCode

variable (code : Ieee80211OfdmCode)

def encode (data : PacketData) : Except String BitVector := do
  let encodedBits ← data.peekAll
  let encodedBits := match code.scrambling with
    | some scrambling => scrambling.scramble encodedBits
    | none => encodedBits
  let encodedBits ← match code.convolutionalCode with
    | some convolutionalCode => convolutionalCode.encode encodedBits
    | none => .ok encodedBits
  match code.interleaving with
  | some interleaving => interleaving.interleave encodedBits
  | none => .ok encodedBits

def decode (dblrand : Nat → ℚ) (bits : BitVector) : Except String ReceptionPacketModel := do
  let decodedBits ← match code.interleaving with
    | some interleaving => interleaving.deinterleave bits
    | none => .ok bits
  let (decodedBits, valid) ← match code.convolutionalCode with
    | some convolutionalCode => convolutionalCode.decode dblrand decodedBits
    | none => .ok (decodedBits, true)
  let decodedBits := match code.scrambling with
    | some scrambling => scrambling.descramble decodedBits
    | none => decodedBits
  .ok { data := .ofBits decodedBits, hasBitError := !valid }

end Ieee80211OfdmCode

/-! ### Supported codes -/

namespace Ieee80211OfdmCompliantCodes

def ofdmCode (convolutionalCode : ConvolutionalCode) (numberOfCodedBitsPerSubcarrier : Nat)
    (scrambled : Bool) : Ieee80211OfdmCode where
  convolutionalCode := some convolutionalCode
  interleaving := some (interleavingFor numberOfCodedBitsPerSubcarrier)
  scrambling := if scrambled then some ofdmScrambling else none

/-- Each rate passes the checks of the coder, and its inputs differ in bits that are not punctured. -/
theorem separated_of_rate {codeRateK codeRateN : Nat} {convolutionalCode : ConvolutionalCode}
    (rate : ieee80211ConvolutionalCode codeRateK codeRateN = .ok convolutionalCode) :
    convolutionalCode.check = .ok ⟨⟩ ∧ convolutionalCode.Separated ∧
      convolutionalCode.mode = .truncated ∧ convolutionalCode.codeRatePuncturingK = codeRateK ∧
      convolutionalCode.codeRatePuncturingN = codeRateN := by
  unfold ieee80211ConvolutionalCode at rate
  dsimp only at rate
  split at rate
  next half =>
    obtain ⟨rfl, rfl⟩ := half
    cases rate
    exact ⟨by decide +kernel, by constructor <;> decide +kernel, rfl, rfl, rfl⟩
  next =>
    split at rate
    next twoThirds =>
      obtain ⟨rfl, rfl⟩ := twoThirds
      cases rate
      exact ⟨by decide +kernel, by constructor <;> decide +kernel, rfl, rfl, rfl⟩
    next =>
      split at rate
      next threeQuarters =>
        obtain ⟨rfl, rfl⟩ := threeQuarters
        cases rate
        exact ⟨by decide +kernel, by constructor <;> decide +kernel, rfl, rfl, rfl⟩
      next =>
        split at rate
        next fiveSixths =>
          obtain ⟨rfl, rfl⟩ := fiveSixths
          cases rate
          exact ⟨by decide +kernel, by constructor <;> decide +kernel, rfl, rfl, rfl⟩
        next => cases rate

end Ieee80211OfdmCompliantCodes

end Inet.BitLevel
