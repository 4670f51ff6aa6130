import Inet.Lib.Serial
import Inet.Packet.FragmentBuffer

/-! TCP sequence numbers and the comparisons of `TcpHeader.h`. -/
namespace Inet.Tcp

open Lib.Serial

/-- A `uint32_t` sequence number. -/
abbrev SeqNum := BitVec 32

def seqLess (a b : SeqNum) : Bool := a != b && decide ((b - a).toNat < 2 ^ 31)
def seqLE (a b : SeqNum) : Bool := decide ((b - a).toNat < 2 ^ 31)
def seqGreater (a b : SeqNum) : Bool := a != b && decide ((a - b).toNat < 2 ^ 31)
def seqGE (a b : SeqNum) : Bool := decide ((a - b).toNat < 2 ^ 31)
def seqMin (a b : SeqNum) : SeqNum := if (b - a).toNat < 2 ^ 31 then a else b
def seqMax (a b : SeqNum) : SeqNum := if (a - b).toNat < 2 ^ 31 then a else b

variable (a b : SeqNum)

theorem seqLE_iff : seqLE a b = true ↔ fwd a b < 2 ^ 31 := by
  simp [seqLE, fwd]

theorem seqGE_iff : seqGE a b = true ↔ fwd b a < 2 ^ 31 := by
  simp [seqGE, fwd]

theorem seqLess_iff : seqLess a b = true ↔ 0 < fwd a b ∧ fwd a b < 2 ^ 31 := by
  have zero := fwd_eq_zero_iff a b
  simp only [seqLess, Bool.and_eq_true, bne_iff_ne, ne_eq, decide_eq_true_eq, ← zero]
  simp only [fwd, Nat.pos_iff_ne_zero]

/-- Seen from an origin at most `2 ^ 31` behind both numbers, `seqLE` is the natural order. -/
theorem seqLE_iff_from (s a b : SeqNum) (ha : fwd s a ≤ 2 ^ 31) (hb : fwd s b < 2 ^ 31) :
    seqLE a b = true ↔ fwd s a ≤ fwd s b := by
  rw [seqLE_iff, fwd_lt_half_iff (by decide) ha hb]

theorem seqLess_iff_from (s a b : SeqNum) (ha : fwd s a ≤ 2 ^ 31) (hb : fwd s b < 2 ^ 31) :
    seqLess a b = true ↔ fwd s a < fwd s b := by
  have order := seqLE_iff_from s a b ha hb
  rw [seqLE_iff] at order
  rw [seqLess_iff, order, Nat.pos_iff_ne_zero, ne_eq, fwd_eq_zero_iff, ← fwd_inj s a b]
  omega

/-! ### Positions of a stream -/

/-- The sequence number of a position of a stream that starts at a sequence number. -/
def seqOf (isn : SeqNum) (n : Nat) : SeqNum := isn + BitVec.ofNat 32 n

variable (isn : SeqNum) {a b : Nat}

@[simp] theorem seqOf_zero : seqOf isn 0 = isn := by simp [seqOf]

theorem seqOf_add (n : Nat) : seqOf isn (a + n) = seqOf isn a + BitVec.ofNat 32 n := by
  rw [seqOf, seqOf, BitVec.ofNat_add, BitVec.add_assoc]

theorem seqOf_succ : seqOf isn (a + 1) = seqOf isn a + 1 := seqOf_add isn 1

theorem fwd_seqOf (le : a ≤ b) (near : b < a + 2 ^ 32) : fwd (seqOf isn a) (seqOf isn b) = b - a := by
  obtain ⟨n, rfl⟩ := Nat.exists_eq_add_of_le le
  rw [seqOf_add, fwd_add _ _ (by omega), Nat.add_sub_cancel_left]

theorem fwd_seqOf_back (lt : a < b) (near : b < a + 2 ^ 32) :
    fwd (seqOf isn b) (seqOf isn a) = 2 ^ 32 - (b - a) := by
  have ahead := fwd_seqOf isn (Nat.le_of_lt lt) near
  have around := fwd_of_lt (seqOf isn a) (seqOf isn b) (seqOf isn a)
    (by rw [fwd_self, ahead]; omega)
  rw [around, ahead, fwd_self, Nat.sub_zero]

/-- Positions that are less than half of the sequence space apart compare like their sequence
numbers. -/
theorem seqLE_seqOf (below : b < a + 2 ^ 31) (above : a ≤ b + 2 ^ 31) :
    seqLE (seqOf isn a) (seqOf isn b) = true ↔ a ≤ b := by
  rw [seqLE_iff]
  by_cases le : a ≤ b
  · rw [fwd_seqOf isn le (by omega)]
    omega
  · rw [fwd_seqOf_back isn (Nat.not_le.mp le) (by omega)]
    omega

theorem seqGE_seqOf (below : a < b + 2 ^ 31) (above : b ≤ a + 2 ^ 31) :
    seqGE (seqOf isn a) (seqOf isn b) = true ↔ b ≤ a := by
  rw [seqGE_iff, ← seqLE_iff, seqLE_seqOf isn below above]

theorem seqOf_inj (below : b < a + 2 ^ 32) (above : a < b + 2 ^ 32) :
    seqOf isn a = seqOf isn b ↔ a = b := by
  constructor
  · intro same
    rw [← fwd_eq_zero_iff] at same
    by_cases le : a ≤ b
    · rw [fwd_seqOf isn le below] at same
      omega
    · rw [fwd_seqOf_back isn (Nat.not_le.mp le) above] at same
      omega
  · rintro rfl
    rfl

theorem seqLess_seqOf (below : b < a + 2 ^ 31) (above : a ≤ b + 2 ^ 31) :
    seqLess (seqOf isn a) (seqOf isn b) = true ↔ a < b := by
  have order := seqLE_seqOf isn below above
  rw [seqLE_iff] at order
  rw [seqLess_iff, order, Nat.pos_iff_ne_zero, ne_eq, fwd_eq_zero_iff,
    seqOf_inj isn (by omega) (by omega)]
  omega

theorem seqGreater_seqOf (below : a < b + 2 ^ 31) (above : b ≤ a + 2 ^ 31) :
    seqGreater (seqOf isn a) (seqOf isn b) = true ↔ b < a := by
  have same : seqGreater (seqOf isn a) (seqOf isn b) = seqLess (seqOf isn b) (seqOf isn a) := by
    rw [seqGreater, seqLess, bne_comm]
  rw [same, seqLess_seqOf isn below above]

end Inet.Tcp

/-! TCP headers, with the fields that data, acknowledgments and the end of a stream need. -/
namespace Inet.Tcp

open Packet

def TCP_MIN_HEADER_LENGTH : Nat := 20

/-- What stops the simulation: a fault of a packet operation, or a failed `ASSERT` or a
`cRuntimeError` of one of the parts of a connection. -/
inductive TcpError where
  | chunk (error : ChunkError)
  | receiveQueue (message : String)
  | sendQueue (message : String)
  | rexmitQueue (message : String)
  | connection (message : String)
deriving DecidableEq

end Inet.Tcp
