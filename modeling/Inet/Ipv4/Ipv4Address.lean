import Mathlib.Data.BitVec

/-!
# IPv4 addresses and netmasks

Netmasks are addresses whose set bits come first. They are compared as numbers, which agrees with
the comparison of their lengths.
-/
namespace Inet.Ipv4

abbrev Ipv4Address := BitVec 32

namespace Ipv4Address

def isUnspecified (addr : Ipv4Address) : Bool := addr == 0

/-- One of the four numbers of the dotted form. -/
def getDByte (addr : Ipv4Address) (i : Nat) : Nat := (addr >>> (24 - 8 * i) &&& 255).toNat

def str (addr : Ipv4Address) : String :=
  if addr.isUnspecified then "<unspec>"
  else s!"{addr.getDByte 0}.{addr.getDByte 1}.{addr.getDByte 2}.{addr.getDByte 3}"

/-- Counted from the last bit that is set. -/
def getNetmaskLength (addr : Ipv4Address) : Nat :=
  match (List.range 32).find? fun i => addr &&& (1#32 <<< i) != 0 with
  | some i => 32 - i
  | none => 0

def makeNetmask (length : Nat) : Ipv4Address :=
  if length ≥ 32 then 0xffffffff#32 else ~~~(0xffffffff#32 >>> length)

def isValidNetmask (addr : Ipv4Address) : Bool := addr == makeNetmask addr.getNetmaskLength

/-- The bits in which two addresses differ are outside the netmask. -/
def maskedAddrAreEqual (addr1 addr2 netmask : Ipv4Address) : Bool :=
  (addr1 ^^^ addr2) &&& netmask == 0

/-! ### Netmasks -/

theorem getNetmaskLength_le (addr : Ipv4Address) : addr.getNetmaskLength ≤ 32 := by
  unfold getNetmaskLength
  split <;> omega

theorem toNat_makeNetmask {length : Nat} (le : length ≤ 32) :
    (makeNetmask length).toNat = 2 ^ 32 - 2 ^ (32 - length) := by
  have each : ∀ length < 33, (makeNetmask length).toNat = 2 ^ 32 - 2 ^ (32 - length) := by decide
  exact each length (by omega)

variable {a b d : Ipv4Address}

/-- A longer netmask is a larger number. -/
theorem length_le_of_le (valid : a.isValidNetmask = true) (valid' : b.isValidNetmask = true)
    (le : a.toNat ≤ b.toNat) : a.getNetmaskLength ≤ b.getNetmaskLength := by
  rw [beq_iff_eq.mp valid, beq_iff_eq.mp valid',
    toNat_makeNetmask (getNetmaskLength_le a), toNat_makeNetmask (getNetmaskLength_le b)] at le
  by_contra longer
  have inside := getNetmaskLength_le a
  have powers : 2 ^ (32 - a.getNetmaskLength) < 2 ^ (32 - b.getNetmaskLength) :=
    Nat.pow_lt_pow_right (by omega) (by omega)
  have bound : 2 ^ (32 - b.getNetmaskLength) ≤ 2 ^ 32 := Nat.pow_le_pow_right (by omega) (by omega)
  omega

theorem eq_of_length (valid : a.isValidNetmask = true) (valid' : b.isValidNetmask = true)
    (same : a.getNetmaskLength = b.getNetmaskLength) : a = b := by
  rw [beq_iff_eq.mp valid, beq_iff_eq.mp valid', same]

/-- Two destinations without bits outside a netmask that match the same address are equal. -/
theorem eq_of_masked {netmask : Ipv4Address} (masked : a &&& ~~~netmask = 0)
    (masked' : b &&& ~~~netmask = 0) (matching : maskedAddrAreEqual d a netmask = true)
    (matching' : maskedAddrAreEqual d b netmask = true) : a = b := by
  unfold maskedAddrAreEqual at matching matching'
  rw [beq_iff_eq] at matching matching'
  apply BitVec.eq_of_getLsbD_eq
  intro i inside
  have outside := congrArg (·.getLsbD i) masked
  have outside' := congrArg (·.getLsbD i) masked'
  have equal := congrArg (·.getLsbD i) matching
  have equal' := congrArg (·.getLsbD i) matching'
  simp only [BitVec.getLsbD_and, BitVec.getLsbD_not, BitVec.getLsbD_xor, BitVec.ofNat_eq_ofNat,
    BitVec.getLsbD_zero, inside, decide_true, Bool.true_and] at outside outside' equal equal'
  -- Where the netmask is set both agree with the address, elsewhere both are clear.
  revert outside outside' equal equal'
  generalize a.getLsbD i = inA, b.getLsbD i = inB, netmask.getLsbD i = set, d.getLsbD i = inD
  revert inA inB set inD
  decide

end Ipv4Address

end Inet.Ipv4

/-!
## Address prefixes

A destination and a netmask, without bits of the destination outside the netmask.
-/
namespace Inet.Ipv4

/-- The netmask is one of a length, and the destination has no bits outside it. -/
structure Canonical (destination netmask : Ipv4Address) : Prop where
  valid : netmask.isValidNetmask = true
  masked : destination &&& ~~~netmask = 0

namespace Ipv4Address

variable {a b d mask : Ipv4Address}

theorem isValidNetmask_makeNetmask {length : Nat} (le : length ≤ 32) :
    (makeNetmask length).isValidNetmask = true := by
  have each : ∀ length < 33, (makeNetmask length).isValidNetmask = true := by decide
  exact each length (by omega)

theorem getLsbD_makeNetmask {length : Nat} (le : length ≤ 32) {i : Nat} (inside : i < 32) :
    (makeNetmask length).getLsbD i = decide (32 - length ≤ i) := by
  have ones : 0xffffffff#32 = BitVec.allOnes 32 := rfl
  unfold makeNetmask
  rw [ones]
  split
  · rw [BitVec.getLsbD_allOnes, decide_eq_decide]
    omega
  · rw [BitVec.getLsbD_not, BitVec.getLsbD_ushiftRight, BitVec.getLsbD_allOnes,
      decide_eq_true inside, Bool.true_and, ← decide_not, decide_eq_decide]
    omega

/-- One more bit. -/
theorem makeNetmask_succ {bit : Nat} (inside : bit < 32) :
    makeNetmask (32 - (bit + 1)) ||| 1#32 <<< bit = makeNetmask (32 - bit) := by
  apply BitVec.eq_of_getLsbD_eq
  intro i within
  rw [← BitVec.twoPow_eq, BitVec.getLsbD_or, BitVec.getLsbD_twoPow,
    getLsbD_makeNetmask (by omega) within, getLsbD_makeNetmask (by omega) within,
    decide_eq_true inside, Bool.true_and, ← Bool.decide_or, decide_eq_decide]
  omega

theorem eq_masked (masked : d &&& ~~~mask = 0) : d &&& mask = d := by
  apply BitVec.eq_of_getLsbD_eq
  intro i inside
  have outside := congrArg (·.getLsbD i) masked
  simp only [BitVec.getLsbD_and, BitVec.getLsbD_not, BitVec.ofNat_eq_ofNat, BitVec.getLsbD_zero,
    inside, decide_true, Bool.true_and] at outside ⊢
  revert outside
  generalize d.getLsbD i = inD, mask.getLsbD i = set
  revert inD set
  decide

theorem masked_and : (d &&& mask) &&& ~~~mask = 0 := by
  rw [BitVec.and_assoc, BitVec.and_not_self]
  exact BitVec.and_zero

theorem length_lt_iff (valid : a.isValidNetmask = true) (valid' : b.isValidNetmask = true) :
    a.getNetmaskLength < b.getNetmaskLength ↔ a.toNat < b.toNat := by
  constructor
  · intro shorter
    by_contra le
    exact absurd (length_le_of_le valid' valid (not_lt.mp le)) (not_le.mpr shorter)
  · intro less
    by_contra le
    have same : a.getNetmaskLength = b.getNetmaskLength :=
      le_antisymm (length_le_of_le valid valid' less.le) (not_lt.mp le)
    rw [eq_of_length valid valid' same] at less
    exact lt_irrefl _ less

/-- A longer netmask has all bits of a shorter one. -/
theorem and_of_length_le (valid : a.isValidNetmask = true) (valid' : b.isValidNetmask = true)
    (le : a.getNetmaskLength ≤ b.getNetmaskLength) : a &&& b = a := by
  rw [beq_iff_eq.mp valid, beq_iff_eq.mp valid']
  have short := getNetmaskLength_le a
  have short' := getNetmaskLength_le b
  apply BitVec.eq_of_getLsbD_eq
  intro i inside
  rw [BitVec.getLsbD_and, getLsbD_makeNetmask short inside, getLsbD_makeNetmask short' inside,
    ← Bool.decide_and]
  exact decide_eq_decide.mpr ⟨And.left, fun first => ⟨first, by omega⟩⟩

theorem xor_masked : (a ^^^ b) &&& mask = (a &&& mask) ^^^ (b &&& mask) := by
  apply BitVec.eq_of_getLsbD_eq
  intro i _
  simp only [BitVec.getLsbD_and, BitVec.getLsbD_xor]
  exact Bool.and_xor_distrib_right _ _ _

theorem maskedAddrAreEqual_iff :
    maskedAddrAreEqual a b mask = true ↔ a &&& mask = b &&& mask := by
  rw [maskedAddrAreEqual, beq_iff_eq, xor_masked]
  exact BitVec.xor_eq_zero_iff

/-- The destination of the longest prefix that an address has, if the address is a destination. -/
theorem destination_eq {d' mask' : Ipv4Address} (canonical : Canonical d mask)
    (canonical' : Canonical d' mask') (matching : maskedAddrAreEqual d d' mask' = true)
    (longer : mask.getNetmaskLength ≤ mask'.getNetmaskLength) : d' = d := by
  have inside := and_of_length_le canonical.valid canonical'.valid longer
  calc d' = d' &&& mask' := (eq_masked canonical'.masked).symm
    _ = d &&& mask' := (maskedAddrAreEqual_iff.mp matching).symm
    _ = (d &&& mask) &&& mask' := by rw [eq_masked canonical.masked]
    _ = d := by rw [BitVec.and_assoc, inside, eq_masked canonical.masked]

end Ipv4Address

end Inet.Ipv4
