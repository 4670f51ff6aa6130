import Mathlib.Data.BitVec

/-! # IPv6 addresses -/
namespace Inet.Ipv6

abbrev Ipv6Address := BitVec 128

namespace Ipv6Address

def isUnspecified (address : Ipv6Address) : Bool := address == 0

def constructMask (prefixLength : Nat) : Ipv6Address := BitVec.allOnes 128 <<< (128 - prefixLength)

def matchesPrefix (address destPrefix : Ipv6Address) (prefixLength : Nat) : Bool :=
  (address ^^^ destPrefix) &&& constructMask prefixLength == 0

end Ipv6Address

end Inet.Ipv6
