import Mathlib

/-! Ethernet addresses. -/
namespace Rtl8821cu

/-- The six bytes of an address. -/
abbrev Mac := Vector (BitVec 8) 6

namespace Mac

/-- The places of the bytes. -/
theorem zero_lt_six : 0 < 6 := by decide

theorem one_lt_six : 1 < 6 := by decide

theorem two_lt_six : 2 < 6 := by decide

theorem three_lt_six : 3 < 6 := by decide

theorem four_lt_six : 4 < 6 := by decide

theorem five_lt_six : 5 < 6 := by decide

def isMcast (a : Mac) : Bool := (getElem a 0 zero_lt_six).getLsbD 0

def ipMcast (a : Mac) : Bool :=
  getElem a 0 zero_lt_six == 0x01 && getElem a 1 one_lt_six == 0x00 && getElem a 2 two_lt_six == 0x5e

def icmpv6Mcast (a : Mac) : Bool :=
  getElem a 0 zero_lt_six == 0x33 && getElem a 1 one_lt_six == 0x33 && getElem a 2 two_lt_six != 0xff

def broadcast : Mac := #v[0xff, 0xff, 0xff, 0xff, 0xff, 0xff]

/-- The address of a station, which ends in `n`. -/
abbrev ending (n : BitVec 8) : Mac := #v[2, 0, 0, 0, 0, n]

def zero : Mac := Vector.replicate 6 0

end Mac

end Rtl8821cu
