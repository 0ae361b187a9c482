/-
  Addresses and masks, as the numbers they are.
-/
import Mathlib.Algebra.Order.Ring.Nat

namespace Ns3

abbrev Ipv4Address : Type := Nat

abbrev Ipv4Mask : Type := Nat

def Ipv4Mask.ones : Ipv4Mask := 2 ^ 32 - 1

end Ns3
