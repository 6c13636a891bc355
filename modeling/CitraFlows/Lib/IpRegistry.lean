-- SUMMARY: Which internet addresses are globally routable unicast, by the special-purpose address registries.
import CitraFlows.Lib.IpAddress

/-!
# The address registries

The special-purpose registries list the blocks that are not globally reachable and,
inside some of them, smaller blocks that are. A globally routable unicast address lies
in the unicast space, outside those blocks, and embeds no IPv4 address that is not
itself globally routable.
-/

namespace CitraFlows.IpRegistry

open AddressBlocks IpAddress

namespace V4

/-- Entries that are not globally reachable: this network, private use, shared space,
loopback, link local, protocol assignments, documentation, the 6a44 relay,
benchmarking, and the reserved space with limited broadcast -/
def notReachable : List (NonemptyInterval ℕ) :=
  [net4 0 0 0 0 8, net4 10 0 0 0 8, net4 100 64 0 0 10, net4 127 0 0 0 8, net4 169 254 0 0 16,
   net4 172 16 0 0 12, net4 192 0 0 0 24, net4 192 0 2 0 24, net4 192 88 99 2 32,
   net4 192 168 0 0 16, net4 198 18 0 0 15, net4 198 51 100 0 24, net4 203 0 113 0 24,
   net4 240 0 0 0 4, net4 255 255 255 255 32]

/-- Entries inside those that are globally reachable -/
def reachable : List (NonemptyInterval ℕ) := [net4 192 0 0 9 32, net4 192 0 0 10 32]

/-- The multicast space -/
def multicast : List (NonemptyInterval ℕ) := [net4 224 0 0 0 4]

end V4

namespace V6

/-- The blocks the IPv6 space is divided into, in order -/
def space : List (NonemptyInterval ℕ) :=
  [net6 [] 8, net6 [0x100] 8, net6 [0x200] 7, net6 [0x400] 6, net6 [0x800] 5, net6 [0x1000] 4,
   net6 [0x2000] 3, net6 [0x4000] 3, net6 [0x6000] 3, net6 [0x8000] 3, net6 [0xa000] 3,
   net6 [0xc000] 3, net6 [0xe000] 4, net6 [0xf000] 5, net6 [0xf800] 6, net6 [0xfc00] 7,
   net6 [0xfe00] 9, net6 [0xfe80] 10, net6 [0xfec0] 10, net6 [0xff00] 8]

theorem contains_space (a : BitVec 128) : contains space a.toNat = true :=
  contains_of_lt_covered (Nat.zero_le _) (lt_of_lt_of_le a.isLt (by decide))

/-- The global unicast space, and the prefix of the IPv4/IPv6 translation -/
def unicast : List (NonemptyInterval ℕ) := [net6 [0x2000] 3, net6 [0x64, 0xff9b] 96]

/-- Entries that are not globally reachable: loopback, unspecified, IPv4-mapped, local
translation, discard only, dummy prefix, protocol assignments, documentation, segment
routing, unique local and link local -/
def notReachable : List (NonemptyInterval ℕ) :=
  [net6 [0, 0, 0, 0, 0, 0, 0, 1] 128, net6 [] 128, net6 [0, 0, 0, 0, 0, 0xffff] 96,
   net6 [0x64, 0xff9b, 1] 48, net6 [0x100] 64, net6 [0x100, 0, 0, 1] 64, net6 [0x2001] 23,
   net6 [0x2001, 2] 48, net6 [0x2001, 0xdb8] 32, net6 [0x3fff] 20, net6 [0x5f00] 16,
   net6 [0xfc00] 7, net6 [0xfe80] 10]

/-- Entries inside those that are globally reachable -/
def reachable : List (NonemptyInterval ℕ) :=
  [net6 [0x2001, 1, 0, 0, 0, 0, 0, 1] 128, net6 [0x2001, 1, 0, 0, 0, 0, 0, 2] 128,
   net6 [0x2001, 1, 0, 0, 0, 0, 0, 3] 128, net6 [0x2001, 3] 32, net6 [0x2001, 4, 0x112] 48,
   net6 [0x2001, 0x20] 28, net6 [0x2001, 0x30] 28]

/-- IPv4-mapped addresses and translated ones, which end in an IPv4 address -/
def suffixed : List (NonemptyInterval ℕ) :=
  [net6 [0, 0, 0, 0, 0, 0xffff] 96, net6 [0x64, 0xff9b] 96]

/-- 6to4 addresses -/
def sixtofour : List (NonemptyInterval ℕ) := [net6 [0x2002] 16]

/-- Teredo addresses -/
def teredo : List (NonemptyInterval ℕ) := [net6 [0x2001, 0] 32]

end V6

/-- The IPv4 addresses an IPv6 address embeds. A Teredo address holds its server and,
inverted, its client. -/
def embedded (a : BitVec 128) : List (BitVec 32) :=
  if contains V6.suffixed a.toNat then [a.setWidth 32]
  else if contains V6.sixtofour a.toNat then [(a >>> 80).setWidth 32]
  else if contains V6.teredo a.toNat then [(a >>> 64).setWidth 32, ~~~(a.setWidth 32)]
  else []

def isGlobal4 (a : BitVec 32) : Bool :=
  !contains V4.multicast a.toNat &&
    (!contains V4.notReachable a.toNat || contains V4.reachable a.toNat)

def isGlobal6 (a : BitVec 128) : Bool :=
  contains V6.unicast a.toNat &&
    (!contains V6.notReachable a.toNat || contains V6.reachable a.toNat) &&
    (embedded a).all isGlobal4

/-- A globally routable unicast address -/
def isGlobal : Ip → Bool
  | .v4 a => isGlobal4 a
  | .v6 a => isGlobal6 a

theorem embedded_eq_nil {a : BitVec 128}
    (h : contains (V6.suffixed ++ V6.sixtofour ++ V6.teredo) a.toNat = false) :
    embedded a = [] := by
  simp only [contains_append, Bool.or_eq_false_iff] at h
  simp [embedded, h]

end CitraFlows.IpRegistry
