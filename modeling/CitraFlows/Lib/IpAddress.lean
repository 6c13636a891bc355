-- SUMMARY: Internet addresses as `ipaddress` reads and classifies them, for both address families.
import Mathlib.Data.List.SplitOn
import CitraFlows.Lib.AddressBlocks

/-!
# Internet addresses

`ipaddress.ip_address` reads a dotted quad or a list of hextets and refuses every other
text. The properties of an address (`is_private`, `is_reserved` and so on) look it up in
fixed tables of networks, one set of tables for each family.
-/

namespace CitraFlows.IpAddress

open AddressBlocks

/-- An `IPv4Address` or an `IPv6Address`. The scope of an IPv6 address plays no part in
its properties. -/
inductive Ip where
  | v4 (a : BitVec 32)
  | v6 (a : BitVec 128)
  deriving DecidableEq

/-! ## Reading an address -/

/-- `_parse_octet` -/
def parseOctet (cs : List Char) : Option ℕ :=
  let n := cs.foldl (fun n c => 10 * n + (c.toNat - '0'.toNat)) 0
  if cs = [] ∨ ¬cs.all Char.isDigit ∨ 3 < cs.length then none
  else if cs ≠ ['0'] ∧ cs.head? = some '0' then none
  else if 255 < n then none
  else some n

/-- `_BaseV4._ip_int_from_string` -/
def parseV4 (cs : List Char) : Option (BitVec 32) := do
  let octets := cs.splitOn '.'
  guard (octets.length = 4)
  let values ← octets.mapM parseOctet
  pure (BitVec.ofNat 32 (values.foldl (fun n v => 256 * n + v) 0))

/-- The value of a hexadecimal digit -/
def hexDigit (c : Char) : Option ℕ :=
  if c.isDigit then some (c.toNat - '0'.toNat)
  else if 'a' ≤ c ∧ c ≤ 'f' then some (c.toNat - 'a'.toNat + 10)
  else if 'A' ≤ c ∧ c ≤ 'F' then some (c.toNat - 'A'.toNat + 10)
  else none

/-- `_parse_hextet`, with the `ValueError` of `int` on an empty text -/
def parseHextet (cs : List Char) : Option ℕ := do
  let digits ← cs.mapM hexDigit
  guard (0 < cs.length ∧ cs.length ≤ 4)
  pure (digits.foldl (fun n d => 16 * n + d) 0)

/-- The parts between the colons, with a dotted suffix turned into two hextets -/
def hextetParts (cs : List Char) : Option (List (List Char)) :=
  let parts := cs.splitOn ':'
  if parts.length < 3 then none
  else
    match parts.getLast? with
    | none => none
    | some last =>
        if '.' ∈ last then
          (parseV4 last).map fun a =>
            parts.dropLast ++ [Nat.toDigits 16 (a.toNat / 2 ^ 16), Nat.toDigits 16 (a.toNat % 2 ^ 16)]
        else some parts

/-- The places where two colons stand together, the ends apart -/
def skips (parts : List (List Char)) : List ℕ :=
  (List.range parts.length).filter fun i =>
    0 < i ∧ i + 1 < parts.length ∧ parts.getD i [] = []

/-- The parts before and after a `::`, and the number of zero hextets between them.
A part missing at an end is allowed only as part of the `::`. -/
def aroundSkip (parts : List (List Char)) (skip : ℕ) :
    Option (List (List Char) × ℕ × List (List Char)) :=
  let openStart := parts.head? = some []
  let openEnd := parts.getLast? = some []
  let hi := if openStart then skip - 1 else skip
  let lo := if openEnd then parts.length - skip - 2 else parts.length - skip - 1
  if (openStart ∧ hi ≠ 0) ∨ (openEnd ∧ lo ≠ 0) then none
  else if 8 ≤ hi + lo then none
  else some (parts.take hi, 8 - (hi + lo), parts.drop (parts.length - lo))

/-- `_BaseV6._ip_int_from_string`. An empty part at an end that no `::` explains is
refused by `parseHextet`. -/
def hextets (cs : List Char) : Option (List ℕ) := do
  let parts ← hextetParts cs
  guard (parts.length ≤ 9)
  match skips parts with
  | [] => do
      guard (parts.length = 8)
      parts.mapM parseHextet
  | [skip] => do
      let (before, zeros, behind) ← aroundSkip parts skip
      let his ← before.mapM parseHextet
      let los ← behind.mapM parseHextet
      pure (his ++ List.replicate zeros 0 ++ los)
  | _ => none

/-- `_split_scope_id`: the address before a `%`, where the scope is not empty and holds
no second `%` -/
def splitScope (cs : List Char) : Option (List Char) :=
  match cs.splitOn '%' with
  | [addr] => some addr
  | [addr, scope] => if scope = [] then none else some addr
  | _ => none

def parseV6 (cs : List Char) : Option (BitVec 128) := do
  let addr ← splitScope cs
  let values ← hextets addr
  pure (BitVec.ofNat 128 (values.foldl (fun n v => 2 ^ 16 * n + v) 0))

/-- `ipaddress.ip_address(address)`; `none` stands for its `ValueError`. -/
def ipAddress (address : String) : Option Ip :=
  let cs := address.toList
  if '/' ∈ cs then none
  else
    match parseV4 cs with
    | some a => some (.v4 a)
    | none => (parseV6 cs).map .v6

/-! ## The tables of networks -/

/-- `IPv4Network('a.b.c.d/len')` -/
def net4 (a b c d len : ℕ) : NonemptyInterval ℕ :=
  ofPrefix 32 (((a * 256 + b) * 256 + c) * 256 + d) len

/-- The `IPv6Network` with the given leading hextets -/
def net6 (leading : List ℕ) (len : ℕ) : NonemptyInterval ℕ :=
  ofPrefix 128 (leading.foldl (fun n v => 2 ^ 16 * n + v) 0 * 2 ^ (16 * (8 - leading.length))) len

namespace V4

/-- `_private_networks` -/
def privateNetworks : List (NonemptyInterval ℕ) :=
  [net4 0 0 0 0 8, net4 10 0 0 0 8, net4 127 0 0 0 8, net4 169 254 0 0 16, net4 172 16 0 0 12,
   net4 192 0 0 0 24, net4 192 0 0 170 31, net4 192 0 2 0 24, net4 192 168 0 0 16,
   net4 198 18 0 0 15, net4 198 51 100 0 24, net4 203 0 113 0 24, net4 240 0 0 0 4,
   net4 255 255 255 255 32]

/-- `_private_networks_exceptions` -/
def privateExceptions : List (NonemptyInterval ℕ) := [net4 192 0 0 9 32, net4 192 0 0 10 32]

def loopbackNetwork := net4 127 0 0 0 8
def linklocalNetwork := net4 169 254 0 0 16
def multicastNetwork := net4 224 0 0 0 4
def reservedNetwork := net4 240 0 0 0 4

end V4

namespace V6

/-- `_private_networks` -/
def privateNetworks : List (NonemptyInterval ℕ) :=
  [net6 [0, 0, 0, 0, 0, 0, 0, 1] 128, net6 [] 128, net6 [0, 0, 0, 0, 0, 0xffff] 96,
   net6 [0x64, 0xff9b, 1] 48, net6 [0x100] 64, net6 [0x2001] 23, net6 [0x2001, 0xdb8] 32,
   net6 [0x2002] 16, net6 [0xfc00] 7, net6 [0xfe80] 10]

/-- `_private_networks_exceptions` -/
def privateExceptions : List (NonemptyInterval ℕ) :=
  [net6 [0x2001, 1, 0, 0, 0, 0, 0, 1] 128, net6 [0x2001, 1, 0, 0, 0, 0, 0, 2] 128,
   net6 [0x2001, 3] 32, net6 [0x2001, 4, 0x112] 48, net6 [0x2001, 0x20] 28,
   net6 [0x2001, 0x30] 28]

/-- `_reserved_networks` -/
def reservedNetworks : List (NonemptyInterval ℕ) :=
  [net6 [] 8, net6 [0x100] 8, net6 [0x200] 7, net6 [0x400] 6, net6 [0x800] 5, net6 [0x1000] 4,
   net6 [0x4000] 3, net6 [0x6000] 3, net6 [0x8000] 3, net6 [0xa000] 3, net6 [0xc000] 3,
   net6 [0xe000] 4, net6 [0xf000] 5, net6 [0xf800] 6, net6 [0xfe00] 9]

def linklocalNetwork := net6 [0xfe80] 10
def multicastNetwork := net6 [0xff00] 8

end V6

/-- `ipv4_mapped` -/
def ipv4Mapped (a : BitVec 128) : Option (BitVec 32) :=
  if a >>> 32 = 0xffff#128 then some (a.setWidth 32) else none

/-! ## The properties of an address -/

/-- `IPv4Address.is_private` -/
def isPrivate4 (a : BitVec 32) : Bool :=
  contains V4.privateNetworks a.toNat && !contains V4.privateExceptions a.toNat

namespace Ip

/-- `is_private` -/
def isPrivate : Ip → Bool
  | v4 a => isPrivate4 a
  | v6 a =>
      match ipv4Mapped a with
      | some m => isPrivate4 m
      | none => contains V6.privateNetworks a.toNat && !contains V6.privateExceptions a.toNat

/-- `is_loopback` -/
def isLoopback : Ip → Bool
  | v4 a => contains [V4.loopbackNetwork] a.toNat
  | v6 a => a = 1

/-- `is_link_local` -/
def isLinkLocal : Ip → Bool
  | v4 a => contains [V4.linklocalNetwork] a.toNat
  | v6 a => contains [V6.linklocalNetwork] a.toNat

/-- `is_reserved` -/
def isReserved : Ip → Bool
  | v4 a => contains [V4.reservedNetwork] a.toNat
  | v6 a => contains V6.reservedNetworks a.toNat

/-- `is_multicast` -/
def isMulticast : Ip → Bool
  | v4 a => contains [V4.multicastNetwork] a.toNat
  | v6 a => contains [V6.multicastNetwork] a.toNat

/-- `is_unspecified` -/
def isUnspecified : Ip → Bool
  | v4 a => a = 0
  | v6 a => a = 0

end Ip

end CitraFlows.IpAddress
