import Procinsh.Ipc.Codec

/-!
# Texts of IP addresses

The parser of the standard library for the texts of IP addresses, `IpAddr::from_str`, and the
predicates on addresses.  Each reader takes what it accepts from the front of the text; a reader that
does not succeed takes nothing.
-/

namespace Procinsh.Ipc.IpAddr

/-- The value of a digit. -/
def toDigit (radix : ℕ) (c : Char) : Option ℕ :=
  let digit :=
    if '0' ≤ c ∧ c ≤ '9' then c.toNat - '0'.toNat
    else if 'a' ≤ c ∧ c ≤ 'z' then c.toNat - 'a'.toNat + 10
    else if 'A' ≤ c ∧ c ≤ 'Z' then c.toNat - 'A'.toNat + 10
    else 36
  if digit < radix then some digit else none

/-- A number below the bound, with a most number of digits. -/
def readNumber (radix maxDigits bound : ℕ) (allowZeroPrefix : Bool) (input : List Char) :
    Option (ℕ × List Char) :=
  let digits := input.takeWhile fun c => (toDigit radix c).isSome
  let value := digits.foldl (fun n c => n * radix + (toDigit radix c).getD 0) 0
  if digits.length = 0 ∨ maxDigits < digits.length then none
  else if !allowZeroPrefix && digits.head? = some '0' && 1 < digits.length then none
  else if value < bound then some (value, input.drop digits.length)
  else none

/-- A given character. -/
def readGivenChar (target : Char) : List Char → Option (List Char)
  | c :: input => if c = target then some input else none
  | [] => none

/-- The group with an index, behind a separator unless it is the first. -/
def readSeparator {α : Type} (separator : Char) (index : ℕ)
    (inner : List Char → Option (α × List Char)) (input : List Char) : Option (α × List Char) :=
  if 0 < index then readGivenChar separator input >>= inner else inner input

/-- Four octets; a leading zero is not allowed. -/
def readIpv4Addr (input : List Char) : Option (List.Vector UInt8 4 × List Char) := do
  let octet := fun index => readSeparator '.' index (readNumber 10 3 256 false)
  let (a, input) ← octet 0 input
  let (b, input) ← octet 1 input
  let (c, input) ← octet 2 input
  let (d, input) ← octet 3 input
  return (⟨[a, b, c, d].map UInt8.ofNat, rfl⟩, input)

/-- The groups in front of the first that cannot be read, of which there are `limit` at most, and
whether the last two are an embedded IPv4 address. -/
def readGroups (index : ℕ) : (limit : ℕ) → List Char → List ℕ × Bool × List Char
  | 0, input => ([], false, input)
  | limit + 1, input =>
    -- an IPv4 address takes two groups
    match if 0 < limit then readSeparator ':' index readIpv4Addr input else none with
    | some (octets, input) =>
      ([leValue [octets.get 1, octets.get 0], leValue [octets.get 3, octets.get 2]], true, input)
    | none =>
      match readSeparator ':' index (readNumber 16 4 65536 true) input with
      | some (g, input) =>
        let (groups, embedded, input) := readGroups (index + 1) limit input
        (g :: groups, embedded, input)
      | none => ([], false, input)

/-- The octets of eight groups. -/
def ofGroups (groups : List ℕ) : List.Vector UInt8 16 :=
  List.Vector.ofFn fun i =>
    (groups.flatMap fun g => [UInt8.ofNat (g / 256), UInt8.ofNat g]).getD i 0

/-- Eight groups, or fewer around `::`. -/
def readIpv6Addr (input : List Char) : Option (List.Vector UInt8 16 × List Char) := do
  let (head, embedded, input) := readGroups 0 8 input
  if head.length = 8 then return (ofGroups head, input)
  -- an IPv4 address is not allowed in front of `::`
  if embedded then none
  let input ← readGivenChar ':' input
  let input ← readGivenChar ':' input
  let (tail, _, input) := readGroups 0 (8 - (head.length + 1)) input
  return (ofGroups (head ++ List.replicate (8 - head.length - tail.length) 0 ++ tail), input)

/-- `IpAddr::from_str`. -/
def fromStr (s : String) : Option IpAddr :=
  match readIpv4Addr s.toList with
  | some (octets, rest) => if rest = [] then some (.v4 octets) else none
  | none =>
    match readIpv6Addr s.toList with
    | some (octets, rest) => if rest = [] then some (.v6 octets) else none
    | none => none

example : fromStr "10.0.0.1" = some (.v4 ⟨[10, 0, 0, 1], rfl⟩) := by decide

example : fromStr "fe80::1:10.0.0.1" =
    some (.v6 ⟨[254, 128, 0, 0, 0, 0, 0, 0, 0, 0, 0, 1, 10, 0, 0, 1], rfl⟩) := by decide +kernel

example : fromStr "010.0.0.1" = none := by decide +kernel

/-- The address `0.0.0.0` or `::`. -/
def isUnspecified : IpAddr → Bool
  | v4 octets => octets.toList.all (· = 0)
  | v6 octets => octets.toList.all (· = 0)

/-- An address of `127.0.0.0/8`, or `::1`. -/
def isLoopback : IpAddr → Bool
  | v4 octets => octets.head = 127
  | v6 octets => octets.toList = List.replicate 15 0 ++ [1]

end Procinsh.Ipc.IpAddr
