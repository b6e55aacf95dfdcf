/-!
# Socket addresses

An address is an IP address and a port.  `Address.ofString?` reads
`a.b.c.d:port` and `[groups]:port`, where the groups are those of an IPv6
address, perhaps with a scope after a percent sign.  `Address.toText`
writes an address in its canonical form.

The reader is the usual one: each part takes as many digits as there are
and then checks their number and value, and the whole text has to be
used up.
-/

namespace Flick

/-- An IP address with a port.  An IPv4 address has four octets, an IPv6
address eight groups of sixteen bits and a scope, which is mostly zero. -/
inductive Address where
  | v4 (octets : List Nat) (port : Nat)
  | v6 (groups : List Nat) (scope : Nat) (port : Nat)
  deriving DecidableEq

namespace Address

/-! ## Reading -/

/-- A reader takes characters from the front of a text, or fails. -/
abbrev Reader := StateT (List Char) Option

/-- The value of a digit, up to `f` in either case. -/
def digitValue? (c : Char) : Option Nat :=
  if '0' ≤ c ∧ c ≤ '9' then some (c.toNat - '0'.toNat)
  else if 'a' ≤ c ∧ c ≤ 'f' then some (c.toNat - 'a'.toNat + 10)
  else if 'A' ≤ c ∧ c ≤ 'F' then some (c.toNat - 'A'.toNat + 10)
  else none

/-- Whether a character is a digit to this base. -/
def isDigitOf (base : Nat) (c : Char) : Bool := (digitValue? c).any (· < base)

/-- How a number is written: the base, the most digits, whether it may
start with a superfluous zero, and the greatest value. -/
structure Numeral where
  base : Nat
  digits : Option Nat
  zeroFirst : Bool
  greatest : Nat

/-- An octet of an IPv4 address. -/
def octet : Numeral := ⟨10, some 3, false, 255⟩

/-- A group of an IPv6 address. -/
def group : Numeral := ⟨16, some 4, true, 65535⟩

/-- A port. -/
def port : Numeral := ⟨10, none, true, 65535⟩

/-- A scope. -/
def scope : Numeral := ⟨10, none, true, 4294967295⟩

/-- The digits of a number are all that follow. -/
def Numeral.read (numeral : Numeral) : Reader Nat := fun chars =>
  let digits := chars.takeWhile (isDigitOf numeral.base)
  let value :=
    digits.foldl (fun value c => numeral.base * value + (digitValue? c).getD 0) 0
  if digits.isEmpty then none
  else if numeral.digits.any (· < digits.length) then none
  else if !numeral.zeroFirst && digits.head? == some '0' && 1 < digits.length then none
  else if numeral.greatest < value then none
  else some (value, chars.dropWhile (isDigitOf numeral.base))

/-- Takes this character. -/
def char (c : Char) : Reader Unit
  | d :: rest => if c = d then some ((), rest) else none
  | [] => none

/-- Reads an IPv4 address. -/
def ipv4 : Reader (List Nat) := do
  let a ← octet.read
  char '.'
  let b ← octet.read
  char '.'
  let c ← octet.read
  char '.'
  let d ← octet.read
  return [a, b, c, d]

/-- Reads a part of a sequence, after a colon if it is not the first. -/
def separated {α : Type} (first : Bool) (part : Reader α) : Reader α := do
  if first then part
  else
    char ':'
    part

/-- The two groups that hold an IPv4 address. -/
def groupsOfOctets : List Nat → List Nat
  | [a, b, c, d] => [256 * a + b, 256 * c + d]
  | _ => []

/-- Reads up to `room` groups.  An IPv4 address may stand for the last
two of them, which is told, since nothing may follow it. -/
def groups (first : Bool) : (room : Nat) → Reader (List Nat × Bool)
  | 0 => return ([], false)
  | room + 1 => fun chars =>
    match if 0 < room then separated first ipv4 chars else none with
    | some (octets, rest) => some ((groupsOfOctets octets, true), rest)
    | none =>
      match separated first group.read chars with
      | none => some (([], false), chars)
      | some (value, rest) =>
        match groups false room rest with
        | none => none
        | some ((values, closed), rest) => some ((value :: values, closed), rest)

/-- Reads an IPv6 address.  Two colons stand for as many zero groups as
there are missing, and for one at least. -/
def ipv6 : Reader (List Nat) := do
  let (head, closed) ← groups true 8
  if head.length = 8 then return head
  else if closed then failure
  else
    char ':'
    char ':'
    let (tail, _) ← groups true (7 - head.length)
    return head ++ List.replicate (8 - head.length - tail.length) 0 ++ tail

/-- Reads a scope, which is zero if there is none. -/
def optionalScope : Reader Nat := fun chars =>
  match (do char '%'; scope.read : Reader Nat) chars with
  | some result => some result
  | none => some (0, chars)

/-- Reads an IPv4 address with a port. -/
def socketV4 : Reader Address := do
  let octets ← ipv4
  char ':'
  let port ← port.read
  return .v4 octets port

/-- Reads an IPv6 address with a port. -/
def socketV6 : Reader Address := do
  char '['
  let groups ← ipv6
  let scope ← optionalScope
  char ']'
  char ':'
  let port ← port.read
  return .v6 groups scope port

/-- The address that a text spells from its first to its last character. -/
def ofString? (text : String) : Option Address :=
  match (socketV4 <|> socketV6) text.toList with
  | some (address, []) => some address
  | _ => none

/-! ## Writing -/

/-- Octets with points between them. -/
def octetsText (octets : List Nat) : String :=
  String.intercalate "." (octets.map fun octet => toString octet)

/-- Groups in hexadecimal with colons between them. -/
def groupsText (groups : List Nat) : String :=
  String.intercalate ":" (groups.map fun group => String.ofList (Nat.toDigits 16 group))

/-- The number of zeros at the front. -/
def leadingZeros (groups : List Nat) : Nat := (groups.takeWhile (· = 0)).length

/-- The longest run of zeros, the first one of equal runs: where it
starts and how long it is. -/
def zeroRun : List Nat → Nat × Nat
  | [] => (0, 0)
  | value :: values =>
    let here := leadingZeros (value :: values)
    let later := zeroRun values
    if later.2 ≤ here then (0, here) else (later.1 + 1, later.2)

/-- An IPv6 address.  One that stands for an IPv4 address shows it, and
else the longest run of two or more zeros is left out. -/
def ipv6Text (groups : List Nat) : String :=
  match groups with
  | [0, 0, 0, 0, 0, 0xffff, high, low] =>
    "::ffff:" ++ octetsText [high / 256, high % 256, low / 256, low % 256]
  | _ =>
    let (start, length) := zeroRun groups
    if 1 < length then
      groupsText (groups.take start) ++ "::" ++ groupsText (groups.drop (start + length))
    else groupsText groups

/-- The canonical text of an address. -/
def toText : Address → String
  | .v4 octets port => octetsText octets ++ ":" ++ toString port
  | .v6 groups scope port =>
    "[" ++ ipv6Text groups ++ (if scope = 0 then "" else "%" ++ toString scope) ++ "]:" ++
      toString port

end Address

end Flick
