import LogIntake.Listener.Basic
import LogIntake.Text.Digits

/-!
# Addresses

Hosts as people write them, and what listening at them comes to on a machine that is cut off from
every network. An IPv4 address has one to four parts, each decimal, octal after `0`, or hexadecimal
after `0x`, and the last part fills all bytes that are left. An IPv6 address stands in brackets.
-/
set_option autoImplicit false

namespace LogIntake.Listener

/-! ## IPv4 -/

def part? : List Char → Option Nat
  | '0' :: 'x' :: digits | '0' :: 'X' :: digits => Digits.number? UInt32.size 16 digits
  | '0' :: digit :: digits => Digits.number? UInt32.size 8 (digit :: digits)
  | digits => Digits.number? UInt32.size 10 digits

/-- The number of parts, one byte each up to the last, which fills the bytes that are left. -/
def ofParts? : List Nat → (bytes : Nat) → Option Nat
  | [], _ | _, 0 => none
  | [part], bytes => if part < Bytes.room bytes then some part else none
  | part :: rest, bytes + 1 =>
    if part < 256 then (ofParts? rest bytes).map (part * Bytes.room bytes + ·) else none

def ipv4? (host : String) : Option Nat := do
  ofParts? (← (host.splitOn ".").mapM fun part => part? part.toList) 4

/-! ## IPv6 -/

/-- One byte in decimal digits without needless zeros. -/
def readByte (input : List Char) : Option (Nat × List Char) :=
  let digits := input.takeWhile Digits.isDecimal
  let byte := Digits.ofDigitsUpTo 256 10 digits
  if digits = [] ∨ 256 ≤ byte ∨ digits.length ≠ (Nat.toDigits 10 byte).length then none
  else some (byte, input.drop digits.length)

def readPoint : List Char → Option (List Char)
  | '.' :: rest => some rest
  | _ => none

def readBytes (input : List Char) : Option (List Nat × List Char) := do
  let (first, rest) ← readByte input
  let (second, rest) ← readByte (← readPoint rest)
  let (third, rest) ← readByte (← readPoint rest)
  let (fourth, rest) ← readByte (← readPoint rest)
  return ([first * 256 + second, third * 256 + fourth], rest)

def readGroup (input : List Char) : Option (Nat × List Char) :=
  let digits := input.takeWhile fun digit => (Digits.hexValue? digit).isSome
  if digits = [] ∨ 4 < digits.length then none
  else some (Digits.ofDigits 16 digits, input.drop digits.length)

structure Groups where
  groups : List Nat
  /-- Whether the last two groups were written as bytes, which ends the groups. -/
  inBytes : Bool
  rest : List Char

def readGroups : (limit : Nat) → (first : Bool) → List Char → Groups
  | 0, _, input => ⟨[], false, input⟩
  | limit + 1, first, input =>
    let start? := if first then some input else
      match input with
      | ':' :: rest => some rest
      | _ => none
    match start? with
    | none => ⟨[], false, input⟩
    | some start =>
      match if limit = 0 then none else readBytes start with
      | some (groups, rest) => ⟨groups, true, rest⟩
      | none =>
        match readGroup start with
        | some (group, rest) =>
          let later := readGroups limit false rest
          { later with groups := group :: later.groups }
        | none => ⟨[], false, input⟩

/-- Eight groups, or fewer with a double colon in place of at least one group of zeros. -/
def readIpv6 (input : List Char) : Option (List Nat × List Char) :=
  let front := readGroups 8 true input
  if front.groups.length = 8 then some (front.groups, front.rest)
  else if front.inBytes then none
  else
    match front.rest with
    | ':' :: ':' :: rest =>
      let back := readGroups (7 - front.groups.length) true rest
      let gap := 8 - front.groups.length - back.groups.length
      some (front.groups ++ List.replicate gap 0 ++ back.groups, back.rest)
    | _ => none

/-- The eight groups of an IPv6 address. The number of an interface may follow a percent sign. -/
def ipv6? (host : List Char) : Option (List Nat) := do
  match ← readIpv6 host with
  | (groups, []) => return groups
  | (groups, '%' :: scope) =>
    let _scope ← Digits.number? UInt32.size 10 scope
    return groups
  | _ => none

/-! ## Listening -/

/-- What listening at an IPv6 address comes to. The machine has no such address of its own, but it
takes the one that stands for all addresses, and those that stand for an IPv4 address. -/
def bindingOfIpv6 (groups : List Nat) : Binding :=
  if groups = List.replicate 8 0 ∨ groups.take 6 = [0, 0, 0, 0, 0, 0xffff] then .bound
  else .refused .addressNotAvailable

/-- What listening at a host comes to on a machine that is cut off. It cannot tell which IPv4
addresses are its own and takes them all. -/
def isolatedBinding (host : List Char) : Binding :=
  match host with
  | '[' :: inner =>
    match inner.getLast?, ipv6? inner.dropLast with
    | some ']', some groups => bindingOfIpv6 groups
    | _, _ => .unresolved
  | _ =>
    let name := String.ofList host
    if (ipv4? name).isSome ∨ name.toLower = "localhost" then .bound else .unresolved

/-- What listening at an address comes to on a machine that is cut off. The port of the address
follows its last colon. -/
def isolatedBindings (address : String) : Binding :=
  isolatedBinding ((address.toList.reverse.dropWhile (· ≠ ':')).drop 1).reverse

end LogIntake.Listener
