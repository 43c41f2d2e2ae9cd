import DddCqrsEs.Cuts
import DddCqrsEs.JsonString
import Mathlib.Algebra.Group.Nat.Defs

/- How internet addresses are written: numbers in a radix, the forms that `inet_aton` reads, the
dotted form with four plain decimal parts, and IPv6 texts. Nothing here names an application. -/

namespace Radix

/-- The number so far, and the digits behind it. -/
def numberFrom (radix : Nat) : Nat → List Char → Option Nat
  | number, [] => some number
  | number, c :: text =>
    match JsonString.hexValue c with
    | some digit =>
      if digit < radix then numberFrom radix (number * radix + digit) text else none
    | none => none

/-- The number that the digits denote. -/
def number (radix : Nat) (text : List Char) : Option Nat :=
  if text = [] then none else numberFrom radix 0 text

def isDigit (radix : Nat) (c : Char) : Bool := (JsonString.hexValue c).any (· < radix)

variable {radix : Nat} {text : List Char}

theorem numberFrom_isSome {number : Nat} :
    (numberFrom radix number text).isSome = text.all (isDigit radix) := by
  induction text generalizing number with
  | nil => rfl
  | cons c text ih =>
    rw [numberFrom, List.all_cons, isDigit]
    cases JsonString.hexValue c with
    | none => rfl
    | some digit =>
      by_cases small : digit < radix
      · simp [small, ih]
      · simp [small]

/-- A number is read where there are digits, and nothing but digits. -/
theorem number_isSome :
    (number radix text).isSome = true ↔ text ≠ [] ∧ ∀ c ∈ text, isDigit radix c = true := by
  rw [number]
  split
  · rename_i empty
    simp [empty]
  · rename_i nonempty
    rw [numberFrom_isSome, List.all_eq_true]
    exact (and_iff_right nonempty).symm

theorem digits_of_number {value : Nat} (read : number radix text = some value) :
    ∀ c ∈ text, isDigit radix c = true :=
  (number_isSome.mp (by rw [read]; rfl)).2

theorem number_eq_none {c : Char} (member : c ∈ text) (foreign : isDigit radix c = false) :
    number radix text = none := by
  rw [← Option.not_isSome_iff_eq_none, number_isSome]
  intro digits
  rw [digits.2 c member] at foreign
  cases foreign

end Radix

namespace InternetAddress

open Cuts

/-- An address: a number below 2^32, or eight groups of 16 bits. -/
inductive Address
  | v4 (number : Nat)
  | v6 (groups : List Nat)
  deriving DecidableEq

/-- A part as `inet_aton` reads it: hexadecimal, octal or decimal. -/
def partNumber : List Char → Option Nat
  | '0' :: 'x' :: digits => Radix.number 16 digits
  | '0' :: 'X' :: digits => Radix.number 16 digits
  | ['0'] => some 0
  | '0' :: digits => Radix.number 8 digits
  | part => Radix.number 10 part

/-- The last part fills the bytes that the parts before it leave. -/
def inetAton (text : List Char) : Option Nat :=
  match (text.splitOn '.').mapM partNumber with
  | some [a] => if a < 2 ^ 32 then some a else none
  | some [a, b] => if a < 256 ∧ b < 2 ^ 24 then some (a * 2 ^ 24 + b) else none
  | some [a, b, c] =>
    if a < 256 ∧ b < 256 ∧ c < 2 ^ 16 then some ((a * 256 + b) * 2 ^ 16 + c) else none
  | some [a, b, c, d] =>
    if a < 256 ∧ b < 256 ∧ c < 256 ∧ d < 256 then some (((a * 256 + b) * 256 + c) * 256 + d)
    else none
  | _ => none

/-- A decimal part without leading zeros. -/
def Plain (part : List Char) : Prop := part.head? = some '0' → part = ['0']

instance (part : List Char) : Decidable (Plain part) := inferInstanceAs (Decidable (_ → _))

def octet (part : List Char) : Option Nat :=
  if Plain part then (Radix.number 10 part).filter (· < 256) else none

def dotted (text : List Char) : Option Nat :=
  match (text.splitOn '.').mapM octet with
  | some [a, b, c, d] => some (((a * 256 + b) * 256 + c) * 256 + d)
  | _ => none

/-- One to four hexadecimal digits. -/
def group (text : List Char) : Option Nat :=
  if text.length ≤ 4 then Radix.number 16 text else none

/-- Groups, of which the last may be a dotted IPv4 address, which stands for two. -/
def groups : List (List Char) → Option (List Nat)
  | [] => some []
  | [last] =>
    match group last with
    | some value => some [value]
    | none => (dotted last).map (fun number => [number / 2 ^ 16, number % 2 ^ 16])
  | first :: next :: rest =>
    match group first with
    | some value => (groups (next :: rest)).map (value :: ·)
    | none => none

/-- What is written on one side of a `::`. -/
def side (text : List Char) : List (List Char) := if text = [] then [] else text.splitOn ':'

/-- Eight groups, or fewer around a `::` that stands for zeros. -/
def ipv6 (text : List Char) : Option (List Nat) :=
  match cutWord [':', ':'] text with
  | some (front, back) =>
    match (side front).mapM group, groups (side back) with
    | some before, some after =>
      if before.length + after.length ≤ 7 then
        some (before ++ List.replicate (8 - before.length - after.length) 0 ++ after)
      else none
    | _, _ => none
  | none => (groups (text.splitOn ':')).filter (·.length = 8)

/-- An address in its standard notation. -/
def parse (text : List Char) : Option Address :=
  match dotted text with
  | some number => some (.v4 number)
  | none => (ipv6 text).map .v6

/-- `127.0.0.0/8`, `10.0.0.0/8`, `172.16.0.0/12`, `192.168.0.0/16`, `169.254.0.0/16`, `0.0.0.0` -/
def Private4 (number : Nat) : Prop :=
  number / 2 ^ 24 = 127 ∨ number / 2 ^ 24 = 10 ∨ number / 2 ^ 20 = 172 * 16 + 1 ∨
    number / 2 ^ 16 = 192 * 256 + 168 ∨ number / 2 ^ 16 = 169 * 256 + 254 ∨ number = 0

instance (number : Nat) : Decidable (Private4 number) := inferInstanceAs (Decidable (_ ∨ _))

def Loopback6 (groups : List Nat) : Prop := groups = [0, 0, 0, 0, 0, 0, 0, 1]

def Unspecified6 (groups : List Nat) : Prop := groups = [0, 0, 0, 0, 0, 0, 0, 0]

/-- `fc00::/7` -/
def UniqueLocal6 (groups : List Nat) : Prop := groups.head?.any (· / 2 ^ 9 = 126) = true

/-- `fe80::/10` -/
def LinkLocal6 (groups : List Nat) : Prop := groups.head?.any (· / 2 ^ 6 = 1018) = true

/-- `::ffff:a.b.c.d` -/
def Mapped6 (number : Nat) (groups : List Nat) : Prop :=
  groups = [0, 0, 0, 0, 0, 65535, number / 2 ^ 16, number % 2 ^ 16]

def Private6 (groups : List Nat) : Prop :=
  Loopback6 groups ∨ Unspecified6 groups ∨ UniqueLocal6 groups ∨ LinkLocal6 groups ∨
    ∃ number, Private4 number ∧ Mapped6 number groups

end InternetAddress
