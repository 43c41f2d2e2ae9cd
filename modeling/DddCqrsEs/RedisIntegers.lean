import DddCqrsEs.Decimal
import DddCqrsEs.RedisServer
import Mathlib.Algebra.Group.Int.Defs

/- Strings of a Redis server that hold signed integers. Nothing here names an application. -/
namespace RedisServer

def Signed64 (number : Int) : Prop := -2 ^ 63 ≤ number ∧ number < 2 ^ 63

instance (number : Int) : Decidable (Signed64 number) := inferInstanceAs (Decidable (_ ∧ _))

/-- The server takes a text as an integer only in the form it writes itself: no plus, no
leading zeros, no blanks. -/
def strictInteger (text : String) : Option Int :=
  (Decimal.signed text.toList).filter fun number =>
    Signed64 number ∧ Decimal.write number = text.toList

/-- The text of an integer as the server writes it. -/
def writeInteger (number : Int) : String := String.ofList (Decimal.write number)

def notInteger : String := "ERR value is not an integer or out of range"

def incrby (key amount : String) : Script Int := do
  match strictInteger amount with
  | none => throw notInteger
  | some amount =>
    match strictInteger ((← get key).getD "0") with
    | none => throw notInteger
    | some current =>
      if Signed64 (current + amount) then
        set key (writeInteger (current + amount))
        return current + amount
      else throw "ERR increment or decrement would overflow"

/-- The object of a key that a number may have been written to. -/
def ofInteger (number : Option Int) : Option Object :=
  number.map fun number => .string (writeInteger number)

variable {db : KeySpace} {key : String}

theorem strictInteger_writeInteger {number : Int} (fits : Signed64 number) :
    strictInteger (writeInteger number) = some number := by
  rw [strictInteger, writeInteger, String.toList_ofList, Decimal.signed_write, Option.filter_some]
  simp [fits]

theorem get_ofInteger {number : Option Int} (held : db key = ofInteger number) :
    get key db = .ok (number.map writeInteger) db := by
  rw [get, held]
  cases number with
  | none => rfl
  | some number => rfl

/-- A key that was never written counts from zero. -/
theorem incrby_ofInteger {number : Option Int} {amount : Int} (held : db key = ofInteger number)
    (given : Signed64 amount) (start : Signed64 (number.getD 0))
    (sum : Signed64 (number.getD 0 + amount)) :
    incrby key (writeInteger amount) db = .ok (number.getD 0 + amount)
      (Function.update db key (ofInteger (some (number.getD 0 + amount)))) := by
  have read : strictInteger ((number.map writeInteger).getD "0") = some (number.getD 0) := by
    cases number with
    | none =>
      have zero : strictInteger (writeInteger 0) = some 0 := strictInteger_writeInteger start
      exact zero
    | some number => exact strictInteger_writeInteger start
  rw [incrby, strictInteger_writeInteger given]
  show EStateM.bind (get key) _ db = _
  rw [EStateM.bind, get_ofInteger held]
  dsimp only
  rw [read]
  dsimp only
  rw [if_pos sum]
  rfl

end RedisServer
