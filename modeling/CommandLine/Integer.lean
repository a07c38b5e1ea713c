/-! Whole numbers of a fixed width, and their decimal numerals.

A numeral is an optional sign and at least one ASCII digit. It is read from the
left: the first character that is no digit or takes the number out of range
decides what is wrong with it.
-/

set_option autoImplicit false

namespace CommandLine

structure IntegerKind where
  signed : Bool
  bits : Nat
  nonzero : Bool
  deriving DecidableEq

namespace IntegerKind

def values (bits : Nat) : Nat :=
  Nat.pow 2 bits

def minimum (kind : IntegerKind) : Int :=
  if kind.signed then -(values (kind.bits - 1) : Int) else 0

def maximum (kind : IntegerKind) : Int :=
  if kind.signed then values (kind.bits - 1) - 1 else values kind.bits - 1

inductive Fault where
  | malformed
  | tooLarge
  | tooSmall
  | zero
  deriving DecidableEq

namespace Fault

/-- Only a number out of range is told apart to the user. -/
def reason : Fault → Option String
  | malformed => none
  | tooLarge => some "too large"
  | tooSmall => some "too small"
  | zero => none

end Fault

def digit? (c : Char) : Option Nat :=
  if '0' ≤ c ∧ c ≤ '9' then some (c.toNat - '0'.toNat) else none

/-- Extends `number` by decimal digits, away from zero. -/
def extend (kind : IntegerKind) (negative : Bool) (number : Int) :
    List Char → Except Fault Int
  | [] => .ok number
  | c :: rest =>
    match digit? c with
    | none => .error .malformed
    | some digit =>
      let longer := if negative then number * 10 - digit else number * 10 + digit
      if kind.maximum < longer then .error .tooLarge
      else if longer < kind.minimum then .error .tooSmall
      else kind.extend negative longer rest

def readDigits (kind : IntegerKind) (negative : Bool) (digits : List Char) : Except Fault Int :=
  if digits.isEmpty then .error .malformed else kind.extend negative 0 digits

def readSigned (kind : IntegerKind) : List Char → Except Fault Int
  | '+' :: digits => kind.readDigits false digits
  | '-' :: digits => if kind.signed then kind.readDigits true digits else .error .malformed
  | digits => kind.readDigits false digits

def read (kind : IntegerKind) (token : String) : Except Fault Int :=
  match kind.readSigned token.toList with
  | .error fault => .error fault
  | .ok number => if kind.nonzero && number == 0 then .error .zero else .ok number

end IntegerKind

end CommandLine
