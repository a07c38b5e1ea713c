import CommandLine.Error
import CommandLine.Text.CaseFold

/-! Ready-made mappings of a value. -/

set_option autoImplicit false

namespace CommandLine.Stock

inductive Mapping where
  | identity
  | upper
  /-- The size in bytes of the value as it is shown. -/
  | byteSize
  | constant (value : Value)
  | known (argument : String) (members : List Value)
  | positive (argument : String)
  | failing (cause : ArgumentError)

def sizeKind : IntegerKind :=
  ⟨true, 32, false⟩

namespace Mapping

def apply : Mapping → Value → Except ArgumentError Value
  | .identity, value => .ok value
  | .upper, .text content => .ok (.text (Text.upper content))
  | .upper, value => .ok value
  | .byteSize, value => .ok (.integer sizeKind value.shown.utf8ByteSize)
  | .constant value, _ => .ok value
  | .known argument members, value =>
    if value ∈ members then .ok value
    else .error (.invalid argument value.shown (some "unknown"))
  | .positive argument, value =>
    if 0 < value.number?.getD 0 then .ok value
    else .error (.rejected argument value.shown "must be positive" value)
  | .failing cause, _ => .error cause

end Mapping

end CommandLine.Stock
