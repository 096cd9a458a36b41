/-
Module: TsxLint.Log.TemplateError
Purpose: What can be wrong with a template and its arguments.
Main exports: TemplateError, TemplateError.message
-/
import TsxLint.Text.Quoted

namespace TsxLint

/-- What can be wrong with a template and its arguments. -/
inductive TemplateError where
  /-- A place that does not end. -/
  | unfinished
  /-- A name in a place that does not end. -/
  | unfinishedName
  /-- A place that ends with a letter of no meaning. -/
  | unknownConversion (conversion : Char) (index : Nat)
  | tooFewArguments
  | tooManyArguments
  /-- A name in a place, and no named arguments. -/
  | noNamedArguments
  /-- An argument that has to be a number. -/
  | notNumber (conversion : Char) (typeName : String)
  /-- An argument that has to be an integer, and is a NaN. -/
  | notInteger
  /-- An argument that is too large for its place. -/
  | tooLarge
  /-- A width or a precision that is too large. -/
  | sizeTooLarge (size : String)
deriving DecidableEq, Repr

namespace TemplateError

/-- The class under which an error is reported. -/
def kind : TemplateError → String
  | .unfinished | .unfinishedName | .unknownConversion .. | .notInteger
  | .sizeTooLarge _ => "ValueError"
  | .tooLarge => "OverflowError"
  | .tooFewArguments | .tooManyArguments | .noNamedArguments | .notNumber .. => "TypeError"

/-- A character that complaints can show. -/
def shown (c : Char) : Char := if 31 ≤ c.toNat ∧ c.toNat < 126 then c else '?'

/-- The wording of an error. -/
def message : TemplateError → String
  | .unfinished => "incomplete format"
  | .unfinishedName => "incomplete format key"
  | .unknownConversion c index =>
    let code := String.ofList (Text.hexDigits 1 c.toNat)
    s!"unsupported format character '{shown c}' (0x{code}) at index {index}"
  | .tooFewArguments => "not enough arguments for format string"
  | .tooManyArguments => "not all arguments converted during string formatting"
  | .noNamedArguments => "format requires a mapping"
  | .notNumber c typeName => s!"%{c} format: a real number is required, not {typeName}"
  | .notInteger => "cannot convert float NaN to integer"
  | .tooLarge => "number too large"
  | .sizeTooLarge size => s!"{size} too big"

end TemplateError

end TsxLint
