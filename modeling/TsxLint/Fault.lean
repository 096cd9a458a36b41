/-
Module: TsxLint.Fault
Purpose: Everything that can go wrong, as causes with one wording each.
Main exports: Fault, Fault.message, Fault.kind
-/
import TsxLint.Value.Display
import TsxLint.Json.Reader
import TsxLint.Text.Utf8
import TsxLint.Log.TemplateError

namespace TsxLint

/-!
A fault is a cause with the data that explain it.  The wording lives in
`Fault.message` and the class under which reports list a fault in `Fault.kind`;
no other function writes either.
-/

/-- A cause of failure. -/
inductive Fault where
  /-- A value that is no member of a closed vocabulary, such as the severities. -/
  | unknownName (vocabulary : String) (given : Value)
  /-- An edit that begins before the text or ends before it begins. -/
  | invalidRange (start stop : Value)
  /-- Two edits that cannot be applied together. -/
  | overlappingEdits (start stop otherStart otherStop : Nat)
  /-- An edit that ends behind the text. -/
  | editOutside (start stop size : Nat)
  /-- Bytes that are not UTF-8. -/
  | malformedText (error : Text.Utf8Error)
  /-- A text that is not JSON. -/
  | malformedJson (error : JsonError)
  /-- A settings file whose outermost value is no object. -/
  | rootNotObject
  /-- A limit on fix passes that is no positive integer. -/
  | passLimit (given : Value)
  | unsupportedLanguage (name : String)
  | missingKey (key : String)
  /-- A value without the member that is asked of it. -/
  | noMember (typeName member : String)
  /-- A text extended by something that is no text. -/
  | notJoinable (typeName : String)
  /-- A search in something that holds nothing. -/
  | notSearchable (typeName : String)
  /-- A walk over something that has no items. -/
  | notIterable (typeName : String)
  /-- A table extended by an item that is no pair: it has no items at all … -/
  | notPair (index : Nat)
  /-- … or not two of them. -/
  | pairLength (index length : Nat)
  /-- A list or an object used as a key. -/
  | unhashable (typeName : String)
  /-- A part taken out of something that has no parts. -/
  | notIndexable (typeName : String)
  /-- Two values that have no order. -/
  | notComparable (sign left right : String)
  | indexOutOfRange
  /-- A directory where a file is to be read. -/
  | isDirectory (path : String)
  /-- A template that cannot be filled. -/
  | unfilled (error : TemplateError)
  /-- A place for log entries that cannot be opened. -/
  | handlerUnavailable (name : String)
  /-- A failure that a scripted rule was told to raise. -/
  | scripted (kind text : String)
deriving Repr, Inhabited, BEq

namespace Fault

/-- The class under which a fault is reported. -/
def kind : Fault → String
  | .unknownName .. | .invalidRange .. | .rootNotObject | .passLimit .. | .unsupportedLanguage ..
  | .pairLength .. | .handlerUnavailable .. => "ValueError"
  | .overlappingEdits .. | .editOutside .. => "EditConflictError"
  | .malformedText .. => "UnicodeDecodeError"
  | .malformedJson (.malformed ..) => "JSONDecodeError"
  | .malformedJson (.longInteger ..) => "ValueError"
  | .missingKey .. => "KeyError"
  | .noMember .. => "AttributeError"
  | .notJoinable .. | .notSearchable .. | .notIterable .. | .notPair .. | .unhashable ..
  | .notIndexable .. | .notComparable .. => "TypeError"
  | .unfilled error => error.kind
  | .indexOutOfRange => "IndexError"
  | .isDirectory .. => "IsADirectoryError"
  | .scripted kind _ => kind

/-- The wording of a fault. -/
def message : Fault → String
  | .unknownName vocabulary given => s!"{given.quoted} is not a valid {vocabulary}"
  | .invalidRange start stop => s!"Invalid edit range [{start.display}, {stop.display})"
  | .overlappingEdits start stop otherStart otherStop =>
    s!"Edits [{start}, {stop}) and [{otherStart}, {otherStop}) overlap"
  | .editOutside start stop size => s!"Edit [{start}, {stop}) is outside a {size}-byte document"
  | .malformedText error => error.message
  | .malformedJson error => error.message
  | .rootNotObject => "Configuration root must be a JSON object"
  | .passLimit given => s!"maxFixPasses must be a positive integer, got {given.quoted}"
  | .unsupportedLanguage name => s!"Unsupported language: {name}"
  | .missingKey key => Text.quote key
  | .noMember typeName member => s!"'{typeName}' object has no attribute '{member}'"
  | .notJoinable typeName => "can only concatenate str (not \x22" ++ typeName ++ "\x22) to str"
  | .notSearchable typeName => s!"argument of type '{typeName}' is not iterable"
  | .notIterable typeName => s!"'{typeName}' object is not iterable"
  | .notPair index => s!"cannot convert dictionary update sequence element #{index} to a sequence"
  | .pairLength index length =>
    s!"dictionary update sequence element #{index} has length {length}; 2 is required"
  | .unhashable typeName => s!"unhashable type: '{typeName}'"
  | .notIndexable typeName => s!"'{typeName}' object is not subscriptable"
  | .notComparable sign left right =>
    s!"'{sign}' not supported between instances of '{left}' and '{right}'"
  | .indexOutOfRange => "list index out of range"
  | .isDirectory path => s!"[Errno 21] Is a directory: {Text.quote path}"
  | .unfilled error => error.message
  | .handlerUnavailable name => s!"Unable to configure handler {Text.quote name}"
  | .scripted kind text => if kind = "KeyError" then Text.quote text else text

end Fault

/-- A computation that may end in a fault. -/
abbrev Outcome (α : Type) := Except Fault α

end TsxLint
