/-
Module: TsxLint.Value.Options
Purpose: Rule options: overlaying them, and asking them for values.
Main exports: Options, Options.overlay, Options.need, Value.holds
-/
import TsxLint.Fault
import TsxLint.Text.Blank

namespace TsxLint

/-!
Options are a table of dynamic values.  What a settings file gives is laid over a
rule's own parameters: an object entry by entry, and a list as pairs of a key and
a value.  Anything else cannot be laid over a table.
-/

/-- The options of a rule. -/
abbrev Options := Table Value

namespace Value

/-- The key that a value stands for.  A key that is no text is spelt as a written
object spells it, and so is the same key as that text; lists and objects are no
keys. -/
def key : Value → Outcome String
  | .str s => .ok s
  | .null => .ok "null"
  | .bool b => .ok (if b then "true" else "false")
  | .int n => .ok (toString n)
  | .float x => .ok (x.render .object)
  | v => .error (.unhashable v.typeName)

/-- The items of a value: those of a list, the keys of an object, the characters
of a text. -/
def items? : Value → Option (List Value)
  | .list items => some items
  | .object members => some (members.map fun m => .str m.1)
  | .str s => some (s.toList.map fun c => .str (String.singleton c))
  | _ => none

/-- Whether a value holds a name: a text as a part, a list as an item, an object
as a key. -/
def holds (v : Value) (name : String) : Outcome Bool :=
  match v with
  | .str s => .ok (Text.contains s name)
  | .list items => .ok (items.any fun item => item == .str name)
  | .object members => .ok (Table.has members name)
  | v => .error (.notSearchable v.typeName)

end Value

namespace Options

/-- Lays the pairs of a list over a table, the first of them at `index`. -/
def overlayPairs (table : Options) (index : Nat) : List Value → Outcome Options
  | [] => .ok table
  | item :: rest =>
    match item.items? with
    | none => .error (.notPair index)
    | some [k, v] => do
      let key ← k.key
      overlayPairs (Table.put table key v) (index + 1) rest
    | some parts => .error (.pairLength index parts.length)

/-- Lays a value over a table. -/
def overlay (table : Options) (upper : Value) : Outcome Options :=
  match upper with
  | .object members => .ok (Table.merge table members)
  | v =>
    match v.items? with
    | some items => overlayPairs table 0 items
    | none => .error (.notIterable v.typeName)

/-- Lays an optional setting over a table; one that counts as false lays nothing. -/
def overlaySetting (table : Options) (setting : Option Value) : Outcome Options :=
  match setting with
  | none => .ok table
  | some v => if v.truthy then overlay table v else .ok table

/-- The value of an option that has to be there. -/
def need (options : Options) (name : String) : Outcome Value :=
  match Table.get? options name with
  | some v => .ok v
  | none => .error (.missingKey name)

end Options

end TsxLint
