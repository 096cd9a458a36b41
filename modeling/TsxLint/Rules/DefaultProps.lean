/-
Module: TsxLint.Rules.DefaultProps
Purpose: Attributes that pass the value a component has anyway.
Main exports: DefaultProps.rule, DefaultProps.catalog, DefaultProps.removal
-/
import TsxLint.Rule.Basic
import TsxLint.Value.Equal

namespace TsxLint.DefaultProps

/-!
A catalog lists attributes with their default values; settings extend it.  An
attribute whose literal value is the catalogued one can go, and one run of white
space beside it goes with it, so that no gap is left: the run before it, or the
run behind it if it is the first of several.
-/

/-- The attributes with a default that is known without settings. -/
def builtin : Options :=
  [("asChild", .bool false), ("size", .str "default"), ("variant", .str "default")]

/-- The catalog under the given options. -/
def catalog (options : Options) : Outcome Options :=
  Options.overlaySetting builtin (Table.get? options "redundantDefaults")

/-- The literal that an attribute's value is, bare or between braces. -/
def literal? (value : Option Node) : Option Literal :=
  match value with
  | some (.literal l) => some l
  | some (.container c) =>
    match c.expression with
    | some (.literal l) => some l
    | _ => none
  | _ => none

/-- The text of a value as markup would write it. -/
def shown (v : Value) : String :=
  match v with
  | .bool b => if b then "true" else "false"
  | .null => "null"
  | v => v.display

/-! ### Removing an attribute -/

/-- Whether two literals are the same in every part. -/
def isSameLiteral (l m : Literal) : Bool :=
  l.span == m.span && Value.equal l.value m.value && l.raw == m.raw

/-- Whether two values of attributes are the same literal, written the same way. -/
def isSameValue (v w : Option Node) : Bool :=
  match v, w with
  | some (.literal l), some (.literal m) => isSameLiteral l m
  | some (.container c), some (.container d) =>
    c.span == d.span &&
      match c.expression, d.expression with
      | some (.literal l), some (.literal m) => isSameLiteral l m
      | _, _ => false
  | _, _ => false

/-- Whether a node is the given attribute, whose value is a literal. -/
def isSame (a : Attribute Node) (n : Node) : Bool :=
  match n with
  | .attr b =>
    a.span == b.span && a.name == b.name && a.nameSpan == b.nameSpan &&
      isSameValue a.value b.value
  | _ => false

/-- The range of an attribute with the white space before it, which begins at
`gap`, if there is nothing else. -/
def withGapBefore (source : SourceFile) (gap start stop : Int) : Outcome (Int × Int) := do
  let between ← source.document.slice gap start
  pure (if Text.isBlankRun between then (gap, stop) else (start, stop))

/-- The range of an attribute with the white space behind it, which ends at
`gap`, if there is nothing else. -/
def withGapBehind (source : SourceFile) (gap start stop : Int) : Outcome (Int × Int) := do
  let between ← source.document.slice stop gap
  pure (if Text.isBlankRun between then (start, gap) else (start, stop))

/-- The range that goes with the attribute at an index. -/
def removedRange (source : SourceFile) (e : Element Node) (index : Nat) (start stop : Int) :
    Outcome (Int × Int) :=
  match index with
  | i + 1 =>
    match e.attributes[i]? with
    | some before => withGapBefore source before.stop start stop
    | none => .ok (start, stop)
  | 0 =>
    match e.attributes[1]?, e.nameSpan with
    | some behind, _ => withGapBehind source behind.start start stop
    | none, some name => withGapBefore source name.stop start stop
    | none, none => .ok (start, stop)

/-- The edit that takes an attribute out of its element. -/
def removal (source : SourceFile) (e : Element Node) (a : Attribute Node) : Outcome Edit := do
  let index := (e.attributes.findIdx? (isSame a)).getD 0
  let (start, stop) ← removedRange source e index a.span.start a.span.stop
  Edit.between start stop ""

/-! ### The rule -/

/-- Reports an attribute of an element if its value is the catalogued one. -/
def checkAttribute (visit : Visit Unit) (e : Element Node) (a : Attribute Node) :
    Outcome (List Violation) := do
  let known ← catalog visit.options
  match Table.get? known a.name, literal? a.value with
  | some default, some l =>
    if Value.same l.value default then
      let text := shown l.value
      let edit ← removal visit.source e a
      pure [⟨.attr a,
        s!"Redundant prop '{a.name}=\x22{text}\x22' - this is the default value and can be omitted",
        [edit], [.str s!"Remove {a.name}, the component defaults to {text}"],
        [("prop", .str a.name), ("value", l.value)]⟩]
    else pure []
  | _, _ => pure []

/-- Attributes that are set to their default value. -/
def rule : Rule :=
  Rule.ofListener
    { id := "SIMPLIFICATION.REDUNDANT_DEFAULT_PROPS"
      name := "Redundant Default Props"
      category := "simplification"
      description :=
        "Detects props passed with the component's default value. " ++
          "Extend the catalog with the redundantDefaults parameter."
      parameters := [("redundantDefaults", .object [])]
      fixable := true }
    (.atNodes [.attr] fun visit n =>
      match visit.parent?, n with
      | some (.element e), .attr a => checkAttribute visit e a
      | _, _ => .ok [])

end TsxLint.DefaultProps
