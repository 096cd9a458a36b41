/-
Module: TsxLint.Proofs.Rules.PropMaps
Purpose: When an attribute with its default value can go, and what its element is given then.
Main exports: DefaultProps.IsReport, DefaultProps.exists_isReport, DefaultProps.Props,
  DefaultProps.Contributes, DefaultProps.lastSetter?, DefaultProps.redundant_iff
-/
import TsxLint.Proofs.Rules.SingleEdits
import TsxLint.Proofs.Source.Origins

namespace TsxLint.DefaultProps

/-!
The component of an element is given a map of props.  It is read off the attributes from left to
right: an attribute sets one prop, a spread sets any props to anything, and what comes later
overrides what came before.  In the end a prop that is missing has its catalogued value.

The rule compares the value of one attribute with the catalog and looks at no other attribute.  But
an attribute that sets a prop to its default may override something else, which comes to light when
it goes.  So it can go for all values of spreads and expressions exactly if a later attribute sets
the prop again, or what sets it last before the attribute is no spread and sets it to the same
value.
-/

variable {text : String} {root : Tree} {source : SourceFile} {options : Options}
  {vs : List Violation} {v : Violation}

/-! ### What is reported -/

/-- A violation is about an attribute of an element: its literal is the catalogued value, and the
edit takes it out. -/
structure IsReport (source : SourceFile) (options : Options) (v : Violation) (e : Element Node)
    (a : Attribute Node) (known : Options) (l : Literal) : Prop where
  node_eq : v.node = .attr a
  element_mem : .element e ∈ source.root.preorder
  attr_mem : .attr a ∈ e.attributes
  known_eq : catalog options = .ok known
  literal_eq : literal? a.value = some l
  exists_default : ∃ default, Table.get? known a.name = some default ∧
    Value.same l.value default = true
  exists_edit : ∃ edit, removal source e a = .ok edit ∧ v.edits = [edit]

/-- The attributes of an element are attributes and spreads, and there are none in its contents. -/
theorem kinds_of_element (hs : source.Parsed text root) {e : Element Node}
    (he : .element e ∈ source.root.preorder) :
    (∀ n ∈ e.attributes, n.kind ∈ [NodeKind.attr, .spread]) ∧
      ∀ n ∈ e.body, n.kind ∉ [NodeKind.attr, .spread, .parameter] := by
  obtain ⟨tag, bodies, -, -, hattributes, hbody⟩ := hs.exists_tag he
  constructor
  · intro n hn
    obtain ⟨u, -, hfrom⟩ := Outcome.exists_left_of_mem hattributes hn
    cases hfrom <;> simp [Node.kind]
  · intro n hn
    obtain ⟨u, -, hfrom⟩ := Outcome.exists_left_of_mem hbody hn
    exact hfrom.kind_not_mem

/-- Every violation of this rule is about an attribute of an element of the file. -/
theorem exists_isReport (hs : source.Parsed text root) (h : rule.visit source options = .ok vs)
    (hv : v ∈ vs) : ∃ e a known l, IsReport source options v e a known l := by
  obtain ⟨way, n, found, hvisit, hreport, hv⟩ := Listener.exists_of_mem_run_atNodes h hv
  split at hreport
  · next e a hparent =>
    obtain ⟨p, hp, hway, hchild⟩ : ∃ p ∈ source.root.preorder, way.head? = some p ∧
        .attr a ∈ p.children := by
      rcases Node.parent_of_mem_visits hvisit with ⟨rfl, -⟩ | hparent
      · cases hparent
      · exact hparent
    cases hparent.symm.trans hway
    have ha : .attr a ∈ e.attributes := by
      rcases List.mem_append.1 hchild with ha | hbody
      · exact ha
      · exact absurd (by simp [Node.kind]) ((kinds_of_element hs hp).2 _ hbody)
    obtain ⟨known, hknown, hreport⟩ := Outcome.exists_of_bind_eq_ok hreport
    cases hdefault : Table.get? known a.name with
    | none =>
      simp only [hdefault] at hreport
      cases hreport
      cases hv
    | some default =>
      cases hliteral : literal? a.value with
      | none =>
        simp only [hdefault, hliteral] at hreport
        cases hreport
        cases hv
      | some l =>
        simp only [hdefault, hliteral] at hreport
        by_cases hsame : Value.same l.value default = true
        · rw [if_pos hsame] at hreport
          obtain ⟨edit, hedit, hreport⟩ := Outcome.exists_of_bind_eq_ok hreport
          cases hreport
          cases List.mem_singleton.1 hv
          exact ⟨e, a, known, l, rfl, hp, ha, hknown, hliteral, ⟨default, hdefault, hsame⟩,
            edit, hedit, rfl⟩
        · rw [if_neg hsame] at hreport
          cases hreport
          cases hv
  · cases hreport
    cases hv

/-! ### Maps of props -/

/-- What a prop is set to: a value that is known, or something that is computed. -/
inductive Setting (κ : Type) where
  | known (v : Value)
  | computed (k : κ)

variable {κ : Type}

/-- Two settings are the same, values as the rule compares them with defaults. -/
inductive Setting.Alike : Setting κ → Setting κ → Prop
  | refl (s : Setting κ) : Alike s s
  | same {v w : Value} (h : Value.same v w = true) : Alike (.known v) (.known w)

theorem Setting.alike_known_iff {v w : Value} :
    Setting.Alike (.known v : Setting κ) (.known w) ↔ v = w ∨ Value.same v w = true := by
  constructor
  · intro h
    cases h with
    | refl => exact .inl rfl
    | same h => exact .inr h
  · rintro (rfl | h)
    · exact .refl _
    · exact .same h

/-- No value is like all others. -/
theorem Setting.exists_not_alike (v : Value) :
    ∃ w, ¬ Setting.Alike (.known v : Setting κ) (.known w) := by
  cases v with
  | null => exact ⟨.bool true, by simp [alike_known_iff, Value.same]⟩
  | _ => exact ⟨.null, by simp [alike_known_iff, Value.same]⟩

/-- What the props of a component are set to. -/
abbrev Props (κ : Type) := String → Option (Setting κ)

namespace Props

def empty : Props κ := fun _ => none

def single (name : String) (s : Setting κ) : Props κ := fun other =>
  if other = name then some s else none

/-- Later settings override earlier ones. -/
def overlay (earlier later : Props κ) : Props κ := fun name => (later name).or (earlier name)

/-- What several maps come to, one after the other. -/
def evaluate (maps : List (Props κ)) : Props κ := maps.foldl overlay empty

/-- Props that are missing have their catalogued values. -/
def completed (known : Options) (p : Props κ) : Props κ := fun name =>
  (p name).or ((Table.get? known name).map .known)

/-- Two maps set the same props to the same. -/
def Agree (p q : Props κ) : Prop := ∀ name, Option.Rel Setting.Alike (p name) (q name)

theorem foldl_overlay (p : Props κ) (maps : List (Props κ)) (name : String) :
    maps.foldl overlay p name = (evaluate maps name).or (p name) := by
  induction maps generalizing p with
  | nil => rfl
  | cons m rest ih =>
    rw [evaluate, List.foldl_cons, List.foldl_cons, ih, ih (overlay empty m)]
    simp [overlay, empty, Option.or_assoc]

theorem evaluate_append (earlier later : List (Props κ)) (name : String) :
    evaluate (earlier ++ later) name = (evaluate later name).or (evaluate earlier name) := by
  rw [evaluate, List.foldl_append, foldl_overlay]
  rfl

theorem evaluate_cons (m : Props κ) (rest : List (Props κ)) (name : String) :
    evaluate (m :: rest) name = (evaluate rest name).or (m name) := by
  rw [← List.singleton_append, evaluate_append]
  simp [evaluate, overlay, empty]

theorem evaluate_eq_none {maps : List (Props κ)} {name : String}
    (h : ∀ p ∈ maps, p name = none) : evaluate maps name = none := by
  induction maps with
  | nil => rfl
  | cons m rest ih =>
    rw [evaluate_cons, h m List.mem_cons_self, ih fun p hp => h p (List.mem_cons_of_mem m hp)]
    rfl

@[simp] theorem single_self (name : String) (s : Setting κ) : single name s name = some s :=
  if_pos rfl

theorem single_of_ne {name other : String} (s : Setting κ) (h : other ≠ name) :
    single name s other = none :=
  if_neg h

theorem rel_refl (o : Option (Setting κ)) : Option.Rel Setting.Alike o o := by
  cases o with
  | none => exact .none
  | some s => exact .some (.refl s)

end Props

/-! ### What attributes set -/

/-- The value that an attribute is known to pass: its literal, or true if it has no value. -/
def passed? (a : Attribute Node) : Option Value :=
  match a.value with
  | none => some (.bool true)
  | value => (literal? value).map (·.value)

theorem passed?_of_literal? {a : Attribute Node} {l : Literal} (h : literal? a.value = some l) :
    passed? a = some l.value := by
  rw [passed?]
  cases hvalue : a.value with
  | none => simp [hvalue, literal?] at h
  | some value => simp [← hvalue, h]

/-- What an attribute sets: a known value, anything that an expression may yield, or, by a spread,
any props. -/
inductive Contributes : Node → Props κ → Prop
  | passed {a : Attribute Node} {v : Value} (h : passed? a = some v) :
      Contributes (.attr a) (.single a.name (.known v))
  | computed {a : Attribute Node} (h : passed? a = none) (s : Setting κ) :
      Contributes (.attr a) (.single a.name s)
  | spread (s : Spread Node) (p : Props κ) : Contributes (.spread s) p

/-- Whether a node of a tag may set a prop. -/
def maySet (name : String) : Node → Bool
  | .attr a => a.name == name
  | .spread _ => true
  | _ => false

/-- The last of several nodes that may set a prop. -/
def lastSetter? (name : String) (nodes : List Node) : Option Node :=
  nodes.reverse.find? (maySet name)

theorem lastSetter?_cons (name : String) (n : Node) (rest : List Node) :
    lastSetter? name (n :: rest) =
      (lastSetter? name rest).or (if maySet name n then some n else none) := by
  rw [lastSetter?, List.reverse_cons, List.find?_append]
  by_cases h : maySet name n = true <;> simp [lastSetter?, h]

theorem maySet_attr_eq_false_iff {name : String} {a : Attribute Node} :
    maySet name (.attr a) = false ↔ name ≠ a.name := by
  rw [maySet, beq_eq_false_iff_ne, ne_comm]

theorem maySet_of_lastSetter? {name : String} {n : Node} {nodes : List Node}
    (h : lastSetter? name nodes = some n) : maySet name n = true := by
  rw [lastSetter?] at h
  exact List.find?_some h

theorem Contributes.eq_none {n : Node} {p : Props κ} (h : Contributes n p) {name : String}
    (hname : maySet name n = false) : p name = none := by
  cases h with
  | passed h => exact Props.single_of_ne _ (maySet_attr_eq_false_iff.1 hname)
  | computed h s => exact Props.single_of_ne _ (maySet_attr_eq_false_iff.1 hname)
  | spread s p => cases hname

section LastSetter

variable {R : Node → Props κ → Prop} {name : String} {nodes : List Node} {maps : List (Props κ)}

/-- A prop that nothing may set is not set. -/
theorem evaluate_eq_none_of_lastSetter? (hR : ∀ m p, R m p → maySet name m = false → p name = none)
    (hmaps : List.Forall₂ R nodes maps) (h : lastSetter? name nodes = none) :
    Props.evaluate maps name = none := by
  apply Props.evaluate_eq_none
  intro p hp
  obtain ⟨n, hn, hnp⟩ := Outcome.exists_left_of_mem hmaps hp
  exact hR n p hnp (eq_false_of_ne_true (List.find?_eq_none.1 h n (List.mem_reverse.2 hn)))

/-- A prop is set to what the last node that may set it says, provided that it says something. -/
theorem evaluate_eq_some_of_lastSetter? (hR : ∀ m p, R m p → maySet name m = false → p name = none)
    (hmaps : List.Forall₂ R nodes maps) {n : Node} (h : lastSetter? name nodes = some n)
    {s : Setting κ} (hn : ∀ p, R n p → p name = some s) : Props.evaluate maps name = some s := by
  induction hmaps with
  | nil => cases h
  | @cons m p nodes maps hm hrest ih =>
    rw [lastSetter?_cons] at h
    rw [Props.evaluate_cons]
    cases hlater : lastSetter? name nodes with
    | some other =>
      rw [hlater] at h
      rw [ih (hlater.trans h)]
      rfl
    | none =>
      rw [hlater, Option.none_or] at h
      obtain ⟨-, heq⟩ := Option.ite_none_right_eq_some.1 h
      cases heq
      rw [evaluate_eq_none_of_lastSetter? hR hrest hlater, hn p hm]
      rfl

end LastSetter

/-- A prop that an attribute sets is set, whatever the others do. -/
theorem evaluate_ne_none {nodes : List Node} {maps : List (Props κ)}
    (hmaps : List.Forall₂ Contributes nodes maps) {b : Attribute Node} (hb : .attr b ∈ nodes) :
    Props.evaluate maps b.name ≠ none := by
  induction hmaps with
  | nil => cases hb
  | cons hn _ ih =>
    rw [Props.evaluate_cons, Ne, Option.or_eq_none_iff, not_and_or]
    rcases List.mem_cons.1 hb with rfl | hb
    · right
      cases hn <;> simp
    · exact .inl (ih hb)

/-! ### Attributes that can go -/

/-- Without an attribute an element is given the same props, whatever the spreads and expressions
around it yield. -/
def IsRedundant (κ : Type) (known : Options) (before : List Node) (a : Attribute Node)
    (behind : List Node) : Prop :=
  ∀ (earlier later : List (Props κ)) (own : Props κ), List.Forall₂ Contributes before earlier →
    Contributes (.attr a) own → List.Forall₂ Contributes behind later →
    Props.Agree (Props.completed known (Props.evaluate (earlier ++ own :: later)))
      (Props.completed known (Props.evaluate (earlier ++ later)))

/-- What may set a prop last, if anything, is an attribute that is known to pass the same value. -/
def Passes (v : Value) : Option Node → Prop
  | none => True
  | some (.attr b) => ∃ w, passed? b = some w ∧ (v = w ∨ Value.same v w = true)
  | some _ => False

theorem evaluate_around (earlier later : List (Props κ)) (own : Props κ) (name : String) :
    Props.evaluate (earlier ++ own :: later) name =
      ((Props.evaluate later name).or (own name)).or (Props.evaluate earlier name) := by
  rw [Props.evaluate_append, Props.evaluate_cons]

section Redundancy

variable {known : Options} {a : Attribute Node} {u default : Value} {before behind : List Node}

/-- A later attribute of the same name makes an attribute redundant. -/
theorem isRedundant_of_mem_behind {b : Attribute Node} (hb : .attr b ∈ behind)
    (hname : b.name = a.name) : IsRedundant κ known before a behind := by
  intro earlier later own _ hown hlater name
  have heq : Props.evaluate (earlier ++ own :: later) name =
      Props.evaluate (earlier ++ later) name := by
    rw [evaluate_around, Props.evaluate_append]
    by_cases h : name = a.name
    · obtain ⟨s, hs⟩ := Option.ne_none_iff_exists'.1 (evaluate_ne_none hlater hb)
      rw [h, ← hname, hs]
      rfl
    · rw [hown.eq_none (maySet_attr_eq_false_iff.2 h), Option.or_none]
  rw [Props.completed, Props.completed, heq]
  exact Props.rel_refl _

/-- An attribute is redundant if its prop has the same value without it: the catalogued one, or that
of the attribute before it that sets the prop last. -/
theorem isRedundant_of_passes (ha : passed? a = some u)
    (hdefault : Table.get? known a.name = some default) (hsame : Value.same u default = true)
    (h : Passes u (lastSetter? a.name before)) : IsRedundant κ known before a behind := by
  intro earlier later own hearlier hown hlater name
  rw [Props.completed, Props.completed, evaluate_around, Props.evaluate_append]
  by_cases hname : name = a.name
  · subst hname
    cases Props.evaluate later a.name with
    | some s => exact .some (.refl s)
    | none =>
      obtain rfl : own = .single a.name (.known u) := by
        cases hown with
        | passed hv => rw [Option.some.inj (hv.symm.trans ha)]
        | computed hnone s => simp [ha] at hnone
      cases hlast : lastSetter? a.name before with
      | none =>
        rw [evaluate_eq_none_of_lastSetter? (fun _ _ h => h.eq_none) hearlier hlast, hdefault]
        simpa using Option.Rel.some (Setting.Alike.same hsame)
      | some n =>
        rw [hlast] at h
        cases n with
        | attr b =>
          obtain ⟨w, hw, halike⟩ := h
          have hb : b.name = a.name := by simpa [maySet] using maySet_of_lastSetter? hlast
          have hset : Props.evaluate earlier a.name = some (.known w) := by
            refine evaluate_eq_some_of_lastSetter? (fun _ _ h => h.eq_none) hearlier hlast
              fun p hp => ?_
            rw [← hb]
            cases hp with
            | passed hv => rw [Option.some.inj (hv.symm.trans hw), Props.single_self]
            | computed hnone s => simp [hw] at hnone
          rw [hset]
          simpa using Option.Rel.some (Setting.alike_known_iff.2 halike)
        | _ => exact h.elim
  · rw [hown.eq_none (maySet_attr_eq_false_iff.2 hname), Option.or_none]
    exact Props.rel_refl _

/-- Something that a node of a tag may set, with a choice of what a spread sets and of what an
expression yields. -/
def contribution (spread : Props κ) (v : Value) : Node → Props κ
  | .attr b => .single b.name (.known ((passed? b).getD v))
  | _ => spread

theorem contributes_contribution (spread : Props κ) (v : Value) {n : Node}
    (h : n.kind ∈ [NodeKind.attr, .spread]) : Contributes n (contribution spread v n) := by
  cases n with
  | attr b =>
    rw [contribution]
    cases hb : passed? b with
    | none => exact .computed hb _
    | some w => exact .passed hb
  | spread s => exact .spread s _
  | _ => simp [Node.kind] at h

theorem forall₂_contribution (spread : Props κ) (v : Value) {nodes : List Node}
    (h : ∀ n ∈ nodes, n.kind ∈ [NodeKind.attr, .spread]) :
    List.Forall₂ (fun n p => Contributes n p ∧ p = contribution spread v n) nodes
      (nodes.map (contribution spread v)) :=
  List.forall₂_map_right_iff.2
    (List.forall₂_same.2 fun n hn => ⟨contributes_contribution spread v (h n hn), rfl⟩)

/-- If nothing behind an attribute is sure to set its prop, what may set it last before the
attribute comes to light without it. -/
theorem passes_of_isRedundant (hbefore : ∀ n ∈ before, n.kind ∈ [NodeKind.attr, .spread])
    (hbehind : ∀ n ∈ behind, n.kind ∈ [NodeKind.attr, .spread]) (ha : passed? a = some u)
    (hnone : ∀ b, .attr b ∈ behind → b.name ≠ a.name)
    (h : IsRedundant κ known before a behind) : Passes u (lastSetter? a.name before) := by
  -- spreads in front set the prop to another value, and spreads behind set nothing
  obtain ⟨w, hw⟩ := Setting.exists_not_alike (κ := κ) u
  let inFront : Node → Props κ := contribution (.single a.name (.known w)) w
  have hearlier := forall₂_contribution (.single a.name (.known w) : Props κ) w hbefore
  have hunset : Props.evaluate (behind.map (contribution (Props.empty : Props κ) w)) a.name =
      none := by
    apply Props.evaluate_eq_none
    intro p hp
    obtain ⟨n, hn, rfl⟩ := List.mem_map.1 hp
    cases n with
    | attr b => exact Props.single_of_ne _ (Ne.symm (hnone b hn))
    | _ => rfl
  have hagree := h _ _ _ (hearlier.imp fun _ _ hp => hp.1) (.passed ha)
    ((forall₂_contribution Props.empty w hbehind).imp fun _ _ hp => hp.1) a.name
  rw [Props.completed, Props.completed, evaluate_around, Props.evaluate_append, hunset] at hagree
  cases hlast : lastSetter? a.name before with
  | none => trivial
  | some n =>
    have halike : ∀ {x : Value}, inFront n a.name = some (.known x) →
        Setting.Alike (.known u : Setting κ) (.known x) := by
      intro x hx
      have hset : Props.evaluate (before.map inFront) a.name = some (.known x) := by
        refine evaluate_eq_some_of_lastSetter? (fun m p hp => hp.1.eq_none) hearlier hlast ?_
        rintro p ⟨-, rfl⟩
        exact hx
      rw [hset] at hagree
      simpa using hagree
    have hmay := maySet_of_lastSetter? hlast
    cases n with
    | attr b =>
      have hb : b.name = a.name := by simpa [maySet] using hmay
      have hb' := halike (x := (passed? b).getD w) (by simp [inFront, contribution, hb])
      cases hpassed : passed? b with
      | none =>
        rw [hpassed] at hb'
        exact absurd hb' hw
      | some x =>
        rw [hpassed] at hb'
        exact ⟨x, hpassed, Setting.alike_known_iff.1 hb'⟩
    | spread s => exact absurd (halike (by simp [inFront, contribution])) hw
    | _ => cases hmay

end Redundancy

/-- Every violation of this rule is about an attribute that passes the catalogued value.  It is
redundant, whatever the spreads and expressions of its element yield, exactly if a later attribute
has the same name, or what may set its prop last before it is no spread and passes the same
value. -/
theorem redundant_iff (κ : Type) (hs : source.Parsed text root)
    (h : rule.visit source options = .ok vs) (hv : v ∈ vs) :
    ∃ e a known l, IsReport source options v e a known l ∧
      ∀ before behind, e.attributes = before ++ .attr a :: behind →
        (IsRedundant κ known before a behind ↔
          (∃ b, .attr b ∈ behind ∧ b.name = a.name) ∨
            Passes l.value (lastSetter? a.name before)) := by
  obtain ⟨e, a, known, l, hreport⟩ := exists_isReport hs h hv
  refine ⟨e, a, known, l, hreport, fun before behind heq => ?_⟩
  obtain ⟨default, hdefault, hsame⟩ := hreport.exists_default
  have ha := passed?_of_literal? hreport.literal_eq
  have hkinds := (kinds_of_element hs hreport.element_mem).1
  rw [heq] at hkinds
  constructor
  · intro hredundant
    by_cases hname : ∃ b, .attr b ∈ behind ∧ b.name = a.name
    · exact .inl hname
    · right
      refine passes_of_isRedundant (fun n hn => hkinds n (List.mem_append_left _ hn))
        (fun n hn => hkinds n (List.mem_append_right _ (List.mem_cons_of_mem _ hn))) ha
        (fun b hb hb' => hname ⟨b, hb, hb'⟩) hredundant
  · rintro (⟨b, hb, hname⟩ | hpasses)
    · exact isRedundant_of_mem_behind hb hname
    · exact isRedundant_of_passes ha hdefault hsame hpasses

/-! ### A spread in front of an attribute -/

/-- An element with something in front of an attribute. -/
def sizedText (front : String) : String := "<a " ++ front ++ "size=\"default\" />"

/-- The tree of that text, given where the attribute begins. -/
def sizedTree (front : List Tree) (n : Nat) : Tree :=
  .node "program" true "" 0 (n + 17)
    [.node "expression_statement" true "" 0 (n + 17)
      [.node "jsx_self_closing_element" true "" 0 (n + 17)
        (.node "identifier" true "name" 1 2 [] :: front ++
          [.node "jsx_attribute" true "" n (n + 14)
            [.node "property_identifier" true "" n (n + 4) [],
              .node "string" true "" (n + 5) (n + 14) []]])]]

/-- A spread at the beginning of a tag. -/
def spreadTree : Tree :=
  .node "jsx_expression" true "" 3 9
    [.node "spread_element" true "" 4 8 [.node "identifier" true "" 7 8 []]]

/-- The kinds of the attributes of each element of a file. -/
def attributeKinds (source : SourceFile) : List (List NodeKind) :=
  source.root.preorder.filterMap fun n =>
    match n with
    | .element e => some (e.attributes.map Node.kind)
    | _ => none

theorem kinds_eq_of_attributeKinds {kinds : List NodeKind} (h : attributeKinds source = [kinds])
    {e : Element Node} (he : .element e ∈ source.root.preorder) :
    e.attributes.map Node.kind = kinds := by
  refine List.mem_singleton.1 (h ▸ ?_)
  exact List.mem_filterMap.2 ⟨.element e, he, rfl⟩

/-- Without a spread an attribute with its default value can go. -/
theorem redundant_alone :
    ∃ source v e a known, SourceFile.ofTree default .tsx (sizedText "") ⟨sizedTree [] 3, false⟩ =
        .ok source ∧ rule.visitPlain source = .ok [v] ∧ v.node = .attr a ∧
      .element e ∈ source.root.preorder ∧ e.attributes = [.attr a] ∧
      IsRedundant Unit known [] a [] := by
  have hreported : rule.reported .tsx (sizedText "") (sizedTree [] 3)
      (fun source _ => attributeKinds source) = some [[[.attr]]] := by
    decide +kernel
  obtain ⟨source, v, hsource, hvisit, hkinds⟩ := Rule.exists_of_reported hreported
  obtain ⟨e, a, known, l, hreport, hiff⟩ :=
    redundant_iff Unit (SourceFile.parsed_of_ofTree hsource) hvisit List.mem_cons_self
  obtain ⟨n, hn, -⟩ :=
    List.map_eq_singleton_iff.1 (kinds_eq_of_attributeKinds hkinds hreport.element_mem)
  have hattributes : e.attributes = [.attr a] := by
    have hmem := hreport.attr_mem
    rw [hn] at hmem
    rw [hn, List.mem_singleton.1 hmem]
  exact ⟨source, v, e, a, known, hsource, hvisit, hreport.node_eq, hreport.element_mem, hattributes,
    (hiff [] [] hattributes).2 (.inr trivial)⟩

/-- A spread in front of an attribute may set its prop to another value, and this comes to light
when the attribute goes. -/
theorem not_redundant_behind_spread :
    ∃ source v e s a known, (sizedTree [spreadTree] 10).WellFormed (sizedText "\x7b...b\x7d ") ∧
      SourceFile.ofTree default .tsx (sizedText "\x7b...b\x7d ")
        ⟨sizedTree [spreadTree] 10, false⟩ = .ok source ∧
      rule.visitPlain source = .ok [v] ∧ v.node = .attr a ∧ v.fixable = true ∧
      .element e ∈ source.root.preorder ∧ e.attributes = [.spread s, .attr a] ∧
      catalog rule.parameters = .ok known ∧ ¬ IsRedundant Unit known [.spread s] a [] := by
  have hwell : (sizedTree [spreadTree] 10).WellFormed (sizedText "\x7b...b\x7d ") := by
    decide
  have hreported : rule.reported .tsx (sizedText "\x7b...b\x7d ") (sizedTree [spreadTree] 10)
      (fun source _ => attributeKinds source) = some [[[.spread, .attr]]] := by
    decide +kernel
  obtain ⟨source, v, hsource, hvisit, hkinds⟩ := Rule.exists_of_reported hreported
  obtain ⟨e, a, known, l, hreport⟩ :=
    exists_isReport (SourceFile.parsed_of_ofTree hsource) hvisit List.mem_cons_self
  obtain ⟨s, hattributes⟩ : ∃ s, e.attributes = [.spread s, .attr a] := by
    have hmem := hreport.attr_mem
    obtain ⟨n, rest, hlist, hn, hrest⟩ :=
      List.map_eq_cons_iff.1 (kinds_eq_of_attributeKinds hkinds hreport.element_mem)
    obtain ⟨m, rfl, -⟩ := List.map_eq_singleton_iff.1 hrest
    rw [hlist] at hmem
    cases n with
    | spread s => exact ⟨s, by simpa [hlist, eq_comm] using hmem⟩
    | _ => simp [Node.kind] at hn
  obtain ⟨edit, -, hedits⟩ := hreport.exists_edit
  refine ⟨source, v, e, s, a, known, hwell, hsource, hvisit, hreport.node_eq, ?_,
    hreport.element_mem, hattributes, hreport.known_eq, fun hredundant => ?_⟩
  · rw [Violation.fixable, hedits]
    rfl
  · exact passes_of_isRedundant (by simp [Node.kind]) (by simp)
      (passed?_of_literal? hreport.literal_eq) (by simp) hredundant

end TsxLint.DefaultProps
