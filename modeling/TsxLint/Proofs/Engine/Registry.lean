/-
Module: TsxLint.Proofs.Engine.Registry
Purpose: What the lists of categories hold after any changes to the rules of an engine.
Main exports: RegistryChange, Engine.after, Engine.leftAfter, Engine.IsIndexed,
  Engine.isIndexed_after, Engine.category_lists_after
-/
import Mathlib
import TsxLint.Engine.Run
import TsxLint.Proofs.Table

namespace TsxLint

/-!
The rules of an engine stand in a table by identifier and in lists by category.  Taking a rule out
removes it from both.  Taking a rule in under a known identifier replaces the old one in the table
only: the list of its category goes on holding it, until a rule of that identifier and category is
taken out.

So after any changes a list holds the current rules of its category and those that were replaced
and are still left over (`Engine.IsIndexed`), and lists and table are in step exactly if nothing is
left over.
-/

/-- A change to the rules of an engine. -/
inductive RegistryChange where
  | register (rule : Rule)
  | unregister (id : String)

namespace Engine

/-- The engine after a change. -/
def change (e : Engine) : RegistryChange → Engine
  | .register rule => (e.register rule).1
  | .unregister id => (e.unregister id).1

/-- The engine after changes. -/
def after (e : Engine) (changes : List RegistryChange) : Engine := changes.foldl change e

/-- What a change makes of the rules that are left over: it adds the rule that it replaces, and it
takes away those that it removes from the list of a category. -/
def leftOver (e : Engine) (left : List Rule) : RegistryChange → List Rule
  | .register rule =>
    if e.settings.isEnabled rule.id rule.category then (e.rule? rule.id).toList ++ left else left
  | .unregister id =>
    match e.rule? id with
    | none => left
    | some rule => left.filter fun r => !(r.id == id && r.category == rule.category)

/-- The rules that are left over after changes. -/
def leftAfter (e : Engine) (left : List Rule) : List RegistryChange → List Rule
  | [] => left
  | change :: rest => (e.change change).leftAfter (e.leftOver left change) rest

/-- Rules are taken in only under identifiers that the engine does not know at that time. -/
def RegistersAnew (e : Engine) : List RegistryChange → Prop
  | [] => True
  | .register rule :: rest =>
    ((e.register rule).2 = true → e.rule? rule.id = none) ∧
      (e.change (.register rule)).RegistersAnew rest
  | .unregister id :: rest => (e.change (.unregister id)).RegistersAnew rest

/-- Rules stand under their own identifiers, and the list of a category holds the current rules of
the category and those that are left over. -/
structure IsIndexed (e : Engine) (left : List Rule) : Prop where
  distinct : (Table.keys e.rules).Nodup
  keyed : ∀ entry ∈ e.rules, entry.2.id = entry.1
  listed : ∀ category,
    (e.rulesOfCategory category).Perm ((e.allRules ++ left).filter (·.category == category))

variable {e : Engine} {left : List Rule}

/-! ### What one change does -/

theorem register_of_enabled {rule : Rule} (h : e.settings.isEnabled rule.id rule.category = true) :
    e.register rule =
      ({ e with
          rules := Table.put e.rules rule.id rule
          byCategory :=
            Table.put e.byCategory rule.category (e.rulesOfCategory rule.category ++ [rule]) },
        true) := if_pos h

theorem register_of_disabled {rule : Rule}
    (h : ¬ e.settings.isEnabled rule.id rule.category = true) : e.register rule = (e, false) :=
  if_neg h

/-- A rule that is taken in joins the list of its category, and joins the table in place of the
rule under its identifier. -/
theorem perm_allRules_register {rule : Rule}
    (h : e.settings.isEnabled rule.id rule.category = true) :
    ((e.register rule).1.allRules ++ (e.rule? rule.id).toList).Perm (e.allRules ++ [rule]) := by
  rw [register_of_enabled h]
  exact Table.perm_values_put e.rules rule.id rule

theorem rulesOfCategory_register {rule : Rule}
    (h : e.settings.isEnabled rule.id rule.category = true) (category : String) :
    (e.register rule).1.rulesOfCategory category =
      if category = rule.category then e.rulesOfCategory category ++ [rule]
      else e.rulesOfCategory category := by
  rw [register_of_enabled h]
  change (Table.get? (Table.put _ _ _) category).getD [] = _
  rw [Table.get?_put]
  by_cases hc : category = rule.category
  · rw [if_pos hc, if_pos hc, hc]
    rfl
  · rw [if_neg hc, if_neg hc]
    rfl

theorem unregister_of_unknown {id : String} (h : e.rule? id = none) :
    e.unregister id = (e, false) := by
  unfold unregister
  rw [show Table.get? e.rules id = none from h]

theorem rules_unregister {id : String} {rule : Rule} (h : e.rule? id = some rule) :
    (e.unregister id).1.rules = Table.erase e.rules id := by
  unfold unregister
  rw [show Table.get? e.rules id = some rule from h]

theorem rulesOfCategory_unregister {id : String} {rule : Rule} (h : e.rule? id = some rule)
    (category : String) :
    (e.unregister id).1.rulesOfCategory category =
      if category = rule.category then (e.rulesOfCategory category).filter (·.id != id)
      else e.rulesOfCategory category := by
  unfold unregister rulesOfCategory
  rw [show Table.get? e.rules id = some rule from h]
  cases hknown : Table.get? e.byCategory rule.category with
  | none =>
    by_cases hc : category = rule.category
    · rw [if_pos hc]
      simp only [hc, hknown, Option.getD_none, List.filter_nil]
    · rw [if_neg hc]
      simp only [hknown]
  | some known =>
    simp only [hknown]
    rw [Table.get?_put]
    by_cases hc : category = rule.category
    · rw [if_pos hc, if_pos hc, hc, hknown]
      rfl
    · rw [if_neg hc, if_neg hc]

namespace IsIndexed

theorem rule?_of_mem (h : e.IsIndexed left) {rule : Rule} (hmem : rule ∈ e.allRules) :
    e.rule? rule.id = some rule := by
  obtain ⟨⟨id, _⟩, hentry, rfl⟩ := List.mem_map.1 hmem
  exact Table.get?_of_mem h.distinct (h.keyed _ hentry ▸ hentry)

theorem id_of_rule? (h : e.IsIndexed left) {id : String} {rule : Rule}
    (hrule : e.rule? id = some rule) : rule.id = id :=
  h.keyed _ (Table.mem_of_get? hrule)

theorem mem_of_rule? {id : String} {rule : Rule} (hrule : e.rule? id = some rule) :
    rule ∈ e.allRules :=
  List.mem_map_of_mem (f := (·.2)) (Table.mem_of_get? hrule)

/-- The identifiers of the rules are the keys of their table. -/
theorem ids_eq (h : e.IsIndexed left) : e.allRules.map (·.id) = Table.keys e.rules := by
  unfold allRules Table.values Table.keys
  rw [List.map_map]
  exact List.map_congr_left h.keyed

end IsIndexed

theorem isIndexed_empty (settings : Settings) : (empty settings).IsIndexed [] where
  distinct := .nil
  keyed _ hmem := nomatch hmem
  listed _ := .refl _

theorem IsIndexed.register (h : e.IsIndexed left) (rule : Rule) :
    (e.change (.register rule)).IsIndexed (e.leftOver left (.register rule)) := by
  rw [change, leftOver]
  by_cases hon : e.settings.isEnabled rule.id rule.category = true
  · rw [if_pos hon]
    have hrules : (e.register rule).1.rules = Table.put e.rules rule.id rule := by
      rw [register_of_enabled hon]
    refine ⟨?_, ?_, ?_⟩
    · rw [hrules]
      exact Table.nodup_keys_put h.distinct
    · rw [hrules]
      intro entry hentry
      rcases Table.mem_put h.distinct hentry with ⟨hkey, hvalue⟩ | ⟨-, hold⟩
      · rw [hkey, hvalue]
      · exact h.keyed _ hold
    · intro category
      -- table and leftovers together gain the rule, whether or not it replaces another one
      have hgain : ((e.register rule).1.allRules ++ ((e.rule? rule.id).toList ++ left)).Perm
          (e.allRules ++ left ++ [rule]) := by
        rw [← List.append_assoc]
        refine ((perm_allRules_register hon).append_right left).trans ?_
        rw [List.append_assoc, List.append_assoc]
        exact List.perm_append_comm.append_left _
      refine List.Perm.trans ?_ (hgain.filter _).symm
      rw [rulesOfCategory_register hon, List.filter_append]
      by_cases hc : category = rule.category
      · have hown : [rule].filter (·.category == category) = [rule] := by
          simp [hc]
        rw [if_pos hc, hown]
        exact (h.listed category).append_right [rule]
      · have hother : [rule].filter (·.category == category) = [] := by
          simp [Ne.symm hc]
        rw [if_neg hc, hother, List.append_nil]
        exact h.listed category
  · rw [if_neg hon, register_of_disabled hon]
    exact h

/-- Taking a rule out keeps the current rules of other identifiers. -/
theorem IsIndexed.allRules_unregister (h : e.IsIndexed left) {id : String} {rule : Rule}
    (hrule : e.rule? id = some rule) :
    (e.unregister id).1.allRules = e.allRules.filter (·.id != id) := by
  unfold allRules Table.values
  rw [rules_unregister hrule, Table.erase, List.filter_map]
  refine congrArg _ (List.filter_congr fun entry hentry => ?_)
  exact congrArg (· != id) (h.keyed _ hentry).symm

/-- In a category other than that of the current rule of an identifier, no current rule has that
identifier. -/
theorem IsIndexed.filter_other_category (h : e.IsIndexed left) {id category : String} {rule : Rule}
    (hrule : e.rule? id = some rule) (hc : category ≠ rule.category) :
    (e.allRules.filter (·.id != id)).filter (·.category == category) =
      e.allRules.filter (·.category == category) := by
  rw [List.filter_filter]
  refine List.filter_congr fun r hr => ?_
  by_cases hid : r.id = id
  · have hfound := h.rule?_of_mem hr
    rw [hid, hrule] at hfound
    obtain rfl := Option.some.inj hfound
    rw [beq_false_of_ne (Ne.symm hc), Bool.false_and]
  · rw [bne_iff_ne.2 hid, Bool.and_true]

theorem IsIndexed.unregister (h : e.IsIndexed left) (id : String) :
    (e.change (.unregister id)).IsIndexed (e.leftOver left (.unregister id)) := by
  rw [change, leftOver]
  cases hrule : e.rule? id with
  | none =>
    rw [unregister_of_unknown hrule]
    exact h
  | some rule =>
    refine ⟨?_, ?_, ?_⟩
    · rw [rules_unregister hrule]
      exact h.distinct.sublist (List.filter_sublist.map _)
    · rw [rules_unregister hrule]
      intro entry hentry
      exact h.keyed _ (List.mem_filter.1 hentry).1
    · intro category
      have hlisted := h.listed category
      rw [List.filter_append] at hlisted
      rw [h.allRules_unregister hrule, rulesOfCategory_unregister hrule, List.filter_append]
      by_cases hc : category = rule.category
      · -- everything of the identifier leaves the list, the current rule and the leftovers
        rw [if_pos hc]
        refine (hlisted.filter _).trans (.of_eq ?_)
        simp only [List.filter_append, List.filter_filter, ← hc]
        congr 1 <;> refine List.filter_congr fun r _ => ?_
        · exact Bool.and_comm _ _
        · cases hcat : r.category == category <;> simp [bne]
      · rw [if_neg hc, h.filter_other_category hrule hc]
        refine hlisted.trans (.of_eq ?_)
        rw [List.filter_filter]
        refine congrArg _ (List.filter_congr fun r _ => ?_)
        by_cases hcat : r.category = category
        · have hother : (r.category == rule.category) = false := by
            rw [hcat]
            exact beq_false_of_ne hc
          rw [hother, Bool.and_false, Bool.not_false, Bool.and_true]
        · rw [beq_false_of_ne hcat, Bool.false_and]

/-! ### Any changes -/

theorem isIndexed_after (h : e.IsIndexed left) (changes : List RegistryChange) :
    (e.after changes).IsIndexed (e.leftAfter left changes) := by
  induction changes generalizing e left with
  | nil => exact h
  | cons change rest ih =>
    cases change with
    | register rule => exact ih (h.register rule)
    | unregister id => exact ih (h.unregister id)

/-- Nothing is left over where no rule takes the place of another one. -/
theorem leftAfter_of_registersAnew {changes : List RegistryChange}
    (h : e.RegistersAnew changes) : e.leftAfter [] changes = [] := by
  induction changes generalizing e with
  | nil => rfl
  | cons change rest ih =>
    cases change with
    | register rule =>
      rw [leftAfter, leftOver]
      by_cases hon : e.settings.isEnabled rule.id rule.category = true
      · have hnew : e.rule? rule.id = none := by
          refine h.1 ?_
          rw [register_of_enabled hon]
        rw [if_pos hon, hnew]
        exact ih h.2
      · rw [if_neg hon]
        exact ih h.2
    | unregister id =>
      have hnone : e.leftOver [] (.unregister id) = [] := by
        rw [leftOver]
        cases e.rule? id with
        | none => rfl
        | some rule => rfl
      rw [leftAfter, hnone]
      exact ih h

/-- Taking a rule in makes no other identifier known. -/
theorem rule?_register_of_ne {rule : Rule} {id : String} (h : id ≠ rule.id) :
    (e.register rule).1.rule? id = e.rule? id := by
  by_cases hon : e.settings.isEnabled rule.id rule.category = true
  · rw [register_of_enabled hon]
    exact Table.get?_put_of_ne e.rules rule h
  · rw [register_of_disabled hon]

theorem registersAnew_of_distinct {rules : List Rule} (hids : (rules.map (·.id)).Nodup)
    (hunknown : ∀ rule ∈ rules, e.rule? rule.id = none) :
    e.RegistersAnew (rules.map .register) := by
  induction rules generalizing e with
  | nil => trivial
  | cons rule rest ih =>
    obtain ⟨hrule, hrest⟩ := List.forall_mem_cons.1 hunknown
    obtain ⟨hnot, hids⟩ := List.nodup_cons.1 hids
    refine ⟨fun _ => hrule, ih hids fun other hother => ?_⟩
    have hne : other.id ≠ rule.id := fun heq =>
      hnot (List.mem_map.2 ⟨other, hother, heq⟩)
    rw [change, rule?_register_of_ne hne]
    exact hrest other hother

/-- What a selection names is current or left over. -/
theorem IsIndexed.current_or_left (h : e.IsIndexed left) {selection : RuleSelection} {rule : Rule}
    (hmem : rule ∈ e.select selection) : e.rule? rule.id = some rule ∨ rule ∈ left := by
  unfold select at hmem
  by_cases hids : (!selection.ids.isEmpty) = true
  · rw [if_pos hids] at hmem
    obtain ⟨id, -, hrule⟩ := List.mem_filterMap.1 hmem
    exact .inl (h.id_of_rule? hrule ▸ hrule)
  · rw [if_neg hids] at hmem
    by_cases hcategories : (!selection.categories.isEmpty) = true
    · rw [if_pos hcategories] at hmem
      obtain ⟨category, -, hlisted⟩ := List.mem_flatMap.1 hmem
      rcases List.mem_append.1 (List.mem_filter.1 ((h.listed category).mem_iff.1 hlisted)).1 with
        hcurrent | hleft
      · exact .inl (h.rule?_of_mem hcurrent)
      · exact .inr hleft
    · rw [if_neg hcategories] at hmem
      exact .inl (h.rule?_of_mem hmem)

/-- Lists and table are in step exactly if nothing is left over. -/
theorem IsIndexed.in_step_iff (h : e.IsIndexed left) :
    (∀ category,
        (e.rulesOfCategory category).Perm (e.allRules.filter (·.category == category))) ↔
      left = [] := by
  constructor
  · intro hstep
    refine List.eq_nil_iff_forall_not_mem.2 fun rule hrule => ?_
    have hlength := (h.listed rule.category).length_eq
    rw [(hstep rule.category).length_eq, List.filter_append, List.length_append] at hlength
    have hpos : 0 < (left.filter (·.category == rule.category)).length :=
      List.length_pos_of_mem (List.mem_filter.2 ⟨hrule, beq_self_eq_true _⟩)
    omega
  · rintro rfl category
    have hlisted := h.listed category
    rwa [List.append_nil] at hlisted

/-- After any changes to an engine that began without rules, identifiers are distinct, the list of
a category holds each current rule of the category and each that is left over once, and whatever a
run executes is one of those.  So the lists are in step with the table exactly if nothing is left
over, as where rules were taken in under unknown identifiers only. -/
theorem category_lists_after (settings : Settings) (changes : List RegistryChange) :
    let e := (empty settings).after changes
    let left := (empty settings).leftAfter [] changes
    (e.allRules.map (·.id)).Nodup ∧
      (∀ category,
        (e.rulesOfCategory category).Perm ((e.allRules ++ left).filter (·.category == category))) ∧
      (∀ selection language, ∀ rule ∈ e.applicable selection language,
        e.rule? rule.id = some rule ∨ rule ∈ left) ∧
      ((∀ category,
          (e.rulesOfCategory category).Perm (e.allRules.filter (·.category == category))) ↔
        left = []) ∧
      ((empty settings).RegistersAnew changes → left = []) := by
  intro e left
  have hindexed : e.IsIndexed left := isIndexed_after (isIndexed_empty settings) changes
  refine ⟨?_, hindexed.listed, ?_, hindexed.in_step_iff, leftAfter_of_registersAnew⟩
  · rw [hindexed.ids_eq]
    exact hindexed.distinct
  · intro selection language rule hrule
    exact hindexed.current_or_left (List.mem_filter.1 hrule).1

/-! ### Rules that are left over -/

/-- A rule that reports nothing. -/
def silent (id category : String) : Rule where
  id := id
  name := "Silent"
  category := category
  description := "Reports nothing."
  listens := []
  visit _ _ := .ok []

/-- A rule is replaced by one of another category, and the new one is taken out. -/
def replacingChanges : List RegistryChange :=
  [.register (silent "DEMO.RULE" "first"), .register (silent "DEMO.RULE" "second"),
    .unregister "DEMO.RULE"]

/-- A list of a category may hold, and a run may execute, a rule that the engine no longer has. -/
theorem category_lists_may_lag :
    ¬ ∀ (settings : Settings) (changes : List RegistryChange) (category : String),
      let e := (empty settings).after changes
      (e.rulesOfCategory category).Perm (e.allRules.filter (·.category == category)) ∧
        ∀ language, ∀ rule ∈ e.applicable ⟨[], [category]⟩ language,
          e.rule? rule.id = some rule := by
  intro h
  have hlength := (h Settings.default replacingChanges "first").1.length_eq
  have hlisted : (((empty Settings.default).after replacingChanges).rulesOfCategory
      "first").length = 1 := by cbv
  have hnone : ((empty Settings.default).after replacingChanges).allRules.length = 0 := by cbv
  rw [hlisted, List.eq_nil_of_length_eq_zero hnone] at hlength
  cases hlength

end Engine

end TsxLint
