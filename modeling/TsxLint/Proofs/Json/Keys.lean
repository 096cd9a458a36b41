/-
Module: TsxLint.Proofs.Json.Keys
Purpose: What holds of every value that is read from a text, and that no key is there twice.
Main exports: Value.Keyed, Json.PassedUp, Json.holds_of_read, Json.keyed_of_read
-/
import TsxLint.Json.Reader
import TsxLint.Proofs.Table

namespace TsxLint

/-!
A property holds of whatever is read if it holds of words, texts and numbers and is passed up from
the parts of a list or an object to the whole.  The reader writes the members of an object into a
table one after the other, and writing to a table keeps its keys distinct.  So the members of an
object that was read can be taken for a function from keys to values, at every depth.
-/

/-- Every object in a value has its keys once. -/
inductive Value.Keyed : Value → Prop where
  | null : Keyed .null
  | bool (b : Bool) : Keyed (.bool b)
  | int (n : Int) : Keyed (.int n)
  | float (x : Binary64) : Keyed (.float x)
  | str (s : String) : Keyed (.str s)
  | list {items : List Value} (each : ∀ v ∈ items, Keyed v) : Keyed (.list items)
  | object {members : Table Value} (nodup : (Table.keys members).Nodup)
      (each : ∀ member ∈ members, Keyed member.2) : Keyed (.object members)

theorem Value.Keyed.nodup_keys {members : Table Value} (h : (Value.object members).Keyed) :
    (Table.keys members).Nodup := by
  cases h with
  | object nodup each => exact nodup

theorem Value.Keyed.of_get? {v part : Value} {key : String} (h : v.Keyed)
    (hpart : v.get? key = some part) : part.Keyed := by
  cases h with
  | object nodup each => exact each _ (Table.mem_of_get? hpart)
  | _ => cases hpart

namespace Json

/-- A property that words, texts and numbers have when they are read, and that lists and objects
have if their parts do. -/
structure PassedUp (P : Value → Prop) : Prop where
  null : P .null
  bool (b : Bool) : P (.bool b)
  nan : P (.float .nan)
  infinity (neg : Bool) : P (.float (.infinity neg))
  number {neg : Bool} {cs : List Char} {parts : NumberParts} {v : Value}
    (hparts : numberParts? cs = some parts) (hvalue : numberValue neg parts = .ok v) : P v
  str (s : String) : P (.str s)
  list {items : List Value} (each : ∀ v ∈ items, P v) : P (.list items)
  object {members : Table Value} (nodup : (Table.keys members).Nodup)
    (each : ∀ member ∈ members, P member.2) : P (.object members)

variable {P : Value → Prop}

/-! ### Words and numbers -/

theorem PassedUp.of_map_numberValue (hP : PassedUp P) {neg : Bool} {cs left : List Char}
    {parts : NumberParts} (hparts : numberParts? cs = some parts) {v : Value}
    (h : (numberValue neg parts).map (fun v => (v, parts.left)) = .ok (v, left)) : P v := by
  cases hvalue : numberValue neg parts with
  | error e =>
    rw [hvalue] at h
    cases h
  | ok value =>
    rw [hvalue] at h
    cases h
    exact hP.number hparts hvalue

theorem PassedUp.of_scalar (hP : PassedUp P) {cs left : List Char} {v : Value}
    (h : scalar cs = .ok (v, left)) : P v := by
  have word (expected : String) {value : Value} (holds : P value)
      (hword : (if expected.toList.isPrefixOf cs then
          (.ok (value, cs.drop expected.length) : Read Value)
        else .error (.at "Expecting value" cs)) = .ok (v, left)) : P v := by
    split at hword
    · cases hword
      exact holds
    · cases hword
  unfold scalar at h
  split at h
  · exact word "null" hP.null h
  · exact word "true" (hP.bool true) h
  · exact word "false" (hP.bool false) h
  · exact word "NaN" hP.nan h
  · exact word "Infinity" (hP.infinity false) h
  · exact word "-Infinity" (hP.infinity true) h
  · dsimp only at h
    split at h
    · cases h
    · next hparts => exact hP.of_map_numberValue hparts h
  · dsimp only at h
    split at h
    · cases h
    · next hparts => exact hP.of_map_numberValue hparts h

/-! ### Lists and objects -/

/-- The members that were read so far: their keys are distinct, and they have the property. -/
structure MembersHold (P : Value → Prop) (done : Table Value) : Prop where
  nodup : (Table.keys done).Nodup
  each : ∀ member ∈ done, P member.2

theorem MembersHold.empty : MembersHold P [] where
  nodup := List.nodup_nil
  each member hmember := by cases hmember

/-- Writing a member to an object keeps its keys distinct. -/
theorem MembersHold.put {done : Table Value} (h : MembersHold P done) {v : Value} (hv : P v)
    (key : String) : MembersHold P (Table.put done key v) where
  nodup := Table.nodup_keys_put h.nodup
  each member hmember := by
    rcases Table.mem_put h.nodup hmember with ⟨-, hvalue⟩ | ⟨-, hold⟩
    · rw [hvalue]
      exact hv
    · exact h.each member hold

/-- What is read with so much fuel has the property, given that what was read before it does. -/
structure HoldsWithin (P : Value → Prop) (fuel : Nat) : Prop where
  value : ∀ {cs left : List Char} {v : Value}, Json.value fuel cs = .ok (v, left) → P v
  items : ∀ {done : List Value} {cs left : List Char} {v : Value}, (∀ w ∈ done, P w) →
    Json.items fuel done cs = .ok (v, left) → P v
  members : ∀ {done : Table Value} {cs left : List Char} {v : Value}, MembersHold P done →
    Json.members fuel done cs = .ok (v, left) → P v

theorem HoldsWithin.value_succ (hP : PassedUp P) {fuel : Nat} (ih : HoldsWithin P fuel)
    {cs left : List Char} {v : Value} (h : Json.value (fuel + 1) cs = .ok (v, left)) : P v := by
  unfold Json.value at h
  split at h
  · cases h
  · split at h
    · split at h
      · cases h
      · cases h
        exact hP.str _
    · split at h
      · split at h
        · cases h
          exact hP.list (by simp)
        · exact ih.items (by simp) h
      · split at h
        · split at h
          · cases h
            exact hP.object List.nodup_nil (by simp)
          · exact ih.members .empty h
        · exact hP.of_scalar h

theorem HoldsWithin.items_succ (hP : PassedUp P) {fuel : Nat} (ih : HoldsWithin P fuel)
    {done : List Value} {cs left : List Char} {v : Value} (hdone : ∀ w ∈ done, P w)
    (h : Json.items (fuel + 1) done cs = .ok (v, left)) : P v := by
  unfold Json.items at h
  split at h
  · cases h
  · next w rest hw =>
    have hmore : ∀ x ∈ w :: done, P x := List.forall_mem_cons.2 ⟨ih.value hw, hdone⟩
    split at h
    · cases h
      exact hP.list fun x hx => hmore x (List.mem_reverse.1 hx)
    · exact ih.items hmore h
    · cases h

theorem HoldsWithin.members_succ (hP : PassedUp P) {fuel : Nat} (ih : HoldsWithin P fuel)
    {done : Table Value} {cs left : List Char} {v : Value} (hdone : MembersHold P done)
    (h : Json.members (fuel + 1) done cs = .ok (v, left)) : P v := by
  unfold Json.members at h
  split at h
  · split at h
    · cases h
    · split at h
      · split at h
        · cases h
        · next w rest hw =>
          have hmore := hdone.put (ih.value hw)
          split at h
          · cases h
            exact hP.object (hmore _).nodup (hmore _).each
          · exact ih.members (hmore _) h
          · cases h
      · cases h
  · cases h

theorem holdsWithin (hP : PassedUp P) (fuel : Nat) : HoldsWithin P fuel := by
  induction fuel with
  | zero =>
    constructor
    · intro cs left v h
      cases h
    · intro done cs left v _ h
      cases h
    · intro done cs left v _ h
      cases h
  | succ fuel ih => exact ⟨ih.value_succ hP, ih.items_succ hP, ih.members_succ hP⟩

/-- What is passed up from parts holds of whatever was read. -/
theorem holds_of_read (hP : PassedUp P) {s : String} {v : Value} (h : read s = .ok v) : P v := by
  dsimp only [read] at h
  split at h
  · cases h
  · split at h
    · cases h
    · next hvalue =>
      split at h
      · cases h
        exact (holdsWithin hP _).value hvalue
      · cases h

/-! ### Keys -/

theorem keyed_of_numberValue {neg : Bool} {parts : NumberParts} {v : Value}
    (h : numberValue neg parts = .ok v) : v.Keyed := by
  unfold numberValue at h
  split at h
  · split at h
    · cases h
    · cases h
      exact .int _
  · cases h
    exact .float _

theorem passedUp_keyed : PassedUp Value.Keyed where
  null := .null
  bool := .bool
  nan := .float _
  infinity _ := .float _
  number _ hvalue := keyed_of_numberValue hvalue
  str := .str
  list := .list
  object := .object

/-- No object in a value that was read has a key twice. -/
theorem keyed_of_read {s : String} {v : Value} (h : read s = .ok v) : v.Keyed :=
  holds_of_read passedUp_keyed h

end Json

end TsxLint
