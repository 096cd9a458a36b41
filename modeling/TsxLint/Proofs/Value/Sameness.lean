/-
Module: TsxLint.Proofs.Value.Sameness
Purpose: Equality with a catalogued default compared with values that are the same in every place.
Main exports: Value.at?, Value.Identical, Value.IsExact, Value.equal_iff_countsLike,
  Value.same_iff, Value.same_compared_with_identity
-/
import Mathlib.Data.List.Perm.Subperm
import TsxLint.Proofs.Table
import TsxLint.Value.Equal

namespace TsxLint.Value

/-!
A place in a value is reached by steps into lists and objects.  Two values are identical if they
have the same places and look the same in each of them.  Equality goes by steps as well, but in each
place it takes a truth value for the number that it counts as; only at the top does the comparison
with a default tell the two apart.  So it is an equivalence, and it says of two values that are not
identical that they are the same only if a truth value inside one stands where the other has a
number.
-/

/-! ### Places -/

/-- A step from a list to an item or from an object to a member. -/
inductive Step where
  | item (i : Nat)
  | member (key : String)

theorem Step.forall_iff {P : Step → Prop} :
    (∀ s, P s) ↔ (∀ i, P (.item i)) ∧ ∀ key, P (.member key) := by
  constructor
  · intro h
    exact ⟨fun i => h (.item i), fun key => h (.member key)⟩
  · rintro ⟨hitems, hmembers⟩ (i | key)
    · exact hitems i
    · exact hmembers key

/-- The part of a value that a step leads to. -/
def part? : Value → Step → Option Value
  | .list items, .item i => items[i]?
  | .object members, .member key => Table.get? members key
  | _, _ => none

/-- What is in a value at a place. -/
def at? (v : Value) : List Step → Option Value
  | [] => some v
  | s :: path => (v.part? s).bind fun part => part.at? path

/-- What a value is apart from its parts. -/
def outside : Value → Value
  | .list _ => .list []
  | .object _ => .object []
  | v => v

/-- A value with the number that a truth value counts as in its place. -/
def counted : Value → Value
  | .bool b => .int (if b then 1 else 0)
  | v => v

/-- Two values have the same places, and look the same in each of them in some way of looking. -/
def SameUnder (look : Value → Value) (v w : Value) : Prop :=
  ∀ path, (v.at? path).map look = (w.at? path).map look

/-- Two values have the same word, number or text in each place, or both a list or both an object.
So their lists have the same lengths and their objects the same keys. -/
def Identical (v w : Value) : Prop := SameUnder outside v w

/-- Two values are identical if each truth value in them is taken for the number it counts as. -/
def CountsLike (v w : Value) : Prop := SameUnder (fun u => u.outside.counted) v w

/-- A value is a truth value. -/
def IsTruth (v : Value) : Prop := ∃ b, v = .bool b

variable {u v w a : Value} {s : Step} {look : Value → Value}

theorem sizeOf_lt_of_part? (h : v.part? s = some a) : sizeOf a < sizeOf v := by
  cases v with
  | list items =>
    cases s with
    | item i =>
      have := List.sizeOf_lt_of_mem (List.mem_of_getElem? h)
      simp only [list.sizeOf_spec]
      omega
    | member key => cases h
  | object members =>
    cases s with
    | item i => cases h
    | member key =>
      have := List.sizeOf_lt_of_mem (Table.mem_of_get? h)
      simp only [object.sizeOf_spec, Prod.mk.sizeOf_spec] at this ⊢
      omega
  | _ => cases h

/-- What holds of a value if it holds of its parts holds of all values. -/
theorem induction_on_parts {P : Value → Prop} (v : Value)
    (step : ∀ v : Value, (∀ s a, v.part? s = some a → P a) → P v) : P v :=
  step v fun s a h =>
    have := sizeOf_lt_of_part? h
    induction_on_parts a step
termination_by sizeOf v

theorem rel_congr_of_some {R S : Value → Value → Prop} {o p : Option Value}
    (h : ∀ a b, o = some a → p = some b → (R a b ↔ S a b)) :
    Option.Rel R o p ↔ Option.Rel S o p := by
  cases o with
  | none => cases p <;> simp
  | some a =>
    cases p with
    | none => simp
    | some b => simpa using h a b rfl rfl

theorem rel_sameUnder_iff {o p : Option Value} :
    Option.Rel (SameUnder look) o p ↔
      ∀ path, (o.bind fun a => a.at? path).map look = (p.bind fun b => b.at? path).map look := by
  cases o with
  | none =>
    cases p with
    | none => simp
    | some b => simpa using ⟨[], by simp [at?]⟩
  | some a =>
    cases p with
    | none => simpa using ⟨[], by simp [at?]⟩
    | some b => simp [SameUnder]

/-- Two values look the same in each place if they do at the top and their parts do. -/
theorem sameUnder_iff :
    SameUnder look v w ↔
      look v = look w ∧ ∀ s, Option.Rel (SameUnder look) (v.part? s) (w.part? s) := by
  simp only [rel_sameUnder_iff]
  constructor
  · intro h
    exact ⟨Option.some.inj (h []), fun s path => h (s :: path)⟩
  · rintro ⟨htop, hparts⟩ path
    cases path with
    | nil => exact congrArg some htop
    | cons s path => exact hparts s path

/-! ### Values with exact numbers -/

/-- A value that is built from null, truth values, integers, texts, lists and objects; no object in
it has a key twice. -/
inductive IsExact : Value → Prop where
  | null : IsExact .null
  | bool (b : Bool) : IsExact (.bool b)
  | int (n : Int) : IsExact (.int n)
  | str (s : String) : IsExact (.str s)
  | list {items : List Value} (each : ∀ v ∈ items, IsExact v) : IsExact (.list items)
  | object {members : Table Value} (nodup : (Table.keys members).Nodup)
      (each : ∀ member ∈ members, IsExact member.2) : IsExact (.object members)

theorem IsExact.part (h : v.IsExact) (ha : v.part? s = some a) : a.IsExact := by
  cases h with
  | list each =>
    cases s with
    | item i => exact each a (List.mem_of_getElem? ha)
    | member key => cases ha
  | object nodup each =>
    cases s with
    | item i => cases ha
    | member key => exact each _ (Table.mem_of_get? ha)
  | _ => cases ha

/-- The order of an object's members makes no difference. -/
theorem IsExact.of_perm {members others : Table Value} (h : (Value.object members).IsExact)
    (hperm : members.Perm others) : (Value.object others).IsExact := by
  cases h with
  | object nodup each =>
    exact .object ((hperm.map _).nodup_iff.1 nodup) fun member hmember =>
      each member (hperm.mem_iff.2 hmember)

/-! ### Equality by steps -/

theorem equalItems_iff (items others : List Value) :
    equalItems items others = true ↔
      ∀ i : Nat, Option.Rel (fun a b => equal a b = true) items[i]? others[i]? := by
  induction items generalizing others with
  | nil =>
    cases others with
    | nil => simp [equalItems]
    | cons w others => simpa [equalItems] using ⟨0, by simp⟩
  | cons v items ih =>
    cases others with
    | nil => simpa [equalItems] using ⟨0, by simp⟩
    | cons w others =>
      rw [equalItems, Bool.and_eq_true, ih, ← Nat.and_forall_add_one (p := fun i =>
        Option.Rel (fun a b => equal a b = true) (v :: items)[i]? (w :: others)[i]?)]
      simp

theorem equalMembers_iff (members others : Table Value) :
    equalMembers members others = true ↔
      ∀ member ∈ members, ∃ w, Table.get? others member.1 = some w ∧
        equal member.2 w = true := by
  induction members with
  | nil => simp [equalMembers]
  | cons member rest ih =>
    obtain ⟨key, v⟩ := member
    rw [equalMembers, Bool.and_eq_true, ih, List.forall_mem_cons]
    cases Table.get? others key <;> simp

theorem isSome_iff_of_rel {R : Value → Value → Prop} {o p : Option Value} (h : Option.Rel R o p) :
    o.isSome ↔ p.isSome := by
  cases h <;> simp

theorem exists_of_rel_some {R : Value → Value → Prop} {p : Option Value}
    (h : Option.Rel R (some a) p) : ∃ b, p = some b ∧ R a b := by
  cases h with
  | some hab => exact ⟨_, rfl, hab⟩

/-- Objects are equal if they have equal members under the same keys. -/
theorem equal_object_iff {members others : Table Value} (hmembers : (Table.keys members).Nodup)
    (hothers : (Table.keys others).Nodup) :
    equal (.object members) (.object others) = true ↔
      ∀ key, Option.Rel (fun a b => equal a b = true) (Table.get? members key)
        (Table.get? others key) := by
  rw [equal, Bool.and_eq_true, equalMembers_iff, beq_iff_eq]
  constructor
  · rintro ⟨hlength, heach⟩ key
    -- each key of the one is a key of the other, and they have as many
    have hsubset : Table.keys members ⊆ Table.keys others := by
      intro key hkey
      obtain ⟨member, hmember, rfl⟩ := List.mem_map.1 hkey
      obtain ⟨w, hw, -⟩ := heach member hmember
      exact Table.isSome_get?_iff.1 (by rw [hw, Option.isSome_some])
    have hperm : (Table.keys members).Perm (Table.keys others) :=
      (List.subperm_of_subset hmembers hsubset).perm_of_length_le (by simp [Table.keys, hlength])
    cases hv : Table.get? members key with
    | none =>
      rw [Table.get?_eq_none_iff, hperm.mem_iff, ← Table.get?_eq_none_iff] at hv
      rw [hv]
      exact .none
    | some v =>
      obtain ⟨w, hw, hequal⟩ := heach (key, v) (Table.mem_of_get? hv)
      rw [hw]
      exact .some hequal
  · intro h
    have hperm : (Table.keys members).Perm (Table.keys others) := by
      refine (List.perm_ext_iff_of_nodup hmembers hothers).2 fun key => ?_
      rw [← Table.isSome_get?_iff, ← Table.isSome_get?_iff]
      exact isSome_iff_of_rel (h key)
    refine ⟨by simpa [Table.keys] using hperm.length_eq, fun member hmember => ?_⟩
    have hfound := Table.get?_of_mem hmembers hmember
    exact exists_of_rel_some (hfound ▸ h member.1)

/-- Values are equal if they count alike at the top and their parts are equal. -/
theorem equal_iff_parts (hv : v.IsExact) (hw : w.IsExact) :
    equal v w = true ↔
      v.outside.counted = w.outside.counted ∧
        ∀ s, Option.Rel (fun a b => equal a b = true) (v.part? s) (w.part? s) := by
  rw [Step.forall_iff]
  cases hv with
  | list each =>
    cases hw with
    | list others =>
      rw [equal, equalItems_iff]
      simp [part?, outside, counted]
    | _ => simp [equal, outside, counted]
  | object hmembers each =>
    cases hw with
    | object hothers others =>
      rw [equal_object_iff hmembers hothers]
      simp [part?, outside, counted]
    | _ => simp [equal, outside, counted]
  | _ => cases hw <;> simp [equal, outside, counted, numeral?, Numeral.equal, part?]

/-- Equality holds exactly of values that are identical if truth values are taken for numbers. -/
theorem equal_iff_countsLike (hv : v.IsExact) (hw : w.IsExact) :
    equal v w = true ↔ v.CountsLike w := by
  induction v using induction_on_parts generalizing w with
  | step v ih =>
    rw [equal_iff_parts hv hw, CountsLike, sameUnder_iff]
    -- both sides go on in the same way from the parts
    refine and_congr_right fun _ => forall_congr' fun s => ?_
    exact rel_congr_of_some fun a b ha hb => ih s a ha (hv.part ha) (hw.part hb)

/-! ### Equality with a default -/

/-- A value is the same as a default if the two are equal and none or both are truth values. -/
theorem same_iff (v w : Value) : same v w = true ↔ (v.IsTruth ↔ w.IsTruth) ∧ equal v w = true := by
  cases v with
  | bool b =>
    cases w with
    | bool c => cases b <;> cases c <;> simp [same, equal, IsTruth, numeral?, Numeral.equal]
    | _ => simp [same, IsTruth]
  | _ => cases w <;> simp [same, equal, IsTruth, numeral?, Numeral.equal]

/-- Values that count alike look alike if none or both are truth values. -/
theorem outside_eq_iff (v w : Value) :
    v.outside = w.outside ↔
      v.outside.counted = w.outside.counted ∧ (v.IsTruth ↔ w.IsTruth) := by
  cases v with
  | bool b =>
    cases w with
    | bool c => cases b <;> cases c <;> simp [outside, counted, IsTruth]
    | _ => simp [outside, counted, IsTruth]
  | _ => cases w <;> simp [outside, counted, IsTruth]

/-- Identical values are those that are identical if truth values are taken for numbers, and have
truth values in the same places. -/
theorem identical_iff :
    v.Identical w ↔
      v.CountsLike w ∧ ∀ path a b, v.at? path = some a → w.at? path = some b →
        (a.IsTruth ↔ b.IsTruth) := by
  simp only [Identical, CountsLike, SameUnder]
  rw [← forall_and]
  refine forall_congr' fun path => ?_
  cases v.at? path with
  | none => cases w.at? path <;> simp
  | some a =>
    cases w.at? path with
    | none => simp
    | some b => simpa using outside_eq_iff a b

/-- A value is the same as a default if none or both are truth values, and the two are identical if
truth values inside them are taken for numbers. -/
theorem same_iff_countsLike (hv : v.IsExact) (hw : w.IsExact) :
    same v w = true ↔ (v.IsTruth ↔ w.IsTruth) ∧ v.CountsLike w := by
  rw [same_iff, equal_iff_countsLike hv hw]

theorem same_self (hv : v.IsExact) : same v v = true :=
  (same_iff_countsLike hv hv).2 ⟨Iff.rfl, fun _ => rfl⟩

theorem same_comm (hv : v.IsExact) (hw : w.IsExact) :
    same v w = true ↔ same w v = true := by
  rw [same_iff_countsLike hv hw, same_iff_countsLike hw hv]
  exact and_congr iff_comm (forall_congr' fun path => eq_comm)

theorem same_trans (hu : u.IsExact) (hv : v.IsExact) (hw : w.IsExact)
    (huv : same u v = true) (hvw : same v w = true) : same u w = true := by
  rw [same_iff_countsLike hu hv] at huv
  rw [same_iff_countsLike hv hw] at hvw
  rw [same_iff_countsLike hu hw]
  exact ⟨huv.1.trans hvw.1, fun path => (huv.2 path).trans (hvw.2 path)⟩

/-- Values that are the same are identical exactly if inside them truth values stand against truth
values only. -/
theorem identical_iff_same (hv : v.IsExact) (hw : w.IsExact) :
    v.Identical w ↔
      same v w = true ∧ ∀ s path a b, v.at? (s :: path) = some a → w.at? (s :: path) = some b →
        (a.IsTruth ↔ b.IsTruth) := by
  rw [identical_iff, same_iff_countsLike hv hw]
  constructor
  · rintro ⟨hcounts, htruths⟩
    exact ⟨⟨htruths [] v w rfl rfl, hcounts⟩, fun s path => htruths (s :: path)⟩
  · rintro ⟨⟨htruth, hcounts⟩, htruths⟩
    refine ⟨hcounts, fun path a b ha hb => ?_⟩
    cases path with
    | nil =>
      cases ha
      cases hb
      exact htruth
    | cons s path => exact htruths s path a b ha hb

/-- A literal has no parts, so it is the same as a default exactly if the two are identical. -/
theorem same_iff_identical_of_part?_eq_none (hv : v.IsExact) (hw : w.IsExact)
    (hnone : ∀ s, v.part? s = none) : same v w = true ↔ v.Identical w := by
  rw [identical_iff_same hv hw, iff_self_and]
  intro _ s path a b ha
  rw [at?, hnone] at ha
  cases ha

/-- On values with exact numbers, being the same is reflexive, symmetric and transitive.  It means
that none or both of two values are truth values, and that they are identical if truth values inside
them are taken for numbers.  So identical values are the same, and values that are the same
are identical exactly if inside them truth values stand against truth values only. -/
theorem same_compared_with_identity (hu : u.IsExact) (hv : v.IsExact) (hw : w.IsExact) :
    same v v = true ∧
    (same v w = true ↔ same w v = true) ∧
    (same u v = true → same v w = true → same u w = true) ∧
    (same v w = true ↔ (v.IsTruth ↔ w.IsTruth) ∧ v.CountsLike w) ∧
    (v.Identical w ↔
      same v w = true ∧ ∀ s path a b, v.at? (s :: path) = some a → w.at? (s :: path) = some b →
        (a.IsTruth ↔ b.IsTruth)) :=
  ⟨same_self hv, same_comm hv hw, same_trans hu hv hw, same_iff_countsLike hv hw,
    identical_iff_same hv hw⟩

/-- The members of an object, with a list among them. -/
def listed (first : Value) : Table Value := [("a", .list [first, .int 1]), ("b", .null)]

theorem isExact_listed {first : Value} (h : first.IsExact) :
    (object (listed first)).IsExact := by
  refine .object (by simp [listed, Table.keys]) ?_
  simp [listed, IsExact.null, IsExact.list, IsExact.int, h]

/-- Three objects that are the same, of which the second and the third are not identical; the second
has its members in the other order. -/
theorem same_compared_with_identity_listed :
    (object (listed (.bool true))).IsExact ∧
      (object (listed (.bool true)).reverse).IsExact ∧
      (object (listed (.int 1))).IsExact ∧
      same (object (listed (.bool true))) (object (listed (.int 1))) = true ∧
      ¬ (object (listed (.bool true)).reverse).Identical (object (listed (.int 1))) := by
  have hu := isExact_listed (.bool true)
  have hv := hu.of_perm (List.reverse_perm _).symm
  have hw := isExact_listed (.int 1)
  obtain ⟨-, -, htrans, -, hidentical⟩ := same_compared_with_identity hu hv hw
  refine ⟨hu, hv, hw, htrans (by decide) (by decide), fun h => ?_⟩
  have htruth := (hidentical.1 h).2 (.member "a") [.item 0] (.bool true) (.int 1) rfl rfl
  obtain ⟨b, hb⟩ := htruth.1 ⟨true, rfl⟩
  cases hb

/-- A truth value in a list is the same as a number. -/
theorem same_may_mix_truth_and_number :
    ¬ ∀ v w : Value, v.IsExact → w.IsExact → (same v w = true ↔ v.Identical w) := by
  intro hall
  have hidentical := (hall (.list [.bool true]) (.list [.int 1]) (.list (by simp [IsExact.bool]))
    (.list (by simp [IsExact.int]))).1 (by decide)
  have := hidentical [.item 0]
  simp [at?, part?, outside] at this

end TsxLint.Value
