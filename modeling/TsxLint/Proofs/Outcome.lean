/-
Module: TsxLint.Proofs.Outcome
Purpose: What the steps of a computation were if it ended normally, and what it may fail with.
Main exports: Outcome.exists_of_bind_eq_ok, Outcome.mapM_eq_ok_iff, Outcome.FailsOnly
-/
import Mathlib.Data.List.Perm.Basic
import TsxLint.Fault

namespace TsxLint.Outcome

variable {α β : Type}

@[simp] theorem ok_bind (a : α) (next : α → Outcome β) :
    ((.ok a : Outcome α) >>= next) = next a := rfl

/-- Both parts of a computation in two steps end normally if the whole does. -/
theorem exists_of_bind_eq_ok {o : Outcome α} {next : α → Outcome β} {b : β}
    (h : (o >>= next) = .ok b) : ∃ a, o = .ok a ∧ next a = .ok b := by
  cases o with
  | error fault => cases h
  | ok a => exact ⟨a, rfl, h⟩

/-- A computation whose result is changed afterwards ends normally if it does. -/
theorem exists_of_map_eq_ok {o : Outcome α} {f : α → β} {b : β} (h : f <$> o = .ok b) :
    ∃ a, o = .ok a ∧ f a = b := by
  cases o with
  | error fault => cases h
  | ok a =>
    cases h
    exact ⟨a, rfl, rfl⟩

/-- A result that is there is one that a computation ended normally with. -/
theorem eq_ok_of_toOption_eq_some {o : Outcome α} {a : α} (h : o.toOption = some a) :
    o = .ok a := by
  cases o with
  | error fault => cases h
  | ok b =>
    cases h
    rfl

/-- A computation for each item of a list ends normally exactly if each of them does, and its
results are theirs. -/
theorem mapM_eq_ok_iff {f : α → Outcome β} {xs : List α} {ys : List β} :
    xs.mapM f = .ok ys ↔ List.Forall₂ (fun x y => f x = .ok y) xs ys := by
  constructor
  · intro h
    induction xs generalizing ys with
    | nil =>
      cases h
      exact .nil
    | cons x rest ih =>
      rw [List.mapM_cons] at h
      obtain ⟨y, hy, h⟩ := exists_of_bind_eq_ok h
      obtain ⟨later, hlater, h⟩ := exists_of_bind_eq_ok h
      cases h
      exact .cons hy (ih hlater)
  · intro h
    induction h with
    | nil => rfl
    | cons hy _ ih =>
      rw [List.mapM_cons, hy, ih]
      rfl

/-- What stands on the right of a relation between lists has a partner on the left. -/
theorem exists_left_of_mem {R : α → β → Prop} {xs : List α} {ys : List β}
    (h : List.Forall₂ R xs ys) {y : β} (hy : y ∈ ys) : ∃ x ∈ xs, R x y := by
  induction h with
  | nil => cases hy
  | cons hxy _ ih =>
    rcases List.mem_cons.1 hy with rfl | hy
    · exact ⟨_, List.mem_cons_self, hxy⟩
    · obtain ⟨x, hx, hxy⟩ := ih hy
      exact ⟨x, List.mem_cons_of_mem _ hx, hxy⟩

/-- Every result of a computation for each item is that of one of them. -/
theorem exists_of_mem_mapM {f : α → Outcome β} {xs : List α} {ys : List β}
    (h : xs.mapM f = .ok ys) {y : β} (hy : y ∈ ys) : ∃ x ∈ xs, f x = .ok y :=
  exists_left_of_mem (mapM_eq_ok_iff.1 h) hy

/-- What is read off the results of a computation for each item is what is read off the items, if it
is so for each of them. -/
theorem map_eq_of_mapM {γ : Type} {f : α → Outcome β} {ofResult : β → γ} {ofItem : α → γ}
    {xs : List α} {ys : List β} (h : xs.mapM f = .ok ys)
    (heq : ∀ x y, f x = .ok y → ofResult y = ofItem x) : ys.map ofResult = xs.map ofItem := by
  have hresults := mapM_eq_ok_iff.1 h
  clear h
  induction hresults with
  | nil => rfl
  | cons hy _ ih => rw [List.map_cons, List.map_cons, heq _ _ hy, ih]

/-- A computation for each item ends normally for the items in another order, and the results are
the same in another order. -/
theorem exists_perm_of_mapM {f : α → Outcome β} {xs xs' : List α} {ys : List β}
    (h : xs.mapM f = .ok ys) (hperm : xs'.Perm xs) :
    ∃ ys', xs'.mapM f = .ok ys' ∧ ys'.Perm ys := by
  obtain ⟨ys', hresults, hys⟩ := List.perm_comp_forall₂ hperm (mapM_eq_ok_iff.1 h)
  exact ⟨ys', mapM_eq_ok_iff.2 hresults, hys⟩

/-! ### Faults of a certain sort -/

/-- A computation fails only with faults that have a property. -/
def FailsOnly (P : Fault → Prop) (o : Outcome α) : Prop := ∀ fault, o = .error fault → P fault

namespace FailsOnly

variable {P : Fault → Prop}

theorem ok (a : α) : FailsOnly P (.ok a) := by
  intro fault h
  cases h

/-- A computation without faults ends normally. -/
theorem exists_ok {o : Outcome α} (h : FailsOnly (fun _ => False) o) : ∃ a, o = .ok a := by
  cases o with
  | error fault => exact (h fault rfl).elim
  | ok a => exact ⟨a, rfl⟩

theorem bind {o : Outcome α} {next : α → Outcome β} (h : FailsOnly P o)
    (hnext : ∀ a, FailsOnly P (next a)) : FailsOnly P (o >>= next) := by
  cases o with
  | error early =>
    intro fault hfault
    cases hfault
    exact h early rfl
  | ok a => exact hnext a

theorem map {o : Outcome α} (h : FailsOnly P o) (f : α → β) : FailsOnly P (f <$> o) := by
  cases o with
  | error early =>
    intro fault hfault
    cases hfault
    exact h early rfl
  | ok a => exact .ok (f a)

theorem mapM {f : α → Outcome β} {xs : List α} (h : ∀ x ∈ xs, FailsOnly P (f x)) :
    FailsOnly P (xs.mapM f) := by
  induction xs with
  | nil => exact .ok []
  | cons x rest ih =>
    obtain ⟨hx, hrest⟩ := List.forall_mem_cons.1 h
    rw [List.mapM_cons]
    apply hx.bind
    intro y
    exact (ih hrest).bind fun _ => .ok _

end FailsOnly

end TsxLint.Outcome
