/-
Module: TsxLint.Edit.Selection
Purpose: Choosing groups of edits that can be applied together.
Main exports: Selection, Edit.select
-/
import TsxLint.Edit.Basic

namespace TsxLint

/-!
The edits of one finding form a group that is applied as a whole or not at all.
Groups are considered in the order given; a group is put off if one of its edits
conflicts with an edit of a group accepted before it.
-/

/-- The outcome of choosing among groups. -/
structure Selection where
  accepted : List (List Edit)
  deferred : List (List Edit)
deriving Repr

namespace Edit

/-- Whether an edit of a group conflicts with one that is taken. -/
def clashes (taken group : List Edit) : Bool :=
  group.any fun e => taken.any fun other => e.conflicts other

/-- Chooses among groups, given the edits taken before. -/
def selectFrom (taken : List Edit) : List (List Edit) → Selection
  | [] => ⟨[], []⟩
  | group :: rest =>
    if clashes taken group then
      let later := selectFrom taken rest
      ⟨later.accepted, group :: later.deferred⟩
    else
      let later := selectFrom (taken ++ group) rest
      ⟨group :: later.accepted, later.deferred⟩

/-- Chooses among groups in order. -/
def select (groups : List (List Edit)) : Selection := selectFrom [] groups

end Edit

end TsxLint
