import PipelineAudit.Rule.Basic

/-!
# Uses of actions

How often a document uses each action. An action counts under its name, paths inside its repository
included and the ref left out.
-/

namespace PipelineAudit

/-- The steps that use one action: the first one, and how many there are. -/
structure ActionUse where
  name : String
  job : Job
  step : Step
  /-- The refs of the uses, in order, the missing ones left out. -/
  refs : List String
  count : Nat

namespace ActionUse

/-- The actions that steps use, with the steps. -/
def uses (steps : List (Job × Step)) : List (ActionRef × Job × Step) :=
  steps.filterMap fun (j, s) => s.action.map fun a => (a, j, s)

/-- The uses of an action by its name. -/
def ofName? (uses : List (ActionRef × Job × Step)) (name : String) : Option ActionUse :=
  match uses.filter fun u => u.1.name == name with
  | [] => none
  | first :: rest =>
    some {
      name := name
      job := first.2.1
      step := first.2.2
      refs := (first :: rest).filterMap fun u => u.1.ref
      count := rest.length + 1 }

/-- The uses of each action, ordered by name. -/
def all (uses : List (ActionRef × Job × Step)) : List ActionUse :=
  let names := ((uses.map fun u => u.1.name).eraseDups).mergeSort fun a b => decide (a ≤ b)
  names.filterMap (ofName? uses)

/-- The uses of each action that is used more often than a limit. -/
def moreThan (limit : Nat) (uses : List (ActionRef × Job × Step)) : List ActionUse :=
  (all uses).filter fun u => decide (limit < u.count)

/-- A finding at the first use. -/
def draft (u : ActionUse) (description : String) : Draft :=
  { u.step.draft u.job description with key := some u.name }

end ActionUse

end PipelineAudit
