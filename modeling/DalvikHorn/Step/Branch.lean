import DalvikHorn.Step.Context

/-!
# Branches
-/

namespace DalvikHorn.StepContext

variable (cx : StepContext)

/-- Goes on at the target. -/
def compileGoto : Except Error (List Clause) := do
  let target ← cx.instruction.branchTarget
  return [cx.jump target [] cx.pre]

/-- Goes on at the target when the condition holds, and at the next instruction when it does
not. -/
def compileBranch (condition : BranchCondition) (againstZero : Bool) :
    Except Error (List Clause) := do
  let target ← cx.instruction.branchTarget
  let left ← cx.operand 0
  let right ← if againstZero then pure (cx.literal 0) else do pure (← cx.operand 1).value
  let (comparison, negated) := condition.comparison
  let holds := Formula.compare comparison left.value right
  let guard := if negated then holds.negate else holds
  return [cx.jump target [guard] cx.pre, cx.step [guard.negate] cx.pre]

/-- The cases of a switch whose targets exist: guard and target. -/
def switchCases (scrutinee : BvExpr) (entries : List (Int32 × Int32)) : List (Formula × UInt32) :=
  entries.filterMap fun (key, offset) =>
    match relativePc cx.instruction.pc offset with
    | .ok target => some (scrutinee.eqTo (cx.literal key.toInt), target)
    | .error _ => none

/-- Goes on at the target of every case that matches, and at the next instruction when none
does.  Without a usable table the switch does nothing. -/
def compileSwitch : Except Error (List Clause) := do
  let scrutinee ← cx.operand 0
  match cx.method.payloadFor cx.instruction >>= Payload.switchEntries with
  | .error _ => return [cx.identity]
  | .ok entries =>
      let cases := cx.switchCases scrutinee.value entries
      return cases.map (fun (guard, target) => cx.jump target [guard] cx.pre) ++
        [cx.step [(Formula.any (cases.map (·.1))).negate] cx.pre]

end DalvikHorn.StepContext
