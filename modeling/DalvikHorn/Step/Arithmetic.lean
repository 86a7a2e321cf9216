import DalvikHorn.Step.Context

/-!
# Arithmetic

The result of an operation is no reference, and its label is the join of the
labels of the operands.
-/

namespace DalvikHorn.StepContext

variable (cx : StepContext)

/-- An operation with two operands. -/
def compileBinary (op : BinaryOp) (form : OperandForm) : Except Error (List Clause) := do
  let destination ← cx.instruction.register 0
  let result : Cell ←
    match form with
    | .three => do
        let left ← cx.operand 1
        let right ← cx.operand 2
        pure (.scalar (.binary op.bvOperator left.value right.value) (left.high.either right.high))
    | .twoAddress => do
        let left ← cx.operand 0
        let right ← cx.operand 1
        pure (.scalar (.binary op.bvOperator left.value right.value) (left.high.either right.high))
    | .literal => do
        let operand ← cx.operand 1
        let literal := cx.literal (← cx.instruction.getLiteral).toInt
        let value :=
          if op = .rsub then BvExpr.binary op.bvOperator literal operand.value
          else BvExpr.binary op.bvOperator operand.value literal
        pure (.scalar value operand.high)
  cx.assign destination [] result

/-- An operation with one operand. -/
def compileUnary (op : UnaryOp) : Except Error (List Clause) := do
  let destination ← cx.instruction.register 0
  let source ← cx.operand 1
  let value :=
    match op with
    | .neg => BvExpr.unary .neg source.value
    | .not => BvExpr.unary .not source.value
    | .convert => source.value
  cx.assign destination [] (.scalar value source.high)

/-- A comparison: zero for equal operands, one when the first is greater, and minus one
otherwise. -/
def compileCompare : Except Error (List Clause) := do
  let destination ← cx.instruction.register 0
  let left ← cx.operand 1
  let right ← cx.operand 2
  let value :=
    BvExpr.select (left.value.eqTo right.value) (cx.literal 0)
      (.select (.compare .ugt left.value right.value) (cx.literal 1) (cx.literal (-1)))
  cx.assign destination [] (.scalar value (left.high.either right.high))

end DalvikHorn.StepContext
