/-
The rules that operators have for their operands.

They are checked on the tree as it was written, before negations are pushed
down, children before a node's own comparisons; the first fault wins.
-/
import DocumentFilter.Error.Message
import DocumentFilter.Limits

namespace DocumentFilter

namespace Operation

/-- Membership lists must be arrays within the limit. -/
def checkMembership (limits : Limits) (op : Operation) : Except FilterError Unit :=
  match op.operand with
  | .array values =>
    if values.length ≤ limits.maxInValues then .ok ()
    else .error (.tooManyValues op.operator limits.maxInValues values.length)
  | _ => .error (.invalidOperand op.operator .notAnArray)

/-- Presence is asked for by a boolean. -/
def checkPresence (op : Operation) : Except FilterError Unit :=
  match op.operand with
  | .boolean _ => .ok ()
  | _ => .error (.invalidOperand op.operator .notABoolean)

/-- Element lists must be arrays that hold something. -/
def checkElements (op : Operation) : Except FilterError Unit :=
  match op.operand with
  | .array (_ :: _) => .ok ()
  | _ => .error (.invalidOperand op.operator .notANonEmptyArray)

/-- A size is a number that is whole, not below zero and below `2^63` as a binary64 number. -/
def checkSize (op : Operation) : Except FilterError Unit :=
  let count : Option Binary64 :=
    match op.operand with
    | .number n => n.toBinary64?
    | _ => none
  match count with
  | some x =>
    if x.isBelowZero then .error (.invalidOperand op.operator .notACount)
    else if !x.fitsInt64 then .error (.invalidOperand op.operator .tooLarge)
    else if x.isIntegral then .ok ()
    else .error (.invalidOperand op.operator .notACount)
  | none => .error (.invalidOperand op.operator .notACount)

/-- The rule of the operation's operator. -/
def check (limits : Limits) (op : Operation) : Except FilterError Unit :=
  match op.operator with
  | .isIn | .notIn => op.checkMembership limits
  | .present => op.checkPresence
  | .all | .notAny => op.checkElements
  | .size => op.checkSize
  | .eq | .ne | .gt | .gte | .lt | .lte => .ok ()

end Operation

/-- Checks every operand of the tree, those of children first. -/
def Expression.checkOperands (limits : Limits) (e : Expression) : Except FilterError Unit :=
  e.childrenFirst.forM fun c => c.operations.forM (Operation.check limits)

end DocumentFilter
