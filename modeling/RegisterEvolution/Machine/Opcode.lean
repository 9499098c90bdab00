import RegisterEvolution.Fault

/-!
# `Machine.Opcode` — the operations of the register machine

An operation combines the destination register with one operand. Arithmetic, comparison and action operations yield
a number for the destination; a branch yields a condition and writes nothing.

* `saturate` — every operand and every result passes through it, so registers stay finite and bounded;
* `Arithmetic` — the four basic operations, which the machine treats as given;
* `Opcode.evaluate` — the result of an operation.
-/

namespace RegisterEvolution

/-- The bound of every register in magnitude. -/
def saturationBound : Float := 1e6

/-- The tolerance of the equality test, and the smallest denominator that is divided by. -/
def tolerance : Float := 1e-9

/-- `x` clipped to the saturation bound; what is not a number becomes zero. -/
def saturate (x : Float) : Float :=
  if x.isNaN then 0.0
  else
    let capped := if x < saturationBound then x else saturationBound
    if -saturationBound < capped then capped else -saturationBound

/-- What an operation is for. -/
inductive OpKind where
  | arithmetic
  | comparison
  | branch
  | action
  deriving Repr, DecidableEq

/-- The kinds in their customary order. -/
def OpKind.all : List OpKind := [.arithmetic, .comparison, .branch, .action]

/-- The name of a kind. -/
def OpKind.name : OpKind → String
  | arithmetic => "arithmetic"
  | comparison => "comparison"
  | branch => "branch"
  | action => "action"

/-- The operations. -/
inductive Opcode where
  | add
  | sub
  | mul
  | div
  | mov
  | max
  | min
  | lt
  | gt
  | ifLt
  | ifGt
  | ifEq
  | vote
  deriving Repr, DecidableEq

namespace Opcode

/-- Every operation, in the order in which random generation numbers them. -/
def all : List Opcode := [add, sub, mul, div, mov, max, min, lt, gt, ifLt, ifGt, ifEq, vote]

/-- The name of an operation in program text. -/
def name : Opcode → String
  | add => "add"
  | sub => "sub"
  | mul => "mul"
  | div => "div"
  | mov => "mov"
  | max => "max"
  | min => "min"
  | lt => "lt"
  | gt => "gt"
  | ifLt => "if_lt"
  | ifGt => "if_gt"
  | ifEq => "if_eq"
  | vote => "vote"

/-- The operation of a given name. -/
def ofName? (s : String) : Option Opcode := all.find? fun op => op.name == s

/-- What an operation is for. -/
def kind : Opcode → OpKind
  | lt | gt => .comparison
  | ifLt | ifGt | ifEq => .branch
  | vote => .action
  | _ => .arithmetic

/-- Whether an operation is a branch. -/
def isBranch (op : Opcode) : Bool := op.kind == .branch

theorem mem_all (op : Opcode) : op ∈ all := by cases op <;> decide

theorem ofName?_name (op : Opcode) : ofName? op.name = some op := by cases op <;> decide

theorem name_of_ofName? {s : String} {op : Opcode} (h : ofName? s = some op) : op.name = s := by
  simpa using List.find?_some h

end Opcode

/-- The four basic operations on numbers. -/
structure Arithmetic where
  add : Float → Float → Float
  sub : Float → Float → Float
  mul : Float → Float → Float
  div : Float → Float → Float

/-- Binary64 arithmetic. -/
def Arithmetic.binary64 : Arithmetic := ⟨(· + ·), (· - ·), (· * ·), (· / ·)⟩

/-- What an operation yields. -/
inductive OpResult where
  | number (x : Float)
  | condition (holds : Bool)

namespace Opcode

/-- The number that an operation makes of two saturated operands; branches make none. -/
def combine (A : Arithmetic) (a b : Float) : Opcode → Float
  | add => A.add a b
  | sub => A.sub a b
  | mul => A.mul a b
  | div => if b.abs ≤ tolerance then 0.0 else A.div a b
  | mov => b
  | max => if a < b then b else a
  | min => if b < a then b else a
  | lt => if a < b then 1.0 else 0.0
  | gt => if b < a then 1.0 else 0.0
  | vote => A.add a b
  | ifLt | ifGt | ifEq => a

/-- The condition of a branch on two saturated operands; other operations always hold. -/
def holds (A : Arithmetic) (a b : Float) : Opcode → Bool
  | ifLt => a < b
  | ifGt => b < a
  | ifEq => (A.sub a b).abs ≤ tolerance
  | _ => true

/-- The result of an operation under the given arithmetic, with operands and number saturated. -/
def evaluateWith (A : Arithmetic) (op : Opcode) (a b : Float) : OpResult :=
  if op.isBranch then .condition (op.holds A (saturate a) (saturate b))
  else .number (saturate (op.combine A (saturate a) (saturate b)))

/-- The result of an operation. -/
def evaluate (op : Opcode) (a b : Float) : OpResult := op.evaluateWith .binary64 a b

end Opcode

end RegisterEvolution
