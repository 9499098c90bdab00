import RegisterEvolution.Machine.Vector

/-!
# `Machine.Registers` — working registers and the input bank

A program works on a bank of registers and reads a bank of inputs. The first registers double as action registers: a
task reads the chosen action off them.

* `Registers.reset` — zeroes both banks and loads the inputs;
* `Registers.argmax` — the action registers that hold the greatest value.
-/

namespace RegisterEvolution

/-- The two banks. -/
structure Registers where
  values : Array Float
  inputs : Array Float
  deriving Repr

/-- A computation on the two banks; what it did before an error stays done. -/
abbrev Machine (α : Type) := EStateM Error Registers α

/--
The position that an index denotes in a bank of `size` registers; negative indices count from the end.
-/
def position? (size : Nat) (index : Int) : Option Nat :=
  if 0 ≤ index then
    if index < size then some index.toNat else none
  else if -(size : Int) ≤ index then some (index + size).toNat
  else none

/-- The largest finite number. -/
def largestFloat : Float := 1.7976931348623157e308

/-- An input as the bank holds it: a missing number is zero, infinities are the largest finite numbers. -/
def finiteInput (x : Float) : Float :=
  if x.isNaN then 0.0
  else if x.isInf then (if 0.0 < x then largestFloat else -largestFloat)
  else x

namespace Registers

/-- Banks full of zeros. -/
def zeros (registerCount inputCount : Nat) : Registers :=
  ⟨Array.replicate registerCount 0.0, Array.replicate inputCount 0.0⟩

/-- Banks full of zeros; sizes must not be negative. -/
def zeros? (registerCount inputCount : Int) : Except Fault Registers :=
  if registerCount < 0 ∨ inputCount < 0 then .error ⟨.badValue, "negative dimensions are not allowed"⟩
  else .ok (zeros registerCount.toNat inputCount.toNat)

/-- The number of working registers. -/
def size (r : Registers) : Nat := r.values.size

/-- Both banks set to zero. -/
def cleared (r : Registers) : Registers := zeros r.values.size r.inputs.size

/-- The value in a bank at an index. -/
def read (bank : Array Float) (index : Int) : Except Fault Float :=
  match position? bank.size index with
  | some i => .ok (bank.getD i 0.0)
  | none => .error Fault.indexOutOfRange

/-- The banks with the register at an index overwritten. -/
def write (r : Registers) (index : Int) (x : Float) : Except Fault Registers :=
  match position? r.values.size index with
  | some i => .ok { r with values := r.values.setIfInBounds i x }
  | none => .error Fault.indexOutOfRange

/-- Zeroes both banks, then loads `inputs` when they are given; their number must be the size of the input bank. -/
def reset (inputs : Option (List Float)) : Machine Unit := do
  modify cleared
  match inputs with
  | none => pure ()
  | some xs =>
    let r ← get
    if xs.length = r.inputs.size then set { r with inputs := (xs.map finiteInput).toArray }
    else throw (.task (.wrongInputCount r.inputs.size xs.length))

/-- `reset` with inputs that still have to be read; null stands for no inputs. -/
def resetFrom (inputs : Value) : Machine Unit :=
  match inputs with
  | .null => reset none
  | v =>
    match v.toVector with
    | .ok xs => reset (some xs)
    | .error f => do
      modify cleared
      throw (.fault f)

/-- The first action registers; a negative count leaves that many registers out at the end. -/
def actions (r : Registers) (actionCount : Int) : List Float :=
  let size := if 0 ≤ actionCount then actionCount.toNat else r.values.size - (-actionCount).toNat
  r.values.toList.take size

/-- The greatest of two numbers; what is not a number prevails. -/
def greater (a b : Float) : Float := if a.isNaN then a else if b.isNaN then b else if a < b then b else a

/-- The indices at which `xs` holds `best`. -/
def indicesOf (best : Float) (xs : List Float) : List Nat :=
  (xs.zipIdx.filter fun (x, _) => x == best).map (·.2)

/-- The indices of the action registers that hold the greatest value, in ascending order. -/
def argmax (r : Registers) (actionCount : Int) : List Nat :=
  match r.actions actionCount with
  | [] => []
  | x :: xs => indicesOf (xs.foldl greater x) (x :: xs)

/-- A bank in messages. -/
def displayBank (bank : Array Float) : String := (Value.list (bank.toList.map Value.float)).display

/-- The banks in messages. -/
def display (r : Registers) : String :=
  "Registers(values=" ++ displayBank r.values ++ ", inputs=" ++ displayBank r.inputs ++ ")"

end Registers

end RegisterEvolution
