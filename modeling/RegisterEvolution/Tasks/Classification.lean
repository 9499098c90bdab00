import RegisterEvolution.Tasks.Basic
import RegisterEvolution.Tasks.Samples

/-!
# `Tasks.Classification` — sorting samples into classes

The features of a sample are the inputs of a program, and the class that it predicts is the action register with the
greatest value. A tie is no prediction. Programs are scored by the share of right predictions.

* `Accuracy` — the share so far;
* `Classification.ofSamples` — the task made of labelled samples;
* `Classification.predict`, `Classification.evaluate` — one prediction, and the score.
-/

namespace RegisterEvolution

/-- How many predictions were right. -/
structure Accuracy where
  correct : Nat
  total : Nat
  deriving Repr, DecidableEq

namespace Accuracy

/-- No prediction has been seen. -/
def none : Accuracy := ⟨0, 0⟩

/-- One more prediction, which may be absent. -/
def observe (a : Accuracy) (predicted : Option Int) (label : Int) : Accuracy :=
  ⟨if predicted = some label then a.correct + 1 else a.correct, a.total + 1⟩

/-- The share of right predictions, zero when there are none. -/
def value (a : Accuracy) : Float := if a.total = 0 then 0.0 else Decimal.quotient a.correct a.total

end Accuracy

/-- Samples to be sorted into classes. -/
structure Classification where
  samples : List LabelledSample
  inputCount : Nat
  actionCount : Int

namespace Classification

/-- Labels from here on are refused, as are those that are as far below zero. -/
def labelLimit : Int := Nat.pow 2 63

/-- The label in a value; a fraction is cut off. -/
def toLabel (v : Value) : Except Fault Int :=
  match v with
  | .float x =>
    match Decimal.Shape.ofFloat x with
    | .finite d => .ok d.truncate
    | .infinite _ => .error ⟨.overflow, "a label cannot be infinite"⟩
    | .notANumber => .error ⟨.badValue, "a label must be a number"⟩
  | .text s =>
    match Decimal.readInt? s with
    | some n => .ok n
    | none => .error ⟨.badValue, "a label that is no number: " ++ Text.quoted s⟩
  | .int n => .ok n
  | .bool b => .ok (if b then 1 else 0)
  | v => .error ⟨.wrongType, "a label must be a number, not " ++
      Text.quoted v.typeName⟩

/-- Labels that are not too large for a column of integers. -/
def checkLabelSize (labels : List Int) : Except Fault Unit :=
  if labels.all fun l => -labelLimit ≤ l && l < labelLimit then .ok ()
  else .error ⟨.overflow, "label out of range"⟩

/-- The different numbers of a list in ascending order. -/
def distinct (ns : List Int) : List Int := (ns.mergeSort fun a b => a ≤ b).eraseReps

/-- The task of sorting samples with the given features and labels into `actionCount` classes. -/
def ofValues (samples : List (Value × Value)) (actionCount : Int) : Except Error Classification := do
  if samples.isEmpty then throw (.configuration .noSamples)
  if actionCount < 1 then throw (.ofConfiguration (.countNotPositive "action_count" actionCount))
  let rows ← ofFault (samples.mapM fun (features, _) => features.toVector)
  let width := (rows.headD []).length
  if rows.any fun row => row.length ≠ width then
    throw (.ofConfiguration (.unevenSamples ((distinct (rows.map fun row => (row.length : Int))).map Int.toNat)))
  let labels ← ofFault (samples.mapM fun (_, label) => toLabel label)
  ofFault (checkLabelSize labels)
  let outside := labels.filter fun l => l < 0 || actionCount ≤ l
  if !outside.isEmpty then throw (.ofConfiguration (.labelsOutside (distinct outside) actionCount))
  return ⟨rows.zipWith LabelledSample.mk labels, width, actionCount⟩
where
  /-- A general failure as an error. -/
  ofFault {α : Type} (r : Except Fault α) : Except Error α :=
    match r with
    | .ok a => .ok a
    | .error f => .error (.fault f)

/-- The task made of samples with known classes. -/
def ofSampleSet (s : SampleSet) : Except Error Classification :=
  ofValues (s.samples.map fun x => (.list (x.features.map .float), .int x.label)) s.names.length

/-- The number of samples. -/
def size (c : Classification) : Nat := c.samples.length

/-- The class that a program predicts for features. -/
def predict {σ : Type} (c : Classification) (program : Program) (features : Value) : Scoring σ (Option Int) := do
  let r ← Scoring.execute program features
  match r.argmax c.actionCount with
  | [winner] => return some winner
  | _ => return none

/-- What the predictions for `samples` add to an accuracy. -/
def observeAll {σ : Type} (c : Classification) (program : Program) : List LabelledSample → Accuracy → Scoring σ Accuracy
  | [], a => return a
  | s :: rest, a => do
    let predicted ← c.predict program (.list (s.features.map .float))
    observeAll c program rest (a.observe predicted s.label)

/-- The share of samples for which a program predicts the right class. -/
def evaluate {σ : Type} (c : Classification) (program : Program) : Scoring σ Float := do
  return (← c.observeAll program c.samples .none).value

/-- Classification as a task. -/
def task {σ : Type} (c : Classification) : Task σ :=
  ⟨"ClassificationTask", c.inputCount, c.actionCount, fun program => do return .float (← c.evaluate program)⟩

end Classification

end RegisterEvolution
