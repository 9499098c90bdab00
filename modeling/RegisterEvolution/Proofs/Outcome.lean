import Mathlib.Data.List.Forall2
import RegisterEvolution.Program.Execution

/-!
# `Proofs.Outcome` — what a computation can end in

Every part of the library computes on a state that an error does not undo, so a statement about a computation says two
things: how a result is related to the state that goes with it, and what state an error leaves behind. `Ends` is that
pair of statements about one outcome, and the lemmas here take a computation apart step by step.

* `Ends`, `finalState`, `answer` — what an outcome satisfies, the state in it, and what it says besides;
* `ends_bind`, `bind_eq_ok`, `Ends.imp`, `Ends.bind` — one step after the other;
* `Ends.exists_ok` — a computation without a possible error has a result;
* `except_bind_eq_ok`, `mapM_eq_ok_iff` — when a computation without a state has one.
-/

namespace RegisterEvolution

variable {ε σ α β : Type}

/-- An outcome is a result and a state related by `ok`, or an error and a state related by `err`. -/
def Ends (ok : α → σ → Prop) (err : ε → σ → Prop) : EStateM.Result ε σ α → Prop
  | .ok a s => ok a s
  | .error e s => err e s

/-- The state that an outcome leaves behind. -/
def finalState : EStateM.Result ε σ α → σ
  | .ok _ s => s
  | .error _ s => s

/-- What an outcome answers: its result or its error. -/
def answer : EStateM.Result ε σ α → Except ε α
  | .ok a _ => .ok a
  | .error e _ => .error e

/-- No error is possible. -/
abbrev Never {ε σ : Type} : ε → σ → Prop := fun _ _ => False

section Rules

variable {ok : α → σ → Prop} {err : ε → σ → Prop} {s : σ}

@[simp] theorem ends_ok {a : α} : Ends ok err (.ok a s) ↔ ok a s := Iff.rfl

@[simp] theorem ends_error {e : ε} : Ends ok err (.error e s) ↔ err e s := Iff.rfl

@[simp] theorem ends_pure {a : α} : Ends ok err ((pure a : EStateM ε σ α) s) ↔ ok a s := Iff.rfl

@[simp] theorem ends_throw {e : ε} : Ends ok err ((throw e : EStateM ε σ α) s) ↔ err e s := Iff.rfl

@[simp] theorem ends_get {ok : σ → σ → Prop} : Ends ok err ((get : EStateM ε σ σ) s) ↔ ok s s := Iff.rfl

@[simp] theorem ends_set {ok : PUnit → σ → Prop} {t : σ} :
    Ends ok err ((set t : EStateM ε σ PUnit) s) ↔ ok ⟨⟩ t := Iff.rfl

@[simp] theorem ends_modify {ok : PUnit → σ → Prop} {f : σ → σ} :
    Ends ok err ((modify f : EStateM ε σ PUnit) s) ↔ ok ⟨⟩ (f s) := Iff.rfl

/-- A computation followed by another one ends as the second one does from where the first one stops. -/
theorem ends_bind {ok : β → σ → Prop} {m : EStateM ε σ α} {f : α → EStateM ε σ β} :
    Ends ok err ((m >>= f) s) ↔ Ends (fun a t => Ends ok err (f a t)) err (m s) := by
  show Ends ok err (EStateM.bind m f s) ↔ _
  unfold EStateM.bind
  cases m s with
  | ok a t => exact Iff.rfl
  | error e t => exact Iff.rfl

/-- A computation followed by another one has a result exactly if both have one. -/
theorem bind_eq_ok {m : EStateM ε σ α} {f : α → EStateM ε σ β} {s t : σ} {b : β} :
    (m >>= f) s = .ok b t ↔ ∃ a u, m s = .ok a u ∧ f a u = .ok b t := by
  show EStateM.bind m f s = _ ↔ _
  unfold EStateM.bind
  cases m s with
  | ok a u =>
      refine ⟨fun h => ⟨a, u, rfl, h⟩, ?_⟩
      rintro ⟨_, _, ⟨⟩, h⟩
      exact h
  | error e u => exact ⟨nofun, fun ⟨_, _, h, _⟩ => nomatch h⟩

@[simp] theorem ends_map {ok : β → σ → Prop} {m : EStateM ε σ α} {f : α → β} :
    Ends ok err ((f <$> m) s) ↔ Ends (fun a t => ok (f a) t) err (m s) := by
  show Ends ok err (EStateM.map f m s) ↔ _
  unfold EStateM.map
  cases m s with
  | ok a t => exact Iff.rfl
  | error e t => exact Iff.rfl

end Rules

namespace Ends

variable {ok ok' : α → σ → Prop} {err err' : ε → σ → Prop} {r : EStateM.Result ε σ α}

/-- What an outcome satisfies may be weakened. -/
theorem imp (h : Ends ok err r) (hok : ∀ a s, ok a s → ok' a s) (herr : ∀ e s, err e s → err' e s) :
    Ends ok' err' r := by
  cases r with
  | ok a s => exact hok a s h
  | error e s => exact herr e s h

/-- A computation followed by another one, each given by what it ends in. -/
theorem bind {okB : β → σ → Prop} {m : EStateM ε σ α} {f : α → EStateM ε σ β} {s : σ} (h : Ends ok err (m s))
    (hok : ∀ a t, ok a t → Ends okB err' (f a t)) (herr : ∀ e t, err e t → err' e t) :
    Ends okB err' ((m >>= f) s) := ends_bind.mpr (h.imp hok herr)

/-- Two statements about one outcome hold together. -/
theorem and (h : Ends ok err r) (h' : Ends ok' err' r) :
    Ends (fun a s => ok a s ∧ ok' a s) (fun e s => err e s ∧ err' e s) r := by
  cases r with
  | ok a s => exact ⟨h, h'⟩
  | error e s => exact ⟨h, h'⟩

/-- Where no error is possible, there is a result. -/
theorem exists_ok (h : Ends ok Never r) : ∃ a s, r = .ok a s ∧ ok a s := by
  cases r with
  | ok a s => exact ⟨a, s, rfl, h⟩
  | error e s => exact h.elim

/-- Where no result is possible, there is an error. -/
theorem exists_error (h : Ends (fun _ _ => False) err r) : ∃ e s, r = .error e s ∧ err e s := by
  cases r with
  | ok a s => exact h.elim
  | error e s => exact ⟨e, s, rfl, h⟩

/-- What holds of every outcome holds of the state in it. -/
theorem final {P : σ → Prop} (h : Ends (fun _ s => P s) (fun _ s => P s) r) : P (finalState r) := by
  cases r with
  | ok a s => exact h
  | error e s => exact h

theorem of_final {P : σ → Prop} (h : P (finalState r)) : Ends (fun _ s => P s) (fun _ s => P s) r := by
  cases r with
  | ok a s => exact h
  | error e s => exact h

end Ends

/-! ## Steps without a state -/

/-- A chain of steps succeeds when each step does. -/
theorem except_bind_eq_ok {x : Except ε α} {f : α → Except ε β} {b : β} :
    (x >>= f) = .ok b ↔ ∃ a, x = .ok a ∧ f a = .ok b := by
  cases x with
  | error e => exact ⟨fun h => (nomatch h), fun ⟨a, h, _⟩ => (nomatch h)⟩
  | ok a =>
      refine ⟨fun h => ⟨a, rfl, h⟩, ?_⟩
      rintro ⟨a', h, h'⟩
      obtain rfl := Except.ok.inj h
      exact h'

/-- A step that refuses under a condition is passed where the condition does not hold. -/
theorem refuse_eq_ok_iff {q : Prop} [Decidable q] {e : ε} {f : PUnit → Except ε α} {a : α} :
    (if q then (throw e : Except ε PUnit) >>= f else f ⟨⟩) = .ok a ↔ ¬ q ∧ f ⟨⟩ = .ok a := by
  by_cases hq : q
  · rw [if_pos hq]
    exact ⟨nofun, fun h => absurd hq h.1⟩
  · rw [if_neg hq]
    exact ⟨fun h => ⟨hq, h⟩, fun h => h.2⟩

/-- Values are read one after the other exactly if each of them is read. -/
theorem mapM_eq_ok_iff {f : α → Except ε β} {xs : List α} {ys : List β} :
    xs.mapM f = .ok ys ↔ List.Forall₂ (fun x y => f x = .ok y) xs ys := by
  induction xs generalizing ys with
  | nil =>
      rw [List.forall₂_nil_left_iff]
      exact ⟨fun h => (Except.ok.inj h).symm, fun h => h ▸ rfl⟩
  | cons x rest ih =>
      rw [List.mapM_cons, List.forall₂_cons_left_iff, except_bind_eq_ok]
      refine exists_congr fun y => ?_
      rw [except_bind_eq_ok]
      constructor
      · rintro ⟨hy, tail, htail, hys⟩
        exact ⟨tail, hy, ih.mp htail, (Except.ok.inj hys).symm⟩
      · rintro ⟨tail, hy, htail, rfl⟩
        exact ⟨hy, tail, ih.mpr htail, rfl⟩

/-- Each value is related to some other, exactly if there is a list of those. -/
theorem exists_forall₂_iff {R : α → β → Prop} {xs : List α} :
    (∃ ys, List.Forall₂ R xs ys) ↔ ∀ x ∈ xs, ∃ y, R x y := by
  induction xs with
  | nil => exact ⟨fun _ => nofun, fun _ => ⟨[], .nil⟩⟩
  | cons x rest ih =>
      rw [List.forall_mem_cons, ← ih]
      constructor
      · rintro ⟨_, h⟩
        obtain ⟨y, ys, hy, hys, -⟩ := List.forall₂_cons_left_iff.mp h
        exact ⟨⟨y, hy⟩, ys, hys⟩
      · rintro ⟨⟨y, hy⟩, ys, hys⟩
        exact ⟨y :: ys, .cons hy hys⟩

end RegisterEvolution
