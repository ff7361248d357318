import Mathlib.Data.List.Basic

/-!
# Machines driven by chosen actions

A machine has starting states and a partial step for each action. The scheduler of a
concurrent program, and whatever its clients choose to call, are the actions; the step of a
chosen action is deterministic. Runs are restricted by a guard on the state before a step and
the action taken there, so that a property of every run and a property of the runs that obey
a discipline are statements about the same relation.
-/
namespace OsLab.Lib

universe u v w

/-- Starting states, and the effect of an action where it is enabled. -/
structure Machine (σ : Type u) (α : Type v) where
  /-- States a run may start from. -/
  init : σ → Prop
  /-- The state after an action, or `none` where the action cannot happen. -/
  step : σ → α → Option σ

namespace Machine

variable {σ : Type u} {α : Type v} (machine : Machine σ α)

/-- States reached by runs whose every step meets `guard` in the state it starts from. -/
inductive Reach (guard : σ → α → Prop) : σ → Prop where
  | start {s : σ} (initial : machine.init s) : Reach guard s
  | step {s s' : σ} {act : α} (earlier : Reach guard s) (met : guard s act)
      (taken : machine.step s act = some s') : Reach guard s'

/-- The guard that every step meets. -/
def Any : σ → α → Prop := fun _ _ => True

/-- Perform a list of actions in order, stopping at the first that is not enabled or does not
meet the guard. -/
def exec (guard : σ → α → Prop) [∀ s act, Decidable (guard s act)] : σ → List α → Option σ
  | s, [] => some s
  | s, act :: rest =>
    if guard s act then (machine.step s act).bind fun s' => exec guard s' rest else none

variable {machine} {guard : σ → α → Prop}

/-- The invariant rule: what holds at the start and survives every guarded step holds in
every state reached. -/
theorem Reach.invariant {P : σ → Prop} {s : σ} (reached : machine.Reach guard s)
    (base : ∀ s, machine.init s → P s)
    (preserved : ∀ s act s', machine.Reach guard s → P s → guard s act →
      machine.step s act = some s' → P s') : P s := by
  induction reached with
  | start initial => exact base _ initial
  | step earlier met taken ih => exact preserved _ _ _ earlier ih met taken

/-- A guard that is weaker in the states reached reaches at least as much. -/
theorem Reach.mono {weaker : σ → α → Prop} {s : σ} (reached : machine.Reach guard s)
    (implied : ∀ s act, machine.Reach guard s → guard s act → weaker s act) :
    machine.Reach weaker s := by
  induction reached with
  | start initial => exact .start initial
  | step earlier met taken ih => exact .step ih (implied _ _ earlier met) taken

/-- What an action changes only for its owner stays as it was at the start for everybody who
owns none of the actions taken. -/
theorem Reach.untouched {ι : Type w} {β : Type w} {s : σ} {start : β}
    (reached : machine.Reach guard s) (owner : α → ι) (view : σ → ι → β) (active : ι → Prop)
    (base : ∀ s, machine.init s → ∀ i, view s i = start)
    (frame : ∀ s act s', machine.step s act = some s' → ∀ i, i ≠ owner act →
      view s' i = view s i)
    (few : ∀ s act, guard s act → active (owner act)) (i : ι) (inactive : ¬ active i) :
    view s i = start := by
  induction reached with
  | start initial => exact base _ initial i
  | step earlier met taken ih =>
    have different : i ≠ owner _ := fun same => inactive (same ▸ few _ _ met)
    rw [frame _ _ _ taken i different, ih]

/-- A list of actions performed from a reached state ends in a reached state. -/
theorem Reach.exec [∀ s act, Decidable (guard s act)] {s s' : σ} {acts : List α}
    (reached : machine.Reach guard s) (done : machine.exec guard s acts = some s') :
    machine.Reach guard s' := by
  induction acts generalizing s with
  | nil =>
    obtain rfl := Option.some.inj done
    exact reached
  | cons act rest ih =>
    simp only [Machine.exec, Option.ite_none_right_eq_some, Option.bind_eq_some_iff] at done
    obtain ⟨met, middle, taken, later⟩ := done
    exact ih (.step reached met taken) later

/-- What a performed list of actions shows of its last state is true of a reached state. -/
theorem Reach.exec_map [∀ s act, Decidable (guard s act)] {β : Type w} {s : σ} {acts : List α}
    {f : σ → β} {shown : β} (initial : machine.init s)
    (done : (machine.exec guard s acts).map f = some shown) :
    ∃ s', machine.Reach guard s' ∧ f s' = shown := by
  obtain ⟨s', performed, same⟩ := Option.map_eq_some_iff.mp done
  exact ⟨s', (Reach.start initial).exec performed, same⟩

instance (s : σ) (act : α) : Decidable (Any s act) := isTrue trivial

end Machine

end OsLab.Lib
