import Mathlib.Data.Option.Basic

/-!
# Programs that make requests

A program returns a value or makes a request and goes on with the answer. What the requests
do is left to a handler, a partial function on states: code written once can be run against a
cache, against the plain store the cache implements, or one request at a time between the
requests of other programs.
-/
namespace OsLab.Lib

variable {ι κ : Type} {out : ι → Type} {out' : κ → Type} {σ τ α β γ : Type}

/-- A program over the requests `ι`, where a request is answered by a value of its `out`. -/
inductive Prog (ι : Type) (out : ι → Type) (α : Type) : Type where
  | ret (value : α)
  /-- It makes a request and goes on with the answer. -/
  | call (op : ι) (next : out op → Prog ι out α)

namespace Prog

/-- Go on with another program where one returns. -/
def bind : Prog ι out α → (α → Prog ι out β) → Prog ι out β
  | .ret value, rest => rest value
  | .call op next, rest => .call op fun answer => (next answer).bind rest

instance : Monad (Prog ι out) where
  pure := .ret
  bind := .bind

/-- The program that makes one request and returns the answer. -/
def request (op : ι) : Prog ι out (out op) := .call op .ret

/-- Replace every request by a program that answers it. -/
def translate (answer : (op : ι) → Prog κ out' (out op)) : Prog ι out α → Prog κ out' α
  | .ret value => .ret value
  | .call op next => (answer op).bind fun value => (next value).translate answer

/-- How requests change a state and what they answer; `none` where a request never returns. -/
abbrev Handler (ι : Type) (out : ι → Type) (σ : Type) : Type :=
  (op : ι) → σ → Option (out op × σ)

/-- Run a program to its end. -/
def run (handle : Handler ι out σ) : Prog ι out α → σ → Option (α × σ)
  | .ret value, s => some (value, s)
  | .call op next, s => (handle op s).bind fun answer => (next answer.1).run handle answer.2

variable (handle : Handler ι out σ)

@[simp] theorem run_request (op : ι) (s : σ) :
    (request op : Prog ι out (out op)).run handle s = handle op s := by
  simp only [request, run]
  cases handle op s <;> rfl

/-- The parts of a program run one after the other. -/
@[simp] theorem run_bind (program : Prog ι out α) (rest : α → Prog ι out β) (s : σ) :
    (program >>= rest).run handle s =
      (program.run handle s).bind fun result => (rest result.1).run handle result.2 := by
  show (program.bind rest).run handle s = _
  induction program generalizing s with
  | ret value => rfl
  | call op next ih =>
    simp only [bind, run, Option.bind_assoc]
    cases handle op s with
    | none => rfl
    | some answer => exact ih answer.1 answer.2

/-- The request at which a run gets stuck. -/
def stop (handle : Handler ι out σ) : Prog ι out α → σ → Option ι
  | .ret _, _ => none
  | .call op next, s =>
    match handle op s with
    | some answer => (next answer.1).stop handle answer.2
    | none => some op

/-- A program gets stuck in its first part, or in what follows. -/
theorem stop_bind (program : Prog ι out α) (rest : α → Prog ι out β) (s : σ) :
    (program >>= rest).stop handle s =
      match program.run handle s with
      | some result => (rest result.1).stop handle result.2
      | none => program.stop handle s := by
  show (program.bind rest).stop handle s = _
  induction program generalizing s with
  | ret value => rfl
  | call op next ih =>
    simp only [bind, run, stop]
    cases handle op s with
    | none => rfl
    | some answer => exact ih answer.1 answer.2

/-- A run that returns does not get stuck. -/
theorem stop_of_run {handle : Handler ι out σ} {program : Prog ι out α} {s : σ} {result : α × σ}
    (done : program.run handle s = some result) : program.stop handle s = none := by
  induction program generalizing s with
  | ret value => rfl
  | call op next ih =>
    obtain ⟨answer, handled, rest⟩ := Option.bind_eq_some_iff.mp done
    simp only [stop, handled]
    exact ih answer.1 rest

/-- The handler that answers only the requests that are allowed where they are made. -/
def restrict (allowed : ι → σ → Prop) [∀ op s, Decidable (allowed op s)]
    (handle : Handler ι out σ) : Handler ι out σ :=
  fun op s => if allowed op s then handle op s else none

/-- What such a handler answers was allowed. -/
theorem restrict_some {handle : Handler ι out σ} {allowed : ι → σ → Prop}
    [∀ op s, Decidable (allowed op s)] {op : ι} {s : σ} {result : out op × σ}
    (done : restrict allowed handle op s = some result) :
    allowed op s ∧ handle op s = some result := by
  simpa only [restrict, Option.ite_none_right_eq_some] using done

/-- A program that makes allowed requests only does with them what it does anyway. -/
theorem run_of_restrict {handle : Handler ι out σ} {allowed : ι → σ → Prop}
    [∀ op s, Decidable (allowed op s)] {program : Prog ι out α} {s : σ} {result : α × σ}
    (done : program.run (restrict allowed handle) s = some result) :
    program.run handle s = some result := by
  induction program generalizing s with
  | ret value => exact done
  | call op next ih =>
    simp only [run, Option.bind_eq_some_iff] at done ⊢
    obtain ⟨answer, handled, rest⟩ := done
    exact ⟨answer, (restrict_some handled).2, ih answer.1 rest⟩

/-- Running a translated program is running the program with the requests answered by the
translation, where the answers work on a part of the state that `get` and `set` delimit. -/
theorem run_translate {handle : Handler ι out σ} {outer : Handler κ out' τ}
    {answer : (op : ι) → Prog κ out' (out op)} {put : σ → τ}
    (answered : ∀ op s, (answer op).run outer (put s) =
      (handle op s).map fun result => (result.1, put result.2))
    (program : Prog ι out α) (s : σ) :
    (program.translate answer).run outer (put s) =
      (program.run handle s).map fun result => (result.1, put result.2) := by
  induction program generalizing s with
  | ret value => rfl
  | call op next ih =>
    have step := run_bind outer (answer op) (fun value => (next value).translate answer) (put s)
    simp only [translate, run]
    refine step.trans ?_
    rw [answered op s]
    cases handle op s with
    | none => rfl
    | some result => exact ih result.1 result.2

/-! ## What a run leads to -/

/-- A run leads to `Q` where it returns, and to `E` where it never does: `E` is `True` in a statement
on the runs that return, and `False` in one that they all do. -/
def Outcome (handle : Handler ι out σ) (program : Prog ι out α) (s : σ) (Q : α → σ → Prop)
    (E : Prop) : Prop :=
  match program.run handle s with
  | some result => Q result.1 result.2
  | none => E

namespace Outcome

variable {handle : Handler ι out σ} {program : Prog ι out α} {s : σ} {Q Q' : α → σ → Prop}
  {E E' : Prop}

theorem of_some {value : α} {s' : σ} (done : program.run handle s = some (value, s'))
    (holds : Q value s') : Outcome handle program s Q E := by
  rw [Outcome, done]
  exact holds

theorem of_none (stuck : program.run handle s = none) (holds : E) :
    Outcome handle program s Q E := by
  rw [Outcome, stuck]
  exact holds

/-- What holds of a run that has returned. -/
theorem result (outcome : Outcome handle program s Q E) {value : α} {s' : σ}
    (done : program.run handle s = some (value, s')) : Q value s' := by
  rw [Outcome, done] at outcome
  exact outcome

/-- A run that cannot get stuck returns. -/
theorem returns (outcome : Outcome handle program s Q E) (never : ¬E) :
    ∃ value s', program.run handle s = some (value, s') ∧ Q value s' := by
  rw [Outcome] at outcome
  split at outcome
  · rename_i result done
    exact ⟨result.1, result.2, done, outcome⟩
  · exact absurd outcome never

theorem ret {value : α} (holds : Q value s) :
    Outcome handle (pure value : Prog ι out α) s Q E := holds

/-- The parts of a program one after the other. -/
theorem bind {rest : α → Prog ι out β} {Q' : β → σ → Prop}
    (first : Outcome handle program s Q E')
    (next : ∀ value s', Q value s' → Outcome handle (rest value) s' Q' E)
    (stuck : E' → E) : Outcome handle (program >>= rest) s Q' E := by
  rw [Outcome] at first ⊢
  rw [run_bind]
  split at first
  · rename_i result done
    rw [done]
    exact next result.1 result.2 first
  · rename_i done
    rw [done]
    exact stuck first

/-- The first part of a program leads to where the rest leads to what is wanted. -/
theorem andThen {rest : α → Prog ι out β} {Q : β → σ → Prop}
    (first : Outcome handle program s (fun value s' => Outcome handle (rest value) s' Q E) E) :
    Outcome handle (program >>= rest) s Q E :=
  first.bind (fun _ _ holds => holds) id

theorem mono (outcome : Outcome handle program s Q E) (weaker : ∀ value s', Q value s' → Q' value s')
    (stuck : E → E') : Outcome handle program s Q' E' := by
  rw [Outcome] at outcome ⊢
  split at outcome
  · exact weaker _ _ outcome
  · exact stuck outcome

/-- One request. -/
theorem request {op : ι} {Q : out op → σ → Prop}
    (served : ∀ answer s', handle op s = some (answer, s') → Q answer s')
    (stuck : handle op s = none → E) :
    Outcome handle (Prog.request op : Prog ι out (out op)) s Q E := by
  rw [Outcome, run_request]
  cases done : handle op s with
  | none => exact stuck done
  | some result => exact served result.1 result.2 done

end Outcome

/-! ## What a run shows -/

/-- What is observed of the requests of a run, in order. -/
def observed (handle : Handler ι out σ) (observe : ι → Option γ) : Prog ι out α → σ → List γ
  | .ret _, _ => []
  | .call op next, s => (observe op).toList ++
    match handle op s with
    | some answer => (next answer.1).observed handle observe answer.2
    | none => []

theorem observed_request (observe : ι → Option γ) (op : ι) (s : σ) :
    (request op : Prog ι out (out op)).observed handle observe s = (observe op).toList := by
  simp only [request, observed]
  cases handle op s <;> simp

/-- What is observed of the parts of a program one after the other. -/
theorem observed_bind (observe : ι → Option γ) (program : Prog ι out α)
    (rest : α → Prog ι out β) (s : σ) :
    (program >>= rest).observed handle observe s = program.observed handle observe s ++
      match program.run handle s with
      | some result => (rest result.1).observed handle observe result.2
      | none => [] := by
  show (program.bind rest).observed handle observe s = _
  induction program generalizing s with
  | ret value => rfl
  | call op next ih =>
    simp only [bind, run, observed, List.append_assoc]
    cases handle op s with
    | none => simp
    | some answer => exact congrArg (_ ++ ·) (ih answer.1 answer.2)

/-- A run leads to `Q` where it returns, and to `E` where it never does, with what was observed. -/
def Shows (handle : Handler ι out σ) (observe : ι → Option γ) (program : Prog ι out α) (s : σ)
    (Q : α → σ → List γ → Prop) (E : List γ → Prop) : Prop :=
  match program.run handle s with
  | some result => Q result.1 result.2 (program.observed handle observe s)
  | none => E (program.observed handle observe s)

namespace Shows

variable {handle : Handler ι out σ} {observe : ι → Option γ} {program : Prog ι out α} {s : σ}
  {Q Q' : α → σ → List γ → Prop} {E E' : List γ → Prop}

theorem of_some {value : α} {s' : σ} {seen : List γ}
    (done : program.run handle s = some (value, s'))
    (shown : program.observed handle observe s = seen) (holds : Q value s' seen) :
    Shows handle observe program s Q E := by
  rw [Shows, done, shown]
  exact holds

theorem of_none {seen : List γ} (stuck : program.run handle s = none)
    (shown : program.observed handle observe s = seen) (holds : E seen) :
    Shows handle observe program s Q E := by
  rw [Shows, stuck, shown]
  exact holds

theorem ret {value : α} (holds : Q value s []) :
    Shows handle observe (pure value : Prog ι out α) s Q E := holds

theorem mono (shows_ : Shows handle observe program s Q E)
    (weaker : ∀ value s' seen, Q value s' seen → Q' value s' seen)
    (stuck : ∀ seen, E seen → E' seen) : Shows handle observe program s Q' E' := by
  rw [Shows] at shows_ ⊢
  split at shows_
  · exact weaker _ _ _ shows_
  · exact stuck _ shows_

/-- The parts of a program one after the other. -/
theorem bind {rest : α → Prog ι out β} {Q : β → σ → List γ → Prop}
    (first : Shows handle observe program s (fun value s' seen =>
      Shows handle observe (rest value) s' (fun value s'' more => Q value s'' (seen ++ more))
        fun more => E (seen ++ more)) E) :
    Shows handle observe (program >>= rest) s Q E := by
  rw [Shows] at first ⊢
  rw [run_bind, observed_bind]
  cases done : program.run handle s with
  | none =>
    rw [done] at first
    simpa using first
  | some result =>
    rw [done] at first
    exact first

/-- One request. -/
theorem request {op : ι} {Q : out op → σ → List γ → Prop}
    (served : ∀ answer s', handle op s = some (answer, s') → Q answer s' (observe op).toList)
    (stuck : handle op s = none → E (observe op).toList) :
    Shows handle observe (Prog.request op : Prog ι out (out op)) s Q E := by
  rw [Shows, run_request, observed_request]
  cases done : handle op s with
  | none => exact stuck done
  | some result => exact served result.1 result.2 done

/-- A request that is answered. -/
theorem answered {op : ι} {Q : out op → σ → List γ → Prop} {answer : out op} {s' : σ}
    (served : handle op s = some (answer, s')) (holds : Q answer s' (observe op).toList) :
    Shows handle observe (Prog.request op : Prog ι out (out op)) s Q E := by
  refine request (fun other s'' also => ?_) fun stuck => ?_
  · obtain ⟨rfl, rfl⟩ := Prod.mk.inj (Option.some.inj (served.symm.trans also))
    exact holds
  · rw [served] at stuck
    contradiction

/-- A translated program shows what the program does, where the answers work on a part of the state
and show what the requests do. -/
theorem translate {outer : Handler κ out' τ} {observe' : κ → Option γ}
    {answer : (op : ι) → Prog κ out' (out op)} (put : σ → τ)
    (answered : ∀ op s, (answer op).run outer (put s) =
      (handle op s).map fun result => (result.1, put result.2))
    (shown : ∀ op s, (answer op).observed outer observe' (put s) = (observe op).toList)
    {Q : α → τ → List γ → Prop}
    (inner : Shows handle observe program s (fun value s' seen => Q value (put s') seen) E) :
    Shows outer observe' (program.translate answer) (put s) Q E := by
  have same : (program.translate answer).observed outer observe' (put s) =
      program.observed handle observe s := by
    clear inner
    induction program generalizing s with
    | ret value => rfl
    | call op next ih =>
      have split := observed_bind outer observe' (answer op)
        (fun value => (next value).translate answer) (put s)
      simp only [Prog.translate, observed]
      refine split.trans ?_
      rw [shown, answered]
      cases handle op s with
      | none => rfl
      | some result => exact congrArg (_ ++ ·) (ih result.1)
  rw [Shows, run_translate answered, same]
  rw [Shows] at inner
  cases done : program.run handle s with
  | none =>
    rw [done] at inner
    exact inner
  | some result =>
    rw [done] at inner
    exact inner

/-- A run that cannot get stuck returns. -/
theorem returns (shows_ : Shows handle observe program s Q E) (never : ∀ seen, ¬ E seen) :
    ∃ value s', program.run handle s = some (value, s') ∧
      Q value s' (program.observed handle observe s) := by
  rw [Shows] at shows_
  split at shows_
  · rename_i result done
    exact ⟨result.1, result.2, done, shows_⟩
  · exact absurd shows_ (never _)

/-- What a run leads to, without what is observed. -/
theorem outcome {Q : α → σ → Prop} {E : Prop}
    (shows_ : Shows handle observe program s (fun value s' _ => Q value s') fun _ => E) :
    Outcome handle program s Q E := shows_

end Shows

/-! ## What a program keeps -/

/-- A program that starts where `P` holds ends where `P` holds, if it returns. -/
def Keeps (handle : Handler ι out σ) (P : σ → Prop) (program : Prog ι out α) : Prop :=
  ∀ s, P s → program.Outcome handle s (fun _ s' => P s') True

namespace Keeps

variable {handle : Handler ι out σ} {P : σ → Prop} {program : Prog ι out α}

theorem pure (value : α) : Keeps handle P (Pure.pure value : Prog ι out α) :=
  fun _ holds => .ret holds

theorem bind {rest : α → Prog ι out β} (first : Keeps handle P program)
    (next : ∀ value, Keeps handle P (rest value)) : Keeps handle P (program >>= rest) :=
  fun s holds => .andThen ((first s holds).mono (fun value s' holds => next value s' holds) id)

/-- A request whose answer keeps it. -/
theorem request {op : ι} (served : ∀ s answer s', P s → handle op s = some (answer, s') → P s') :
    Keeps handle P (Prog.request op : Prog ι out (out op)) :=
  fun s holds => .request (fun answer s' done => served s answer s' holds done) fun _ => trivial

theorem ite {condition : Prop} [Decidable condition] {other : Prog ι out α}
    (yes : condition → Keeps handle P program) (no : ¬ condition → Keeps handle P other) :
    Keeps handle P (if condition then program else other) := by
  split
  · exact yes ‹_›
  · exact no ‹_›

end Keeps

end Prog

end OsLab.Lib
