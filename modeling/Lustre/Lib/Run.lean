/-
Module: Lustre.Lib.Run
Purpose: Finite runs of a deterministic step function that may fail, and the rules that turn what
  one step or statement keeps into what a run keeps.
Trusted boundary: none
Main exports: run, Meets, Each, bind_eq_ok, ite_eq_ok, Outcome, Outcome.bind, failure, reached
-/
import Mathlib.Algebra.Order.Ring.Int
import Mathlib.Data.List.Basic

namespace Run

variable {σ α ε : Type}

/-- The state after a list of labels, or the first failure. -/
def run (step : σ → α → Except ε σ) : σ → List α → Except ε σ
  | s, [] => .ok s
  | s, a :: as =>
    match step s a with
    | .ok s' => run step s' as
    | .error e => .error e

/-- Every step of the run is taken in a state that meets the condition. -/
def Meets (step : σ → α → Except ε σ) (cond : σ → α → Prop) : σ → List α → Prop
  | _, [] => True
  | s, a :: as => cond s a ∧ ∀ s', step s a = .ok s' → Meets step cond s' as

/-- The condition can be checked by running the steps. -/
instance decidableMeets (step : σ → α → Except ε σ) (cond : σ → α → Prop)
    [∀ s a, Decidable (cond s a)] : ∀ s as, Decidable (Meets step cond s as)
  | _, [] => isTrue trivial
  | s, a :: as =>
    match taken : step s a with
    | .error _ => decidable_of_iff (cond s a)
        ⟨fun holds => ⟨holds, fun _ h => by rw [taken] at h; cases h⟩, fun h => h.1⟩
    | .ok s' =>
      have := decidableMeets step cond s' as
      decidable_of_iff (cond s a ∧ Meets step cond s' as)
        ⟨fun h => ⟨h.1, fun _ eq => Except.ok.inj (taken.symm.trans eq) ▸ h.2⟩,
          fun h => ⟨h.1, h.2 s' taken⟩⟩

/-- Every step is taken and has the property `post` of the labels before it, its label and the states
around it. -/
def Each (step : σ → α → Except ε σ) (post : List α → α → σ → σ → Prop) :
    List α → σ → List α → Prop
  | _, _, [] => True
  | done, s, a :: as => ∃ s', step s a = .ok s' ∧ post done a s s' ∧ Each step post (done ++ [a]) s' as

variable {τ : Type}

/-- A statement behind one that succeeds. -/
@[simp] theorem bind_ok (a : σ) (f : σ → Except ε τ) : (Except.ok a >>= f) = f a := rfl

@[simp] theorem bind_error (e : ε) (f : σ → Except ε τ) :
    (Except.error e >>= f) = .error e := rfl

variable {x : Except ε σ}

/-- Two statements succeed one after the other. -/
theorem bind_eq_ok {f : σ → Except ε τ} {b : τ} (ran : (x >>= f) = .ok b) :
    ∃ a, x = .ok a ∧ f a = .ok b := by
  cases x with
  | error e => cases ran
  | ok a => exact ⟨a, rfl, ran⟩

theorem ite_eq_ok {p : Prop} [Decidable p] {e : ε} {s : σ}
    (ran : (if p then x else .error e) = .ok s) : p ∧ x = .ok s := by
  split at ran
  · next holds => exact ⟨holds, ran⟩
  · cases ran

/-- A result that is a state with the property `Inv` or a failure with the property
`Err`. -/
def Outcome (Inv : σ → Prop) (Err : ε → Prop) : Except ε σ → Prop
  | .ok s => Inv s
  | .error e => Err e

variable {s : σ}

namespace Outcome

variable {τ : Type} {P : σ → Prop} {Q : τ → Prop} {E : ε → Prop}

@[simp] theorem ok_iff : Outcome P E (.ok s) ↔ P s := Iff.rfl

/-- Sequencing: what the first statement gives is what the second one may assume. -/
theorem bind {f : σ → Except ε τ} (first : Outcome P E x) (rest : ∀ a, P a → Outcome Q E (f a)) :
    Outcome Q E (x >>= f) := by
  cases x with
  | ok a => exact rest a first
  | error e => exact first

/-- A guarded statement fails, as it may, or runs with its guard. -/
theorem guard {p : Prop} [Decidable p] {e : ε} (may : E e) (then' : p → Outcome P E x) :
    Outcome P E (if p then x else .error e) := by
  split
  · next holds => exact then' holds
  · exact may

theorem mono {P' : σ → Prop} {E' : ε → Prop} (h : Outcome P E x) (weaker : ∀ a, P a → P' a)
    (fewer : ∀ e, E e → E' e := by exact fun _ h => h) : Outcome P' E' x := by
  cases x with
  | ok a => exact weaker a h
  | error e => exact fewer e h

/-- Two descriptions of one result hold together. -/
theorem and {P' : σ → Prop} {E' : ε → Prop} (h : Outcome P E x) (h' : Outcome P' E' x) :
    Outcome (fun a => P a ∧ P' a) (fun e => E e ∧ E' e) x := by
  cases x with
  | ok | error => exact ⟨h, h'⟩

/-- A result with a property is there when no failure has its property. -/
theorem exists_ok (h : Outcome P (fun _ => False) x) : ∃ a, x = .ok a ∧ P a := by
  cases x with
  | ok a => exact ⟨a, rfl, h⟩
  | error e => exact h.elim

end Outcome

/-- The failure of a result, in a type with decidable equality whatever the states are. -/
def failure : Except ε σ → Option ε
  | .ok _ => none
  | .error e => some e

theorem eq_error_of_failure {e : ε} (fails : failure x = some e) : x = .error e := by
  cases x with
  | ok a => cases fails
  | error e' =>
    cases fails
    rfl

variable {step : σ → α → Except ε σ} {cond : σ → α → Prop} {Inv : σ → Prop} {Err : ε → Prop}

variable {as : List α}

theorem run_cons (s : σ) (a : α) (as : List α) :
    run step s (a :: as) = step s a >>= (run step · as) := by
  rw [run]
  cases step s a with
  | ok | error => rfl

/-- A run goes on from where its first part ends. -/
theorem run_append (s : σ) (as bs : List α) :
    run step s (as ++ bs) = run step s as >>= (run step · bs) := by
  induction as generalizing s with
  | nil => rfl
  | cons a as ih =>
    rw [List.cons_append, run_cons, run_cons]
    cases step s a with
    | ok s' => exact ih s'
    | error e => rfl

/-- A condition on the labels alone. -/
theorem meets_of_forall {allowed : α → Prop} (s : σ) (all : ∀ a ∈ as, allowed a) :
    Meets step (fun _ a => allowed a) s as := by
  induction as generalizing s with
  | nil => trivial
  | cons a as ih =>
    exact ⟨all a List.mem_cons_self, fun s' _ => ih s' fun b mem => all b (List.mem_cons_of_mem _ mem)⟩

/-- Two conditions that agree in every state of an invariant hold along the same runs, if steps that meet
the second keep it. -/
theorem meets_iff {cond' : σ → α → Prop} (agree : ∀ s a, Inv s → (cond' s a ↔ cond s a))
    (keep : ∀ s a s', Inv s → cond s a → step s a = .ok s' → Inv s') (init : Inv s) :
    Meets step cond' s as ↔ Meets step cond s as := by
  induction as generalizing s with
  | nil => exact Iff.rfl
  | cons a as ih =>
    constructor
    · rintro ⟨holds, rest⟩
      have meets := (agree s a init).mp holds
      exact ⟨meets, fun s' taken => (ih (keep s a s' init meets taken)).mp (rest s' taken)⟩
    · rintro ⟨meets, rest⟩
      refine ⟨(agree s a init).mpr meets, fun s' taken => ?_⟩
      exact (ih (keep s a s' init meets taken)).mpr (rest s' taken)

/-- What every step that meets the condition keeps, every run of such steps keeps. -/
theorem outcome_run (keep : ∀ s a, Inv s → cond s a → Outcome Inv Err (step s a)) (init : Inv s)
    (meets : Meets step cond s as) : Outcome Inv Err (run step s as) := by
  induction as generalizing s with
  | nil => exact init
  | cons a as ih =>
    obtain ⟨holds, rest⟩ := meets
    have next := keep s a init holds
    rw [run]
    cases taken : step s a with
    | error e => rwa [taken] at next
    | ok s' =>
      rw [taken] at next
      exact ih next (rest s' taken)

/-- If no step that meets the condition fails, every run of such steps ends in a state with the
invariant. -/
theorem run_ok (keep : ∀ s a, Inv s → cond s a → ∃ s', step s a = .ok s' ∧ Inv s') (init : Inv s)
    (meets : Meets step cond s as) : ∃ s', run step s as = .ok s' ∧ Inv s' := by
  have whole : Outcome Inv (fun _ => False) (run step s as) := by
    refine outcome_run (fun s a holds allowed => ?_) init meets
    obtain ⟨s', taken, next⟩ := keep s a holds allowed
    rwa [taken]
  exact whole.exists_ok

/-- What every step keeps holds in every state that is reached. -/
theorem reached {P : σ → Prop} {t : σ} (keep : ∀ s a s', P s → step s a = .ok s' → P s') (init : P s)
    (ran : run step s as = .ok t) : P t := by
  have whole : Outcome P (fun _ => True) (run step s as) := by
    refine outcome_run (fun s a holds _ => ?_) init (meets_of_forall s fun _ _ => trivial)
    cases taken : step s a with
    | error e => trivial
    | ok s' => exact keep s a s' holds taken
  rwa [ran] at whole

/-- If every step that meets the condition can be taken, has the property `post` and keeps the invariant,
so has every step of a run. -/
theorem each_of_meets {post : List α → α → σ → σ → Prop}
    (keep : ∀ done s a, Inv s → cond s a → ∃ s', step s a = .ok s' ∧ post done a s s' ∧ Inv s')
    {done : List α} (init : Inv s) (meets : Meets step cond s as) : Each step post done s as := by
  induction as generalizing done s with
  | nil => trivial
  | cons a as ih =>
    obtain ⟨s', taken, holds, next⟩ := keep done s a init meets.1
    exact ⟨s', taken, holds, ih next (meets.2 s' taken)⟩

/-- If a step has the property `post` exactly when it meets the condition, so it is for runs.  The
invariant need only be kept by such steps; `allowed` says which labels can follow which. -/
theorem each_iff_meets {post : List α → α → σ → σ → Prop} {Known : List α → σ → Prop}
    {allowed : List α → α → Prop}
    (exact : ∀ done s a, Known done s → allowed done a → ∃ s', step s a = .ok s' ∧ (post done a s s' ↔ cond s a) ∧ (cond s a → Known (done ++ [a]) s'))
    {done : List α} (init : Known done s)
    (labels : ∀ before a after, as = before ++ a :: after → allowed (done ++ before) a) :
    Each step post done s as ↔ Meets step cond s as := by
  induction as generalizing done s with
  | nil => exact Iff.rfl
  | cons a as ih =>
    have first : allowed done a := by
      have head := labels [] a as rfl
      rwa [List.append_nil] at head
    have rest : ∀ before b after, as = before ++ b :: after →
        allowed (done ++ [a] ++ before) b := by
      intro before b after split
      have later := labels (a :: before) b after (by rw [split]; rfl)
      rwa [List.append_assoc]
    obtain ⟨s', taken, iff, keeps⟩ := exact done s a init first
    constructor
    · rintro ⟨s'', taken', holds, behind⟩
      cases taken.symm.trans taken'
      have meets := iff.mp holds
      refine ⟨meets, fun t eq => ?_⟩
      cases taken.symm.trans eq
      exact (ih (keeps meets) rest).mp behind
    · rintro ⟨meets, behind⟩
      exact ⟨s', taken, iff.mpr meets, (ih (keeps meets) rest).mpr (behind s' taken)⟩

end Run
