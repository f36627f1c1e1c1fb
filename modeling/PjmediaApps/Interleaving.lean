import PjmediaApps.Loop
import Mathlib.Logic.Function.Iterate
import Mathlib.Data.List.Basic

/-!
# Interleaved components

Components that step one at a time, in the order of a schedule, and share nothing. After a
schedule each has made as many steps of its own as the schedule gives it (`run_apply`), so only
these numbers count.

An endless loop of dialogues with a source of its own is such a component, a `Process`, whose
steps are its rounds. After `n` steps it is where `rounds` leaves the loop (`iterate_round`).
-/

namespace Interleaving

open Interactive

section

variable {ι : Type*} [DecidableEq ι] {S : ι → Type*} (step : ∀ i, S i → S i)

/-- The components after a step of `i`. -/
def move (s : ∀ i, S i) (i : ι) : ∀ i, S i :=
  Function.update s i (step i (s i))

/-- The components after the steps of a schedule. -/
def run (schedule : List ι) (s : ∀ i, S i) : ∀ i, S i :=
  schedule.foldl (move step) s

@[simp] theorem move_self (s : ∀ i, S i) (i : ι) : move step s i i = step i (s i) :=
  Function.update_self ..

theorem move_of_ne (s : ∀ i, S i) {i j : ι} (h : i ≠ j) : move step s j i = s i :=
  Function.update_of_ne h ..

/-- After a schedule a component has made the steps that the schedule gives it. -/
theorem run_apply : ∀ (schedule : List ι) (s : ∀ i, S i) (i : ι),
    run step schedule s i = (step i)^[schedule.count i] (s i)
  | [], _, _ => rfl
  | j :: schedule, s, i => by
    rw [run, List.foldl_cons, ← run, run_apply schedule]
    by_cases h : i = j
    · subst h
      rw [move_self, List.count_cons_self, Function.iterate_succ_apply]
    · rw [move_of_ne step s h, List.count_cons_of_ne (Ne.symm h)]

end

/-! ## Loops as components -/

/-- A loop between two rounds. -/
structure Process (X A σ : Type*) where
  /-- The loop state, `none` once the loop is left. -/
  state : Option X
  /-- What is left of the source. -/
  rest : σ
  /-- The actions performed so far. -/
  done : List A

/-- One round of the loop `body`, if it has not been left. -/
def Process.round {α P A X σ : Type*} (src : Source α σ) (body : X → Dialogue α P A (Option X))
    (p : Process X A σ) : Process X A σ :=
  match p.state with
  | none => p
  | some x =>
    let o := (body x).run src p.rest
    ⟨o.result, o.rest, p.done ++ actions o.trace⟩

section

variable {α P A X σ : Type*} {src : Source α σ} {body : X → Dialogue α P A (Option X)}

theorem iterate_round_of_none (s : σ) (done : List A) : ∀ n : ℕ,
    (Process.round src body)^[n] ⟨none, s, done⟩ = ⟨none, s, done⟩
  | 0 => rfl
  | n + 1 => by rw [Function.iterate_succ_apply, Process.round, iterate_round_of_none s done n]

/-- A loop that is stepped round by round is where all its rounds leave it. -/
theorem iterate_round : ∀ (n : ℕ) (x : X) (s : σ) (done : List A),
    (Process.round src body)^[n] ⟨some x, s, done⟩ =
      ⟨(rounds src body n x s).result, (rounds src body n x s).rest,
        done ++ (rounds src body n x s).trace.flatMap actions⟩
  | 0, x, s, done => by simp [rounds]
  | n + 1, x, s, done => by
    rw [Function.iterate_succ_apply, Process.round]
    dsimp only
    cases hr : ((body x).run src s).result with
    | none => rw [iterate_round_of_none, rounds_succ_of_none hr, List.flatMap_singleton]
    | some y =>
      rw [iterate_round, rounds_succ_of_some hr, List.flatMap_cons, List.append_assoc]

end

end Interleaving
