import Mathlib.Data.List.Basic
import Mathlib.Order.Nat

/-!
# Dialogues with a source of answers

A program that reads its input prompt by prompt is a `Dialogue` : a tree that asks a
prompt and goes on with the answer, or performs an action, or returns. A `Source`
gives the answers one after another and then none for good. `Dialogue.run` runs a
dialogue against a source and keeps the trace of answers and actions.

The answers of a source, one after another, are the list `Source.drain`. Two sources whose
answers agree as long as they are admissible give the same run of every dialogue that meets
admissible answers only (`run_eq_of_agree`).
-/

namespace Interactive

/-! ## Sources -/

/-- A source of answers. Every answer makes it smaller, and the end of input is final. -/
structure Source (α σ : Type*) where
  /-- The next answer, if there is one, and the source after it. -/
  read : σ → Option α × σ
  /-- An upper bound on the answers left. -/
  size : σ → ℕ
  size_lt : ∀ s a, (read s).1 = some a → size (read s).2 < size s
  size_le : ∀ s, size (read s).2 ≤ size s
  ended : ∀ s, (read s).1 = none → (read (read s).2).1 = none

/-- The source that answers with the entries of a list. -/
def popSource (α : Type*) : Source α (List α) where
  read
    | [] => (none, [])
    | a :: l => (some a, l)
  size := List.length
  size_lt s a h := by cases s <;> simp_all
  size_le s := by cases s <;> simp
  ended s h := by cases s <;> simp_all

@[simp] theorem popSource_read_nil (α : Type*) : (popSource α).read [] = (none, []) :=
  rfl

@[simp] theorem popSource_read_cons {α : Type*} (a : α) (l : List α) :
    (popSource α).read (a :: l) = (some a, l) :=
  rfl

namespace Source

variable {α σ : Type*} (src : Source α σ)

/-- The first `n` answers, or fewer if the source ends. -/
def take : ℕ → σ → List α
  | 0, _ => []
  | n + 1, s =>
    match (src.read s).1 with
    | none => []
    | some a => a :: take n (src.read s).2

/-- All the answers of the source. -/
def drain (s : σ) : List α :=
  src.take (src.size s) s

theorem take_of_ended {s : σ} (h : (src.read s).1 = none) : ∀ n, src.take n s = []
  | 0 => rfl
  | n + 1 => by simp [take, h]

/-- A source has no more answers than its size. -/
theorem take_eq_of_le : ∀ (n m : ℕ) (s : σ), src.size s ≤ n → src.size s ≤ m →
    src.take n s = src.take m s
  | 0, m, s, hn, _ => by
    cases hr : (src.read s).1 with
    | none => rw [src.take_of_ended hr, src.take_of_ended hr]
    | some a =>
      have := src.size_lt s a hr
      omega
  | n + 1, 0, s, _, hm => by
    cases hr : (src.read s).1 with
    | none => rw [src.take_of_ended hr, src.take_of_ended hr]
    | some a =>
      have := src.size_lt s a hr
      omega
  | n + 1, m + 1, s, hn, hm => by
    cases hr : (src.read s).1 with
    | none => rw [src.take_of_ended hr, src.take_of_ended hr]
    | some a =>
      have := src.size_lt s a hr
      simp only [take, hr, List.cons.injEq, true_and]
      exact take_eq_of_le n m _ (by omega) (by omega)

theorem drain_of_none {s : σ} (h : (src.read s).1 = none) : src.drain s = [] :=
  src.take_of_ended h _

theorem drain_of_some {s : σ} {a : α} (h : (src.read s).1 = some a) :
    src.drain s = a :: src.drain (src.read s).2 := by
  have hlt := src.size_lt s a h
  obtain ⟨n, hn⟩ : ∃ n, src.size s = n + 1 := ⟨src.size s - 1, by omega⟩
  unfold drain
  rw [hn, take, h]
  simp only [List.cons.injEq, true_and]
  exact src.take_eq_of_le _ _ _ (by omega) le_rfl

end Source

/-! ## Dialogues -/

/-- A program that asks prompts `P` for answers `α`, performs actions `A`, and returns. -/
inductive Dialogue (α P A R : Type*)
  | ret (r : R)
  | ask (p : P) (k : Option α → Dialogue α P A R)
  | act (a : A) (k : Dialogue α P A R)

/-- What a run shows : a prompt with its answer, or an action. -/
inductive Event (α P A : Type*)
  | answer (p : P) (a : Option α)
  | act (a : A)
  deriving DecidableEq

/-- How a run ends. -/
structure Outcome (E R σ : Type*) where
  /-- What it showed, in order. -/
  trace : List E
  /-- What it returned. -/
  result : R
  /-- What it left of the source. -/
  rest : σ

/-- The actions of a trace. -/
def actions {α P A : Type*} (t : List (Event α P A)) : List A :=
  t.filterMap fun
    | .act a => some a
    | .answer _ _ => none

/-- The prompts of a trace with their answers. -/
def answers {α P A : Type*} (t : List (Event α P A)) : List (P × Option α) :=
  t.filterMap fun
    | .act _ => none
    | .answer p a => some (p, a)

section Traces

variable {α P A : Type*} (t u : List (Event α P A))

@[simp] theorem actions_nil : actions ([] : List (Event α P A)) = [] :=
  rfl

@[simp] theorem actions_act (a : A) : actions (.act a :: t) = a :: actions t :=
  rfl

@[simp] theorem actions_answer (p : P) (a : Option α) :
    actions (.answer p a :: t) = actions t :=
  rfl

@[simp] theorem actions_append : actions (t ++ u) = actions t ++ actions u :=
  List.filterMap_append

@[simp] theorem actions_map_act (l : List A) :
    actions (l.map (Event.act : A → Event α P A)) = l := by
  simp [actions, List.filterMap_map]

@[simp] theorem answers_nil : answers ([] : List (Event α P A)) = [] :=
  rfl

@[simp] theorem answers_act (a : A) : answers (.act a :: t) = answers t :=
  rfl

@[simp] theorem answers_answer (p : P) (a : Option α) :
    answers (.answer p a :: t) = (p, a) :: answers t :=
  rfl

@[simp] theorem answers_append : answers (t ++ u) = answers t ++ answers u :=
  List.filterMap_append

end Traces

namespace Dialogue

variable {α P A R σ τ : Type*}

/-- Run a dialogue against a source. -/
def run (src : Source α σ) : Dialogue α P A R → σ → Outcome (Event α P A) R σ
  | ret r, s => ⟨[], r, s⟩
  | ask p k, s =>
    let o := run src (k (src.read s).1) (src.read s).2
    ⟨.answer p (src.read s).1 :: o.trace, o.result, o.rest⟩
  | act a k, s =>
    let o := run src k s
    ⟨.act a :: o.trace, o.result, o.rest⟩

/-- Perform the actions of a list, then go on. -/
def acts : List A → Dialogue α P A R → Dialogue α P A R
  | [], d => d
  | a :: l, d => act a (acts l d)

theorem run_acts (src : Source α σ) (d : Dialogue α P A R) (s : σ) : ∀ l : List A,
    run src (acts l d) s =
      ⟨l.map .act ++ (run src d s).trace, (run src d s).result, (run src d s).rest⟩
  | [] => rfl
  | a :: l => by simp [acts, run, run_acts src d s l]

/-- Running a dialogue never makes the source larger. -/
theorem size_rest_le (src : Source α σ) : ∀ (d : Dialogue α P A R) (s : σ),
    src.size (run src d s).rest ≤ src.size s
  | ret _, _ => le_rfl
  | ask _ k, s => (size_rest_le src (k (src.read s).1) _).trans (src.size_le s)
  | act _ k, s => size_rest_le src k s

/-- The answers in a run are answers of the source. -/
theorem forall_answers_run {src : Source α σ} {B : α → Prop}
    (hB : ∀ s a, (src.read s).1 = some a → B a) :
    ∀ (d : Dialogue α P A R) (s : σ) p a, (p, some a) ∈ answers (run src d s).trace → B a
  | ret _, _, p, a, h => by simp [run] at h
  | ask q k, s, p, a, h => by
    simp only [run, answers_answer, List.mem_cons, Prod.mk.injEq] at h
    rcases h with ⟨-, h⟩ | h
    · exact hB s a h.symm
    · exact forall_answers_run hB _ _ p a h
  | act b k, s, p, a, h => by
    simp only [run, answers_act] at h
    exact forall_answers_run hB k s p a h

end Dialogue

/-! ## Sources that agree -/

section Agree

variable {α P A R σ τ : Type*}

/-- `Rel` relates states of two sources that give the same answers as long as the
answers of the second are admissible. -/
def Agree (src : Source α σ) (src' : Source α τ) (ok : α → Prop) (Rel : σ → τ → Prop) : Prop :=
  ∀ s t, Rel s t → (∀ a, (src'.read t).1 = some a → ok a) →
    (src.read s).1 = (src'.read t).1 ∧ Rel (src.read s).2 (src'.read t).2

/-- The answers of a trace are admissible. -/
def Admissible (ok : α → Prop) (t : List (Event α P A)) : Prop :=
  ∀ p a, (p, some a) ∈ answers t → ok a

variable {src : Source α σ} {src' : Source α τ} {ok : α → Prop} {Rel : σ → τ → Prop}

/-- Agreeing sources give the same run if the answers met are admissible. -/
theorem run_eq_of_agree (h : Agree src src' ok Rel) :
    ∀ (d : Dialogue α P A R) (s : σ) (t : τ), Rel s t → Admissible ok (d.run src' t).trace →
      (d.run src s).trace = (d.run src' t).trace ∧
        (d.run src s).result = (d.run src' t).result ∧
        Rel (d.run src s).rest (d.run src' t).rest
  | .ret _, _, _, hR, _ => ⟨rfl, rfl, hR⟩
  | .ask p k, s, t, hR, hadm => by
    simp only [Dialogue.run, Admissible, answers_answer, List.mem_cons, Prod.mk.injEq] at hadm ⊢
    obtain ⟨ha, hR'⟩ := h s t hR fun a ha => hadm p a (Or.inl ⟨rfl, ha.symm⟩)
    rw [ha]
    obtain ⟨ht, hr, hR''⟩ := run_eq_of_agree h (k (src'.read t).1) _ _ hR'
      fun q a hq => hadm q a (Or.inr hq)
    exact ⟨by rw [ht], hr, hR''⟩
  | .act a k, s, t, hR, hadm => by
    simp only [Dialogue.run, Admissible, answers_act] at hadm ⊢
    obtain ⟨ht, hr, hR'⟩ := run_eq_of_agree h k s t hR hadm
    exact ⟨by rw [ht], hr, hR'⟩

end Agree

end Interactive
