import Mathlib.Data.List.Basic
import Mathlib.Order.Nat

/-!
# Loops over arrays

Two ways in which a loop goes over an array, as a list. It writes values at places of its
choice, and what it leaves is the writes in order (`written`); a loop that writes one value
to successive places (`fill`) overwrites those places and no other (`written_fill`). Or it
updates one place in each round (`updateEach`), and then each place is updated by its own
round and once (`getElem?_updateEach`).
-/

namespace ArrayLoop

variable {α : Type*}

/-! ## Writes -/

/-- The writes of a loop that puts a value in `n` places, from `j` on. -/
def fill (j n : ℕ) (a : α) : List (ℕ × α) :=
  (List.range' j n).map (·, a)

/-- An array after writes in order. -/
def written (buf : List α) (ws : List (ℕ × α)) : List α :=
  ws.foldl (fun buf w => buf.set w.1 w.2) buf

theorem written_append (buf : List α) (ws vs : List (ℕ × α)) :
    written buf (ws ++ vs) = written (written buf ws) vs :=
  List.foldl_append

theorem written_singleton (buf : List α) (j : ℕ) (a : α) : written buf [(j, a)] = buf.set j a :=
  rfl

/-- A loop overwrites the places it goes over and no other. -/
theorem written_fill (a : α) (rest : List α) : ∀ old pre : List α,
    written (pre ++ (old ++ rest)) (fill pre.length old.length a) =
      pre ++ (List.replicate old.length a ++ rest)
  | [], pre => rfl
  | b :: old, pre => by
    have hset : (pre ++ (b :: old ++ rest)).set pre.length a = pre ++ [a] ++ (old ++ rest) := by
      simp
    have ih := written_fill a rest old (pre ++ [a])
    rw [List.length_append, List.length_singleton] at ih
    rw [List.length_cons, fill, List.range'_succ, List.map_cons, written, List.foldl_cons, hset]
    refine ih.trans ?_
    simp [List.replicate_succ]

/-! ## Updates -/

/-- An array after a loop whose `i`-th round updates the `i`-th place, in `n` rounds. -/
def updateEach (f : ℕ → α → α) (n : ℕ) (table : List α) : List α :=
  (List.range n).foldl (fun table i => table.modify i (f i)) table

theorem updateEach_succ (f : ℕ → α → α) (n : ℕ) (table : List α) :
    updateEach f (n + 1) table = (updateEach f n table).modify n (f n) := by
  rw [updateEach, List.range_succ, List.foldl_append, List.foldl_cons, List.foldl_nil, updateEach]

/-- Each place is updated by its own round. -/
theorem getElem?_updateEach (f : ℕ → α → α) (n : ℕ) (table : List α) (i : ℕ) :
    (updateEach f n table)[i]? = if i < n then table[i]?.map (f i) else table[i]? := by
  induction n with
  | zero => rfl
  | succ n ih =>
    rw [updateEach_succ, List.getElem?_modify, ih]
    rcases lt_trichotomy i n with h | rfl | h
    · simp [h, h.ne', Nat.lt_succ_of_lt h]
    · simp
    · simp [h.ne, h.not_gt, show ¬i < n + 1 by omega]

end ArrayLoop
