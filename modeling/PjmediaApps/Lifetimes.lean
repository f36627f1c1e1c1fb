import PjmediaApps.WriteLog

/-!
# Lifetimes of resources

A program starts and stops resources one after another. A resource is alive after a trace if
it was started and not stopped after that (`Alive`). A run that starts the resources of a list
in order and then stops those of another is at every moment at some front part of the two
(`alive_take_iff`). If every resource comes after the one it is built on in the first list, and
before it in the second, then at every moment what is alive has what it is built on alive
(`alive_of_before`). If the second list is the first reversed, what is alive is always a front
part of it (`alive_take_reverse_iff`).
-/

namespace Lifetimes

open WriteLog

variable {R : Type*}

/-- A resource is started or stopped. -/
inductive Event (R : Type*)
  | start (r : R)
  | stop (r : R)
  deriving DecidableEq

/-! ## Order in a list -/

/-- Every front part of the list that has `b` has `a`. -/
def Before (l : List R) (a b : R) : Prop :=
  ∀ n, b ∈ l.take n → a ∈ l.take n

theorem before_append {l l' : List R} {a b : R} (ha : a ∈ l) (hb : b ∉ l) :
    Before (l ++ l') a b := by
  intro n h
  rcases Nat.le_total n l.length with hn | hn
  · rw [List.take_append_of_le_length hn] at h
    exact (hb (List.mem_of_mem_take h)).elim
  · rw [List.take_append, List.take_of_length_le hn]
    exact List.mem_append_left _ ha

/-! ## Traces -/

section

variable [DecidableEq R]

/-- What an event makes of a resource. -/
def life (e : Event R) (r : R) : Option Bool :=
  if e = .start r then some true else if e = .stop r then some false else none

/-- The resource was started, and not stopped after that. -/
def Alive (es : List (Event R)) (r : R) : Prop :=
  lastWrite life es r = some true

instance (es : List (Event R)) (r : R) : Decidable (Alive es r) :=
  inferInstanceAs (Decidable (_ = _))

theorem life_start (a r : R) : life (.start a) r = if a = r then some true else none := by
  simp [life]

theorem life_stop (a r : R) : life (.stop a) r = if a = r then some false else none := by
  simp [life]

/-- The run that starts the resources of `starts` in order, and then stops those of `stops`. -/
def scope (starts stops : List R) : List (Event R) :=
  starts.map .start ++ stops.map .stop

theorem alive_scope_iff (l l' : List R) (r : R) :
    Alive (scope l l') r ↔ r ∈ l ∧ r ∉ l' := by
  rw [Alive, scope, lastWrite_append, lastWrite_map life_start, lastWrite_map life_stop]
  by_cases hl : r ∈ l <;> by_cases hl' : r ∈ l' <;> simp [hl, hl']

/-- At every moment of such a run, what is alive was started and is not yet stopped. -/
theorem alive_take_iff (starts stops : List R) (n : ℕ) (r : R) :
    Alive ((scope starts stops).take n) r ↔
      r ∈ starts.take n ∧ r ∉ stops.take (n - starts.length) := by
  rw [← alive_scope_iff, scope, scope, List.take_append, ← List.map_take, ← List.map_take,
    List.length_map]

/-- At every moment, what is alive has alive what was started before it and is stopped after
it. -/
theorem alive_of_before {starts stops : List R} {a b : R} (hstart : Before starts a b)
    (hstop : Before stops b a) {n : ℕ} (h : Alive ((scope starts stops).take n) b) :
    Alive ((scope starts stops).take n) a := by
  rw [alive_take_iff] at h ⊢
  exact ⟨hstart n h.1, fun ha => h.2 (hstop _ ha)⟩

/-- At every moment, what was started and is stopped only after `b` is alive as long as `b`
is. -/
theorem alive_of_started {starts stops : List R} {a b : R} (hstop : Before stops b a) {n : ℕ}
    (ha : a ∈ starts.take n) (h : Alive ((scope starts stops).take n) b) :
    Alive ((scope starts stops).take n) a := by
  rw [alive_take_iff] at h ⊢
  exact ⟨ha, fun ha' => h.2 (hstop _ ha')⟩

/-- If the resources are stopped in the reverse order, those alive are at every moment a front
part of the list. -/
theorem alive_take_reverse_iff {l : List R} (hl : l.Nodup) (n : ℕ) (r : R) :
    Alive ((scope l l.reverse).take n) r ↔ r ∈ l.take (min n (l.length - (n - l.length))) := by
  rw [alive_take_iff, List.take_reverse, List.mem_reverse]
  rcases Nat.le_total n l.length with hn | hn
  · rw [Nat.sub_eq_zero_of_le hn, Nat.sub_zero, List.drop_length, Nat.min_eq_left hn]
    simp
  · rw [List.take_of_length_le hn, Nat.min_eq_right (by omega)]
    generalize l.length - (n - l.length) = k
    refine ⟨fun ⟨hr, hnot⟩ => ?_, fun hr => ⟨List.mem_of_mem_take hr, ?_⟩⟩
    · rw [← List.take_append_drop k l] at hr
      exact (List.mem_append.mp hr).resolve_right hnot
    · exact List.disjoint_take_drop hl (Nat.le_refl _) hr

end

end Lifetimes
