import PjmediaApps.Dialogue

/-!
# Endless loops of dialogues

`rounds` runs the body of an endless loop at most `n` times, from a loop state, and keeps
the trace of each round. The body returns the next loop state, or `none` to leave the
loop. If every round that goes on uses up some of the source, the loop is left
(`rounds_result_eq_none`), and a larger number of rounds changes nothing
(`rounds_eq_of_le`). What each round keeps, all rounds keep (`forall_rounds`).

A loop that reads one answer, reacts to it and goes round again is `reactive`, and one that
does so at the end of input too is `polling` (`rounds_polling`). A reactive loop is a
machine with a state and outputs : `n` rounds against a source are its reactions to the
first `n` answers (`rounds_reactive`). One machine `Simulates` another if states, answers
and outputs can be mapped to the other's step by step, and then whole runs are
(`Simulates.after_eq`, `Simulates.outputs_eq`).
-/

namespace Interactive

variable {α P A X σ : Type*}

/-- At most `n` rounds of the loop `body` from the loop state `x`. The result is `none`
once the loop is left. -/
def rounds (src : Source α σ) (body : X → Dialogue α P A (Option X)) :
    ℕ → X → σ → Outcome (List (Event α P A)) (Option X) σ
  | 0, x, s => ⟨[], some x, s⟩
  | n + 1, x, s =>
    let o := (body x).run src s
    match o.result with
    | none => ⟨[o.trace], none, o.rest⟩
    | some y =>
      let os := rounds src body n y o.rest
      ⟨o.trace :: os.trace, os.result, os.rest⟩

section Rounds

variable {src : Source α σ} {body : X → Dialogue α P A (Option X)}

theorem rounds_succ_of_none {x : X} {s : σ} (h : ((body x).run src s).result = none) (n : ℕ) :
    rounds src body (n + 1) x s =
      ⟨[((body x).run src s).trace], none, ((body x).run src s).rest⟩ := by
  rw [rounds, h]

theorem rounds_succ_of_some {x y : X} {s : σ} (h : ((body x).run src s).result = some y)
    (n : ℕ) : rounds src body (n + 1) x s =
      ⟨((body x).run src s).trace :: (rounds src body n y ((body x).run src s).rest).trace,
        (rounds src body n y ((body x).run src s).rest).result,
        (rounds src body n y ((body x).run src s).rest).rest⟩ := by
  rw [rounds, h]

/-- A loop that is left after `n` rounds does the same in any larger number of rounds. -/
theorem rounds_eq_of_le : ∀ {n m : ℕ} {x : X} {s : σ}, (rounds src body n x s).result = none →
    n ≤ m → rounds src body m x s = rounds src body n x s
  | 0, _, _, _, h, _ => by simp [rounds] at h
  | n + 1, 0, _, _, _, hle => by omega
  | n + 1, m + 1, x, s, h, hle => by
    cases hr : ((body x).run src s).result with
    | none => rw [rounds_succ_of_none hr, rounds_succ_of_none hr]
    | some y =>
      rw [rounds_succ_of_some hr] at h ⊢
      rw [rounds_succ_of_some hr, rounds_eq_of_le h (by omega)]

/-- A loop whose rounds each use up some of the source is left after at most one round
more than the size of the source. -/
theorem rounds_result_eq_none
    (hdec : ∀ x s y, ((body x).run src s).result = some y →
      src.size ((body x).run src s).rest < src.size s) :
    ∀ (n : ℕ) (x : X) (s : σ), src.size s < n → (rounds src body n x s).result = none
  | 0, _, _, h => by omega
  | n + 1, x, s, h => by
    cases hr : ((body x).run src s).result with
    | none => rw [rounds_succ_of_none hr]
    | some y =>
      rw [rounds_succ_of_some hr]
      have := hdec x s y hr
      exact rounds_result_eq_none hdec n y _ (by omega)

/-- What holds of one round's trace, and is passed on by the loop state, holds of every
round. -/
theorem forall_rounds (I : X → Prop) (Q : List (Event α P A) → Prop)
    (hstep : ∀ x s, I x → Q ((body x).run src s).trace ∧
      ∀ y, ((body x).run src s).result = some y → I y) :
    ∀ (n : ℕ) (x : X) (s : σ), I x → ∀ t ∈ (rounds src body n x s).trace, Q t
  | 0, _, _, _, t, ht => by simp [rounds] at ht
  | n + 1, x, s, hI, t, ht => by
    obtain ⟨hQ, hy⟩ := hstep x s hI
    cases hr : ((body x).run src s).result with
    | none =>
      rw [rounds_succ_of_none hr] at ht
      rw [List.mem_singleton.mp ht]
      exact hQ
    | some y =>
      rw [rounds_succ_of_some hr] at ht
      rcases List.mem_cons.mp ht with rfl | ht
      · exact hQ
      · exact forall_rounds I Q hstep n y _ (hy y hr) t ht

end Rounds

/-! ## Loops that react to one answer a round -/

/-- Read one answer, react to it, and go round again; leave at the end of input. -/
def reactive (step : X → α → X × List A) (x : X) : Dialogue α Unit A (Option X) :=
  .ask () fun
    | none => .ret none
    | some a => .acts (step x a).2 (.ret (some (step x a).1))

variable (step : X → α → X × List A)

/-- The state after the answers `l`. -/
def after (x : X) (l : List α) : X :=
  l.foldl (fun x a => (step x a).1) x

/-- The reactions to the answers `l`, one list of actions for each. -/
def reactions : X → List α → List (List A)
  | _, [] => []
  | x, a :: l => (step x a).2 :: reactions (step x a).1 l

@[simp] theorem after_nil (x : X) : after step x [] = x :=
  rfl

@[simp] theorem after_cons (x : X) (a : α) (l : List α) :
    after step x (a :: l) = after step (step x a).1 l :=
  rfl

@[simp] theorem after_append (x : X) (l l' : List α) :
    after step x (l ++ l') = after step (after step x l) l' :=
  List.foldl_append

@[simp] theorem reactions_nil (x : X) : reactions step x [] = [] :=
  rfl

@[simp] theorem reactions_cons (x : X) (a : α) (l : List α) :
    reactions step x (a :: l) = (step x a).2 :: reactions step (step x a).1 l :=
  rfl

@[simp] theorem reactions_append : ∀ (x : X) (l l' : List α),
    reactions step x (l ++ l') = reactions step x l ++ reactions step (after step x l) l'
  | _, [], _ => rfl
  | x, a :: l, l' => by simp [reactions_append _ l l']

/-- What every step's outputs keep, all of them keep. -/
theorem forall_mem_reactions {Q : A → Prop} (h : ∀ x a, ∀ b ∈ (step x a).2, Q b) :
    ∀ (x : X) (l : List α), ∀ b ∈ (reactions step x l).flatten, Q b
  | _, [], b, hb => by simp at hb
  | x, a :: l, b, hb => by
    rw [reactions_cons, List.flatten_cons] at hb
    rcases List.mem_append.mp hb with hb | hb
    · exact h x a b hb
    · exact forall_mem_reactions h _ l b hb

/-- What a run of `n` rounds performs and leaves : the reactions to the first `n` answers, the
state after them or, if there are fewer, no state, and the other answers. -/
theorem rounds_reactive (src : Source α σ) : ∀ (n : ℕ) (x : X) (s : σ),
    (rounds src (reactive step) n x s).trace.flatMap actions =
        (reactions step x ((src.drain s).take n)).flatten ∧
      (rounds src (reactive step) n x s).result =
        (if n ≤ (src.drain s).length then some (after step x ((src.drain s).take n)) else none) ∧
      src.drain (rounds src (reactive step) n x s).rest = (src.drain s).drop n
  | 0, x, s => by simp [rounds]
  | n + 1, x, s => by
    cases hr : (src.read s).1 with
    | none =>
      have hrun : (reactive step x).run src s =
          ⟨[.answer () none], none, (src.read s).2⟩ := by
        simp [reactive, Dialogue.run, hr]
      rw [rounds_succ_of_none (by rw [hrun]), hrun, src.drain_of_none hr]
      exact ⟨rfl, rfl, src.drain_of_none (src.ended s hr)⟩
    | some a =>
      have hrun : (reactive step x).run src s =
          ⟨.answer () (some a) :: (step x a).2.map .act, some (step x a).1, (src.read s).2⟩ := by
        simp [reactive, Dialogue.run, Dialogue.run_acts, hr]
      obtain ⟨ht, hres, hrest⟩ := rounds_reactive src n (step x a).1 (src.read s).2
      rw [rounds_succ_of_some (y := (step x a).1) (by rw [hrun]), hrun, src.drain_of_some hr]
      refine ⟨?_, ?_, hrest⟩
      · simp only [List.flatMap_cons, ht, actions_answer, actions_map_act, List.take_succ_cons,
          reactions_cons, List.flatten_cons]
      · simpa using hres

/-! ## Loops that do not look at the end of input -/

/-- Read, react to the answer or to there being none, and go round again. -/
def polling (step : X → Option α → X × List A) (x : X) : Dialogue α Unit A (Option X) :=
  .ask () fun a => .acts (step x a).2 (.ret (some (step x a).1))

/-- What `n` reads give. -/
def Source.reads (src : Source α σ) (n : ℕ) (s : σ) : List (Option α) :=
  ((src.drain s).take n).map some ++ List.replicate (n - (src.drain s).length) none

theorem Source.reads_succ (src : Source α σ) (n : ℕ) (s : σ) :
    src.reads (n + 1) s = (src.read s).1 :: src.reads n (src.read s).2 := by
  cases hr : (src.read s).1 with
  | none =>
    rw [Source.reads, Source.reads, src.drain_of_none hr, src.drain_of_none (src.ended s hr)]
    simp [List.replicate_succ]
  | some a =>
    rw [Source.reads, Source.reads, src.drain_of_some hr]
    simp

/-- `n` rounds react to what `n` reads give, and the loop is not left. -/
theorem rounds_polling (step : X → Option α → X × List A) (src : Source α σ) :
    ∀ (n : ℕ) (x : X) (s : σ),
      (rounds src (polling step) n x s).trace.flatMap actions =
          (reactions step x (src.reads n s)).flatten ∧
        (rounds src (polling step) n x s).result = some (after step x (src.reads n s))
  | 0, x, s => by simp [rounds, Source.reads]
  | n + 1, x, s => by
    have hrun : (polling step x).run src s =
        ⟨.answer () (src.read s).1 :: (step x (src.read s).1).2.map .act,
          some (step x (src.read s).1).1, (src.read s).2⟩ := by
      simp [polling, Dialogue.run, Dialogue.run_acts]
    obtain ⟨ht, hres⟩ := rounds_polling step src n (step x (src.read s).1).1 (src.read s).2
    rw [rounds_succ_of_some (y := (step x (src.read s).1).1) (by rw [hrun]), hrun, src.reads_succ]
    refine ⟨?_, hres⟩
    simp only [List.flatMap_cons, ht, actions_answer, actions_map_act, reactions_cons,
      List.flatten_cons]

/-! ## Simulation -/

/-- The machine `step` behaves like `step'` under a view of its states, a reading of its
answers, and an observation of its outputs. -/
structure Simulates {Y β B : Type*} (step : X → α → X × List A) (step' : Y → β → Y × List B)
    (view : X → Y) (read : α → β) (observe : A → Option B) : Prop where
  state : ∀ x a, view (step x a).1 = (step' (view x) (read a)).1
  output : ∀ x a, (step x a).2.filterMap observe = (step' (view x) (read a)).2

section

variable {step} {Y β B : Type*} {step' : Y → β → Y × List B} {view : X → Y} {read : α → β}
  {observe : A → Option B}

theorem Simulates.after_eq (h : Simulates step step' view read observe) :
    ∀ (x : X) (l : List α), view (after step x l) = after step' (view x) (l.map read)
  | _, [] => rfl
  | x, a :: l => by rw [after_cons, h.after_eq _ l, h.state, List.map_cons, after_cons]

theorem Simulates.outputs_eq (h : Simulates step step' view read observe) :
    ∀ (x : X) (l : List α), (reactions step x l).flatten.filterMap observe =
      (reactions step' (view x) (l.map read)).flatten
  | _, [] => rfl
  | x, a :: l => by
    simp only [reactions_cons, List.flatten_cons, List.filterMap_append, List.map_cons, h.output,
      h.outputs_eq _ l, h.state]

end

end Interactive
