import Mathlib.Data.List.Basic
import Mathlib.Data.List.Forall2

/-!
# Runs that may break off

A step for an action logs events and gives the next state, or breaks off. `runAll` makes the
steps for a list of actions, up to the first one that breaks off : behind it nothing is said
about the run. A run over two lists is one over the first and, if it comes to its end, one over
the second (`runAll_append_of_some`). A run comes to its end exactly if none of the steps it
gets to breaks off (`isSome_runAll_iff`).

What each step logs and keeps, a run does (`forall_mem_runAll`, `inv_runAll`). The log of a run
over several lists of actions is a log for each of them (`exists_forall₂_runAll`), and actions
that do nothing make no difference (`runAll_filter`).
-/

namespace PartialRun

variable {A E σ : Type*}

/-- The events of the steps, and the state after the last one if no step breaks off. -/
def runAll (step : A → σ → List E × Option σ) : List A → σ → List E × Option σ
  | [], s => ([], some s)
  | a :: as, s =>
    match (step a s).2 with
    | none => ((step a s).1, none)
    | some s' => ((step a s).1 ++ (runAll step as s').1, (runAll step as s').2)

variable {step : A → σ → List E × Option σ} {a : A} {as : List A} {s s' : σ}

@[simp] theorem runAll_nil (step : A → σ → List E × Option σ) (s : σ) :
    runAll step [] s = ([], some s) :=
  rfl

theorem runAll_cons_of_none (h : (step a s).2 = none) (as : List A) :
    runAll step (a :: as) s = ((step a s).1, none) := by
  rw [runAll, h]

theorem runAll_cons_of_some (h : (step a s).2 = some s') (as : List A) :
    runAll step (a :: as) s =
      ((step a s).1 ++ (runAll step as s').1, (runAll step as s').2) := by
  rw [runAll, h]

@[simp] theorem runAll_singleton (step : A → σ → List E × Option σ) (a : A) (s : σ) :
    runAll step [a] s = step a s := by
  cases h : (step a s).2 with
  | none => rw [runAll_cons_of_none h, ← h]
  | some s' => rw [runAll_cons_of_some h, runAll_nil, List.append_nil, ← h]

/-- The state after a run, without the log. -/
theorem snd_runAll (step : A → σ → List E × Option σ) : ∀ (as : List A) (s : σ),
    (runAll step as s).2 = as.foldlM (fun s a => (step a s).2) s
  | [], _ => rfl
  | a :: as, s => by
    rw [List.foldlM_cons]
    cases h : (step a s).2 with
    | none => rw [runAll_cons_of_none h]; rfl
    | some s' => rw [runAll_cons_of_some h, snd_runAll step as s']; rfl

/-! ## Cutting a run -/

theorem runAll_append_of_none : ∀ {as : List A} {s : σ}, (runAll step as s).2 = none →
    ∀ bs, runAll step (as ++ bs) s = ((runAll step as s).1, none)
  | [], _, h, _ => by simp at h
  | a :: as, s, h, bs => by
    cases ha : (step a s).2 with
    | none => rw [List.cons_append, runAll_cons_of_none ha, runAll_cons_of_none ha]
    | some s' =>
      rw [runAll_cons_of_some ha] at h
      rw [List.cons_append, runAll_cons_of_some ha, runAll_cons_of_some ha,
        runAll_append_of_none h]

/-- A run over two lists goes on with the second where the first left the state. -/
theorem runAll_append_of_some : ∀ {as : List A} {s s' : σ}, (runAll step as s).2 = some s' →
    ∀ bs, runAll step (as ++ bs) s =
      ((runAll step as s).1 ++ (runAll step bs s').1, (runAll step bs s').2)
  | [], s, s', h, bs => by
    cases h
    rfl
  | a :: as, s, s', h, bs => by
    cases ha : (step a s).2 with
    | none => simp [runAll_cons_of_none ha] at h
    | some s₁ =>
      rw [runAll_cons_of_some ha] at h
      rw [List.cons_append, runAll_cons_of_some ha, runAll_cons_of_some ha,
        runAll_append_of_some h, List.append_assoc]

/-- A run over two lists that comes to its end has come to the end of the first. -/
theorem exists_of_runAll_append {bs : List A} {t : σ} (h : (runAll step (as ++ bs) s).2 = some t) :
    ∃ s', (runAll step as s).2 = some s' ∧ (runAll step bs s').2 = some t := by
  cases ha : (runAll step as s).2 with
  | none => simp [runAll_append_of_none ha] at h
  | some s' => exact ⟨s', rfl, by rwa [runAll_append_of_some ha] at h⟩

/-- A run comes to its end exactly if no step that it gets to breaks off. -/
theorem isSome_runAll_iff {l : List A} : (runAll step l s).2.isSome ↔
    ∀ as a bs s', l = as ++ a :: bs → (runAll step as s).2 = some s' →
      (step a s').2.isSome := by
  refine ⟨?_, fun h => ?_⟩
  · rintro h as a bs s' rfl hs'
    obtain ⟨t, ht⟩ := Option.isSome_iff_exists.mp h
    rw [runAll_append_of_some hs'] at ht
    cases ha : (step a s').2 with
    | none => simp [runAll_cons_of_none ha] at ht
    | some _ => rfl
  · induction l generalizing s with
    | nil => rfl
    | cons a l ih =>
      obtain ⟨s', hs'⟩ := Option.isSome_iff_exists.mp (h [] a l s rfl rfl)
      rw [runAll_cons_of_some hs']
      refine ih fun as b bs t hl ht => h (a :: as) b bs t (by rw [hl]; rfl) ?_
      rwa [runAll_cons_of_some hs']

/-! ## What each step does -/

/-- Steps that break off on some actions only, whatever the state. -/
theorem isSome_runAll_iff_forall {p : A → Prop} (hp : ∀ a s, (step a s).2.isSome ↔ p a) :
    ∀ {as : List A} {s : σ}, (runAll step as s).2.isSome ↔ ∀ a ∈ as, p a
  | [], _ => by simp
  | a :: as, s => by
    rw [List.forall_mem_cons, ← hp a s]
    cases ha : (step a s).2 with
    | none => simp [runAll_cons_of_none ha]
    | some s' => simp [runAll_cons_of_some ha, isSome_runAll_iff_forall hp]

/-- If each step that does not break off logs one event for its action, the log of a run that
comes to its end has one for every action. -/
theorem map_runAll {γ : Type*} {f : E → γ} {g : A → γ}
    (hstep : ∀ a s, (step a s).2.isSome → (step a s).1.map f = [g a]) :
    ∀ {as : List A} {s : σ}, (runAll step as s).2.isSome →
      (runAll step as s).1.map f = as.map g
  | [], _, _ => rfl
  | a :: as, s, h => by
    cases ha : (step a s).2 with
    | none => simp [runAll_cons_of_none ha] at h
    | some s' =>
      rw [runAll_cons_of_some ha] at h ⊢
      rw [List.map_append, hstep a s (by simp [ha]), map_runAll hstep h]
      rfl

/-- Actions that do nothing can be left out. -/
theorem runAll_filter {p : A → Bool} (hp : ∀ a s, p a = false → step a s = ([], some s)) :
    ∀ (as : List A) (s : σ), runAll step (as.filter p) s = runAll step as s
  | [], _ => rfl
  | a :: as, s => by
    cases hpa : p a with
    | false =>
      have ha := hp a s hpa
      rw [List.filter_cons_of_neg (by simp [hpa]), runAll_filter hp as s,
        runAll_cons_of_some (by rw [ha]), ha, List.nil_append]
    | true =>
      rw [List.filter_cons_of_pos hpa]
      cases ha : (step a s).2 with
      | none => rw [runAll_cons_of_none ha, runAll_cons_of_none ha]
      | some s' => rw [runAll_cons_of_some ha, runAll_cons_of_some ha, runAll_filter hp as s']

section

variable (ok : A → Prop) (Inv : σ → Prop)

/-- What the steps keep, a run keeps. -/
theorem inv_runAll (hinv : ∀ a s s', ok a → Inv s → (step a s).2 = some s' → Inv s') :
    ∀ {as : List A} {s s' : σ}, (∀ a ∈ as, ok a) → Inv s → (runAll step as s).2 = some s' →
      Inv s'
  | [], _, _, _, hs, h => Option.some.inj h ▸ hs
  | a :: as, s, s', hok, hs, h => by
    rw [List.forall_mem_cons] at hok
    cases ha : (step a s).2 with
    | none => simp [runAll_cons_of_none ha] at h
    | some s₁ =>
      rw [runAll_cons_of_some ha] at h
      exact inv_runAll hinv hok.2 (hinv a s s₁ hok.1 hs ha) h

/-- What the steps log, a run logs, also one that breaks off. -/
theorem forall_mem_runAll (Q : E → Prop)
    (hinv : ∀ a s s', ok a → Inv s → (step a s).2 = some s' → Inv s')
    (hlog : ∀ a s, ok a → Inv s → ∀ e ∈ (step a s).1, Q e) :
    ∀ {as : List A} {s : σ}, (∀ a ∈ as, ok a) → Inv s → ∀ e ∈ (runAll step as s).1, Q e
  | [], _, _, _, e, he => by simp at he
  | a :: as, s, hok, hs, e, he => by
    rw [List.forall_mem_cons] at hok
    cases ha : (step a s).2 with
    | none =>
      rw [runAll_cons_of_none ha] at he
      exact hlog a s hok.1 hs e he
    | some s' =>
      rw [runAll_cons_of_some ha] at he
      rcases List.mem_append.mp he with he | he
      · exact hlog a s hok.1 hs e he
      · exact forall_mem_runAll Q hinv hlog hok.2 (hinv a s s' hok.1 hs ha) e he

end

/-- A run over several lists of actions that comes to its end has a log for each of them. -/
theorem exists_forall₂_runAll {T : Type*} (Inv : σ → Prop) (Q : T → List E → Prop)
    (f : T → List A) : ∀ {ts : List T}, (∀ t ∈ ts, ∀ s s', Inv s →
      (runAll step (f t) s).2 = some s' → Q t (runAll step (f t) s).1 ∧ Inv s') →
    ∀ {s : σ}, Inv s → (runAll step (ts.flatMap f) s).2.isSome →
      ∃ ess, (runAll step (ts.flatMap f) s).1 = ess.flatten ∧ List.Forall₂ Q ts ess
  | [], _, _, _, _ => ⟨[], rfl, .nil⟩
  | t :: ts, hQ, s, hs, h => by
    rw [List.forall_mem_cons] at hQ
    rw [List.flatMap_cons] at h ⊢
    obtain ⟨u, hu⟩ := Option.isSome_iff_exists.mp h
    obtain ⟨s', hs', hrest⟩ := exists_of_runAll_append hu
    obtain ⟨hlog, hinv⟩ := hQ.1 s s' hs hs'
    obtain ⟨ess, hess, hall⟩ := exists_forall₂_runAll Inv Q f hQ.2 hinv (by rw [hrest]; rfl)
    refine ⟨(runAll step (f t) s).1 :: ess, ?_, .cons hlog hall⟩
    rw [runAll_append_of_some hs', hess, List.flatten_cons]

end PartialRun
