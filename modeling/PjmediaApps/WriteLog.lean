import Mathlib.Data.List.Basic

/-!
# State under a log of writes

Events that each write values to some keys. `lastWrite` is what the last of them that writes a
key writes to it. A state machine, which may break off, `Applies` the events if each step writes
what its event says and keeps the other keys. After any events that it comes to the end of, a key
then has its last write, and without one what it had at the start (`Applies.get_foldlM`). Events
that do not write a key can be left out (`lastWrite_filter`), and events that each write one key
leave in it what they write (`lastWrite_map`).
-/

namespace WriteLog

section LastWrite

variable {E K V : Type*} (writes : E → K → Option V)

/-- What the last event that writes `k` writes to it. -/
def lastWrite : List E → K → Option V
  | [], _ => none
  | e :: es, k => (lastWrite es k).or (writes e k)

variable {writes} {k : K} {v : V}

@[simp] theorem lastWrite_append (es fs : List E) :
    lastWrite writes (es ++ fs) k = (lastWrite writes fs k).or (lastWrite writes es k) := by
  induction es with
  | nil => simp [lastWrite]
  | cons e es ih => rw [List.cons_append, lastWrite, ih, lastWrite, Option.or_assoc]

theorem lastWrite_eq_none_iff {es : List E} :
    lastWrite writes es k = none ↔ ∀ e ∈ es, writes e k = none := by
  induction es with
  | nil => simp [lastWrite]
  | cons e es ih => rw [lastWrite, Option.or_eq_none_iff, ih, List.forall_mem_cons, and_comm]

/-- The last write is the write of an event that no other one of the key follows. -/
theorem lastWrite_eq_some_iff {es : List E} : lastWrite writes es k = some v ↔
    ∃ pre e post, es = pre ++ e :: post ∧ writes e k = some v ∧
      ∀ e' ∈ post, writes e' k = none := by
  induction es with
  | nil => simp [lastWrite]
  | cons e es ih =>
    rw [lastWrite, Option.or_eq_some_iff, ih, lastWrite_eq_none_iff]
    refine ⟨?_, ?_⟩
    · rintro (⟨pre, e', post, rfl, h⟩ | ⟨hnone, h⟩)
      · exact ⟨e :: pre, e', post, rfl, h⟩
      · exact ⟨[], e, es, rfl, h, hnone⟩
    · rintro ⟨pre, e', post, hes, h⟩
      rcases List.cons_eq_append_iff.mp hes with ⟨rfl, htail⟩ | ⟨pre', rfl, htail⟩
      · obtain ⟨rfl, rfl⟩ := List.cons.inj htail
        exact Or.inr ⟨h.2, h.1⟩
      · exact Or.inl ⟨pre', e', post, htail, h⟩

/-- The last write is a write. -/
theorem exists_mem_of_lastWrite {es : List E} (h : lastWrite writes es k = some v) :
    ∃ e ∈ es, writes e k = some v := by
  obtain ⟨pre, e, post, rfl, he, -⟩ := lastWrite_eq_some_iff.mp h
  exact ⟨e, by simp, he⟩

/-- If all the writes of a key are of one value, the last one is. -/
theorem lastWrite_of_mem {es : List E} {e : E} (he : e ∈ es) (hv : writes e k = some v)
    (hone : ∀ e' ∈ es, ∀ w, writes e' k = some w → w = v) : lastWrite writes es k = some v := by
  cases hl : lastWrite writes es k with
  | none => simp [lastWrite_eq_none_iff.mp hl e he] at hv
  | some w =>
    obtain ⟨e', he', hw⟩ := exists_mem_of_lastWrite hl
    rw [hone e' he' w hw]

/-- Events that do not write the key make no difference for it. -/
theorem lastWrite_filter {p : E → Bool} (hp : ∀ e v, writes e k = some v → p e) (es : List E) :
    lastWrite writes (es.filter p) k = lastWrite writes es k := by
  induction es with
  | nil => rfl
  | cons e es ih =>
    cases hpe : p e with
    | true => rw [List.filter_cons_of_pos hpe, lastWrite, lastWrite, ih]
    | false =>
      have hnone : writes e k = none := by
        refine Option.eq_none_iff_forall_ne_some.mpr fun v hv => ?_
        simp [hp e v hv] at hpe
      rw [List.filter_cons_of_neg (by simp [hpe]), lastWrite, ih, hnone, Option.or_none]

/-- Events that each write the value of one key leave it in the keys they write. -/
theorem lastWrite_map [DecidableEq K] {f : K → E} {w : K → V}
    (hf : ∀ a k, writes (f a) k = if a = k then some (w k) else none) (l : List K) :
    lastWrite writes (l.map f) k = if k ∈ l then some (w k) else none := by
  induction l with
  | nil => rfl
  | cons a l ih =>
    rw [List.map_cons, lastWrite, ih, hf]
    by_cases hl : k ∈ l
    · simp [hl]
    · by_cases ha : a = k
      · simp [ha, hl]
      · simp [hl, ha, Ne.symm ha]

end LastWrite

/-! ## State machines -/

/-- From a state with the invariant, each step on an admissible event keeps the invariant,
writes what the event says and keeps the other keys. -/
structure Applies {σ E K V : Type*} (step : σ → E → Option σ) (Inv : σ → Prop) (ok : E → Prop)
    (get : σ → K → V) (writes : E → K → Option V) : Prop where
  inv : ∀ s e s', Inv s → ok e → step s e = some s' → Inv s'
  get_step : ∀ s e s', Inv s → ok e → step s e = some s' →
    ∀ k, get s' k = (writes e k).getD (get s k)

namespace Applies

variable {σ E K V : Type*} {step : σ → E → Option σ} {Inv : σ → Prop} {ok : E → Prop}
  {get : σ → K → V} {writes : E → K → Option V} (h : Applies step Inv ok get writes)

include h

/-- After any events a key has its last write, and without one what it had at the start. -/
theorem get_foldlM : ∀ (es : List E) {s s' : σ}, Inv s → (∀ e ∈ es, ok e) →
    es.foldlM step s = some s' → ∀ k, get s' k = (lastWrite writes es k).getD (get s k)
  | [], _, _, _, _, hrun, _ => by
    cases hrun
    rfl
  | e :: es, s, s', hs, hok, hrun, k => by
    rw [List.forall_mem_cons] at hok
    rw [List.foldlM_cons] at hrun
    obtain ⟨s₁, hstep, hrun⟩ := Option.bind_eq_some_iff.mp hrun
    rw [get_foldlM es (h.inv s e s₁ hs hok.1 hstep) hok.2 hrun,
      h.get_step s e s₁ hs hok.1 hstep, lastWrite]
    cases lastWrite writes es k <;> rfl

end Applies

end WriteLog
