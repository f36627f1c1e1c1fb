import PjmediaApps.ByteStream

/-!
# Dialogues that read lines through a buffer

A dialogue that is meant to be answered line by line, and is answered by `fgets`. A line that does
not fit in the buffer leaves its tail in the stream, and the next prompt is answered with the
tail. So no tail is read if every answer that another one follows ends with its newline
(`NoTail`).

A run reads no tail and leaves none exactly if every line that is due to a prompt, in the run
that gives each prompt a whole line, fits in the buffer (`clean_iff_admissible`).
-/

namespace ByteStream

open Interactive

variable {α P A R : Type*}

/-- The answers of a trace, without the prompts and the ends of input. -/
def got (t : List (Event α P A)) : List α :=
  (answers t).filterMap Prod.snd

@[simp] theorem got_nil : got ([] : List (Event α P A)) = [] :=
  rfl

@[simp] theorem got_act (a : A) (t : List (Event α P A)) : got (.act a :: t) = got t :=
  rfl

@[simp] theorem got_answer_none (p : P) (t : List (Event α P A)) :
    got (.answer p none :: t) = got t :=
  rfl

@[simp] theorem got_answer_some (p : P) (a : α) (t : List (Event α P A)) :
    got (.answer p (some a) :: t) = a :: got t :=
  rfl

theorem admissible_answer_some {ok : α → Prop} {p : P} {a : α} {t : List (Event α P A)} :
    Admissible ok (.answer p (some a) :: t) ↔ ok a ∧ Admissible ok t := by
  simp only [Admissible, answers_answer, List.mem_cons, Prod.mk.injEq]
  refine ⟨fun h => ⟨h p a (Or.inl ⟨rfl, rfl⟩), fun q b hb => h q b (Or.inr hb)⟩, ?_⟩
  rintro ⟨ha, h⟩ q b (⟨-, hb⟩ | hb)
  · rwa [Option.some.inj hb]
  · exact h q b hb

theorem admissible_answer_none {ok : α → Prop} {p : P} {t : List (Event α P A)} :
    Admissible ok (.answer p none :: t) ↔ Admissible ok t := by
  simp [Admissible]

/-! ## Tails -/

/-- Every line that another one follows ends with its newline. -/
def NoTail (ls : List (List Byte)) : Prop :=
  ∀ l ∈ ls.dropLast, Terminated l

theorem noTail_nil : NoTail [] := by
  simp [NoTail]

theorem noTail_cons {l : List Byte} {ls : List (List Byte)} :
    NoTail (l :: ls) ↔ (ls ≠ [] → Terminated l) ∧ NoTail ls := by
  cases ls with
  | nil => simp [NoTail]
  | cons m ls => simp [NoTail]

theorem noTail_append {ls ms : List (List Byte)} : NoTail (ls ++ ms) ↔
    NoTail ls ∧ NoTail ms ∧ (ms ≠ [] → ∀ l ∈ ls, Terminated l) := by
  induction ls with
  | nil => simp [noTail_nil]
  | cons l ls ih =>
    rw [List.cons_append, noTail_cons, noTail_cons, ih, List.forall_mem_cons]
    by_cases hls : ls = [] <;> by_cases hms : ms = [] <;> simp [hls, hms] <;> tauto

/-- No tail was read, and none is left in the stream. -/
def Clean (ls : List (List Byte)) (rest : List Byte) : Prop :=
  NoTail ls ∧ (rest ≠ [] → ∀ l ∈ ls, Terminated l)

theorem clean_cons {l : List Byte} {ls : List (List Byte)} {rest : List Byte} :
    Clean (l :: ls) rest ↔ (ls ≠ [] ∨ rest ≠ [] → Terminated l) ∧ Clean ls rest := by
  rw [Clean, Clean, noTail_cons, List.forall_mem_cons]
  tauto

/-- What is stored of a line that does not fit has no newline. -/
theorem not_terminated_stored {n : ℕ} {s : List Byte} (h : n ≤ (firstLine s).length) :
    ¬Terminated (stored n s) := by
  have hnl : ∀ {s : List Byte} {m : ℕ}, m < (firstLine s).length →
      newline ∉ (firstLine s).take m := by
    intro s
    induction s with
    | nil => intro m _; simp [firstLine]
    | cons b s ih =>
      rintro (_ | m) hm
      · simp
      · by_cases hb : b = newline
        · simp [firstLine, hb] at hm
        · simp only [firstLine, if_neg hb, List.length_cons] at hm ⊢
          rw [List.take_succ_cons, List.mem_cons, not_or]
          exact ⟨fun h => hb h.symm, ih (by omega)⟩
  rintro ⟨p, -, hp⟩
  rcases Nat.eq_zero_or_pos n with rfl | hpos
  · simp [stored] at hp
  · refine hnl (show n - 1 < (firstLine s).length by omega) ?_
    rw [stored] at hp
    rw [hp]
    simp

/-! ## Runs -/

section

variable {n : ℕ} (hn : 2 ≤ n)

/-- At the end of the stream a dialogue gets nothing more. -/
theorem got_run_nil : ∀ d : Dialogue (List Byte) P A R,
    got (d.run (fgetsSource n hn) []).trace = [] ∧ (d.run (fgetsSource n hn) []).rest = []
  | .ret _ => ⟨rfl, rfl⟩
  | .ask _ k => got_run_nil (k none)
  | .act _ d => got_run_nil d

/-- Before the end it gets something or leaves the stream alone. -/
theorem got_run_ne_nil : ∀ (d : Dialogue (List Byte) P A R) {s : List Byte}, s ≠ [] →
    got (d.run (fgetsSource n hn) s).trace ≠ [] ∨ (d.run (fgetsSource n hn) s).rest = s
  | .ret _, _, _ => Or.inr rfl
  | .ask p k, s, hs => by
    left
    simp [Dialogue.run, fgets_of_ne_nil n hs]
  | .act a d, s, hs => got_run_ne_nil d hs

/-- A dialogue reads no tail and leaves none exactly if every line due to a prompt fits. -/
theorem clean_iff_admissible : ∀ (d : Dialogue (List Byte) P A R) (s : List Byte),
    Clean (got (d.run (fgetsSource n hn) s).trace) (d.run (fgetsSource n hn) s).rest ↔
      Admissible (fun l => l.length < n) (d.run (popSource (List Byte)) (lines s)).trace
  | .ret _, s => by simp [Dialogue.run, Clean, noTail_nil, Admissible]
  | .act a d, s => clean_iff_admissible d s
  | .ask p k, [] => by
    simpa [Dialogue.run, lines, admissible_answer_none] using clean_iff_admissible (k none) []
  | .ask p k, b :: s => by
    rw [lines_cons]
    by_cases hlt : (firstLine (b :: s)).length < n
    · have ih := clean_iff_admissible (k (some (firstLine (b :: s)))) (afterLine (b :: s))
      have hread := fgets_of_length_lt (s := b :: s) (by simp) hlt
      simp only [Dialogue.run, fgetsSource_read, hread, popSource_read_cons, got_answer_some,
        admissible_answer_some, clean_cons, ih, hlt, true_and, and_iff_right_iff_imp]
      rintro - hmore
      by_cases hafter : afterLine (b :: s) = []
      · rw [hafter] at hmore
        obtain ⟨hgot, hrest⟩ := got_run_nil hn (k (some (firstLine (b :: s))))
        rcases hmore with h | h
        · exact (h hgot).elim
        · exact (h hrest).elim
      · exact terminated_firstLine hafter
    · -- the tail stays in the stream, or is read
      have hread := fgets_of_ne_nil n (s := b :: s) (by simp)
      have hterm := not_terminated_stored (n := n) (s := b :: s) (by omega)
      have htail : (b :: s).drop (stored n (b :: s)).length ≠ [] := by
        have hlen := length_stored_le n (b :: s)
        have hfirst := length_firstLine_add (b :: s)
        rw [ne_eq, List.drop_eq_nil_iff]
        omega
      simp only [Dialogue.run, fgetsSource_read, hread, popSource_read_cons, got_answer_some,
        admissible_answer_some, clean_cons, hlt, false_and, iff_false, not_and]
      intro h
      refine (hterm (h ?_)).elim
      rcases got_run_ne_nil hn (k (some (stored n (b :: s)))) htail with h' | h'
      · exact Or.inl h'
      · rw [h']
        exact Or.inr htail

end

end ByteStream
