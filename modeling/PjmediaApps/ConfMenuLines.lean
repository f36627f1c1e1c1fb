import PjmediaApps.ConfMenu
import PjmediaApps.LineReading

/-!
# Prompts and lines of `conf_to_2_sounds`

`menuByLines` is the menu loop with every prompt given one whole line of stdin. The menu
loop itself reads through arrays of ten bytes, so a line of ten bytes or more answers a
prompt with its first nine bytes and the next prompt, or the next selection, with what is
left. Only the selection that quits has no next prompt. So the session performs what it would
perform line by line, without the tail of a line, exactly if every line that is due to a prompt
fits in the array or is a selection that quits (`lineForLine_iff_due`).
-/

namespace PjmediaApps

open Interactive ByteStream

/-- The menu loop with one whole line of stdin for every prompt. -/
def menuByLines (portCount : ℤ) (stdin : List Byte) :
    Outcome (List (Event (List Byte) Prompt MenuAction)) (Option Unit) (List (List Byte)) :=
  rounds (popSource (List Byte)) (fun _ => menuRound portCount) ((lines stdin).length + 1) ()
    (lines stdin)

theorem menuByLines_result (portCount : ℤ) (stdin : List Byte) :
    (menuByLines portCount stdin).result = none :=
  rounds_result_eq_none (fun _ _ _ h => size_menuRound_lt _ portCount h) _ _ _ (Nat.lt_succ_self _)

/-- The commands of a run of the menu loop in order, and `none` behind them for quitting. -/
def commandsAndQuit {σ : Type*}
    (o : Outcome (List (Event (List Byte) Prompt MenuAction)) (Option Unit) σ) :
    List (Option MenuAction) :=
  (commands o.trace).map some ++ if o.result = none then [none] else []

/-- The session does what it does line by line, and no line is split or skipped. -/
structure LineForLine (portCount : ℤ) (stdin : List Byte) : Prop where
  commands : commandsAndQuit (menuSession portCount stdin) =
    commandsAndQuit (menuByLines portCount stdin)
  /-- Round by round, also what is printed. -/
  actions : (menuSession portCount stdin).trace.map actions =
    (menuByLines portCount stdin).trace.map actions
  /-- No tail of a line answers a prompt. -/
  no_tail : NoTail ((menuSession portCount stdin).trace.flatMap got)

/-- The lines due to the prompts of a round fit, with their newlines, in the array, apart from a
selection that quits. -/
def DueFit (t : List (Event (List Byte) Prompt MenuAction)) : Prop :=
  ∀ p l, (p, some l) ∈ answers t → l.length < bufSize ∨ p = .selection ∧ l.headD 0 = ch 'q'

/-- A prompt is answered with less than a full array. -/
theorem length_answer_lt (portCount : ℤ) (stdin : List Byte) {p : Prompt} {l : List Byte}
    (h : (p, some l) ∈ (menuSession portCount stdin).trace.flatMap answers) :
    l.length < bufSize := by
  have hread : ∀ s a, (stdinSource.read s).1 = some a → a.length < bufSize := by
    intro s a ha
    obtain ⟨-, rfl⟩ := fgets_eq_some ha
    exact Nat.lt_of_le_of_lt (length_stored_le _ _) (by decide)
  obtain ⟨t, ht, hl⟩ := List.mem_flatMap.mp h
  refine forall_rounds (fun _ => True) (fun t => ∀ p l, (p, some l) ∈ answers t →
    l.length < bufSize) (fun _ s _ => ⟨?_, fun _ _ => trivial⟩) _ _ _ trivial t ht p l hl
  exact Dialogue.forall_answers_run hread _ s

/-! ## The rest of a round -/

/-- What is left of a round goes round again, and asks for no selection. -/
def Stays (d : Round) : Prop :=
  ∀ {α : Type} (src : Source (List Byte) α) (s : α), (d.run src s).result = some () ∧
    ∀ p a, (p, a) ∈ answers (d.run src s).trace → p ≠ .selection

theorem stays_again : Stays again :=
  fun _ _ => ⟨rfl, fun _ _ h => by simp [again, Dialogue.run] at h⟩

theorem stays_act {a : MenuAction} {d : Round} (h : Stays d) : Stays (.act a d) :=
  fun src s => h src s

theorem stays_ask {p : Prompt} (hp : p ≠ .selection) {k : Option (List Byte) → Round}
    (h : ∀ got, Stays (k got)) : Stays (.ask p k) := by
  intro α src s
  obtain ⟨hres, hasks⟩ := h (src.read s).1 src (src.read s).2
  refine ⟨hres, fun q a hq => ?_⟩
  rcases List.mem_cons.mp hq with hq | hq
  · rw [(Prod.mk.inj hq).1]
    exact hp
  · exact hasks q a hq

theorem stays_askChecked {β : Type} {p : Prompt} (hp : p ≠ .selection)
    {check : List Byte → Except Message β} {k : β → Round} (h : ∀ v, Stays (k v)) :
    Stays (askChecked p check k) := by
  refine stays_ask hp fun got => ?_
  dsimp only
  split
  · exact stays_again
  · split
    · exact stays_act stays_again
    · exact h _

theorem stays_twoSlots (portCount : ℤ) (heading : Message) (call : ℤ → ℤ → MenuAction) :
    Stays (twoSlots portCount heading call) :=
  stays_act <| stays_askChecked (by decide) fun _ => stays_askChecked (by decide) fun _ =>
    stays_act stays_again

theorem stays_slotAndLevel (portCount : ℤ) (heading : Message) (call : ℤ → ℤ → MenuAction) :
    Stays (slotAndLevel portCount heading call) :=
  stays_act <| stays_askChecked (by decide) fun _ => stays_askChecked (by decide) fun _ =>
    stays_act stays_again

/-- Only one selection quits. -/
theorem stays_select (portCount : ℤ) {c : Byte} (hc : c ≠ ch 'q') : Stays (select portCount c) := by
  unfold select
  split_ifs
  · exact stays_act stays_again
  · exact stays_twoSlots _ _ _
  · exact stays_twoSlots _ _ _
  · exact stays_slotAndLevel _ _ _
  · exact stays_slotAndLevel _ _ _
  · exact stays_act <| stays_askChecked (by decide) fun _ => stays_askChecked (by decide) fun _ =>
      stays_askChecked (by decide) fun _ => stays_act stays_again
  · exact stays_act stays_again

/-! ## A round -/

section

variable (portCount : ℤ) {s : List Byte}

/-- The first byte of a stream is that of its first line and of what `fgets` stores of it. -/
theorem headD_stored {n : ℕ} (hn : 2 ≤ n) (b : Byte) (s : List Byte) :
    (stored n (b :: s)).headD 0 = b ∧ (firstLine (b :: s)).headD 0 = b := by
  obtain ⟨m, rfl⟩ : ∃ m, n = m + 2 := ⟨n - 2, by omega⟩
  by_cases hb : b = newline <;> simp [stored, firstLine, hb]

/-- A round that quits does so on both readings, on at most one answer. -/
theorem menuRound_quits (h : s = [] ∨ s.headD 0 = ch 'q') :
    ∃ a b r r', (menuRound portCount).run stdinSource s =
        ⟨[.act (.confList false), .answer .selection a], none, r⟩ ∧
      (menuRound portCount).run (popSource (List Byte)) (lines s) =
        ⟨[.act (.confList false), .answer .selection b], none, r'⟩ ∧
      ∀ l, b = some l → l.headD 0 = ch 'q' := by
  cases s with
  | nil => exact ⟨none, none, [], [], rfl, rfl, by simp⟩
  | cons b s =>
    obtain rfl : b = ch 'q' := by simpa using h
    obtain ⟨hst, hfirst⟩ := headD_stored two_le_bufSize (ch 'q') s
    have hquit : select portCount (ch 'q') = onQuit := rfl
    have hread := fgets_of_ne_nil bufSize (s := ch 'q' :: s) (by simp)
    refine ⟨some (stored bufSize (ch 'q' :: s)), some (firstLine (ch 'q' :: s)),
      (ch 'q' :: s).drop (stored bufSize (ch 'q' :: s)).length,
      lines (afterLine (ch 'q' :: s)), ?_, ?_, fun l hl => ?_⟩
    · simp only [menuRound, Dialogue.run, fgetsSource_read, hread, hst, hquit, onQuit]
    · simp only [menuRound, Dialogue.run, lines_cons, popSource_read_cons, hfirst, hquit, onQuit]
    · rw [← Option.some.inj hl, hfirst]

/-- Any other round goes on, on both readings, and its lines fit if they are due to fit. -/
theorem menuRound_goes_on (hs : s ≠ []) (hq : s.headD 0 ≠ ch 'q') :
    ((menuRound portCount).run stdinSource s).result = some () ∧
      (DueFit ((menuRound portCount).run (popSource (List Byte)) (lines s)).trace ↔
        Admissible (fun l => l.length < bufSize)
          ((menuRound portCount).run (popSource (List Byte)) (lines s)).trace) := by
  obtain ⟨b, s, rfl⟩ := List.exists_cons_of_ne_nil hs
  obtain ⟨hst, hfirst⟩ := headD_stored two_le_bufSize b s
  have hb : b ≠ ch 'q' := by simpa using hq
  have hread := fgets_of_ne_nil bufSize (s := b :: s) (by simp)
  refine ⟨?_, fun h p l hl => ?_, fun h p l hl => Or.inl (h p l hl)⟩
  · simp only [menuRound, Dialogue.run, fgetsSource_read, hread, hst]
    exact (stays_select portCount hb _ _).1
  · rcases h p l hl with hlt | ⟨rfl, hquit⟩
    · exact hlt
    · -- the one selection of the round does not quit
      simp only [menuRound, Dialogue.run, lines_cons, popSource_read_cons, hfirst, answers_act,
        answers_answer, List.mem_cons, Prod.mk.injEq, true_and, Option.some.injEq] at hl
      rcases hl with rfl | hl
      · rw [hfirst] at hquit
        exact (hb hquit).elim
      · exact ((stays_select portCount hb _ _).2 _ _ hl rfl).elim

end

/-! ## Sessions -/

section

variable (portCount : ℤ)

/-- At the end of the stream the menu gets nothing. -/
theorem got_rounds_nil : ∀ n : ℕ,
    (rounds stdinSource (fun _ => menuRound portCount) n () []).trace.flatMap got = []
  | 0 => rfl
  | _ + 1 => rfl

/-- Before its end a menu that is left has got something. -/
theorem got_rounds_ne_nil {n : ℕ} {s : List Byte} (hs : s ≠ [])
    (h : (rounds stdinSource (fun _ => menuRound portCount) n () s).result = none) :
    (rounds stdinSource (fun _ => menuRound portCount) n () s).trace.flatMap got ≠ [] := by
  cases n with
  | zero => simp [rounds] at h
  | succ n =>
    have hread := fgets_of_ne_nil bufSize hs
    have hgot : got ((menuRound portCount).run stdinSource s).trace ≠ [] := by
      simp [menuRound, Dialogue.run, hread]
    cases hr : ((menuRound portCount).run stdinSource s).result with
    | none => rw [rounds_succ_of_none hr]; simpa using hgot
    | some u => rw [rounds_succ_of_some hr]; simp [hgot]

/-- The rounds go line by line if the lines due to them fit. -/
theorem rounds_of_dueFit : ∀ (n : ℕ) (s : List Byte),
    (∀ t ∈ (rounds (popSource (List Byte)) (fun _ => menuRound portCount) n () (lines s)).trace,
      DueFit t) →
    (rounds stdinSource (fun _ => menuRound portCount) n () s).trace.map actions =
        (rounds (popSource (List Byte)) (fun _ => menuRound portCount) n ()
          (lines s)).trace.map actions ∧
      NoTail ((rounds stdinSource (fun _ => menuRound portCount) n () s).trace.flatMap got)
  | 0, _, _ => ⟨rfl, noTail_nil⟩
  | n + 1, s, h => by
    by_cases hquit : s = [] ∨ s.headD 0 = ch 'q'
    · obtain ⟨a, b, r, r', hS, hL, -⟩ := menuRound_quits portCount hquit
      have hone : ∀ a : Option (List Byte), NoTail
          (got [Event.act (MenuAction.confList false), .answer Prompt.selection a]) := by
        rintro (_ | l) <;> simp [NoTail]
      rw [rounds_succ_of_none (by rw [hS]), rounds_succ_of_none (by rw [hL]), hS, hL]
      exact ⟨rfl, by simpa using hone a⟩
    · rw [not_or] at hquit
      obtain ⟨hres, hdue⟩ := menuRound_goes_on portCount hquit.1 hquit.2
      have hfirst : ∀ t, t = ((menuRound portCount).run (popSource (List Byte)) (lines s)).trace →
          DueFit t := by
        rintro t rfl
        apply h
        cases hr : ((menuRound portCount).run (popSource (List Byte)) (lines s)).result with
        | none => rw [rounds_succ_of_none hr]; simp
        | some u => rw [rounds_succ_of_some hr]; simp
      have hadm := hdue.mp (hfirst _ rfl)
      obtain ⟨ht, hr, hrest⟩ := run_eq_of_agree (agree_lines two_le_bufSize)
        (menuRound portCount) s _ rfl hadm
      obtain ⟨hno, hterm⟩ := (clean_iff_admissible two_le_bufSize (menuRound portCount) s).mpr hadm
      rw [rounds_succ_of_some (hr.symm.trans hres), ← hrest] at h
      obtain ⟨ihact, ihno⟩ := rounds_of_dueFit n _ fun t ht => h t (List.mem_cons_of_mem _ ht)
      rw [rounds_succ_of_some hres, rounds_succ_of_some (hr.symm.trans hres), ← hrest,
        List.map_cons, List.map_cons, ← ht, ihact, List.flatMap_cons, noTail_append]
      refine ⟨rfl, hno, ihno, fun hmore => hterm fun hnil => hmore ?_⟩
      rw [hnil]
      exact got_rounds_nil portCount n

/-- If they read no tail, the lines due to them fit. -/
theorem dueFit_of_noTail : ∀ (n : ℕ) (s : List Byte),
    (rounds stdinSource (fun _ => menuRound portCount) n () s).result = none →
    NoTail ((rounds stdinSource (fun _ => menuRound portCount) n () s).trace.flatMap got) →
    ∀ t ∈ (rounds (popSource (List Byte)) (fun _ => menuRound portCount) n () (lines s)).trace,
      DueFit t
  | 0, _, h, _ => by simp [rounds] at h
  | n + 1, s, h, hno => by
    by_cases hquit : s = [] ∨ s.headD 0 = ch 'q'
    · obtain ⟨a, b, r, r', -, hL, hb⟩ := menuRound_quits portCount hquit
      rw [rounds_succ_of_none (by rw [hL]), hL]
      intro t ht p l hl
      rw [List.mem_singleton.mp ht] at hl
      simp only [answers_act, answers_answer, answers_nil, List.mem_singleton,
        Prod.mk.injEq] at hl
      exact Or.inr ⟨hl.1, hb l hl.2.symm⟩
    · rw [not_or] at hquit
      obtain ⟨hres, hdue⟩ := menuRound_goes_on portCount hquit.1 hquit.2
      rw [rounds_succ_of_some hres] at h hno
      rw [List.flatMap_cons, noTail_append] at hno
      -- a tail that is left would be read in the next round
      have hadm := (clean_iff_admissible two_le_bufSize (menuRound portCount) s).mp
        ⟨hno.1, fun hrest => hno.2.2 (got_rounds_ne_nil portCount hrest h)⟩
      obtain ⟨ht, hr, hrest⟩ := run_eq_of_agree (agree_lines two_le_bufSize)
        (menuRound portCount) s _ rfl hadm
      rw [rounds_succ_of_some (hr.symm.trans hres), ← hrest]
      intro t htmem
      rcases List.mem_cons.mp htmem with rfl | htmem
      · exact hdue.mpr hadm
      · exact dueFit_of_noTail n _ h hno.2.1 t htmem

variable (stdin : List Byte)

/-- The session goes line by line exactly if every line that is due to a prompt fits, with its
newline, in the array, or is a selection that quits. -/
theorem lineForLine_iff_due : LineForLine portCount stdin ↔
    ∀ t ∈ (menuByLines portCount stdin).trace, DueFit t := by
  -- both loops are left, so they can be compared on one number of rounds
  obtain ⟨n, hn, hn'⟩ : ∃ n, stdin.length + 1 ≤ n ∧ (lines stdin).length + 1 ≤ n :=
    ⟨_, le_max_left _ _, le_max_right _ _⟩
  have hres := menuSession_result portCount stdin
  have hS : menuSession portCount stdin =
      rounds stdinSource (fun _ => menuRound portCount) n () stdin :=
    (rounds_eq_of_le hres hn).symm
  have hL : menuByLines portCount stdin =
      rounds (popSource (List Byte)) (fun _ => menuRound portCount) n () (lines stdin) :=
    (rounds_eq_of_le (menuByLines_result portCount stdin) hn').symm
  refine ⟨fun h => ?_, fun h => ?_⟩
  · have hno := h.no_tail
    rw [hS] at hno hres
    rw [hL]
    exact dueFit_of_noTail portCount n stdin hres hno
  · rw [hL] at h
    obtain ⟨hact, hno⟩ := rounds_of_dueFit portCount n stdin h
    rw [← hS, ← hL] at hact
    rw [← hS] at hno
    refine ⟨?_, hact, hno⟩
    rw [commandsAndQuit, commandsAndQuit, hres, menuByLines_result, commands, commands,
      List.flatMap_def, List.flatMap_def, hact]

end

end PjmediaApps
