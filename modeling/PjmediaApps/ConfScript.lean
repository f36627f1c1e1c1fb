import PjmediaApps.ConfEnds
import PjmediaApps.ConfMenuLines
import PjmediaApps.ConfSession
import PjmediaApps.Decimal

/-!
# Typing commands for `conf_to_2_sounds`

The text to type for a command is the selection and the answers to the prompts of its
dialogue (`script`), a line each. `fgets` takes at most nine bytes, so an answer of nine
characters has to do without its newline, which the next prompt would read as an empty answer.
A number of more than nine characters cannot be typed at all (`MenuAction.Typable`).

Typed in front of any text, such commands are performed in order and the menu goes on with
the text (`commands_script_append`). Every command that a session performs is one of them
(`typable_of_mem_commands`). So a session can be replayed from its commands (`commands_replay`).
-/

namespace PjmediaApps

open Interactive ByteStream CString

/-! ## What to type -/

/-- The selection of a command and the answers to its prompts. -/
def MenuAction.typed : MenuAction → List (List Byte)
  | .puts _ | .confList _ => []
  | .connectPort src dst => [[ch 'c'], showInt src, showInt dst]
  | .disconnectPort src dst => [[ch 'd'], showInt src, showInt dst]
  | .adjustTxLevel slot level => [[ch 't'], showInt slot, showInt level]
  | .adjustRxLevel slot level => [[ch 'r'], showInt slot, showInt level]
  | .monitorLevel slot dir dur => [[ch 'v'], showInt slot, [dir], showInt dur]

/-- A text and a newline, which a text of nine characters leaves no room for. -/
def typedLine (t : List Byte) : List Byte :=
  if t.length < 9 then t ++ [newline] else t

/-- The text to type for commands. -/
def script (cs : List MenuAction) : List Byte :=
  (cs.flatMap MenuAction.typed).flatMap typedLine

/-- A number of at most nine characters. -/
def FitsAnswer (n : ℤ) : Prop :=
  -10 ^ 8 < n ∧ n < 10 ^ 9

/-- A command the dialogues accept, with numbers that fit in an answer. -/
def MenuAction.Typable (portCount : ℤ) : MenuAction → Prop
  | .puts _ | .confList _ => False
  | .connectPort src dst | .disconnectPort src dst =>
    (FitsAnswer src ∧ 0 ≤ src ∧ src < portCount) ∧ FitsAnswer dst ∧ 0 ≤ dst ∧ dst < portCount
  | .adjustTxLevel slot level | .adjustRxLevel slot level =>
    (FitsAnswer slot ∧ 0 ≤ slot ∧ slot < portCount) ∧ FitsAnswer level ∧ -128 ≤ level
  | .monitorLevel slot dir dur =>
    (FitsAnswer slot ∧ 0 ≤ slot ∧ slot < portCount) ∧ (dir = ch 'r' ∨ dir = ch 't') ∧
      FitsAnswer dur

@[simp] theorem script_nil : script [] = [] :=
  rfl

@[simp] theorem script_cons (c : MenuAction) (cs : List MenuAction) :
    script (c :: cs) = c.typed.flatMap typedLine ++ script cs := by
  simp [script]

theorem length_showInt_le {n : ℤ} (h : FitsAnswer n) : (showInt n).length ≤ 9 :=
  (length_showInt_le_iff (k := 8) (by decide)).mpr h

/-! ## An answer at a prompt -/

/-- A text that `input` keeps and `fgets` takes. -/
structure IsAnswer (t : List Byte) : Prop where
  ne_nil : t ≠ []
  isText : ∀ b ∈ t, isText b
  length_le : t.length ≤ 9

theorem isAnswer_singleton {b : Byte} (hb : isText b) : IsAnswer [b] :=
  ⟨by simp, List.forall_mem_singleton.mpr hb, by simp⟩

theorem isAnswer_direction {dir : Byte} (h : dir = ch 'r' ∨ dir = ch 't') : IsAnswer [dir] :=
  isAnswer_singleton (by rcases h with rfl | rfl <;> decide)

theorem isAnswer_showInt {n : ℤ} (hn : FitsAnswer n) : IsAnswer (showInt n) := by
  refine ⟨showInt_ne_nil n, fun b hb => ?_, length_showInt_le hn⟩
  rcases mem_showInt hb with rfl | hd
  · decide
  · refine isText_iff.mpr ⟨?_, ?_, ?_⟩ <;> rintro rfl <;> exact absurd hd (by decide)

namespace IsAnswer

variable {t : List Byte} (ht : IsAnswer t)

include ht

theorem newline_notMem : newline ∉ t :=
  fun h => absurd (ht.isText newline h) (by decide)

/-- `input` drops the newline, if it is there. -/
theorem input_typedLine : input (some (typedLine t)) = some t := by
  have htake : (typedLine t).takeWhile PjmediaApps.isText = t := by
    unfold typedLine
    split_ifs
    · rw [List.takeWhile_append_of_pos ht.isText, List.takeWhile_cons_of_neg (by decide),
        List.append_nil]
    · exact List.takeWhile_eq_self_iff.mpr ht.isText
  rw [input_some, htake, if_neg ht.ne_nil]

/-- `fgets` stores nine characters of a text without newline. -/
theorem stored_append (h : t.length = 9) (s : List Byte) : stored bufSize (t ++ s) = t := by
  have hpre : t <+: firstLine (t ++ s) := by
    have hn := ht.newline_notMem
    clear ht h
    induction t with
    | nil => exact List.nil_prefix
    | cons b t ih =>
      simp only [List.mem_cons, not_or] at hn
      rw [List.cons_append, firstLine, if_neg fun h => hn.1 h.symm]
      exact List.cons_prefix_cons.mpr ⟨rfl, ih hn.2⟩
  rw [stored, show bufSize - 1 = t.length from h.symm]
  exact List.prefix_iff_eq_take.mp hpre ▸ rfl

/-- A prompt reads the answer typed for it and no more. -/
theorem read_typedLine (s : List Byte) :
    fgets bufSize (typedLine t ++ s) = (some (typedLine t), s) := by
  unfold typedLine
  split_ifs with hlt
  · have hterm : Terminated (t ++ [newline]) := ⟨t, ht.newline_notMem, rfl⟩
    have hfirst := firstLine_append hterm s
    have hafter : afterLine (t ++ [newline] ++ s) = s := by
      rw [← drop_length_firstLine, hfirst, List.drop_left]
    rw [fgets_of_length_lt (by simp) (by rw [hfirst]; simp [bufSize]; omega), hfirst, hafter]
  · have hst := ht.stored_append (by have := ht.length_le; omega) s
    rw [fgets_of_ne_nil _ (by simp [ht.ne_nil]), hst, List.drop_left]

end IsAnswer

/-! ## The checks on printed numbers -/

theorem checkSlot_showInt {portCount n : ℤ} (h : FitsAnswer n ∧ 0 ≤ n ∧ n < portCount) :
    checkSlot portCount (showInt n) = .ok n := by
  simp only [checkSlot, toInt32_showInt (length_showInt_le h.1)]
  rw [strtol_showInt, if_neg (by simp; omega)]

theorem checkLevel_showInt {n : ℤ} (h : FitsAnswer n ∧ -128 ≤ n) :
    checkLevel (showInt n) = .ok n := by
  simp only [checkLevel, toInt32_showInt (length_showInt_le h.1)]
  rw [strtol_showInt, if_neg (by simp; omega)]

theorem checkDuration_showInt {n : ℤ} (h : FitsAnswer n) : checkDuration (showInt n) = .ok n := by
  simp only [checkDuration, toInt32_showInt (length_showInt_le h)]
  rw [strtol_showInt, if_neg (by simp)]

theorem checkDirection_singleton {dir : Byte} (h : dir = ch 'r' ∨ dir = ch 't') :
    checkDirection [dir] = .ok dir := by
  rw [checkDirection]
  exact if_neg (by rcases h with rfl | rfl <;> simp)

/-! ## A round -/

/-- What a run does, without the answers it met. -/
def effect {α P A R σ : Type*} (o : Outcome (Event α P A) R σ) : List A × R × σ :=
  (actions o.trace, o.result, o.rest)

theorem effect_act {α P A R σ : Type*} (src : Source α σ) (a : A) (d : Dialogue α P A R) (s : σ) :
    effect ((Dialogue.act a d).run src s) =
      (a :: (effect (d.run src s)).1, (effect (d.run src s)).2) :=
  rfl

/-- A prompt takes the answer typed for it and the dialogue goes on behind it. -/
theorem effect_askChecked {t : List Byte} (ht : IsAnswer t) {β : Type} {p : Prompt}
    {check : List Byte → Except Message β} {v : β} (hc : check t = .ok v) (k : β → Round)
    (s : List Byte) : effect ((askChecked p check k).run stdinSource (typedLine t ++ s)) =
      effect ((k v).run stdinSource s) := by
  simp only [askChecked, askInput, Dialogue.run, fgetsSource_read, ht.read_typedLine,
    ht.input_typedLine, hc, effect, actions_answer]

section

variable {portCount : ℤ}

theorem effect_askSlot {n : ℤ} (h : FitsAnswer n ∧ 0 ≤ n ∧ n < portCount) {p : Prompt}
    (k : ℤ → Round) (s : List Byte) :
    effect ((askChecked p (checkSlot portCount) k).run stdinSource
      (typedLine (showInt n) ++ s)) = effect ((k n).run stdinSource s) :=
  effect_askChecked (isAnswer_showInt h.1) (checkSlot_showInt h) k s

theorem effect_twoSlots {src dst : ℤ} (hsrc : FitsAnswer src ∧ 0 ≤ src ∧ src < portCount)
    (hdst : FitsAnswer dst ∧ 0 ≤ dst ∧ dst < portCount) (heading : Message)
    (call : ℤ → ℤ → MenuAction) (s : List Byte) :
    effect ((twoSlots portCount heading call).run stdinSource
      (typedLine (showInt src) ++ (typedLine (showInt dst) ++ s))) =
        ([.puts heading, call src dst], some (), s) := by
  rw [twoSlots, effect_act, effect_askSlot hsrc, effect_askSlot hdst, effect_act]
  rfl

theorem effect_slotAndLevel {slot level : ℤ} (hslot : FitsAnswer slot ∧ 0 ≤ slot ∧ slot < portCount)
    (hlevel : FitsAnswer level ∧ -128 ≤ level) (heading : Message)
    (call : ℤ → ℤ → MenuAction) (s : List Byte) :
    effect ((slotAndLevel portCount heading call).run stdinSource
      (typedLine (showInt slot) ++ (typedLine (showInt level) ++ s))) =
        ([.puts heading, call slot level], some (), s) := by
  rw [slotAndLevel, effect_act, effect_askSlot hslot,
    effect_askChecked (isAnswer_showInt hlevel.1) (checkLevel_showInt hlevel), effect_act]
  rfl

theorem effect_displayMeter {slot dur : ℤ} {dir : Byte}
    (hslot : FitsAnswer slot ∧ 0 ≤ slot ∧ slot < portCount) (hdir : dir = ch 'r' ∨ dir = ch 't')
    (hdur : FitsAnswer dur) (s : List Byte) :
    effect ((displayMeter portCount).run stdinSource
      (typedLine (showInt slot) ++ (typedLine [dir] ++ (typedLine (showInt dur) ++ s)))) =
        ([.puts .displayMeter, .monitorLevel slot dir dur], some (), s) := by
  rw [displayMeter, effect_act, effect_askSlot hslot,
    effect_askChecked (isAnswer_direction hdir) (checkDirection_singleton hdir),
    effect_askChecked (isAnswer_showInt hdur) (checkDuration_showInt hdur), effect_act]
  rfl

/-- A round whose selection is typed goes to the dialogue of the selection. -/
theorem effect_menuRound {b : Byte} (hb : isText b) {d : Round} (hd : select portCount b = d)
    {s s' : List Byte} {as : List MenuAction} {r : Option Unit}
    (h : effect (d.run stdinSource s) = (as, r, s')) :
    effect ((menuRound portCount).run stdinSource (typedLine [b] ++ s)) =
      (.confList false :: as, r, s') := by
  subst hd
  have hr := (isAnswer_singleton hb).read_typedLine s
  have hhead : (typedLine [b]).headD 0 = b := rfl
  simp only [effect, Prod.mk.injEq] at h
  simp only [menuRound, Dialogue.run, fgetsSource_read, hr, hhead, effect, actions_act,
    actions_answer, h]

/-- A command typed in front of a text is performed in one round, which leaves the text. -/
theorem effect_menuRound_typed {c : MenuAction} (hc : c.Typable portCount) (s : List Byte) :
    ∃ heading, effect ((menuRound portCount).run stdinSource (c.typed.flatMap typedLine ++ s)) =
      ([.confList false, .puts heading, c], some (), s) := by
  cases c with
  | puts m => exact hc.elim
  | confList detail => exact hc.elim
  | connectPort src dst =>
    have h := effect_twoSlots hc.1 hc.2 .connect .connectPort s
    exact ⟨_, by simpa [MenuAction.typed] using effect_menuRound (b := ch 'c') (by decide) rfl h⟩
  | disconnectPort src dst =>
    have h := effect_twoSlots hc.1 hc.2 .disconnect .disconnectPort s
    exact ⟨_, by simpa [MenuAction.typed] using effect_menuRound (b := ch 'd') (by decide) rfl h⟩
  | adjustTxLevel slot level =>
    have h := effect_slotAndLevel hc.1 hc.2 .adjustTransmit .adjustTxLevel s
    exact ⟨_, by simpa [MenuAction.typed] using effect_menuRound (b := ch 't') (by decide) rfl h⟩
  | adjustRxLevel slot level =>
    have h := effect_slotAndLevel hc.1 hc.2 .adjustReceive .adjustRxLevel s
    exact ⟨_, by simpa [MenuAction.typed] using effect_menuRound (b := ch 'r') (by decide) rfl h⟩
  | monitorLevel slot dir dur =>
    have h := effect_displayMeter hc.1 hc.2.1 hc.2.2 s
    exact ⟨_, by simpa [MenuAction.typed] using effect_menuRound (b := ch 'v') (by decide) rfl h⟩

end

/-! ## Sessions -/

section

variable (portCount : ℤ)

/-- After a round that goes on, the menu goes on with the text the round leaves. -/
theorem trace_menuSession_of_some {s : List Byte}
    (h : ((menuRound portCount).run stdinSource s).result = some ()) :
    (menuSession portCount s).trace = ((menuRound portCount).run stdinSource s).trace ::
      (menuSession portCount ((menuRound portCount).run stdinSource s).rest).trace := by
  have hlt : ((menuRound portCount).run stdinSource s).rest.length < s.length :=
    size_menuRound_lt stdinSource portCount h
  have hrest := rounds_eq_of_le (n := _ + 1) (menuSession_result portCount
    ((menuRound portCount).run stdinSource s).rest) hlt
  have hround : (((fun _ : Unit => menuRound portCount) ()).run stdinSource s).result = some () := h
  rw [menuSession, rounds_succ_of_some hround, hrest, menuSession]

/-- The commands of a session are those of its first round and those of the text it leaves. -/
theorem commands_of_effect {s s' : List Byte} {as : List MenuAction}
    (h : effect ((menuRound portCount).run stdinSource s) = (as, some (), s')) :
    commands (menuSession portCount s).trace =
      as.filter MenuAction.isCommand ++ commands (menuSession portCount s').trace := by
  simp only [effect, Prod.mk.injEq] at h
  obtain ⟨has, hr, rfl⟩ := h
  rw [trace_menuSession_of_some portCount hr, commands, List.flatMap_cons, List.filter_append, has,
    commands]

/-- At the end of its input the menu does nothing. -/
theorem commands_menuSession_nil : commands (menuSession portCount []).trace = [] :=
  rfl

variable {portCount}

theorem isCommand_of_typable : ∀ {c : MenuAction}, c.Typable portCount → c.isCommand = true
  | .puts _, h | .confList _, h => h.elim
  | .connectPort _ _, _ | .disconnectPort _ _, _ | .adjustTxLevel _ _, _
  | .adjustRxLevel _ _, _ | .monitorLevel _ _ _, _ => rfl

/-- Commands typed in front of a text are performed in order, and then those of the text. -/
theorem commands_script_append : ∀ {cs : List MenuAction}, (∀ c ∈ cs, c.Typable portCount) →
    ∀ s, commands (menuSession portCount (script cs ++ s)).trace =
      cs ++ commands (menuSession portCount s).trace
  | [], _, s => rfl
  | c :: cs, h, s => by
    rw [List.forall_mem_cons] at h
    obtain ⟨heading, he⟩ := effect_menuRound_typed h.1 (script cs ++ s)
    have hc : [.confList false, .puts heading, c].filter MenuAction.isCommand = [c] := by
      have := isCommand_of_typable h.1
      rw [List.filter_cons_of_neg (by decide),
        List.filter_cons_of_neg (by simp [MenuAction.isCommand]), List.filter_cons_of_pos this,
        List.filter_nil]
    rw [script_cons, List.append_assoc, commands_of_effect portCount he, hc,
      commands_script_append h.2, List.singleton_append, List.cons_append]

/-- Commands that can be typed are those of a session. -/
theorem commands_script {cs : List MenuAction} (h : ∀ c ∈ cs, c.Typable portCount) :
    commands (menuSession portCount (script cs)).trace = cs := by
  have hs := commands_script_append h []
  rwa [List.append_nil, commands_menuSession_nil, List.append_nil] at hs

/-- Behind the commands typed, the session lists the ports once more. -/
theorem exists_actions_script : ∀ {cs : List MenuAction}, (∀ c ∈ cs, c.Typable portCount) →
    ∃ as, (menuSession portCount (script cs)).trace.flatMap actions = as ++ [.confList false] ∧
      as.filter MenuAction.isCommand = cs
  | [], _ => ⟨[], rfl, rfl⟩
  | c :: cs, h => by
    rw [List.forall_mem_cons] at h
    obtain ⟨heading, he⟩ := effect_menuRound_typed h.1 (script cs)
    obtain ⟨as, has, hcs⟩ := exists_actions_script h.2
    simp only [effect, Prod.mk.injEq] at he
    obtain ⟨hround, hr, hrest⟩ := he
    refine ⟨.confList false :: .puts heading :: c :: as, ?_, ?_⟩
    · rw [script_cons, trace_menuSession_of_some portCount hr, List.flatMap_cons, hround, hrest, has]
      rfl
    · rw [List.filter_cons_of_neg (by decide),
        List.filter_cons_of_neg (by simp [MenuAction.isCommand]),
        List.filter_cons_of_pos (isCommand_of_typable h.1), hcs]

/-! ## The commands of a session -/

/-- A number held in what `fgets` stores has at most nine characters. -/
theorem HoldsNumber.fitsAnswer {l : List Byte} {n : ℤ} (h : HoldsNumber l n)
    (hl : l.length ≤ 9) : FitsAnswer n := by
  obtain ⟨str, hstr, hn⟩ := h
  have hlen := (length_of_input hstr).2
  exact (length_showInt_le_iff (k := 8) (by decide)).mp
    ((length_showInt_le_of_isDecimal hn).trans (hlen.trans hl))

theorem HoldsDirection.eq_or {l : List Byte} {dir : Byte} (h : HoldsDirection l dir) :
    dir = ch 'r' ∨ dir = ch 't' := by
  obtain ⟨str, -, -, hdir⟩ := h
  exact hdir

/-- A command performed on answers that `fgets` stored can be typed. -/
theorem Commanded.typable {as : List (Prompt × Option (List Byte))} {c : MenuAction}
    (h : Commanded portCount as c) (hlen : ∀ p l, (p, some l) ∈ as → l.length ≤ 9) :
    c.Typable portCount := by
  cases h with
  | connect _ h₁ h₂ | disconnect _ h₁ h₂ =>
    exact ⟨⟨h₁.1.fitsAnswer (hlen .sourcePort _ (by simp)), h₁.2⟩,
      h₂.1.fitsAnswer (hlen .destinationPort _ (by simp)), h₂.2⟩
  | adjustTx _ h₁ h₂ | adjustRx _ h₁ h₂ =>
    exact ⟨⟨h₁.1.fitsAnswer (hlen .port _ (by simp)), h₁.2⟩,
      h₂.1.fitsAnswer (hlen .level _ (by simp)), h₂.2⟩
  | monitor _ h₁ h₂ h₃ =>
    exact ⟨⟨h₁.1.fitsAnswer (hlen .monitorPort _ (by simp)), h₁.2⟩, h₂.eq_or,
      h₃.fitsAnswer (hlen .duration _ (by simp))⟩

/-- Every command of a session can be typed. -/
theorem typable_of_mem_commands {stdin : List Byte} {c : MenuAction}
    (hc : c ∈ commands (menuSession portCount stdin).trace) : c.Typable portCount := by
  obtain ⟨hc, hcom⟩ := List.mem_filter.mp hc
  obtain ⟨t, ht, hct⟩ := List.mem_flatMap.mp hc
  have hround := (roundRight_menuSession portCount stdin t ht).commanded hct hcom
  refine hround.typable fun p l hl => Nat.lt_succ_iff.mp ?_
  exact length_answer_lt portCount stdin (List.mem_flatMap.mpr ⟨t, ht, hl⟩)

end

/-- The commands of any session, typed in front of any text, are performed again, and then
those of the text. -/
theorem commands_replay (portCount : ℤ) (stdin s : List Byte) :
    commands (menuSession portCount
        (script (commands (menuSession portCount stdin).trace) ++ s)).trace =
      commands (menuSession portCount stdin).trace ++ commands (menuSession portCount s).trace :=
  commands_script_append (fun _ hc => typable_of_mem_commands hc) s

end PjmediaApps
