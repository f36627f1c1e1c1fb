import PjmediaApps.ConfList
import PjmediaApps.ConfMenu
import PjmediaApps.VuMeter

/-!
# A session of `conf_to_2_sounds` on the bridge

The actions of the menu loop performed on the bridge : `monitor_level` polls the level of a
slot, `conf_list` asks for the entries, and the other commands are one call each. The log
of a session keeps every call with the state of the bridge it is made in. A list whose text
overruns its array breaks the session off.

The strings `input` returns are at most nine bytes, so a number in one is what `strtol` and
the assignment to an `int` give (`holdsSlot_of_checkSlot`). A round performs a command exactly if
every prompt of its dialogue was answered acceptably, with the numbers in the answers for
arguments (`roundDoes_menuRound`). From start-up on, every call of a session then names occupied
slots only (`performAll_right`), and the calls of a round are those its answers stand for
(`roundCalls_of_roundRight`).
-/

namespace PjmediaApps

open Interactive ByteStream CString PartialRun

/-! ## Performing the actions of the menu -/

section

variable {σ : Type*} (api : ConfApi σ) (ub : ℤ → ℤ)

/-- The calls of an action, and the bridge after them unless the action breaks off. -/
def perform : MenuAction → σ → Calls σ × Option σ
  | .puts _, s => ([], some s)
  | .confList detail, s => ((confList api detail s).calls, (confList api detail s).bridge)
  | .connectPort src dst, s => ([(s, .connectPort src dst)], some (api.connectPort s src dst).2)
  | .disconnectPort src dst, s =>
    ([(s, .disconnectPort src dst)], some (api.disconnectPort s src dst).2)
  | .adjustTxLevel slot level, s =>
    ([(s, .adjustTxLevel slot level)], some (api.adjustTxLevel s slot level).2)
  | .adjustRxLevel slot level, s =>
    ([(s, .adjustRxLevel slot level)], some (api.adjustRxLevel s slot level).2)
  | .monitorLevel slot dir dur, s =>
    let r := monitorLevel api ub slot dir dur s
    (r.2.1, some r.2.2)

/-- The calls of actions in order, and the bridge after them unless one breaks off. -/
def performAll (as : List MenuAction) (s : σ) : Calls σ × Option σ :=
  runAll (perform api ub) as s

/-- The bridge after actions in order. -/
def bridgeAfter (as : List MenuAction) (s : σ) : Option σ :=
  (performAll api ub as s).2

/-- The calls of the menu loop on a content of stdin, after start-up with `k` files. -/
def sessionCalls (k : ℕ) (stdin : List Byte) (s : σ) : Calls σ :=
  (performAll api ub ((menuSession (portCount k) stdin).trace.flatMap actions) s).1

/-- The bridge after the menu loop, `none` where the session breaks off. -/
def sessionBridge (k : ℕ) (stdin : List Byte) (s : σ) : Option σ :=
  bridgeAfter api ub ((menuSession (portCount k) stdin).trace.flatMap actions) s

/-- Only a list breaks off. -/
theorem isSome_perform {a : MenuAction} (ha : ∀ detail, a ≠ .confList detail) (s : σ) :
    (perform api ub a s).2.isSome := by
  cases a with
  | confList detail => exact (ha detail rfl).elim
  | _ => rfl

end

/-! ## Numbers in the answers -/

/-- `l`, read at a prompt of `input`, holds the decimal number `n`. -/
def HoldsNumber (l : List Byte) (n : ℤ) : Prop :=
  ∃ str, input (some l) = some str ∧ IsDecimal str n

/-- `l` holds the number of a slot below `port_count`. -/
def HoldsSlot (portCount : ℤ) (l : List Byte) (n : ℤ) : Prop :=
  HoldsNumber l n ∧ 0 ≤ n ∧ n < portCount

/-- `l` holds a level. -/
def HoldsLevel (l : List Byte) (n : ℤ) : Prop :=
  HoldsNumber l n ∧ -128 ≤ n

/-- `l` starts with a direction. -/
def HoldsDirection (l : List Byte) (dir : Byte) : Prop :=
  ∃ str, input (some l) = some str ∧ str.headD 0 = dir ∧ (dir = ch 'r' ∨ dir = ch 't')

/-- An answer the prompt's dialogue goes on from. -/
def Accepted (portCount : ℤ) : Prompt → Option (List Byte) → Prop
  | _, none => False
  | .selection, some _ => True
  | .sourcePort, some l | .destinationPort, some l | .port, some l | .monitorPort, some l =>
    ∃ n, HoldsSlot portCount l n
  | .level, some l => ∃ n, HoldsLevel l n
  | .direction, some l => ∃ dir, HoldsDirection l dir
  | .duration, some l => ∃ n, HoldsNumber l n

/-- The command that a list of answered prompts stands for. -/
inductive Commanded (portCount : ℤ) : List (Prompt × Option (List Byte)) → MenuAction → Prop
  | connect {sel l₁ l₂ : List Byte} {src dst : ℤ} : sel.headD 0 = ch 'c' →
      HoldsSlot portCount l₁ src → HoldsSlot portCount l₂ dst →
      Commanded portCount
        [(.selection, some sel), (.sourcePort, some l₁), (.destinationPort, some l₂)]
        (.connectPort src dst)
  | disconnect {sel l₁ l₂ : List Byte} {src dst : ℤ} : sel.headD 0 = ch 'd' →
      HoldsSlot portCount l₁ src → HoldsSlot portCount l₂ dst →
      Commanded portCount
        [(.selection, some sel), (.sourcePort, some l₁), (.destinationPort, some l₂)]
        (.disconnectPort src dst)
  | adjustTx {sel l₁ l₂ : List Byte} {slot level : ℤ} : sel.headD 0 = ch 't' →
      HoldsSlot portCount l₁ slot → HoldsLevel l₂ level →
      Commanded portCount [(.selection, some sel), (.port, some l₁), (.level, some l₂)]
        (.adjustTxLevel slot level)
  | adjustRx {sel l₁ l₂ : List Byte} {slot level : ℤ} : sel.headD 0 = ch 'r' →
      HoldsSlot portCount l₁ slot → HoldsLevel l₂ level →
      Commanded portCount [(.selection, some sel), (.port, some l₁), (.level, some l₂)]
        (.adjustRxLevel slot level)
  | monitor {sel l₁ l₂ l₃ : List Byte} {slot dur : ℤ} {dir : Byte} : sel.headD 0 = ch 'v' →
      HoldsSlot portCount l₁ slot → HoldsDirection l₂ dir → HoldsNumber l₃ dur →
      Commanded portCount
        [(.selection, some sel), (.monitorPort, some l₁), (.direction, some l₂),
          (.duration, some l₃)]
        (.monitorLevel slot dir dur)

/-- Every prompt of a commanded round was answered acceptably. -/
theorem Commanded.accepted {portCount : ℤ} {as : List (Prompt × Option (List Byte))}
    {c : MenuAction} (h : Commanded portCount as c) : ∀ q ∈ as, Accepted portCount q.1 q.2 := by
  cases h with
  | connect _ h₁ h₂ | disconnect _ h₁ h₂ | adjustTx _ h₁ h₂ | adjustRx _ h₁ h₂ =>
    simp only [List.forall_mem_cons]
    exact ⟨trivial, ⟨_, h₁⟩, ⟨_, h₂⟩, by simp⟩
  | monitor _ h₁ h₂ h₃ =>
    simp only [List.forall_mem_cons]
    exact ⟨trivial, ⟨_, h₁⟩, ⟨_, h₂⟩, ⟨_, h₃⟩, by simp⟩

/-- What a round does on its answers, apart from what it prints and the list it starts with :
the command that they stand for, a list in detail, or nothing. -/
inductive RoundDoes (portCount : ℤ) : List (Prompt × Option (List Byte)) → List MenuAction → Prop
  | command {as : List (Prompt × Option (List Byte))} {c : MenuAction} :
      Commanded portCount as c → RoundDoes portCount as [c]
  | details {sel : List Byte} : sel.headD 0 = ch 's' →
      RoundDoes portCount [(.selection, some sel)] [.confList true]
  /-- Some prompt was cancelled, or its answer rejected. -/
  | rejected {as : List (Prompt × Option (List Byte))} :
      (∃ q ∈ as, ¬Accepted portCount q.1 q.2) → RoundDoes portCount as []
  | other {sel : List Byte} : sel.headD 0 ∉ bytes ['s', 'c', 'd', 't', 'r', 'v'] →
      RoundDoes portCount [(.selection, some sel)] []

/-! ## The checks -/

/-- The value of a consumed string of at most nine bytes is its decimal number. -/
theorem isDecimal_of_strtol {str : List Byte} (hne : str ≠ []) (hlen : str.length ≤ 9)
    (h : (strtol str).2 = []) : IsDecimal str (toInt32 (strtol str).1) := by
  obtain ⟨v, hv⟩ : ∃ v, strtol str = (v, []) := ⟨_, Prod.ext rfl h⟩
  obtain ⟨n, hn, rfl⟩ := (strtol_consumes_iff hne).mp hv
  rwa [hv, toInt32_of_isDecimal hn hlen]

/-- A decimal number of at most nine bytes is consumed and kept. -/
theorem strtol_of_isDecimal {str : List Byte} {n : ℤ} (h : IsDecimal str n) (hne : str ≠ [])
    (hlen : str.length ≤ 9) : (strtol str).2 = [] ∧ toInt32 (strtol str).1 = n := by
  rw [(strtol_consumes_iff hne).mpr ⟨n, h, rfl⟩]
  exact ⟨rfl, toInt32_of_isDecimal h hlen⟩

section

variable {l str : List Byte} (hl : l.length ≤ 9) (h : input (some l) = some str)

include hl h

theorem holdsNumber_of_strtol (hend : (strtol str).2 = []) :
    HoldsNumber l (toInt32 (strtol str).1) := by
  obtain ⟨hne, hlen⟩ := length_of_input h
  exact ⟨str, h, isDecimal_of_strtol hne (hlen.trans hl) hend⟩

theorem holdsSlot_of_checkSlot {portCount n : ℤ} (hc : checkSlot portCount str = .ok n) :
    HoldsSlot portCount l n := by
  unfold checkSlot at hc
  simp only at hc
  split_ifs at hc with hbad
  simp only [not_or, not_not, not_lt, not_le] at hbad
  cases hc
  exact ⟨holdsNumber_of_strtol hl h hbad.1, hbad.2⟩

theorem holdsLevel_of_checkLevel {n : ℤ} (hc : checkLevel str = .ok n) : HoldsLevel l n := by
  unfold checkLevel at hc
  simp only at hc
  split_ifs at hc with hbad
  simp only [not_or, not_not, not_lt] at hbad
  cases hc
  exact ⟨holdsNumber_of_strtol hl h hbad.1, hbad.2⟩

theorem holdsNumber_of_checkDuration {n : ℤ} (hc : checkDuration str = .ok n) :
    HoldsNumber l n := by
  unfold checkDuration at hc
  simp only at hc
  split_ifs at hc with hbad
  cases hc
  exact holdsNumber_of_strtol hl h (not_not.mp hbad)

omit hl in
theorem holdsDirection_of_checkDirection {dir : Byte} (hc : checkDirection str = .ok dir) :
    HoldsDirection l dir := by
  unfold checkDirection at hc
  simp only at hc
  split_ifs at hc with hbad
  simp only [not_and_or, not_not] at hbad
  cases hc
  exact ⟨str, h, rfl, hbad⟩

end

/-! The checks accept what holds an acceptable number. -/

section

variable {l : List Byte} (hl : l.length ≤ 9)

include hl

theorem HoldsNumber.strtol {n : ℤ} (h : HoldsNumber l n) : ∃ str, input (some l) = some str ∧
    (CString.strtol str).2 = [] ∧ toInt32 (CString.strtol str).1 = n := by
  obtain ⟨str, hstr, hn⟩ := h
  obtain ⟨hne, hlen⟩ := length_of_input hstr
  exact ⟨str, hstr, strtol_of_isDecimal hn hne (hlen.trans hl)⟩

theorem exists_checkSlot {portCount : ℤ} (h : ∃ n, HoldsSlot portCount l n) :
    ∃ str v, input (some l) = some str ∧ checkSlot portCount str = .ok v := by
  obtain ⟨n, hn, h0, hlt⟩ := h
  obtain ⟨str, hstr, hend, rfl⟩ := hn.strtol hl
  exact ⟨str, _, hstr, if_neg (by rw [hend]; simp; omega)⟩

theorem exists_checkLevel (h : ∃ n, HoldsLevel l n) :
    ∃ str v, input (some l) = some str ∧ checkLevel str = .ok v := by
  obtain ⟨n, hn, hlevel⟩ := h
  obtain ⟨str, hstr, hend, rfl⟩ := hn.strtol hl
  exact ⟨str, _, hstr, if_neg (by rw [hend]; simp; omega)⟩

theorem exists_checkDuration (h : ∃ n, HoldsNumber l n) :
    ∃ str v, input (some l) = some str ∧ checkDuration str = .ok v := by
  obtain ⟨n, hn⟩ := h
  obtain ⟨str, hstr, hend, -⟩ := hn.strtol hl
  exact ⟨str, _, hstr, if_neg (not_not.mpr hend)⟩

omit hl in
theorem exists_checkDirection (h : ∃ dir, HoldsDirection l dir) :
    ∃ str v, input (some l) = some str ∧ checkDirection str = .ok v := by
  obtain ⟨dir, str, hstr, rfl, hdir⟩ := h
  exact ⟨str, _, hstr, if_neg (by tauto)⟩

end

/-! ## A round -/

section

variable {α : Type*} (src : Source (List Byte) α) (portCount : ℤ)

/-- After the answers `pre`, the rest `d` of a round does what the answers of the whole round
stand for. -/
def Goes (pre : List (Prompt × Option (List Byte))) (d : Round) : Prop :=
  ∀ s, RoundDoes portCount (pre ++ answers (d.run src s).trace)
    ((actions (d.run src s).trace).filter MenuAction.isCall)

variable {src portCount} {pre : List (Prompt × Option (List Byte))}

theorem goes_ret {r : Option Unit} (h : RoundDoes portCount pre []) :
    Goes src portCount pre (.ret r) := by
  intro s
  simpa [Dialogue.run] using h

theorem goes_puts {m : Message} {d : Round} (h : Goes src portCount pre d) :
    Goes src portCount pre (.act (.puts m) d) := by
  intro s
  simpa [Dialogue.run, MenuAction.isCall] using h s

/-- A call at the end of a round. -/
theorem goes_call {a : MenuAction} (ha : a.isCall = true) (h : RoundDoes portCount pre [a]) :
    Goes src portCount pre (.act a again) := by
  intro s
  simpa [Dialogue.run, again, ha] using h

theorem goes_ask {p : Prompt} {k : Option (List Byte) → Round}
    (h : ∀ s, Goes src portCount (pre ++ [(p, (src.read s).1)]) (k (src.read s).1)) :
    Goes src portCount pre (.ask p k) := by
  intro s
  simpa [Dialogue.run, List.append_assoc] using h s (src.read s).2

theorem roundDoes_rejected {p : Prompt} {a : Option (List Byte)} (h : ¬Accepted portCount p a) :
    RoundDoes portCount (pre ++ [(p, a)]) [] :=
  .rejected ⟨(p, a), by simp, h⟩

variable (hsrc : ∀ s l, (src.read s).1 = some l → l.length ≤ 9)

include hsrc

/-- A round goes on from a checked prompt exactly with an acceptable answer. -/
theorem goes_askChecked {β : Type} {p : Prompt} {check : List Byte → Except Message β}
    {k : β → Round}
    (hacc : ∀ l, l.length ≤ 9 → Accepted portCount p (some l) →
      ∃ str v, input (some l) = some str ∧ check str = .ok v)
    (h : ∀ l str v, l.length ≤ 9 → input (some l) = some str → check str = .ok v →
      Goes src portCount (pre ++ [(p, some l)]) (k v)) :
    Goes src portCount pre (askChecked p check k) := by
  refine goes_ask fun s => ?_
  cases hr : (src.read s).1 with
  | none => exact goes_ret (roundDoes_rejected (by simp [Accepted]))
  | some l =>
    have hl := hsrc s l hr
    cases hi : input (some l) with
    | none =>
      refine goes_ret (roundDoes_rejected fun ha => ?_)
      obtain ⟨str, v, hstr, -⟩ := hacc l hl ha
      rw [hi] at hstr
      cases hstr
    | some str =>
      cases hc : check str with
      | error m =>
        simp only [hc]
        refine goes_puts (goes_ret (roundDoes_rejected fun ha => ?_))
        obtain ⟨str', v, hstr, hv⟩ := hacc l hl ha
        rw [hi] at hstr
        cases hstr
        rw [hc] at hv
        cases hv
      | ok v =>
        simp only [hc]
        exact h l str v hl hi hc

theorem goes_twoSlots {heading : Message} {call : ℤ → ℤ → MenuAction}
    (hcall : ∀ src dst, (call src dst).isCall = true)
    (h : ∀ l₁ l₂ src dst, HoldsSlot portCount l₁ src → HoldsSlot portCount l₂ dst →
      Commanded portCount (pre ++ [(.sourcePort, some l₁), (.destinationPort, some l₂)])
        (call src dst)) :
    Goes src portCount pre (twoSlots portCount heading call) := by
  refine goes_puts (goes_askChecked hsrc (fun l hl => exists_checkSlot hl)
    fun l₁ str₁ v₁ hl₁ hi₁ hc₁ => ?_)
  refine goes_askChecked hsrc (fun l hl => exists_checkSlot hl)
    fun l₂ str₂ v₂ hl₂ hi₂ hc₂ => goes_call (hcall _ _) (.command ?_)
  rw [List.append_assoc]
  exact h l₁ l₂ v₁ v₂ (holdsSlot_of_checkSlot hl₁ hi₁ hc₁) (holdsSlot_of_checkSlot hl₂ hi₂ hc₂)

theorem goes_slotAndLevel {heading : Message} {call : ℤ → ℤ → MenuAction}
    (hcall : ∀ slot level, (call slot level).isCall = true)
    (h : ∀ l₁ l₂ slot level, HoldsSlot portCount l₁ slot → HoldsLevel l₂ level →
      Commanded portCount (pre ++ [(.port, some l₁), (.level, some l₂)]) (call slot level)) :
    Goes src portCount pre (slotAndLevel portCount heading call) := by
  refine goes_puts (goes_askChecked hsrc (fun l hl => exists_checkSlot hl)
    fun l₁ str₁ v₁ hl₁ hi₁ hc₁ => ?_)
  refine goes_askChecked hsrc (fun l hl => exists_checkLevel hl)
    fun l₂ str₂ v₂ hl₂ hi₂ hc₂ => goes_call (hcall _ _) (.command ?_)
  rw [List.append_assoc]
  exact h l₁ l₂ v₁ v₂ (holdsSlot_of_checkSlot hl₁ hi₁ hc₁) (holdsLevel_of_checkLevel hl₂ hi₂ hc₂)

theorem goes_displayMeter {sel : List Byte} (hsel : sel.headD 0 = ch 'v') :
    Goes src portCount [(.selection, some sel)] (displayMeter portCount) := by
  refine goes_puts (goes_askChecked hsrc (fun l hl => exists_checkSlot hl)
    fun l₁ str₁ v₁ hl₁ hi₁ hc₁ => ?_)
  refine goes_askChecked hsrc (fun l _ => exists_checkDirection)
    fun l₂ str₂ v₂ hl₂ hi₂ hc₂ => ?_
  refine goes_askChecked hsrc (fun l hl => exists_checkDuration hl)
    fun l₃ str₃ v₃ hl₃ hi₃ hc₃ => goes_call rfl (.command ?_)
  exact .monitor hsel (holdsSlot_of_checkSlot hl₁ hi₁ hc₁)
    (holdsDirection_of_checkDirection hi₂ hc₂) (holdsNumber_of_checkDuration hl₃ hi₃ hc₃)

theorem goes_select (sel : List Byte) :
    Goes src portCount [(.selection, some sel)] (select portCount (sel.headD 0)) := by
  have hother : ∀ {b : Byte}, b ≠ ch 's' → b ≠ ch 'c' → b ≠ ch 'd' → b ≠ ch 't' → b ≠ ch 'r' →
      b ≠ ch 'v' → b ∉ bytes ['s', 'c', 'd', 't', 'r', 'v'] := by
    intro b hs hc hd ht hr hv
    simp [bytes, hs, hc, hd, ht, hr, hv]
  unfold select
  split_ifs with hs hc hd ht hr hv hq
  · exact goes_call rfl (.details hs)
  · exact goes_twoSlots hsrc (fun _ _ => rfl) fun _ _ _ _ => .connect hc
  · exact goes_twoSlots hsrc (fun _ _ => rfl) fun _ _ _ _ => .disconnect hd
  · exact goes_slotAndLevel hsrc (fun _ _ => rfl) fun _ _ _ _ => .adjustTx ht
  · exact goes_slotAndLevel hsrc (fun _ _ => rfl) fun _ _ _ _ => .adjustRx hr
  · exact goes_displayMeter hsrc hv
  · exact goes_ret (.other (hother hs hc hd ht hr hv))
  · exact goes_puts (goes_ret (.other (hother hs hc hd ht hr hv)))

/-- A round lists the ports and then does what its answers stand for. -/
theorem roundDoes_menuRound (s : α) : ∃ acts,
    actions ((menuRound portCount).run src s).trace = .confList false :: acts ∧
      RoundDoes portCount (answers ((menuRound portCount).run src s).trace)
        (acts.filter MenuAction.isCall) := by
  have hgoes : ∀ k, menuRound portCount = .act (.confList false) (.ask .selection k) →
      Goes src portCount [] (.ask .selection k) := by
    intro k hk
    obtain ⟨-, hk⟩ := Dialogue.act.inj hk
    obtain rfl := (Dialogue.ask.inj hk).2
    refine goes_ask fun s => ?_
    cases hr : (src.read s).1 with
    | none => exact goes_ret (roundDoes_rejected (by simp [Accepted]))
    | some sel => exact goes_select hsrc sel
  exact ⟨_, rfl, hgoes _ rfl s⟩

end

/-! ## The calls of a session -/

/-- A call in a state the menu reaches, that names occupied slots and passes levels of at
least −128. -/
structure CallRight {σ : Type*} (api : ConfApi σ) (view : σ → Bridge) (k : ℕ) (e : σ × ConfCall) :
    Prop where
  reachable : MenuReachable api k e.1
  slots : ∀ slot ∈ e.2.slots, ∃ n ∈ (view e.1).occupied, slot = (n : ℤ)
  levels : ∀ level ∈ e.2.levels, -128 ≤ level

/-- An action with its slots in the range the menu accepts and its level at least −128. -/
def MenuAction.InRange (portCount : ℤ) : MenuAction → Prop
  | .puts _ | .confList _ => True
  | .connectPort src dst | .disconnectPort src dst =>
    (0 ≤ src ∧ src < portCount) ∧ 0 ≤ dst ∧ dst < portCount
  | .adjustTxLevel slot level | .adjustRxLevel slot level =>
    (0 ≤ slot ∧ slot < portCount) ∧ -128 ≤ level
  | .monitorLevel slot _ _ => 0 ≤ slot ∧ slot < portCount

theorem Commanded.inRange {portCount : ℤ} {as : List (Prompt × Option (List Byte))}
    {c : MenuAction} (h : Commanded portCount as c) : c.InRange portCount := by
  cases h with
  | connect _ h₁ h₂ | disconnect _ h₁ h₂ | adjustTx _ h₁ h₂ | adjustRx _ h₁ h₂ => exact ⟨h₁.2, h₂.2⟩
  | monitor _ h₁ _ _ => exact h₁.2

theorem inRange_of_isCommand_eq_false {portCount : ℤ} {a : MenuAction} (h : a.isCommand = false) :
    a.InRange portCount := by
  cases a <;> simp [MenuAction.isCommand] at h <;> trivial

theorem isCall_of_isCommand : ∀ {a : MenuAction}, a.isCommand = true → a.isCall = true
  | .puts _, h | .confList _, h => by simp [MenuAction.isCommand] at h
  | .connectPort _ _, _ | .disconnectPort _ _, _ | .adjustTxLevel _ _, _
  | .adjustRxLevel _ _, _ | .monitorLevel _ _ _, _ => rfl

/-- A round lists the ports and then does what its answers stand for. -/
def RoundRight (portCount : ℤ) (t : List (Event (List Byte) Prompt MenuAction)) : Prop :=
  ∃ acts, actions t = .confList false :: acts ∧
    RoundDoes portCount (answers t) (acts.filter MenuAction.isCall)

/-- A command is performed on the answers that stand for it. -/
theorem RoundRight.commanded {portCount : ℤ} {t : List (Event (List Byte) Prompt MenuAction)}
    (h : RoundRight portCount t) {c : MenuAction} (hc : c ∈ actions t) (hcom : c.isCommand = true) :
    Commanded portCount (answers t) c := by
  obtain ⟨acts, hacts, hdoes⟩ := h
  rw [hacts, List.mem_cons] at hc
  rcases hc with rfl | hc
  · simp [MenuAction.isCommand] at hcom
  have hmem : c ∈ acts.filter MenuAction.isCall :=
    List.mem_filter.mpr ⟨hc, isCall_of_isCommand hcom⟩
  generalize acts.filter MenuAction.isCall = cs at hdoes hmem
  generalize answers t = qs at hdoes ⊢
  cases hdoes with
  | command h => rwa [List.mem_singleton.mp hmem]
  | details _ =>
    rw [List.mem_singleton.mp hmem] at hcom
    simp [MenuAction.isCommand] at hcom
  | rejected _ => simp at hmem
  | other _ => simp at hmem

theorem RoundRight.inRange {portCount : ℤ} {t : List (Event (List Byte) Prompt MenuAction)}
    (h : RoundRight portCount t) : ∀ a ∈ actions t, a.InRange portCount := by
  intro a ha
  cases hc : a.isCommand with
  | false => exact inRange_of_isCommand_eq_false hc
  | true => exact (h.commanded ha hc).inRange

/-- Every round of a session does what its answers stand for. -/
theorem roundRight_menuSession (portCount : ℤ) (stdin : List Byte) :
    ∀ t ∈ (menuSession portCount stdin).trace, RoundRight portCount t := by
  have hread : ∀ s l, (stdinSource.read s).1 = some l → l.length ≤ 9 := by
    intro s l hl
    obtain ⟨-, rfl⟩ := fgets_eq_some hl
    exact length_stored_le _ _
  exact forall_rounds (fun _ => True) (RoundRight portCount)
    (fun _ s _ => ⟨roundDoes_menuRound hread s, fun _ _ => trivial⟩) _ _ _ trivial

/-- The actions of a session are in range. -/
theorem inRange_of_mem_actions {portCount : ℤ} {stdin : List Byte} {a : MenuAction}
    (ha : a ∈ (menuSession portCount stdin).trace.flatMap actions) : a.InRange portCount := by
  obtain ⟨t, ht, hat⟩ := List.mem_flatMap.mp ha
  exact (roundRight_menuSession portCount stdin t ht).inRange a hat

/-- The first actions of a session are in range. -/
theorem inRange_of_trace_eq_append {portCount : ℤ} {stdin : List Byte} {as bs : List MenuAction}
    (h : (menuSession portCount stdin).trace.flatMap actions = as ++ bs) :
    ∀ a ∈ as, a.InRange portCount := by
  intro a ha
  have hmem : a ∈ (menuSession portCount stdin).trace.flatMap actions := by
    rw [h]
    exact List.mem_append_left _ ha
  exact inRange_of_mem_actions hmem

section

variable {σ : Type*} {api : ConfApi σ} {view : σ → Bridge} (law : api.Lawful view) (ub : ℤ → ℤ)
  {k : ℕ}

include law

/-- The accepted range is the set of occupied slots. -/
theorem exists_occupied {s : σ} (h : MenuReachable api k s) {slot : ℤ} :
    0 ≤ slot ∧ slot < portCount k ↔ ∃ n ∈ (view s).occupied, slot = (n : ℤ) := by
  rw [h.occupied law]
  constructor
  · rintro ⟨h0, hlt⟩
    exact ⟨slot.toNat, Finset.mem_range.mpr (by omega), by omega⟩
  · rintro ⟨n, hn, rfl⟩
    have := Finset.mem_range.mp hn
    omega

theorem callRight_of_mem {s : σ} (h : MenuReachable api k s) {c : ConfCall}
    (hs : ∀ slot ∈ c.slots, 0 ≤ slot ∧ slot < portCount k) (hl : ∀ level ∈ c.levels, -128 ≤ level) :
    CallRight api view k (s, c) :=
  ⟨h, fun slot hslot => (exists_occupied law h).mp (hs slot hslot), hl⟩

/-- A list reads the levels of occupied slots, if any. -/
theorem confList_right (detail : Bool) {s : σ} (h : MenuReachable api k s) :
    (∀ e ∈ (confList api detail s).calls, CallRight api view k e) ∧
      ∀ s', (confList api detail s).bridge = some s' → MenuReachable api k s' := by
  have hslots : ∀ i ∈ api.getPortsInfo s maxPorts, i.slot < portCount k := by
    intro i hi
    have := (law.infos s maxPorts i hi).1
    rwa [h.occupied law, Finset.mem_range] at this
  have hinv : ∀ i t t', i.slot < portCount k → MenuReachable api k t →
      (listRow api detail i t).2 = some t' → MenuReachable api k t' := by
    intro i t t' _ ht ht'
    rw [snd_listRow api ht']
    cases detail
    · exact ht
    · exact ht.signal _
  have hlog : ∀ i t, i.slot < portCount k → MenuReachable api k t →
      ∀ e ∈ (listRow api detail i t).1, ∀ c ∈ e.2, CallRight api view k c := by
    intro i t hi ht e he c hc
    rw [(of_mem_listRow api he).2.2.2] at hc
    cases detail with
    | false => simp at hc
    | true =>
      rw [List.mem_singleton.mp hc]
      exact callRight_of_mem law ht (by simp [ConfCall.slots, hi]) (by simp [ConfCall.levels])
  refine ⟨List.forall_mem_cons.mpr ⟨?_, fun c hc => ?_⟩, fun s' hs' => ?_⟩
  · exact callRight_of_mem law h (by simp [ConfCall.slots]) (by simp [ConfCall.levels])
  · obtain ⟨e, he, hce⟩ := List.mem_flatMap.mp hc
    exact forall_mem_runAll _ _ _ hinv hlog hslots h e he c hce
  · exact inv_runAll _ _ hinv hslots h hs'

/-- A meter polls the one slot it is started with. -/
theorem pollLoop_right {slot : ℤ} (dir : Byte) (hslot : 0 ≤ slot ∧ slot < portCount k) :
    ∀ (n level cnt : ℕ) {s : σ}, MenuReachable api k s →
      (∀ e ∈ (pollLoop api slot dir n level cnt s).2.1, CallRight api view k e) ∧
        MenuReachable api k (pollLoop api slot dir n level cnt s).2.2
  | 0, _, _, s, h => ⟨by simp [pollLoop], h⟩
  | n + 1, level, cnt, s, h => by
    have hcall : CallRight api view k (s, .getSignalLevel slot) :=
      callRight_of_mem law h (by simpa [ConfCall.slots] using hslot) (by simp [ConfCall.levels])
    have hnext : MenuReachable api k (api.getSignalLevel s slot).2 := h.signal slot
    unfold pollLoop
    split
    · next s' heq =>
      rw [heq] at hnext
      exact ⟨by simpa using hcall, hnext⟩
    · next tx rx s' heq =>
      rw [heq] at hnext
      have ih := fun level cnt => pollLoop_right dir hslot n level cnt hnext
      dsimp only
      split_ifs
      all_goals
        refine ⟨?_, (ih _ _).2⟩
        rw [List.forall_mem_cons]
        exact ⟨hcall, (ih _ _).1⟩

omit law in
/-- Actions break off exactly if a list among them does. -/
theorem isSome_bridgeAfter_iff {l : List MenuAction} {s : σ} :
    (bridgeAfter api ub l s).isSome ↔ ∀ as detail bs s', l = as ++ .confList detail :: bs →
      bridgeAfter api ub as s = some s' → (confList api detail s').bridge.isSome := by
  rw [bridgeAfter, performAll, isSome_runAll_iff]
  refine ⟨fun h as detail bs s' => h as _ bs s', fun h as a bs s' hsplit hs' => ?_⟩
  cases a with
  | confList detail => exact h as detail bs s' hsplit hs'
  | _ => exact isSome_perform api ub (by simp) s'

/-- An action in range makes right calls and leaves the bridge in a state the menu reaches. -/
theorem perform_right {a : MenuAction} (ha : a.InRange (portCount k)) {s : σ}
    (h : MenuReachable api k s) : (∀ e ∈ (perform api ub a s).1, CallRight api view k e) ∧
      ∀ s', (perform api ub a s).2 = some s' → MenuReachable api k s' := by
  have hone : ∀ {c : ConfCall} {t : σ}, (∀ slot ∈ c.slots, 0 ≤ slot ∧ slot < portCount k) →
      (∀ level ∈ c.levels, -128 ≤ level) → MenuReachable api k t →
        (∀ e ∈ [(s, c)], CallRight api view k e) ∧
          ∀ s', some t = some s' → MenuReachable api k s' := by
    intro c t hs hl ht
    refine ⟨fun e he => ?_, fun s' hs' => Option.some.inj hs' ▸ ht⟩
    rw [List.mem_singleton.mp he]
    exact callRight_of_mem law h hs hl
  cases a with
  | puts m => exact ⟨by simp [perform], fun s' hs' => Option.some.inj hs' ▸ h⟩
  | confList detail => exact confList_right law detail h
  | connectPort src dst =>
    obtain ⟨⟨hs0, hs⟩, hd0, hd⟩ := ha
    lift src to ℕ using hs0
    lift dst to ℕ using hd0
    refine hone ?_ (by simp [ConfCall.levels]) (h.connect src dst (by omega) (by omega))
    simp only [ConfCall.slots, List.forall_mem_cons]
    exact ⟨⟨by omega, hs⟩, ⟨by omega, hd⟩, by simp⟩
  | disconnectPort src dst =>
    obtain ⟨⟨hs0, hs⟩, hd0, hd⟩ := ha
    lift src to ℕ using hs0
    lift dst to ℕ using hd0
    refine hone ?_ (by simp [ConfCall.levels]) (h.disconnect src dst (by omega) (by omega))
    simp only [ConfCall.slots, List.forall_mem_cons]
    exact ⟨⟨by omega, hs⟩, ⟨by omega, hd⟩, by simp⟩
  | adjustTxLevel slot level =>
    exact hone (by simpa [ConfCall.slots] using ha.1) (by simpa [ConfCall.levels] using ha.2)
      (h.adjustTx slot level)
  | adjustRxLevel slot level =>
    exact hone (by simpa [ConfCall.slots] using ha.1) (by simpa [ConfCall.levels] using ha.2)
      (h.adjustRx slot level)
  | monitorLevel slot dir dur =>
    obtain ⟨hcalls, hs⟩ := pollLoop_right law dir ha (totalCount ub dur).toNat 0 0 h
    exact ⟨hcalls, fun s' hs' => Option.some.inj hs' ▸ hs⟩

/-- Actions in range make right calls only, -/
theorem performAll_right {as : List MenuAction} {s : σ} (has : ∀ a ∈ as, a.InRange (portCount k))
    (h : MenuReachable api k s) : ∀ e ∈ (performAll api ub as s).1, CallRight api view k e :=
  forall_mem_runAll _ _ _ (fun _ _ s' ha ht => (perform_right law ub ha ht).2 s')
    (fun _ _ ha ht => (perform_right law ub ha ht).1) has h

/-- and leave the bridge in a state the menu reaches. -/
theorem menuReachable_bridgeAfter {as : List MenuAction} {s s' : σ}
    (has : ∀ a ∈ as, a.InRange (portCount k)) (h : MenuReachable api k s)
    (hs' : bridgeAfter api ub as s = some s') : MenuReachable api k s' :=
  inv_runAll _ _ (fun _ _ s' ha ht => (perform_right law ub ha ht).2 s') has h hs'

/-- On at most 34 slots they do not break off. -/
theorem isSome_bridgeAfter_of_le (hk : k ≤ 32) {as : List MenuAction} {s : σ}
    (has : ∀ a ∈ as, a.InRange (portCount k)) (h : MenuReachable api k s) :
    (bridgeAfter api ub as s).isSome := by
  refine (isSome_bridgeAfter_iff ub).mpr fun as' detail bs s' hsplit hs' => ?_
  refine isSome_confList_of_le law (menuReachable_bridgeAfter law ub (fun a ha => ?_) h hs') hk _
  exact has a (hsplit ▸ List.mem_append_left _ ha)

end

/-! ## The calls of a round -/

/-- The calls a command stands for. How many polls a meter makes depends on the bridge. -/
def MenuAction.calls (polls : ℕ) : MenuAction → List ConfCall
  | .puts _ | .confList _ => []
  | .connectPort src dst => [.connectPort src dst]
  | .disconnectPort src dst => [.disconnectPort src dst]
  | .adjustTxLevel slot level => [.adjustTxLevel slot level]
  | .adjustRxLevel slot level => [.adjustRxLevel slot level]
  | .monitorLevel slot _ _ => List.replicate polls (.getSignalLevel slot)

/-- The calls a round makes on its answers. Each round starts with a list of the ports. -/
inductive RoundCalls (portCount : ℤ) : List (Prompt × Option (List Byte)) → List ConfCall → Prop
  /-- The integers passed are those that the answers hold. -/
  | command {as : List (Prompt × Option (List Byte))} {c : MenuAction} (polls : ℕ) :
      Commanded portCount as c →
        RoundCalls portCount as (.getPortsInfo maxPorts :: c.calls polls)
  /-- A list in detail reads the levels of slots. -/
  | details {sel : List Byte} (slots : List ℕ) : sel.headD 0 = ch 's' →
      (∀ slot ∈ slots, (slot : ℤ) < portCount) →
        RoundCalls portCount [(.selection, some sel)] (.getPortsInfo maxPorts ::
          .getPortsInfo maxPorts :: slots.map fun (slot : ℕ) => .getSignalLevel slot)
  /-- A dialogue that is cancelled or rejected makes no call. -/
  | rejected {as : List (Prompt × Option (List Byte))} :
      (∃ q ∈ as, ¬Accepted portCount q.1 q.2) → RoundCalls portCount as [.getPortsInfo maxPorts]
  | other {sel : List Byte} : sel.headD 0 ∉ bytes ['s', 'c', 'd', 't', 'r', 'v'] →
      RoundCalls portCount [(.selection, some sel)] [.getPortsInfo maxPorts]

section

variable {σ : Type*} {api : ConfApi σ} (ub : ℤ → ℤ)

/-- A list asks for the entries, and in detail for the levels of each. -/
theorem map_snd_confList {detail : Bool} {s : σ} (h : (confList api detail s).bridge.isSome) :
    (confList api detail s).calls.map Prod.snd = .getPortsInfo maxPorts ::
      if detail then (api.getPortsInfo s maxPorts).map fun i => .getSignalLevel i.slot else [] := by
  have hrow : ∀ (i : PortInfo) (t : σ), (listRow api detail i t).2.isSome →
      (listRow api detail i t).1.map (fun e => e.2.map Prod.snd) =
        [if detail then [.getSignalLevel i.slot] else []] := by
    intro i t hi
    obtain ⟨txlist, ht⟩ := Option.isSome_iff_exists.mp ((isSome_listRow api detail i t).mp hi)
    unfold listRow
    rw [ht]
    cases detail <;> rfl
  have hcalls : ∀ l : List (ListRow × Calls σ), (l.flatMap Prod.snd).map Prod.snd =
      (l.map fun e => e.2.map Prod.snd).flatten := by
    intro l
    rw [List.map_flatMap, List.flatten_eq_flatMap, List.flatMap_map]
    rfl
  rw [confList, List.map_cons, hcalls, map_runAll hrow h]
  cases detail with
  | false => simp
  | true =>
    simp only [if_true]
    rw [← List.flatMap_def, ← List.map_eq_flatMap]

/-- A command makes the calls that it stands for. -/
theorem exists_map_snd_perform {c : MenuAction} (hc : c.isCommand = true) (s : σ) :
    ∃ polls, (perform api ub c s).1.map Prod.snd = c.calls polls := by
  cases c with
  | puts m | confList detail => simp [MenuAction.isCommand] at hc
  | connectPort _ _ | disconnectPort _ _ | adjustTxLevel _ _ | adjustRxLevel _ _ => exact ⟨0, rfl⟩
  | monitorLevel slot dir dur =>
    refine ⟨_, List.eq_replicate_length.mpr fun e he => ?_⟩
    obtain ⟨call, hcall, rfl⟩ := List.mem_map.mp he
    exact snd_eq_of_mem_pollLoop _ _ _ call hcall

theorem Commanded.isCommand {portCount : ℤ} {as : List (Prompt × Option (List Byte))}
    {c : MenuAction} (h : Commanded portCount as c) : c.isCommand = true := by
  cases h <;> rfl

/-- A round that does not break off makes the calls its answers stand for. -/
theorem roundCalls_of_roundRight {view : σ → Bridge} (law : api.Lawful view) {k : ℕ}
    {t : List (Event (List Byte) Prompt MenuAction)} (ht : RoundRight (portCount k) t) {s s' : σ}
    (hs : MenuReachable api k s) (hrun : (performAll api ub (actions t) s).2 = some s') :
    RoundCalls (portCount k) (answers t) ((performAll api ub (actions t) s).1.map Prod.snd) := by
  obtain ⟨acts, hacts, hdoes⟩ := ht
  rw [hacts, ← List.singleton_append] at hrun ⊢
  obtain ⟨s₁, hs₁, hrun⟩ := exists_of_runAll_append hrun
  have hfilter : ∀ u, runAll (perform api ub) (acts.filter MenuAction.isCall) u =
      runAll (perform api ub) acts u :=
    runAll_filter (fun a u ha => by cases a <;> first | rfl | simp [MenuAction.isCall] at ha) acts
  have hlist : (perform api ub (.confList false) s).1.map Prod.snd = [.getPortsInfo maxPorts] := by
    rw [runAll_singleton] at hs₁
    exact map_snd_confList (by rw [show (confList api false s).bridge = some s₁ from hs₁]; rfl)
  rw [performAll, runAll_append_of_some hs₁, runAll_singleton, List.map_append, hlist, ← hfilter]
  rw [← hfilter] at hrun
  generalize acts.filter MenuAction.isCall = cs at hdoes hrun
  generalize answers t = qs at hdoes ⊢
  cases hdoes with
  | command hc =>
    obtain ⟨polls, hpolls⟩ := @exists_map_snd_perform _ api ub _ hc.isCommand s₁
    rw [runAll_singleton, hpolls]
    exact .command polls hc
  | details hsel =>
    rw [runAll_singleton] at hrun ⊢
    have hreach : MenuReachable api k s₁ := by
      rw [runAll_singleton] at hs₁
      exact (confList_right law false hs).2 s₁ hs₁
    have hcalls : (perform api ub (.confList true) s₁).1.map Prod.snd = .getPortsInfo maxPorts ::
        ((api.getPortsInfo s₁ maxPorts).map PortInfo.slot).map fun slot => .getSignalLevel slot := by
      rw [List.map_map]
      exact map_snd_confList
        (by rw [show (confList api true s₁).bridge = some s' from hrun]; rfl)
    rw [hcalls]
    refine .details _ hsel fun slot hslot => ?_
    obtain ⟨i, hi, rfl⟩ := List.mem_map.mp hslot
    have := (law.infos s₁ maxPorts i hi).1
    rw [hreach.occupied law, Finset.mem_range] at this
    exact_mod_cast this
  | rejected h => exact .rejected h
  | other h => exact .other h

end

end PjmediaApps
