import PjmediaApps.ControlApps

/-!
# What `app-receiver` remembers

A round of `app-receiver` should depend on the rounds before it through `lport` only. But `temp`
outlives a round too. `fgets` overwrites it up to the NUL behind the bytes it stores, and
the volume command reads it from columns 2 and 4 on. So a line depends on the lines before
it exactly if it is an `m` of less than four bytes (`independentOfHistory_iff`).
-/

namespace PjmediaApps

open Interactive ByteStream CString

/-- The variables of `app-receiver` after the lines `hs`, from an array `temp`. -/
def stateAfter (temp : List Byte) (hs : List (List Byte)) : LoopState :=
  after receiverStep ⟨appReceiver.port, temp⟩ (commandPieces hs.flatten)

/-- The calls on the line `l` after the lines `hs`. -/
def lineCalls (temp : List Byte) (hs : List (List Byte)) (l : List Byte) : List ReceiverCall :=
  (reactions receiverStep (stateAfter temp hs) (commandPieces l)).flatten

/-- The calls on the line `l` are the same after any lines that leave the same port. -/
def IndependentOfHistory (l : List Byte) : Prop :=
  ∀ (temp temp' : List Byte) (hs hs' : List (List Byte)),
    temp.length = tempSize → temp'.length = tempSize →
    (∀ k ∈ hs, Terminated k) → (∀ k ∈ hs', Terminated k) →
    (stateAfter temp hs).port = (stateAfter temp' hs').port →
      lineCalls temp hs l = lineCalls temp' hs' l

theorem headD_eq_m_iff {l : List Byte} : l.headD 0 = ch 'm' ↔ l.head? = some (ch 'm') := by
  cases l with
  | nil => decide
  | cons b l => exact Option.some_inj.symm

/-- A line that is no short `m` is reacted to by the port alone. -/
theorem receiverStep_congr {x y : LoopState} (hport : x.port = y.port) {l : List Byte}
    (h : ¬(l.head? = some (ch 'm') ∧ l.length < 4)) :
    (receiverStep x l).2 = (receiverStep y l).2 := by
  by_cases hm : l.head? = some (ch 'm')
  · have hlen : 4 ≤ l.length := by
      by_contra hlt
      exact h ⟨hm, by omega⟩
    have hd := headD_eq_m_iff.mpr hm
    rw [receiverStep_adjust hd, receiverStep_adjust hd, adjustFrom, adjustFrom,
      cstr_drop_store hlen, cstr_drop_store hlen, cstr_drop_store (by omega),
      cstr_drop_store (by omega)]
  · have hd : l.headD 0 ≠ ch 'm' := fun hd => hm (headD_eq_m_iff.mp hd)
    -- off the volume command, the array is not looked at behind its first byte
    simp only [receiverStep, headD_store, hport, if_neg hd, apply_ite Prod.snd]

/-- The line `m 0 75`. -/
def louder : List Byte :=
  bytes ['m', ' ', '0', ' ', '7', '5', '\n']

/-- The line `m 0 80`. -/
def loudest : List Byte :=
  bytes ['m', ' ', '0', ' ', '8', '0', '\n']

theorem terminated_louder : Terminated louder :=
  ⟨bytes ['m', ' ', '0', ' ', '7', '5'], by decide, rfl⟩

theorem terminated_loudest : Terminated loudest :=
  ⟨bytes ['m', ' ', '0', ' ', '8', '0'], by decide, rfl⟩

/-- After `m 0 75` and after `m 0 80`, a short `m` sets levels 64 and 76. -/
theorem receiverStep_short {l : List Byte} (hm : l.headD 0 = ch 'm') (hlen : l.length < 4) :
    (receiverStep (stateAfter (List.replicate tempSize 0) [louder]) l).2 ≠
      (receiverStep (stateAfter (List.replicate tempSize 0) [loudest]) l).2 := by
  intro h
  rw [receiverStep_adjust hm, receiverStep_adjust hm, adjustFrom, adjustFrom, drop_store hlen,
    drop_store hlen] at h
  obtain ⟨-, hlevel⟩ := ReceiverCall.adjustVolume.inj (List.head_eq_of_cons_eq h)
  revert hlevel
  decide

/-- A line of at most nine bytes depends on the lines before it exactly if it is an `m` of
less than four bytes. -/
theorem independentOfHistory_iff {l : List Byte} (hl : IsLine l) (hlen : l.length < tempSize) :
    IndependentOfHistory l ↔ ¬(l.head? = some (ch 'm') ∧ l.length < 4) := by
  have hcalls : ∀ temp hs, lineCalls temp hs l = (receiverStep (stateAfter temp hs) l).2 := by
    intro temp hs
    rw [lineCalls, commandPieces, pieces_of_isLine _ hl hlen, reactions_cons, reactions_nil,
      List.flatten_singleton]
  refine ⟨fun hind ⟨hm, hshort⟩ => ?_, fun h temp temp' hs hs' _ _ _ _ hport => ?_⟩
  · have hcall := hind (List.replicate tempSize 0) (List.replicate tempSize 0) [louder] [loudest]
      (List.length_replicate ..) (List.length_replicate ..)
      (List.forall_mem_singleton.mpr terminated_louder)
      (List.forall_mem_singleton.mpr terminated_loudest) (by decide)
    rw [hcalls, hcalls] at hcall
    exact receiverStep_short (headD_eq_m_iff.mpr hm) hshort hcall
  · rw [hcalls, hcalls]
    exact receiverStep_congr hport h

/-- The line `+` depends on the port alone. -/
theorem independentOfHistory_plus : IndependentOfHistory (bytes ['+', '\n']) :=
  (independentOfHistory_iff (by decide) (by decide)).mpr (by decide)

/-- The line `m` sets the level of the volume command before it. -/
theorem not_independentOfHistory_m : ¬IndependentOfHistory (bytes ['m', '\n']) := by
  intro h
  have hcall := h (List.replicate tempSize 0) (List.replicate tempSize 0) [louder] [loudest]
    (List.length_replicate ..) (List.length_replicate ..)
    (List.forall_mem_singleton.mpr terminated_louder)
    (List.forall_mem_singleton.mpr terminated_loudest) (by decide)
  exact absurd hcall (by decide)

end PjmediaApps
