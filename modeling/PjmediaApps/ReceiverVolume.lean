import PjmediaApps.ControlApps

/-!
# The volume command of `app-receiver`

`m <i> <p>` should set stream `i` to `p` percent of the range of levels, `adjustment p`. The
index is read at column 2 and the percentage at column 4, whatever is there, and the level is
computed in `unsigned`, so a level below zero becomes one near `2 ^ 32`. The index is not
checked against the streams of the receiver. The command is right exactly for one of the
streams, written in at most two digits, and 50 percent or more (`adjustsRight_iff`).

Column 4 may be behind the end of a shorter line, where `temp` still holds what earlier lines
left. This is the subject of `ReceiverHistory`.
-/

namespace PjmediaApps

open Interactive ByteStream CString

/-! ## Levels -/

/-- The adjustment for `p` percent. -/
def adjustment (p : ℕ) : ℤ :=
  256 * p / 100 - 128

theorem adjustment_mono {p q : ℕ} (h : p ≤ q) : adjustment p ≤ adjustment q := by
  unfold adjustment
  omega

theorem adjustment_bounds {p : ℕ} (h : p ≤ 100) : -128 ≤ adjustment p ∧ adjustment p ≤ 128 := by
  unfold adjustment
  omega

theorem adjustment_nonneg_iff {p : ℕ} : 0 ≤ adjustment p ↔ 50 ≤ p := by
  unfold adjustment
  omega

/-- Numbers of 24 bits are `float`s. -/
theorem uintToFloat_of_lt {n : ℕ} (h : n < 2 ^ 24) : uintToFloat n = n := by
  have hbits : excessBits n = 0 := by
    by_cases h0 : n = 0
    · subst h0
      rfl
    · have := (Nat.log2_lt h0).mpr h
      unfold excessBits
      omega
  simp [uintToFloat, hbits, Nat.mod_one]

/-- The level computed from the percentage read. -/
def level (v : ℕ) : ℕ :=
  uintToFloat (toUInt32 (toUInt32 (v * 256) / 100 - 128))

/-- From 50 percent on the level is the adjustment. -/
theorem level_of_le {v : ℕ} (hl : 50 ≤ v) (hu : v < 100000) : (level v : ℤ) = adjustment v := by
  have h1 : (toUInt32 (v * 256) : ℤ) = v * 256 := toUInt32_of_mem (by omega) (by omega)
  have h2 := @toUInt32_of_mem (toUInt32 (v * 256) / 100 - 128) (by omega) (by omega)
  rw [level, uintToFloat_of_lt (by omega), h2, h1, adjustment, mul_comm]

/-- Below three percent it is near `2 ^ 32`. -/
theorem lt_level : ∀ {v : ℕ}, v < 3 → 4294967000 < level v
  | 0, _ => by decide
  | 1, _ => by decide
  | 2, _ => by decide

/-! ## The line -/

/-- A line `m <i> <p>` of at most nine bytes : the digits of `i` and of `p`, and the newline
or nothing. -/
structure VolumeLine where
  index : List Byte
  percent : List Byte
  ending : List Byte
  index_ne : index ≠ []
  isDigit_index : ∀ b ∈ index, isDigit b
  percent_ne : percent ≠ []
  isDigit_percent : ∀ b ∈ percent, isDigit b
  ending_eq : ending = [] ∨ ending = [newline]
  length_le : index.length + percent.length + ending.length ≤ 6

namespace VolumeLine

variable (L : VolumeLine)

/-- The bytes of the line. -/
def line : List Byte :=
  ch 'm' :: ch ' ' :: (L.index ++ ch ' ' :: (L.percent ++ L.ending))

/-- The percentage that column 4 holds : the one typed, or what is left there of an index of
more than two digits. -/
def percentRead : ℕ :=
  if L.index.length ≤ 2 then value L.percent else value (L.index.drop 2)

theorem zero_notMem_line : (0 : Byte) ∉ L.line := by
  have h0 : ¬isDigit 0 := by decide
  simp only [line, List.mem_cons, List.mem_append, not_or]
  refine ⟨by decide, by decide, fun h => h0 (L.isDigit_index _ h), by decide,
    fun h => h0 (L.isDigit_percent _ h), ?_⟩
  rcases L.ending_eq with h | h <;> rw [h] <;> decide

/-- The strings in the array are the ends of the line. -/
theorem cstr_drop_store_line (buf : List Byte) {k : ℕ} (h : k ≤ 4) :
    cstr ((store buf L.line).drop k) = L.line.drop k := by
  have hlen : 4 ≤ L.line.length := by
    have := List.length_pos_iff.mpr L.index_ne
    simp only [line, List.length_cons, List.length_append]
    omega
  rw [cstr_drop_store (by omega),
    cstr_eq_self fun h0 => L.zero_notMem_line (List.mem_of_mem_drop h0)]

theorem isDigit_ending : ∀ b u, L.ending = b :: u → isDigit b = false := by
  intro b u h
  rcases L.ending_eq with h' | h' <;> rw [h'] at h
  · simp at h
  · rw [← (List.cons.inj h).1]
    decide

theorem isDigit_space (t : List Byte) : ∀ b u, ch ' ' :: t = b :: u → isDigit b = false := by
  intro b u h
  rw [← (List.cons.inj h).1]
  decide

/-- The index is read as typed. -/
theorem atoi_index (buf : List Byte) :
    atoi (cstr ((store buf L.line).drop 2)) = value L.index := by
  have hlen := L.length_le
  rw [L.cstr_drop_store_line buf (by omega)]
  exact @atoi_digits [] _ _ (by simp) L.index_ne L.isDigit_index (by omega) (isDigit_space _)

/-- The percentage is read at column 4. -/
theorem atoi_percent (buf : List Byte) :
    atoi (cstr ((store buf L.line).drop 4)) = L.percentRead := by
  have hlen := L.length_le
  have hpos := List.length_pos_iff.mpr L.index_ne
  rw [L.cstr_drop_store_line buf le_rfl, line, List.drop_succ_cons, List.drop_succ_cons,
    percentRead]
  split_ifs with h
  · rcases Nat.lt_or_ge L.index.length 2 with h1 | h2
    · obtain ⟨d, hd⟩ : ∃ d, L.index = [d] := List.length_eq_one_iff.mp (by omega)
      rw [hd]
      exact @atoi_digits [] _ _ (by simp) L.percent_ne L.isDigit_percent (by omega)
        L.isDigit_ending
    · rw [List.drop_left' (by omega)]
      exact @atoi_digits [ch ' '] _ _ (List.forall_mem_singleton.mpr (by decide)) L.percent_ne
        L.isDigit_percent (by omega) L.isDigit_ending
  · have hne : L.index.drop 2 ≠ [] := by
      rw [ne_eq, List.drop_eq_nil_iff]
      omega
    rw [List.drop_append_of_le_length (by omega)]
    exact @atoi_digits [] _ _ (by simp) hne
      (fun b hb => L.isDigit_index b (List.mem_of_mem_drop hb)) (by rw [List.length_drop]; omega)
      (isDigit_space _)

theorem newline_notMem : newline ∉ ch 'm' :: ch ' ' :: (L.index ++ ch ' ' :: L.percent) := by
  have hd : ¬isDigit newline := by decide
  simp only [List.mem_cons, List.mem_append, not_or]
  exact ⟨by decide, by decide, fun h => hd (L.isDigit_index _ h), by decide,
    fun h => hd (L.isDigit_percent _ h)⟩

/-- The line is read with one `fgets`. -/
theorem commandPieces_line : commandPieces L.line = [L.line] := by
  have hline : L.line =
      ch 'm' :: ch ' ' :: (L.index ++ ch ' ' :: L.percent) ++ L.ending := by
    simp [line]
  refine pieces_of_isLine _ ?_ ?_
  · rw [hline]
    exact isLine_append L.newline_notMem L.ending_eq (by simp)
  · have := L.length_le
    simp only [line, List.length_cons, List.length_append, tempSize]
    omega

theorem value_percent_lt : value L.percent < 100000 := by
  have := L.length_le
  have := List.length_pos_iff.mpr L.index_ne
  refine (value_lt L.isDigit_percent).trans_le ?_
  exact Nat.pow_le_pow_right (by decide) (show _ ≤ 5 by omega)

theorem percentRead_lt : L.percentRead < 1000000 := by
  have := L.length_le
  unfold percentRead
  split_ifs with h
  · exact L.value_percent_lt.trans (by decide)
  · refine (value_lt fun b hb => L.isDigit_index b (List.mem_of_mem_drop hb)).trans_le ?_
    exact Nat.pow_le_pow_right (by decide) (show _ ≤ 6 by rw [List.length_drop]; omega)

/-- What the loop does on the line. -/
theorem reactions_line (x : LoopState) :
    (reactions receiverStep x (commandPieces L.line)).flatten =
      [.adjustVolume (value L.index) (level L.percentRead)] := by
  have hv := L.percentRead_lt
  have hint : (toUInt32 L.percentRead : ℤ) = L.percentRead := toUInt32_of_mem (by omega) (by omega)
  rw [L.commandPieces_line, reactions_cons, reactions_nil, List.flatten_singleton,
    receiverStep_adjust rfl, adjustFrom, L.atoi_index, L.atoi_percent, hint]
  rfl

/-- The command should adjust stream `i`, if it is one of the receiver's, for `p` percent,
whatever `temp` held. -/
def AdjustsRight : Prop :=
  ∀ x : LoopState, x.temp.length = tempSize →
    (reactions receiverStep x (commandPieces L.line)).flatten =
      if value L.index < receiverStreams then
        [.adjustVolume (value L.index) (adjustment (value L.percent))]
      else []

end VolumeLine

/-- The command is right exactly for a stream of the receiver written in at most two digits,
and 50 percent or more. -/
theorem adjustsRight_iff (L : VolumeLine) : L.AdjustsRight ↔
    value L.index < receiverStreams ∧ L.index.length ≤ 2 ∧ 50 ≤ value L.percent := by
  have hlt := L.value_percent_lt
  constructor
  · intro h
    have hcall := h ⟨0, List.replicate tempSize 0⟩ (List.length_replicate ..)
    rw [L.reactions_line] at hcall
    by_cases hi : value L.index < receiverStreams
    · rw [if_pos hi] at hcall
      obtain ⟨-, hlevel⟩ := ReceiverCall.adjustVolume.inj (List.head_eq_of_cons_eq hcall)
      refine ⟨hi, ?_, adjustment_nonneg_iff.mp (by omega)⟩
      -- the digits that column 4 finds in an index of three or more are worth less than 3
      by_contra hdigits
      have hread : L.percentRead < 3 := by
        rw [VolumeLine.percentRead, if_neg hdigits]
        exact (value_drop_le _ 2).trans_lt hi
      have := lt_level hread
      unfold adjustment at hlevel
      omega
    · rw [if_neg hi] at hcall
      simp at hcall
  · rintro ⟨hi, hdigits, hp⟩ x -
    rw [L.reactions_line, if_pos hi, VolumeLine.percentRead, if_pos hdigits, level_of_le hp hlt]

/-- The line `m 0 0`. -/
def zeroPercent : VolumeLine where
  index := [ch '0']
  percent := [ch '0']
  ending := [newline]
  index_ne := by simp
  isDigit_index := List.forall_mem_singleton.mpr (by decide)
  percent_ne := by simp
  isDigit_percent := List.forall_mem_singleton.mpr (by decide)
  ending_eq := .inr rfl
  length_le := by decide

/-- For zero percent of stream 0 the level is 4294967168 as an `unsigned`, and the call gets the
nearest `float`, 4294967296, and not −128. -/
theorem not_adjustsRight_zero : ¬zeroPercent.AdjustsRight := by
  intro h
  exact absurd (h ⟨4321, List.replicate tempSize 0⟩ (by decide)) (by decide)

end PjmediaApps
