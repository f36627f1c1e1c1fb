import PjmediaApps.CString
import Mathlib.Tactic.Positivity

/-!
# Printed numbers read back

`sprintf("%d")` of an integer, and the C library's readers on what it prints. A printed number
is a decimal number (`isDecimal_showInt`), so `strtol` reads it back in front of anything that
starts with no digit (`strtol_showInt_append`). It takes no more bytes than any other text of
the number (`length_showInt_le_of_isDecimal`).
-/

namespace CString

open ByteStream

/-! ## Printed digits -/

theorem toNat_ch_of_isDigit {c : Char} (hc : c.isDigit) : (ch c).toNat = c.toNat := by
  simp only [Char.isDigit, ge_iff_le, Bool.and_eq_true, decide_eq_true_eq] at hc
  have hle : c.toNat ≤ 57 := UInt32.le_iff_toNat_le.mp hc.2
  exact Nat.mod_eq_of_lt (by omega)

theorem isDigit_ch {c : Char} (hc : c.isDigit) : isDigit (ch c) := by
  have h := hc
  simp only [Char.isDigit, ge_iff_le, Bool.and_eq_true, decide_eq_true_eq] at hc
  have hl := UInt32.le_iff_toNat_le.mp hc.1
  have hu := UInt32.le_iff_toNat_le.mp hc.2
  simp only [isDigit, toNat_ch_of_isDigit h, Bool.and_eq_true, decide_eq_true_eq]
  exact ⟨hl, hu⟩

theorem value_map_ch : ∀ (cs : List Char) (v : ℕ), (∀ c ∈ cs, c.isDigit) →
    (cs.map ch).foldl (fun v b => 10 * v + (b.toNat - 48)) v = Nat.ofDigitChars 10 cs v
  | [], _, _ => rfl
  | c :: cs, v, h => by
    rw [List.forall_mem_cons] at h
    rw [List.map_cons, List.foldl_cons, toNat_ch_of_isDigit h.1, value_map_ch cs _ h.2]
    rfl

theorem isDigit_of_mem_showNat {n : ℕ} {b : Byte} (hb : b ∈ showNat n) : isDigit b := by
  obtain ⟨c, hc, rfl⟩ := List.mem_map.mp hb
  exact isDigit_ch (Nat.isDigit_of_mem_toDigits (by decide) le_rfl hc)

@[simp] theorem showNat_ne_nil (n : ℕ) : showNat n ≠ [] := by
  simp [showNat]

/-- The digits printed for a number denote it. -/
@[simp] theorem value_showNat (n : ℕ) : value (showNat n) = n := by
  have hdigits : ∀ c ∈ Nat.toDigits 10 n, c.isDigit := fun c hc =>
    Nat.isDigit_of_mem_toDigits (by decide) le_rfl hc
  rw [value, showNat, value_map_ch _ _ hdigits, Nat.ofDigitChars_ten_toDigits]

/-! ## Printed integers -/

/-- `sprintf(s, "%d", n)`. -/
def showInt (n : ℤ) : List Byte :=
  if n < 0 then ch '-' :: showNat n.natAbs else showNat n.natAbs

theorem showInt_ne_nil (n : ℤ) : showInt n ≠ [] := by
  unfold showInt
  split_ifs <;> simp

/-- A printed integer is a sign or none, and digits. -/
theorem showInt_eq (n : ℤ) : ∃ neg sg, showInt n = sg ++ showNat n.natAbs ∧
    (neg = false ∧ (sg = [] ∨ sg = [ch '+']) ∨ neg = true ∧ sg = [ch '-']) ∧
    n = signed neg n.natAbs := by
  unfold showInt signed
  split_ifs with hn
  · exact ⟨true, [ch '-'], rfl, by simp, by rw [if_pos rfl]; omega⟩
  · exact ⟨false, [], rfl, by simp, by rw [if_neg (by simp)]; omega⟩

/-- A printed integer is a decimal number. -/
theorem isDecimal_showInt (n : ℤ) : IsDecimal (showInt n) n := by
  obtain ⟨neg, sg, hs, hsg, hn⟩ := showInt_eq n
  refine ⟨[], neg, sg, showNat n.natAbs, by rw [hs]; rfl, by simp, hsg, showNat_ne_nil _,
    fun b hb => isDigit_of_mem_showNat hb, ?_⟩
  rw [value_showNat]
  exact hn

/-- `strtol` reads a printed integer back and stops behind it. -/
theorem strtol_showInt_append (n : ℤ) {rest : List Byte}
    (hrest : ∀ b u, rest = b :: u → isDigit b = false) :
    strtol (showInt n ++ rest) = (clampLong n, rest) := by
  obtain ⟨neg, sg, hs, hsg, hn⟩ := showInt_eq n
  have h := @strtol_append [] sg (showNat n.natAbs) rest neg (by simp) hsg (showNat_ne_nil _)
    (fun b hb => isDigit_of_mem_showNat hb) hrest
  rw [value_showNat, ← hn] at h
  rw [hs, List.append_assoc]
  exact h

/-- `strtol` reads a printed integer to its end. -/
theorem strtol_showInt (n : ℤ) : strtol (showInt n) = (clampLong n, []) := by
  have hnil : ∀ b u, ([] : List Byte) = b :: u → isDigit b = false := by simp
  have h := strtol_showInt_append n hnil
  rwa [List.append_nil] at h

theorem length_showNat_value_le {ds : List Byte} (hne : ds ≠ []) (hds : ∀ b ∈ ds, isDigit b) :
    (showNat (value ds)).length ≤ ds.length :=
  (length_showNat_le_iff (List.length_pos_iff.mpr hne)).mpr (value_lt hds)

/-- No text of a number is shorter than its printed one. -/
theorem length_showInt_le_of_isDecimal {s : List Byte} {n : ℤ} (h : IsDecimal s n) :
    (showInt n).length ≤ s.length := by
  obtain ⟨ws, neg, sg, ds, rfl, -, hsg, hne, hds, rfl⟩ := h
  have hlen := length_showNat_value_le hne hds
  simp only [List.length_append, showInt, signed]
  rcases hsg with ⟨rfl, -⟩ | ⟨rfl, rfl⟩
  · simp only [Bool.false_eq_true, if_false, Int.natAbs_natCast]
    rw [if_neg (by omega)]
    omega
  · simp only [if_true, Int.natAbs_neg, Int.natAbs_natCast, List.length_singleton]
    split_ifs <;> simp <;> omega

/-- A printed integer of `k + 1` bytes has `k + 1` digits, or a sign and `k`. -/
theorem length_showInt_le_iff {n : ℤ} {k : ℕ} (hk : 0 < k) :
    (showInt n).length ≤ k + 1 ↔ -10 ^ k < n ∧ n < 10 ^ (k + 1) := by
  have hpow : (0 : ℤ) < 10 ^ k := by positivity
  have hcast : ∀ j : ℕ, ((10 ^ j : ℕ) : ℤ) = 10 ^ j := fun j => by push_cast; rfl
  unfold showInt
  split_ifs with hn
  · rw [List.length_cons, Nat.add_le_add_iff_right, length_showNat_le_iff hk, ← hcast]
    have : (0 : ℤ) < 10 ^ (k + 1) := by positivity
    omega
  · rw [length_showNat_le_iff (Nat.succ_pos k), ← hcast, ← hcast]
    rw [← hcast] at hpow
    omega

/-- A byte of a printed integer is a sign or a digit. -/
theorem mem_showInt {n : ℤ} {b : Byte} (hb : b ∈ showInt n) : b = ch '-' ∨ isDigit b := by
  unfold showInt at hb
  split_ifs at hb
  · rcases List.mem_cons.mp hb with rfl | hb
    · exact Or.inl rfl
    · exact Or.inr (isDigit_of_mem_showNat hb)
  · exact Or.inr (isDigit_of_mem_showNat hb)

/-- A printed integer of at most nine bytes fits in an `int`. -/
theorem toInt32_showInt {n : ℤ} (h : (showInt n).length ≤ 9) :
    toInt32 (strtol (showInt n)).1 = n := by
  rw [strtol_showInt, toInt32_of_isDecimal (isDecimal_showInt n) h]

end CString
