import PjmediaApps.ByteStream
import Mathlib.Algebra.Order.Ring.Nat
import Mathlib.Algebra.Order.Ring.Int
import Mathlib.Data.List.Induction
import Mathlib.Data.List.TakeWhile
import Mathlib.Tactic.Ring

/-!
# C integers, and numbers in C strings

How a C program ends (`Exit`), the 32-bit integer types, the conversion from a `long` of 64
bits, and the C library's `strtol`, `atoi` and `sprintf("%d")` in base ten. A string lives in
an array : it ends at the first NUL (`cstr`), and storing a shorter one leaves the bytes behind
its NUL as they were (`store`).

`strtol` on white space, a sign, digits and a rest that starts with no digit gives the
number and the rest (`strtol_append`). A nonempty string is consumed to its end
exactly if it is a decimal number (`strtol_consumes_iff`), and one of at most nine bytes
fits in an `int` (`toInt32_of_isDecimal`).
-/

namespace CString

open ByteStream

/-- How a run of a program ends. -/
inductive Exit
  /-- `main` returns a value. -/
  | returned (n : ℤ)
  /-- An assertion fails. -/
  | aborted
  /-- From here on the language does not say what the program does. -/
  | undefined
  deriving DecidableEq, Repr

/-! ## Integers -/

/-- A number that an `int` of 32 bits holds. -/
def FitsInt (n : ℤ) : Prop :=
  -2147483648 ≤ n ∧ n ≤ 2147483647

instance (n : ℤ) : Decidable (FitsInt n) :=
  inferInstanceAs (Decidable (_ ∧ _))

/-- The value an `int` of 32 bits takes. -/
def toInt32 (n : ℤ) : ℤ :=
  (n + 2147483648) % 4294967296 - 2147483648

/-- The value an `unsigned` of 32 bits takes. -/
def toUInt32 (n : ℤ) : ℕ :=
  (n % 4294967296).toNat

/-- The value of a `long` of 64 bits that `strtol` gives for `n`, at the ends of the range
if `n` is outside. -/
def clampLong (n : ℤ) : ℤ :=
  max (-9223372036854775808) (min n 9223372036854775807)

theorem toInt32_of_mem {n : ℤ} (hl : -2147483648 ≤ n) (hu : n < 2147483648) : toInt32 n = n := by
  unfold toInt32
  omega

theorem toUInt32_of_mem {n : ℤ} (hl : 0 ≤ n) (hu : n < 4294967296) : (toUInt32 n : ℤ) = n := by
  unfold toUInt32
  omega

theorem clampLong_of_mem {n : ℤ} (hl : -2147483648 ≤ n) (hu : n < 2147483648) :
    clampLong n = n := by
  unfold clampLong
  omega

/-! ## Strings in arrays -/

/-- The string in an array. -/
def cstr (buf : List Byte) : List Byte :=
  buf.takeWhile (· ≠ 0)

/-- The array after a string is stored at its start. -/
def store (buf got : List Byte) : List Byte :=
  got ++ 0 :: buf.drop (got.length + 1)

theorem cstr_append_zero (s t : List Byte) : cstr (s ++ 0 :: t) = cstr s := by
  induction s with
  | nil => simp [cstr]
  | cons b s ih =>
    by_cases hb : b = 0
    · simp [cstr, hb]
    · simpa [cstr, hb] using ih

/-- Within the bytes just stored, a string in the array is a string of them. -/
theorem cstr_drop_store {buf got : List Byte} {k : ℕ} (h : k ≤ got.length) :
    cstr ((store buf got).drop k) = cstr (got.drop k) := by
  rw [store, List.drop_append_of_le_length h, cstr_append_zero]

/-- The first byte of the array is the first byte stored. -/
theorem headD_store (buf got : List Byte) : (store buf got).headD 0 = got.headD 0 := by
  cases got <;> rfl

/-- Behind the NUL of the bytes just stored, the array is as before. -/
theorem drop_store {buf got : List Byte} {k : ℕ} (h : got.length < k) :
    (store buf got).drop k = buf.drop k := by
  obtain ⟨m, rfl⟩ : ∃ m, k = got.length + (m + 1) := ⟨k - got.length - 1, by omega⟩
  rw [store, List.drop_append, List.drop_of_length_le (by omega), List.nil_append,
    Nat.add_sub_cancel_left, List.drop_succ_cons, List.drop_drop]
  congr 1
  omega

/-- A text without NUL is a string. -/
theorem cstr_eq_self {s : List Byte} (h : (0 : Byte) ∉ s) : cstr s = s := by
  refine List.takeWhile_eq_self_iff.mpr fun b hb => ?_
  simp only [ne_eq, decide_eq_true_eq]
  rintro rfl
  exact h hb

/-! ## Numbers -/

/-- White space in the C locale. -/
def isSpace (b : Byte) : Bool :=
  b.toNat = 32 || (9 ≤ b.toNat && b.toNat ≤ 13)

/-- A decimal digit. -/
def isDigit (b : Byte) : Bool :=
  48 ≤ b.toNat && b.toNat ≤ 57

/-- The number a string of digits denotes. -/
def value (ds : List Byte) : ℕ :=
  ds.foldl (fun v b => 10 * v + (b.toNat - 48)) 0

/-- An optional sign, negative or not, and what follows it. -/
def takeSign : List Byte → Bool × List Byte
  | [] => (false, [])
  | b :: s => if b = ch '-' then (true, s) else if b = ch '+' then (false, s) else (false, b :: s)

/-- A number with its sign. -/
def signed (neg : Bool) (v : ℕ) : ℤ :=
  if neg then -v else v

/-- `strtol(s, &err, 10)` : the value, and the string at `err`. Without a digit the value is
zero and `err` is at the start. -/
def strtol (s : List Byte) : ℤ × List Byte :=
  let t := takeSign (s.dropWhile isSpace)
  if t.2.takeWhile isDigit = [] then (0, s)
  else (clampLong (signed t.1 (value (t.2.takeWhile isDigit))), t.2.dropWhile isDigit)

/-- `atoi(s)`. -/
def atoi (s : List Byte) : ℤ :=
  toInt32 (strtol s).1

/-- `sprintf(s, "%d", n)` for a nonnegative `n`. -/
def showNat (n : ℕ) : List Byte :=
  (Nat.toDigits 10 n).map ch

theorem length_showNat_le_iff {n k : ℕ} (hk : 0 < k) : (showNat n).length ≤ k ↔ n < 10 ^ k := by
  rw [showNat, List.length_map, Nat.length_toDigits_le_iff (by decide) hk]

theorem value_append (ds es : List Byte) :
    value (ds ++ es) = value ds * 10 ^ es.length + value es := by
  induction es using List.reverseRecOn with
  | nil => simp [value]
  | append_singleton es b ih =>
    have hsnoc : ∀ l : List Byte, value (l ++ [b]) = 10 * value l + (b.toNat - 48) := by
      intro l
      simp [value]
    rw [← List.append_assoc, hsnoc, hsnoc, ih, List.length_append, List.length_singleton, pow_succ]
    ring

/-- A number of `k` digits is less than `10 ^ k`. -/
theorem value_lt {ds : List Byte} (h : ∀ b ∈ ds, isDigit b) : value ds < 10 ^ ds.length := by
  induction ds using List.reverseRecOn with
  | nil => simp [value]
  | append_singleton ds b ih =>
    have hv := ih fun c hc => h c (by simp [hc])
    have hb := h b (by simp)
    simp only [isDigit, Bool.and_eq_true, decide_eq_true_eq] at hb
    simp only [value, List.foldl_append, List.foldl_cons, List.foldl_nil, List.length_append,
      List.length_singleton, pow_succ] at hv ⊢
    omega

/-- Leaving out digits in front makes a number no larger. -/
theorem value_drop_le (ds : List Byte) (k : ℕ) : value (ds.drop k) ≤ value ds := by
  conv_rhs => rw [← List.take_append_drop k ds, value_append]
  exact Nat.le_add_left _ _

/-- A string that is one decimal number : white space, a sign or none, and digits. -/
def IsDecimal (s : List Byte) (n : ℤ) : Prop :=
  ∃ ws neg sg ds, s = ws ++ (sg ++ ds) ∧ (∀ b ∈ ws, isSpace b) ∧
    (neg = false ∧ (sg = [] ∨ sg = [ch '+']) ∨ neg = true ∧ sg = [ch '-']) ∧
    ds ≠ [] ∧ (∀ b ∈ ds, isDigit b) ∧ n = signed neg (value ds)

theorem takeSign_append {neg : Bool} {sg ds rest : List Byte}
    (hsg : neg = false ∧ (sg = [] ∨ sg = [ch '+']) ∨ neg = true ∧ sg = [ch '-'])
    (hne : ds ≠ []) (hds : ∀ b ∈ ds, isDigit b) :
    takeSign (sg ++ (ds ++ rest)) = (neg, ds ++ rest) := by
  obtain ⟨d, ds, rfl⟩ := List.exists_cons_of_ne_nil hne
  have hd := hds d (by simp)
  have hplus : d ≠ ch '+' := by rintro rfl; exact absurd hd (by decide)
  have hminus : d ≠ ch '-' := by rintro rfl; exact absurd hd (by decide)
  have hpm : ch '+' ≠ ch '-' := by decide
  rcases hsg with ⟨rfl, rfl | rfl⟩ | ⟨rfl, rfl⟩ <;> simp [takeSign, hplus, hminus, hpm]

theorem dropWhile_isSpace_append {ws t : List Byte} (hws : ∀ b ∈ ws, isSpace b)
    (ht : ∀ b u, t = b :: u → isSpace b = false) : (ws ++ t).dropWhile isSpace = t := by
  rw [List.dropWhile_append_of_pos hws]
  cases t with
  | nil => rfl
  | cons b u => simp [ht b u rfl]

theorem isSpace_of_isDigit {b : Byte} (h : isDigit b) : isSpace b = false := by
  simp only [isDigit, Bool.and_eq_true, decide_eq_true_eq] at h
  simp only [isSpace, Bool.or_eq_false_iff, Bool.and_eq_false_iff, decide_eq_false_iff_not]
  omega

/-- `strtol` on a number followed by something that starts with no digit. -/
theorem strtol_append {ws sg ds rest : List Byte} {neg : Bool} (hws : ∀ b ∈ ws, isSpace b)
    (hsg : neg = false ∧ (sg = [] ∨ sg = [ch '+']) ∨ neg = true ∧ sg = [ch '-'])
    (hne : ds ≠ []) (hds : ∀ b ∈ ds, isDigit b)
    (hrest : ∀ b u, rest = b :: u → isDigit b = false) :
    strtol (ws ++ (sg ++ (ds ++ rest))) = (clampLong (signed neg (value ds)), rest) := by
  have hdrop : (ws ++ (sg ++ (ds ++ rest))).dropWhile isSpace = sg ++ (ds ++ rest) := by
    refine dropWhile_isSpace_append hws fun b u hb => ?_
    obtain ⟨d, ds, rfl⟩ := List.exists_cons_of_ne_nil hne
    rcases hsg with ⟨-, rfl | rfl⟩ | ⟨-, rfl⟩
    · obtain ⟨rfl, -⟩ := List.cons.inj hb
      exact isSpace_of_isDigit (hds d (by simp))
    · obtain ⟨rfl, -⟩ := List.cons.inj hb
      decide
    · obtain ⟨rfl, -⟩ := List.cons.inj hb
      decide
  have htake : (ds ++ rest).takeWhile isDigit = ds := by
    rw [List.takeWhile_append_of_pos hds]
    cases rest with
    | nil => simp
    | cons b u => simp [hrest b u rfl]
  have hleft : (ds ++ rest).dropWhile isDigit = rest := by
    rw [List.dropWhile_append_of_pos hds]
    cases rest with
    | nil => rfl
    | cons b u => simp [hrest b u rfl]
  simp only [strtol, hdrop, takeSign_append hsg hne hds, htake, hleft, if_neg hne]

/-- `atoi` on digits that end before something that is no digit. -/
theorem atoi_digits {ws ds rest : List Byte} (hws : ∀ b ∈ ws, isSpace b) (hne : ds ≠ [])
    (hds : ∀ b ∈ ds, isDigit b) (hlen : ds.length ≤ 9)
    (hrest : ∀ b u, rest = b :: u → isDigit b = false) :
    atoi (ws ++ (ds ++ rest)) = value ds := by
  have hv : value ds < 10 ^ 9 :=
    lt_of_lt_of_le (value_lt hds) (Nat.pow_le_pow_right (by decide) hlen)
  have hstr := @strtol_append ws [] ds rest false hws (by simp) hne hds hrest
  rw [List.nil_append] at hstr
  rw [atoi, hstr]
  simp only [signed, Bool.false_eq_true, if_false]
  rw [clampLong_of_mem (by omega) (by omega), toInt32_of_mem (by omega) (by omega)]

/-- A nonempty string is consumed to its end exactly if it is a decimal number. -/
theorem strtol_consumes_iff {s : List Byte} (hs : s ≠ []) {v : ℤ} :
    strtol s = (v, []) ↔ ∃ n, IsDecimal s n ∧ v = clampLong n := by
  constructor
  · intro h
    have hsplit : s.takeWhile isSpace ++ s.dropWhile isSpace = s := List.takeWhile_append_dropWhile
    have hws : ∀ b ∈ s.takeWhile isSpace, isSpace b := fun b hb => List.mem_takeWhile_imp hb
    generalize hu : s.dropWhile isSpace = u at hsplit
    unfold strtol at h
    rw [hu] at h
    obtain ⟨sg, hsg, hcat⟩ : ∃ sg, ((takeSign u).1 = false ∧ (sg = [] ∨ sg = [ch '+']) ∨
        (takeSign u).1 = true ∧ sg = [ch '-']) ∧ u = sg ++ (takeSign u).2 := by
      cases u with
      | nil => exact ⟨[], by simp [takeSign]⟩
      | cons b t =>
        by_cases hm : b = ch '-'
        · exact ⟨[ch '-'], by simp [takeSign, hm]⟩
        · by_cases hp : b = ch '+'
          · exact ⟨[ch '+'], by simp [takeSign, hp, show ch '+' ≠ ch '-' by decide]⟩
          · exact ⟨[], by simp [takeSign, hm, hp]⟩
    simp only at h
    split_ifs at h with hds
    · exact (hs (Prod.mk.inj h).2).elim
    · obtain ⟨rfl, hend⟩ := Prod.mk.inj h
      have hall : (takeSign u).2.takeWhile isDigit = (takeSign u).2 := by
        have := List.takeWhile_append_dropWhile (p := isDigit) (l := (takeSign u).2)
        rwa [hend, List.append_nil] at this
      rw [hall] at hds ⊢
      refine ⟨_, ⟨s.takeWhile isSpace, (takeSign u).1, sg, (takeSign u).2, ?_, hws, hsg, hds, ?_,
        rfl⟩, rfl⟩
      · rw [← hcat, hsplit]
      · rw [← hall]
        exact fun b hb => List.mem_takeWhile_imp hb
  · rintro ⟨n, ⟨ws, neg, sg, ds, rfl, hws, hsg, hne, hds, rfl⟩, rfl⟩
    have := @strtol_append ws sg ds [] neg hws hsg hne hds (by simp)
    rwa [List.append_nil] at this

/-- A decimal number written in at most nine bytes is less than `10 ^ 9` in size. -/
theorem abs_lt_of_isDecimal {s : List Byte} {n : ℤ} (h : IsDecimal s n) (hs : s.length ≤ 9) :
    -1000000000 < n ∧ n < 1000000000 := by
  obtain ⟨ws, neg, sg, ds, rfl, -, -, -, hds, rfl⟩ := h
  have hlen : ds.length ≤ 9 := by
    simp only [List.length_append] at hs
    omega
  have hv : value ds < 10 ^ 9 :=
    lt_of_lt_of_le (value_lt hds) (Nat.pow_le_pow_right (by decide) hlen)
  unfold signed
  split_ifs <;> omega

/-- Nine bytes hold no number that an `int` does not. -/
theorem toInt32_of_isDecimal {s : List Byte} {n : ℤ} (h : IsDecimal s n) (hs : s.length ≤ 9) :
    toInt32 (clampLong n) = n := by
  obtain ⟨hl, hu⟩ := abs_lt_of_isDecimal h hs
  rw [clampLong_of_mem (by omega) (by omega), toInt32_of_mem (by omega) (by omega)]

end CString
