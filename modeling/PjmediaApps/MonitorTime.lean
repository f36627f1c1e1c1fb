import PjmediaApps.ConfSession

/-!
# How long `conf_to_2_sounds` monitors

The duration of the `'v'` command is a number of seconds that the menu takes as it comes : a
string of at most nine bytes that `strtol` consumes, with no check of the range. The bound
of the polling loop is computed from it later, in `monitor_level`, as a product with 1000
in an `int` and a quotient by 20.

The product is one of an `int` for durations up to 2147483 either way, and then the level
is polled fifty times a second. A longer duration makes it overflow, and then the number of polls
is whatever a build makes of it : it is right in all of them exactly up to 2147483
(`monitors_iff`). Of 85899400 seconds the two obvious ways to compute the bound both make 54
(`not_monitors_85899400`).
-/

namespace PjmediaApps

open Interactive ByteStream CString

/-- Without overflow the bound of the loop is fifty times the duration. -/
theorem totalCount_of_fits {dur : ℤ} (h : FitsInt (dur * 1000)) (ub : ℤ → ℤ) :
    totalCount ub dur = 50 * dur := by
  rw [totalCount, if_pos h, sleep, show dur * 1000 = 50 * dur * 20 by ring]
  exact Int.mul_tdiv_cancel _ (by decide)

section

variable {σ : Type*} (api : ConfApi σ) (ub : ℤ → ℤ) (slot : ℤ) (dir : Byte) (dur : ℤ) (s : σ)

/-- The level is polled every 20 ms until the duration is over or a poll fails. -/
structure Polls : Prop where
  calls : 0 ≤ dur → (monitorLevel api ub slot dir dur s).2.1.length =
    min ((levels api slot dir (50 * dur).toNat s).length + 1) (50 * dur).toNat
  no_calls : dur < 0 → (monitorLevel api ub slot dir dur s).2.1 = []

/-- `monitor_level` monitors for a duration : its bound is computed without overflow, and the
polls are right in every build. -/
structure Monitors : Prop where
  fits : FitsInt (dur * 1000)
  polls : ∀ ub, Polls api ub slot dir dur s

theorem length_calls_monitorLevel : (monitorLevel api ub slot dir dur s).2.1.length =
    min ((levels api slot dir (totalCount ub dur).toNat s).length + 1)
      (totalCount ub dur).toNat :=
  length_calls_pollLoop _ _ _

variable {api slot dir dur s}

/-- Without overflow the duration is that of the run. -/
theorem polls_of_fits (h : FitsInt (dur * 1000)) : Polls api ub slot dir dur s := by
  refine ⟨fun _ => ?_, fun hneg => ?_⟩
  · rw [length_calls_monitorLevel, totalCount_of_fits h]
  · have hlen := length_calls_monitorLevel api ub slot dir dur s
    rw [totalCount_of_fits h, Int.toNat_of_nonpos (by omega), Nat.min_zero] at hlen
    exact List.length_eq_zero_iff.mp hlen

/-- With an overflow some build polls too little or too much. -/
theorem fits_of_polls (h : ∀ ub, Polls api ub slot dir dur s) : FitsInt (dur * 1000) := by
  by_contra hover
  have hub : ∀ n : ℤ, totalCount (fun _ => n) dur = n := fun n => if_neg hover
  rcases lt_or_ge dur 0 with hneg | hpos
  · have hlen := length_calls_monitorLevel api (fun _ => 1) slot dir dur s
    rw [hub, (h _).no_calls hneg, List.length_nil] at hlen
    omega
  · have hlen := length_calls_monitorLevel api (fun _ => 0) slot dir dur s
    rw [hub, (h _).calls hpos] at hlen
    unfold FitsInt at hover
    omega

/-- An accepted duration is the number in the answer, and it is the duration of the run
exactly if it is at most 2147483 either way. The number of polls alone has the same bounds. -/
theorem monitors_iff (s : σ) {l str : List Byte} (hl : l.length < bufSize)
    (h : input (some l) = some str) {d : ℤ} (hd : checkDuration str = .ok d) :
    IsDecimal str d ∧ (Monitors api slot dir d s ↔ -2147483 ≤ d ∧ d ≤ 2147483) ∧
      ((∀ ub, Polls api ub slot dir d s) ↔ -2147483 ≤ d ∧ d ≤ 2147483) := by
  obtain ⟨str', hstr', hdec⟩ := holdsNumber_of_checkDuration (Nat.le_of_lt_succ hl) h hd
  obtain rfl : str' = str := Option.some.inj (hstr'.symm.trans h)
  have hfits : FitsInt (d * 1000) ↔ -2147483 ≤ d ∧ d ≤ 2147483 := by
    unfold FitsInt
    omega
  rw [← hfits]
  exact ⟨hdec, ⟨fun hm => hm.fits, fun hf => ⟨hf, fun ub => polls_of_fits ub hf⟩⟩, fits_of_polls,
    fun hf ub => polls_of_fits ub hf⟩

end

/-- A duration of two seconds, as read from a line. -/
theorem monitors_two : Monitors Bridge.api 1 (ch 'r') 2 (Bridge.create 2 (by decide)) :=
  (monitors_iff (Bridge.create 2 (by decide))
    (show (bytes ['2', '\n']).length < bufSize by decide)
    (show input (some (bytes ['2', '\n'])) = some (bytes ['2']) by decide)
    (show checkDuration (bytes ['2']) = .ok 2 by decide)).2.1.mpr (by decide)

/-! ## A duration that overflows -/

/-- The bound of a build that lets the product wrap. -/
def wrappedCount (dur : ℤ) : ℤ :=
  (toInt32 (dur * 1000)).tdiv sleep

/-- The bound of a build that computes `dur * 50` in place of it, and lets that wrap. -/
def foldedCount (dur : ℤ) : ℤ :=
  toInt32 (dur * 50)

/-- All polls of the abstract bridge succeed. -/
theorem length_levels_api (slot : ℤ) (dir : Byte) (b : Bridge) : ∀ n : ℕ,
    (levels Bridge.api slot dir n b).length = n
  | 0 => rfl
  | n + 1 => congrArg (· + 1) (length_levels_api slot dir b n)

/-- A session that monitors for 85899400 seconds. All polls succeed, and in either build there
are 2704 of them. -/
theorem not_monitors_85899400 :
    commands (menuSession 2
      (bytes ['v', '\n', '1', '\n', 'r', '\n', '8', '5', '8', '9', '9', '4', '0', '0', '\n'])).trace =
        [.monitorLevel 1 (ch 'r') 85899400] ∧
      (∀ n, (levels Bridge.api 1 (ch 'r') n (Bridge.create 2 (by decide))).length = n) ∧
      (∀ ub, ub = wrappedCount ∨ ub = foldedCount →
        (monitorLevel Bridge.api ub 1 (ch 'r') 85899400
            (Bridge.create 2 (by decide))).2.1.length = 2704 ∧
          ¬Polls Bridge.api ub 1 (ch 'r') 85899400 (Bridge.create 2 (by decide))) ∧
      ¬Monitors Bridge.api 1 (ch 'r') 85899400 (Bridge.create 2 (by decide)) := by
  refine ⟨by decide, length_levels_api _ _ _, fun ub hub => ?_,
    fun h => absurd h.fits.2 (by decide)⟩
  have hcount : totalCount ub 85899400 = 2704 := by
    rcases hub with rfl | rfl <;> decide
  have hlen : (monitorLevel Bridge.api ub 1 (ch 'r') 85899400
      (Bridge.create 2 (by decide))).2.1.length = 2704 := by
    rw [length_calls_monitorLevel, hcount, length_levels_api]
    rfl
  refine ⟨hlen, fun h => ?_⟩
  have hcalls := h.calls (by decide)
  rw [hlen, length_levels_api] at hcalls
  omega

end PjmediaApps
