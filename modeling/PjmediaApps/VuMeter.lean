import PjmediaApps.ArrayLoop
import PjmediaApps.ConfBridge

/-!
# The VU meter of `conf_to_2_sounds`

`monitor_level` polls the signal level of a slot every 20 ms for a number of seconds, and
draws a bar of the average after every second poll. It returns at the first poll that
fails. The number of polls is computed in an `int`, and where that overflows it is anything.

What a run does is a matter of the levels its polls give (`levels`) : a bar for each pair
of them (`bars_pollLoop`), and a call for each and for the poll that failed, if one did
(`length_calls_pollLoop`). With levels up to 255 every bar shows the average of its two
levels and fits in `meter` (`metersRight`).
-/

namespace PjmediaApps

open ArrayLoop ByteStream CString

/-- `SLEEP`, the time between polls in milliseconds. -/
def sleep : ℤ := 20

/-- `SAMP_CNT`, the number of polls a bar averages. -/
def sampCnt : ℕ := 2

/-- A bar : the slot, the direction, the 20 characters of `meter`, and the average level. -/
structure Bar where
  slot : ℤ
  dir : Byte
  meter : List Byte
  level : ℕ
  deriving DecidableEq, Repr

/-- The 20 characters of `meter` for a bar of a given length. -/
def meter (length : ℕ) : List Byte :=
  List.replicate length (ch '#') ++ List.replicate (20 - length) (ch ' ')

/-- `dur * 1000 / SLEEP`, the number of polls if all succeed. A product that overflows is
undefined, and the count a build makes of it is a parameter. -/
def totalCount (ub : ℤ → ℤ) (dur : ℤ) : ℤ :=
  if FitsInt (dur * 1000) then (dur * 1000).tdiv sleep else ub dur

/-! ## Drawing a bar -/

/-- The writes to `meter` for a bar of a given length : marks, spaces and the NUL. -/
def meterWrites (length : ℕ) : List (ℕ × Byte) :=
  fill 0 length (ch '#') ++ fill length (20 - length) (ch ' ') ++ [(20, 0)]

theorem fst_meterWrites_lt {length : ℕ} (h : length ≤ 20) : ∀ w ∈ meterWrites length, w.1 < 21 := by
  intro w hw
  simp only [meterWrites, fill, List.mem_append, List.mem_map, List.mem_range'_1,
    List.mem_singleton] at hw
  rcases hw with (⟨j, hj, rfl⟩ | ⟨j, hj, rfl⟩) | rfl
  · exact (by omega : j < 21)
  · exact (by omega : j < 21)
  · decide

/-- The writes leave the bar and a NUL, whatever `meter` held. -/
theorem written_meterWrites {length : ℕ} (h : length ≤ 20) {buf : List Byte}
    (hbuf : buf.length = 21) : written buf (meterWrites length) = meter length ++ [0] := by
  rcases List.eq_nil_or_concat buf with rfl | ⟨init, last, rfl⟩
  · simp at hbuf
  rw [List.concat_eq_append] at hbuf ⊢
  have hlen : init.length = 20 := by simpa using hbuf
  have hmarks : written (init ++ [last]) (fill 0 length (ch '#')) =
      List.replicate length (ch '#') ++ (init.drop length ++ [last]) := by
    have htake : (init.take length).length = length := by
      rw [List.length_take]
      omega
    have := written_fill (ch '#') (init.drop length ++ [last]) (init.take length) []
    rwa [List.nil_append, List.nil_append, ← List.append_assoc, List.take_append_drop,
      List.length_nil, htake] at this
  have hspaces : written (List.replicate length (ch '#') ++ (init.drop length ++ [last]))
      (fill length (20 - length) (ch ' ')) = meter length ++ [last] := by
    have := written_fill (ch ' ') [last] (init.drop length) (List.replicate length (ch '#'))
    rw [List.length_replicate, List.length_drop, hlen] at this
    rw [this, ← List.append_assoc]
    rfl
  have hmeter : (meter length).length = 20 := by
    rw [meter, List.length_append, List.length_replicate, List.length_replicate]
    omega
  rw [meterWrites, written_append, written_append, hmarks, hspaces, written_singleton,
    List.set_append_right _ _ hmeter.le, hmeter]
  rfl

section

variable {σ : Type*} (api : ConfApi σ)

/-- The polling loop, with the polls left, the sum of the levels and their number : the bars
it draws, the calls it makes, and the bridge after them. -/
def pollLoop (slot : ℤ) (dir : Byte) : ℕ → ℕ → ℕ → σ → List Bar × Calls σ × σ
  | 0, _, _, s => ([], [], s)
  | n + 1, level, cnt, s =>
    match api.getSignalLevel s slot with
    | (none, s') => ([], [(s, .getSignalLevel slot)], s')
    | (some (tx, rx), s') =>
      let level := toUInt32 (level + if dir = ch 'r' then rx else tx)
      let cnt := cnt + 1
      if cnt < sampCnt then
        let r := pollLoop slot dir n level cnt s'
        (r.1, (s, .getSignalLevel slot) :: r.2.1, r.2.2)
      else
        -- draw a bar and start over
        let level := level / cnt
        let length := toUInt32 (20 * level) / 255
        let r := pollLoop slot dir n 0 0 s'
        (⟨slot, dir, meter length, level⟩ :: r.1, (s, .getSignalLevel slot) :: r.2.1, r.2.2)

/-- `monitor_level`. -/
def monitorLevel (ub : ℤ → ℤ) (slot : ℤ) (dir : Byte) (dur : ℤ) (s : σ) :
    List Bar × Calls σ × σ :=
  pollLoop api slot dir (totalCount ub dur).toNat 0 0 s

/-! ## What a run draws -/

/-- The levels of `n` polls in the chosen direction, up to the first poll that fails. -/
def levels (slot : ℤ) (dir : Byte) : ℕ → σ → List ℕ
  | 0, _ => []
  | n + 1, s =>
    match api.getSignalLevel s slot with
    | (none, _) => []
    | (some (tx, rx), s') => (if dir = ch 'r' then rx else tx) :: levels slot dir n s'

/-- The bars of the levels in pairs. A last level without a second has none. -/
def pairBars (slot : ℤ) (dir : Byte) : List ℕ → List Bar
  | a :: b :: as =>
    let level := (a + b) / 2
    ⟨slot, dir, meter (toUInt32 (20 * level) / 255), level⟩ :: pairBars slot dir as
  | _ => []

theorem length_pairBars (slot : ℤ) (dir : Byte) : ∀ as : List ℕ,
    (pairBars slot dir as).length = as.length / 2
  | [] | [_] => by simp [pairBars]
  | _ :: _ :: as => by
    rw [pairBars, List.length_cons, length_pairBars slot dir as, List.length_cons,
      List.length_cons]
    omega

/-- The `k`-th bar is that of the levels `2 * k` and `2 * k + 1`. -/
theorem getElem?_pairBars {slot : ℤ} {dir : Byte} {bar : Bar} : ∀ {as : List ℕ} {k : ℕ},
    (pairBars slot dir as)[k]? = some bar → ∃ a b, as[2 * k]? = some a ∧
      as[2 * k + 1]? = some b ∧
        bar = ⟨slot, dir, meter (toUInt32 (20 * ((a + b) / 2 : ℕ)) / 255), (a + b) / 2⟩
  | [], k, h | [_], k, h => by simp [pairBars] at h
  | a :: b :: as, 0, h => ⟨a, b, rfl, rfl, (Option.some.inj h).symm⟩
  | a :: b :: as, k + 1, h => @getElem?_pairBars slot dir bar as k h

variable {api}

/-- A poll that succeeds first adds its level, then draws if it is the second. -/
theorem bars_pollLoop_succ {slot : ℤ} {dir : Byte} {s s' : σ} {tx rx : ℕ}
    (hp : api.getSignalLevel s slot = (some (tx, rx), s')) (n : ℕ) {a : ℕ}
    (ha : a = if dir = ch 'r' then rx else tx) (ha255 : a ≤ 255) :
    (pollLoop api slot dir (n + 1) 0 0 s).1 = (pollLoop api slot dir n a 1 s').1 ∧
      ∀ b ≤ 255, (pollLoop api slot dir (n + 1) b 1 s).1 =
        ⟨slot, dir, meter (toUInt32 (20 * ((b + a) / 2 : ℕ)) / 255), (b + a) / 2⟩ ::
          (pollLoop api slot dir n 0 0 s').1 := by
  have hsum : ∀ b ≤ 255, toUInt32 ((b : ℕ) + (a : ℤ)) = b + a := by
    intro b hb
    have := toUInt32_of_mem (n := (b : ℤ) + a) (by omega) (by omega)
    omega
  refine ⟨?_, fun b hb => ?_⟩
  · have h0 := hsum 0 (by omega)
    rw [Nat.cast_zero, zero_add, zero_add] at h0
    simp [pollLoop, hp, ← ha, sampCnt, h0]
  · simp [pollLoop, hp, ← ha, sampCnt, hsum b hb]

/-- The loop draws the bars of the levels still to be polled, with the level that waits for
its second in front if there is one. -/
theorem bars_pollLoop {slot : ℤ} {dir : Byte} : ∀ (n : ℕ) {s : σ},
    (∀ a ∈ levels api slot dir n s, a ≤ 255) →
      (pollLoop api slot dir n 0 0 s).1 = pairBars slot dir (levels api slot dir n s) ∧
        ∀ b ≤ 255, (pollLoop api slot dir n b 1 s).1 =
          pairBars slot dir (b :: levels api slot dir n s)
  | 0, s, _ => by simp [pollLoop, levels, pairBars]
  | n + 1, s, h => by
    rcases hp : api.getSignalLevel s slot with ⟨_ | ⟨tx, rx⟩, s'⟩
    · simp [pollLoop, levels, hp, pairBars]
    · have hlevels : levels api slot dir (n + 1) s =
          (if dir = ch 'r' then rx else tx) :: levels api slot dir n s' := by
        simp [levels, hp]
      generalize ha : (if dir = ch 'r' then rx else tx) = a at hlevels
      rw [hlevels, List.forall_mem_cons] at h
      obtain ⟨hfirst, hsecond⟩ := bars_pollLoop_succ hp n ha.symm h.1
      obtain ⟨ihfirst, ihsecond⟩ := bars_pollLoop n h.2
      rw [hlevels]
      refine ⟨hfirst.trans (ihsecond a h.1), fun b hb => ?_⟩
      rw [hsecond b hb, ihfirst, pairBars]

/-- A call for every poll that succeeds, and one for the poll that fails. -/
theorem length_calls_pollLoop {slot : ℤ} {dir : Byte} : ∀ (n level cnt : ℕ) {s : σ},
    (pollLoop api slot dir n level cnt s).2.1.length =
      min ((levels api slot dir n s).length + 1) n
  | 0, level, cnt, s => rfl
  | n + 1, level, cnt, s => by
    rcases hp : api.getSignalLevel s slot with ⟨_ | ⟨tx, rx⟩, s'⟩
    · simp [pollLoop, levels, hp]
    · simp only [pollLoop, levels, hp]
      split_ifs
      all_goals
        rw [List.length_cons, List.length_cons, length_calls_pollLoop n]
        omega

/-- Every call of the loop reads the level of the slot. -/
theorem snd_eq_of_mem_pollLoop {slot : ℤ} {dir : Byte} : ∀ (n level cnt : ℕ) {s : σ},
    ∀ e ∈ (pollLoop api slot dir n level cnt s).2.1, e.2 = .getSignalLevel slot
  | 0, _, _, _, e, he => by simp [pollLoop] at he
  | n + 1, level, cnt, s, e, he => by
    unfold pollLoop at he
    split at he
    · rw [List.mem_singleton.mp he]
    · dsimp only at he
      split_ifs at he
      all_goals
        rcases List.mem_cons.mp he with rfl | he
        · rfl
        · exact snd_eq_of_mem_pollLoop n _ _ e he

/-- A bar that shows an average. -/
structure BarRight (slot : ℤ) (dir : Byte) (avg : ℕ) (bar : Bar) : Prop where
  slot_eq : bar.slot = slot
  dir_eq : bar.dir = dir
  level_eq : bar.level = avg
  /-- A mark for every 255th of twenty times the average, and spaces up to 20. -/
  meter_eq : bar.meter = List.replicate (20 * avg / 255) (ch '#') ++
    List.replicate (20 - 20 * avg / 255) (ch ' ')
  /-- The writes that draw it are inside `meter`. -/
  inside : ∀ w ∈ meterWrites (20 * avg / 255), w.1 < 21
  /-- They leave the bar in `meter`, and a NUL behind it. -/
  drawn : ∀ buf, buf.length = 21 → written buf (meterWrites (20 * avg / 255)) = bar.meter ++ [0]
  full : bar.meter = List.replicate 20 (ch '#') ↔ avg = 255

/-- The bars of a run that polled the levels `as` : one for every two. -/
structure MetersRight (slot : ℤ) (dir : Byte) (as : List ℕ) (bars : List Bar) : Prop where
  length : bars.length = as.length / 2
  bar : ∀ k bar, bars[k]? = some bar → ∃ a b, as[2 * k]? = some a ∧ as[2 * k + 1]? = some b ∧
    BarRight slot dir ((a + b) / 2) bar

/-- An average up to 255 has a bar of at most twenty marks. -/
theorem barRight_of_le {slot : ℤ} {dir : Byte} {avg : ℕ} (h : avg ≤ 255) :
    BarRight slot dir avg ⟨slot, dir, meter (toUInt32 (20 * avg) / 255), avg⟩ := by
  have hle : 20 * avg / 255 ≤ 20 := by omega
  have hwrap : toUInt32 (20 * avg) = 20 * avg := by
    have := toUInt32_of_mem (n := 20 * (avg : ℤ)) (by omega) (by omega)
    omega
  rw [hwrap]
  refine ⟨rfl, rfl, rfl, rfl, fst_meterWrites_lt hle, fun _ => written_meterWrites hle, ?_⟩
  refine ⟨fun hfull => ?_, ?_⟩
  · -- the marks of the bar, counted
    have hmarks := congrArg (List.count (ch '#')) hfull
    have hspace : ch ' ' ≠ ch '#' := by decide
    rw [meter, List.count_append, List.count_replicate_self, List.count_replicate_self,
      List.count_replicate, if_neg (by simpa using hspace)] at hmarks
    omega
  · rintro rfl
    rfl

theorem metersRight_pairBars {slot : ℤ} {dir : Byte} {as : List ℕ} (h : ∀ a ∈ as, a ≤ 255) :
    MetersRight slot dir as (pairBars slot dir as) := by
  refine ⟨length_pairBars slot dir as, fun k bar hbar => ?_⟩
  obtain ⟨a, b, ha, hb, rfl⟩ := getElem?_pairBars hbar
  have ha255 := h a (List.mem_of_getElem? ha)
  have hb255 := h b (List.mem_of_getElem? hb)
  exact ⟨a, b, ha, hb, barRight_of_le (by omega)⟩

/-- Whatever the bound of the loop, and wherever a poll fails, the bars are right for the
levels of the polls before it. So they are in `monitor_level`, for any duration with that
bound, also where the bound overflows. -/
theorem metersRight (slot : ℤ) (dir : Byte) (n : ℕ) {s : σ}
    (h : ∀ a ∈ levels api slot dir n s, a ≤ 255) :
    MetersRight slot dir (levels api slot dir n s) (pollLoop api slot dir n 0 0 s).1 ∧
      ∀ ub dur, (totalCount ub dur).toNat = n →
        MetersRight slot dir (levels api slot dir n s) (monitorLevel api ub slot dir dur s).1 := by
  have hbars := (bars_pollLoop n h).1
  refine ⟨?_, fun ub dur hdur => ?_⟩
  · rw [hbars]
    exact metersRight_pairBars h
  · rw [monitorLevel, hdur, hbars]
    exact metersRight_pairBars h

end

/-- A bridge whose polls give the levels of a list and fail behind its end. -/
def scripted : ConfApi (List (ℕ × ℕ)) where
  create _ := some []
  addPort s := (true, s)
  connectPort s _ _ := (true, s)
  disconnectPort s _ _ := (true, s)
  adjustTxLevel s _ _ := (true, s)
  adjustRxLevel s _ _ := (true, s)
  getSignalLevel s _ := (s.head?, s.tail)
  getPortsInfo _ _ := []

/-- In a second with three polls that succeed and one that fails there is one bar, of the
first two levels. -/
theorem metersRight_three_polls :
    MetersRight 1 (ch 'r') [250, 255, 40]
      (monitorLevel scripted (fun _ => 0) 1 (ch 'r') 1 [(0, 250), (9, 255), (0, 40)]).1 :=
  (@metersRight _ scripted 1 (ch 'r') 50 [(0, 250), (9, 255), (0, 40)]
    (show ∀ a ∈ [250, 255, 40], a ≤ 255 by simp)).2 (fun _ => 0) 1 (by decide)

end PjmediaApps
