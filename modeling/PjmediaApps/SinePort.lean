import PjmediaApps.Pipeline
import Mathlib.Algebra.Group.Nat.Even

/-!
# The sine generator of `custome-media-port`

`create_sine_port` fills a table with one frame of a wave. `sine_get_frame` writes the table
to the first channel, and to the second the table read at every other entry, so that the
right channel is heard an octave higher. The right index goes back to 0 where it passes
the end of the table, so it runs over the even entries (`rightIndex_eq`) : on a table of
even length that is the wave at twice the speed, on one of odd length it leaves the odd
entries out.

Playback is the wave and its octave exactly if the port is mono, or the table has even
length, or the entries left out repeat those before them (`octave_iff`).
-/

namespace PjmediaApps

open CString

/-- The port with its table. -/
structure SinePort where
  info : PortFormat
  /-- `port_data.samples`. -/
  samples : List Int16
  deriving DecidableEq, Repr

/-- `create_sine_port`. The samples per frame that the port reports are `reported`, a function
of the rate, the channels and the frame length the port is created with, and `wave` is the
table written for a number of entries. -/
def createSinePort (reported : ℕ → ℕ → ℕ → ℕ) (wave : ℕ → ℕ → Int16)
    (samplingRate channelCount : ℕ) : Option SinePort :=
  if 0 < channelCount ∧ channelCount ≤ 2 then
    let frameLength := toUInt32 (toUInt32 (samplingRate * 20) / 1000 * channelCount)
    let info : PortFormat :=
      ⟨samplingRate, channelCount, reported samplingRate channelCount frameLength, 16⟩
    let count := info.samplesPerFrame / channelCount
    some ⟨info, (List.range count).map (wave count)⟩
  else none

/-- The loop of `sine_get_frame`, with the rounds left and the two indices : the table index
of every sample written, in order. -/
def frameIndices (channelCount count : ℕ) : ℕ → ℕ → ℕ → List ℕ
  | 0, _, _ => []
  | n + 1, left, right =>
    if channelCount = 2 then
      left :: right :: frameIndices channelCount count n (left + 1)
        (if count ≤ right + 2 then 0 else right + 2)
    else left :: frameIndices channelCount count n (left + 1) right

/-- `sine_get_frame` on a frame of `size` bytes : the samples it writes. -/
def sineGetFrame (port : SinePort) (size : ℕ) : List Int16 :=
  let count := size / 2 / port.info.channelCount
  (frameIndices port.info.channelCount count count 0 0).map fun i => port.samples.getD i 0

/-- The samples of consecutive calls on frames of `size` bytes. -/
def playback (port : SinePort) (size : ℕ) : ℕ → List Int16
  | 0 => []
  | n + 1 => sineGetFrame port size ++ playback port size n

/-! ## The indices -/

/-- The right index in round `i` of a frame. -/
def rightIndex (count : ℕ) : ℕ → ℕ
  | 0 => 0
  | i + 1 => if count ≤ rightIndex count i + 2 then 0 else rightIndex count i + 2

/-- The indices of round `i` of a frame. -/
def roundIndices (channelCount count i : ℕ) : List ℕ :=
  if channelCount = 2 then [i, rightIndex count i] else [i]

theorem frameIndices_mono {channelCount : ℕ} (hc : channelCount ≠ 2) (count : ℕ) :
    ∀ n i right, frameIndices channelCount count n i right =
      (List.range' i n).flatMap (roundIndices channelCount count)
  | 0, _, _ => rfl
  | n + 1, i, right => by
    simp [frameIndices, List.range'_succ, roundIndices, hc, frameIndices_mono hc count n]

theorem frameIndices_stereo (count : ℕ) : ∀ n i,
    frameIndices 2 count n i (rightIndex count i) =
      (List.range' i n).flatMap (roundIndices 2 count)
  | 0, _ => rfl
  | n + 1, i => by
    have ih := frameIndices_stereo count n (i + 1)
    rw [rightIndex] at ih
    rw [frameIndices, if_pos rfl, ih]
    simp [List.range'_succ, roundIndices]

/-- A frame is written round by round. -/
theorem frameIndices_eq (channelCount count : ℕ) : frameIndices channelCount count count 0 0 =
    (List.range count).flatMap (roundIndices channelCount count) := by
  rw [List.range_eq_range']
  by_cases hc : channelCount = 2
  · rw [hc]
    exact frameIndices_stereo count count 0
  · exact frameIndices_mono hc count count 0 0

/-- The right index runs over the even entries, and starts over at the end of the table. -/
theorem rightIndex_eq {count : ℕ} (hpos : 0 < count) (i : ℕ) :
    rightIndex count i = 2 * (i % ((count + 1) / 2)) := by
  induction i with
  | zero => simp [rightIndex]
  | succ i ih =>
    have hlt := Nat.mod_lt i (show 0 < (count + 1) / 2 by omega)
    rw [rightIndex, ih, ← Nat.mod_add_mod]
    generalize i % ((count + 1) / 2) = r at hlt
    split_ifs with hwrap
    · rw [show r + 1 = (count + 1) / 2 by omega, Nat.mod_self]
    · rw [Nat.mod_eq_of_lt (by omega)]
      omega

/-- On an even number of entries, or one, the right index is twice the left. -/
theorem rightIndex_of_even {count : ℕ} (hpos : 0 < count) (heven : Even count) (i : ℕ) :
    rightIndex count i = 2 * i % count := by
  obtain ⟨m, rfl⟩ := heven
  rw [rightIndex_eq hpos, show (m + m + 1) / 2 = m by omega, ← two_mul, Nat.mul_mod_mul_left]

/-- On an odd number of entries the right index is twice the left in the first half of a
frame, and one less in the second. -/
theorem rightIndex_of_odd {m i : ℕ} (hi : i < 2 * m + 1) :
    rightIndex (2 * m + 1) i = if i ≤ m then 2 * i % (2 * m + 1) else 2 * i % (2 * m + 1) - 1 := by
  rw [rightIndex_eq (by omega), show (2 * m + 1 + 1) / 2 = m + 1 by omega]
  split_ifs with h
  · rw [Nat.mod_eq_of_lt (by omega), Nat.mod_eq_of_lt (by omega)]
  · rw [Nat.mod_eq_sub_mod (by omega), Nat.mod_eq_of_lt (by omega),
      Nat.mod_eq_sub_mod (show 2 * i ≥ 2 * m + 1 by omega), Nat.mod_eq_of_lt (by omega)]
    omega

/-! ## Playback -/

/-- The entries of lists of one length put together. -/
theorem getElem?_flatMap_of_length {α β : Type*} {f : α → List β} {c : ℕ}
    (hc : ∀ a, (f a).length = c) : ∀ (l : List α) (n : ℕ) {j : ℕ}, j < c →
      (l.flatMap f)[n * c + j]? = l[n]?.bind fun a => (f a)[j]?
  | [], _, _, _ => by simp
  | a :: l, 0, j, hj => by
    rw [List.flatMap_cons, Nat.zero_mul, Nat.zero_add,
      List.getElem?_append_left (by rw [hc]; exact hj)]
    rfl
  | a :: l, n + 1, j, hj => by
    rw [List.flatMap_cons, List.getElem?_append_right (by rw [hc, Nat.succ_mul]; omega), hc,
      show (n + 1) * c + j - c = n * c + j by rw [Nat.succ_mul]; omega,
      getElem?_flatMap_of_length hc l n hj]
    rfl

/-- A port of one or two channels with a table of at least one entry, as long as a frame. -/
structure SinePort.Ready (port : SinePort) (count : ℕ) : Prop where
  channels : port.info.channelCount = 1 ∨ port.info.channelCount = 2
  length : port.samples.length = count
  pos : 0 < count

/-- A port that `create_sine_port` gives has one or two channels, and a table of as many
entries as there are samples for a channel in the frame it reports. -/
theorem createSinePort_eq_some {reported : ℕ → ℕ → ℕ → ℕ} {wave : ℕ → ℕ → Int16}
    {samplingRate channelCount : ℕ} {port : SinePort}
    (h : createSinePort reported wave samplingRate channelCount = some port) :
    port.info.channelCount = channelCount ∧ (channelCount = 1 ∨ channelCount = 2) ∧
      port.samples.length = port.info.samplesPerFrame / channelCount := by
  unfold createSinePort at h
  split_ifs at h with hc
  cases h
  exact ⟨rfl, by omega, by simp⟩

theorem ready_of_createSinePort {reported : ℕ → ℕ → ℕ → ℕ} {wave : ℕ → ℕ → Int16}
    {samplingRate channelCount : ℕ} {port : SinePort}
    (h : createSinePort reported wave samplingRate channelCount = some port)
    (hpos : 1 ≤ port.info.samplesPerFrame / channelCount) :
    port.Ready (port.info.samplesPerFrame / channelCount) ∧
      port.info.channelCount = channelCount := by
  obtain ⟨hch, hc, hlen⟩ := createSinePort_eq_some h
  exact ⟨⟨by rwa [hch], hlen, hpos⟩, hch⟩

section

variable {port : SinePort} {count : ℕ} (h : port.Ready count)

include h

/-- A frame of `count` samples a channel is `count` rounds. -/
theorem sineGetFrame_eq : sineGetFrame port (2 * (count * port.info.channelCount)) =
    (List.range count).flatMap fun i =>
      (roundIndices port.info.channelCount count i).map fun j => port.samples.getD j 0 := by
  have hcount : 2 * (count * port.info.channelCount) / 2 / port.info.channelCount = count := by
    have hc := h.channels
    rw [Nat.mul_div_cancel_left _ (by decide), Nat.mul_div_cancel _ (by omega)]
  simp only [sineGetFrame, hcount, frameIndices_eq, List.map_flatMap]

/-- Playback is written round by round, and round `n` is round `n mod count` of a frame. -/
theorem playback_eq : ∀ frames, playback port (2 * (count * port.info.channelCount)) frames =
    (List.range (frames * count)).flatMap fun n =>
      (roundIndices port.info.channelCount count (n % count)).map fun j => port.samples.getD j 0
  | 0 => by simp [playback]
  | frames + 1 => by
    rw [playback, sineGetFrame_eq h, playback_eq frames, Nat.succ_mul, Nat.add_comm, List.range_add,
      List.flatMap_append, List.flatMap_map]
    congr 1
    · refine List.flatMap_congr fun i hi => ?_
      rw [Nat.mod_eq_of_lt (List.mem_range.mp hi)]
    · simp

/-- Sample `j` of round `n` of playback. -/
theorem getElem?_playback {frames n j : ℕ} (hn : n < frames * count)
    (hj : j < port.info.channelCount) :
    (playback port (2 * (count * port.info.channelCount)) frames)[n * port.info.channelCount + j]? =
      ((roundIndices port.info.channelCount count (n % count)).map fun i =>
        port.samples.getD i 0)[j]? := by
  have hlen : ∀ i, ((roundIndices port.info.channelCount count (i % count)).map fun j =>
      port.samples.getD j 0).length = port.info.channelCount := by
    intro i
    rcases h.channels with hc | hc <;> simp [roundIndices, hc]
  rw [playback_eq h, getElem?_flatMap_of_length hlen _ _ hj, List.getElem?_range hn,
    Option.bind_some]

/-- The left channel is the table over and over. -/
theorem left_playback {frames n : ℕ} (hn : n < frames * count) :
    (playback port (2 * (count * port.info.channelCount)) frames)[n * port.info.channelCount]? =
      port.samples[n % count]? := by
  have hlt : n % count < port.samples.length := by
    rw [h.length]
    exact Nat.mod_lt _ h.pos
  have hpos : 0 < port.info.channelCount := by
    have := h.channels
    omega
  have := getElem?_playback h hn hpos
  rw [Nat.add_zero] at this
  rw [this]
  rcases h.channels with hc | hc <;> simp [roundIndices, hc, hlt]

theorem rightIndex_lt (i : ℕ) : rightIndex count i < count := by
  have := h.pos
  have := Nat.mod_lt i (show 0 < (count + 1) / 2 by omega)
  rw [rightIndex_eq h.pos]
  omega

/-- The right channel is the table read by the right index. -/
theorem right_playback (hc : port.info.channelCount = 2) {frames n : ℕ}
    (hn : n < frames * count) :
    (playback port (2 * (count * port.info.channelCount)) frames)[n * port.info.channelCount + 1]? =
      port.samples[rightIndex count (n % count)]? := by
  have hlt : rightIndex count (n % count) < port.samples.length := by
    rw [h.length]
    exact rightIndex_lt h _
  rw [getElem?_playback h hn (by omega)]
  simp [roundIndices, hc, hlt]

end

/-- Playback of frames of `count` samples a channel is the table over and over on the first
channel, and on the second the table at twice the speed. -/
structure Octave (port : SinePort) (count : ℕ) : Prop where
  left : ∀ frames n, n < frames * count →
    (playback port (2 * (count * port.info.channelCount)) frames)[n * port.info.channelCount]? =
      port.samples[n % count]?
  right : port.info.channelCount = 2 → ∀ frames n, n < frames * count →
    (playback port (2 * (count * port.info.channelCount)) frames)[n * port.info.channelCount + 1]? =
      port.samples[2 * n % count]?

/-- On an odd number of entries, the right index reads what twice the left would exactly if
the entries it leaves out repeat those before them. -/
theorem right_eq_iff_of_odd {samples : List Int16} {m : ℕ} :
    (∀ i < 2 * m + 1, samples[rightIndex (2 * m + 1) i]? = samples[2 * i % (2 * m + 1)]?) ↔
      ∀ i, 2 * i + 1 < 2 * m + 1 → samples[2 * i]? = samples[2 * i + 1]? := by
  refine ⟨fun hall i hi => ?_, fun hall i hi => ?_⟩
  · have := hall (m + 1 + i) (by omega)
    rw [rightIndex_of_odd (by omega), if_neg (by omega), Nat.mod_eq_sub_mod (by omega),
      Nat.mod_eq_of_lt (by omega)] at this
    rwa [show 2 * (m + 1 + i) - (2 * m + 1) = 2 * i + 1 by omega, Nat.add_sub_cancel] at this
  · rw [rightIndex_of_odd hi]
    split_ifs with him
    · rfl
    · rw [Nat.mod_eq_sub_mod (by omega), Nat.mod_eq_of_lt (by omega)]
      have := hall (i - m - 1) (by omega)
      rwa [show 2 * i - (2 * m + 1) = 2 * (i - m - 1) + 1 by omega, Nat.add_sub_cancel]

/-- A port plays the wave and its octave exactly if it is mono or its right index reads what
twice the left would. -/
theorem octave_iff_rightIndex {port : SinePort} {count : ℕ} (h : port.Ready count) :
    Octave port count ↔ port.info.channelCount = 1 ∨
      ∀ i < count, port.samples[rightIndex count i]? = port.samples[2 * i % count]? := by
  refine ⟨fun ho => ?_, fun hr => ?_⟩
  · refine or_iff_not_imp_left.mpr fun hc i hi => ?_
    have hc2 : port.info.channelCount = 2 := h.channels.resolve_left hc
    have hright := @right_playback port count h hc2 1 i (by omega)
    rw [ho.right hc2 1 i (by omega), Nat.mod_eq_of_lt hi] at hright
    exact hright.symm
  · refine ⟨fun frames n hn => left_playback h hn, fun hc2 frames n hn => ?_⟩
    rw [right_playback h hc2 hn]
    rcases hr with hc | hr
    · omega
    · rw [hr _ (Nat.mod_lt _ h.pos), Nat.mul_mod_mod]

/-- A port plays the wave and its octave exactly if it is mono, or its table has an even
number of entries, or every entry at an odd place repeats the one before it. -/
theorem octave_iff {reported : ℕ → ℕ → ℕ → ℕ} {wave : ℕ → ℕ → Int16}
    {samplingRate channelCount count : ℕ} {port : SinePort}
    (h : createSinePort reported wave samplingRate channelCount = some port)
    (hcount : count = port.info.samplesPerFrame / channelCount) (hpos : 1 ≤ count) :
    Octave port count ↔ channelCount = 1 ∨ Even count ∨
      ∀ i, 2 * i + 1 < count → port.samples[2 * i]? = port.samples[2 * i + 1]? := by
  subst hcount
  obtain ⟨hready, hch⟩ := ready_of_createSinePort h hpos
  generalize port.info.samplesPerFrame / channelCount = count at hready hpos ⊢
  rw [octave_iff_rightIndex hready, hch]
  refine or_congr_right ?_
  rcases Nat.even_or_odd count with heven | hodd
  · simp [rightIndex_of_even hready.pos heven, heven]
  · have hne : ¬Even count := Nat.not_even_iff_odd.mpr hodd
    obtain ⟨m, rfl⟩ := hodd
    rw [right_eq_iff_of_odd]
    simp [hne]

/-- The table for three entries, four periods of the wave. -/
def threeEntries : ℕ → ℕ → Int16 := fun _ i => [0, 8660, -8660].getD i 0

/-- Twenty milliseconds at 8000 Hz are an even number of entries. -/
theorem octave_stereo_8000 :
    ∃ port, createSinePort (fun _ _ n => n) threeEntries 8000 2 = some port ∧ Octave port 160 := by
  have hcreate : createSinePort (fun _ _ n => n) threeEntries 8000 2 =
      some ⟨⟨8000, 2, 320, 16⟩, (List.range 160).map (threeEntries 160)⟩ := rfl
  exact ⟨_, hcreate, (octave_iff hcreate rfl (by decide)).mpr (.inr (.inl (by decide)))⟩

/-- Twenty milliseconds at 150 Hz are three, and the right channel plays the third entry and
never the second. -/
theorem not_octave_stereo_150 :
    ∃ port, createSinePort (fun _ _ n => n) threeEntries 150 2 = some port ∧ ¬Octave port 3 := by
  refine ⟨_, rfl, fun ho => ?_⟩
  have := ho.right rfl 1 2 (by decide)
  revert this
  decide

end PjmediaApps
