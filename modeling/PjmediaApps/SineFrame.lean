import PjmediaApps.SinePort

/-!
# The buffers of the sine generator

The loop of `sine_get_frame` with its pointer into the frame : every write has a place in
the frame, a channel, and the table index it reads (`frameWrites`). The number of rounds is
the size of the frame in bytes divided twice, the table has as many entries as the
samples per frame that the port reports have rounds, and nothing but these two divisions
ties them together. For a frame of at most twice as many bytes as the port reports samples,
the reads stay inside the table, and the writes fill the frame from its start, each place
once and in order (`fillsFrame`).
-/

namespace PjmediaApps

/-- A write of `sine_get_frame` : its place in the frame, its channel, and the table index
of the sample written. -/
structure FrameWrite where
  position : ℕ
  channel : ℕ
  index : ℕ
  deriving DecidableEq, Repr

/-- The loop of `sine_get_frame` with the rounds left, the pointer `samples` as a place in the
frame, and the two indices. No index wraps : each is below `count` where it is used. -/
def frameWrites (channelCount count : ℕ) : ℕ → ℕ → ℕ → ℕ → List FrameWrite
  | 0, _, _, _ => []
  | n + 1, samples, left, right =>
    if channelCount = 2 then
      ⟨samples, 0, left⟩ :: ⟨samples + 1, 1, right⟩ ::
        frameWrites channelCount count n (samples + 2) (left + 1)
          (if count ≤ right + 2 then 0 else right + 2)
    else ⟨samples, 0, left⟩ :: frameWrites channelCount count n (samples + 1) (left + 1) right

/-- The writes of `sine_get_frame` on a frame of `size` bytes. -/
def sineWrites (port : SinePort) (size : ℕ) : List FrameWrite :=
  let count := size / 2 / port.info.channelCount
  frameWrites port.info.channelCount count count 0 0 0

/-- The indices of the writes are those of the loop without its pointer. -/
theorem map_index_frameWrites (channelCount count : ℕ) : ∀ n samples left right,
    (frameWrites channelCount count n samples left right).map FrameWrite.index =
      frameIndices channelCount count n left right
  | 0, _, _, _ => rfl
  | n + 1, samples, left, right => by
    unfold frameWrites frameIndices
    split_ifs <;> simp [map_index_frameWrites channelCount count n]

/-- The samples of a frame are those its writes read from the table. -/
theorem sineGetFrame_eq_map (port : SinePort) (size : ℕ) :
    sineGetFrame port size = (sineWrites port size).map fun w => port.samples.getD w.index 0 := by
  rw [sineGetFrame, sineWrites, ← map_index_frameWrites _ _ _ 0, List.map_map]
  rfl

/-! ## One run of the loop -/

/-- Each round reads with both indices below `count`. -/
theorem index_frameWrites_lt {channelCount count : ℕ} : ∀ {n samples left right : ℕ},
    left + n ≤ count → (0 < n → right < count) →
      ∀ w ∈ frameWrites channelCount count n samples left right, w.index < count
  | 0, _, _, _, _, _, w, hw => by simp [frameWrites] at hw
  | n + 1, samples, left, right, hleft, hright, w, hw => by
    have hr := hright (Nat.succ_pos n)
    unfold frameWrites at hw
    split_ifs at hw with hc hwrap
    · -- the right index starts over
      simp only [List.mem_cons] at hw
      rcases hw with rfl | rfl | hw
      · exact (by omega : left < count)
      · exact hr
      · exact index_frameWrites_lt (by omega) (fun _ => by omega) w hw
    · simp only [List.mem_cons] at hw
      rcases hw with rfl | rfl | hw
      · exact (by omega : left < count)
      · exact hr
      · exact index_frameWrites_lt (by omega) (fun _ => by omega) w hw
    · rcases List.mem_cons.mp hw with rfl | hw
      · exact (by omega : left < count)
      · exact index_frameWrites_lt (by omega) (fun _ => hr) w hw

section

variable {channelCount : ℕ} (hc : channelCount = 1 ∨ channelCount = 2) (count : ℕ)

include hc

/-- The pointer goes over the places one by one. -/
theorem map_position_frameWrites (n samples left right : ℕ) :
    (frameWrites channelCount count n samples left right).map FrameWrite.position =
      List.range' samples (channelCount * n) := by
  induction n generalizing samples left right with
  | zero => simp [frameWrites]
  | succ n ih =>
    rcases hc with rfl | rfl
    · simp [frameWrites, ih, List.range'_succ]
    · rw [frameWrites, if_pos rfl, List.map_cons, List.map_cons, ih,
        show 2 * (n + 1) = 2 * n + 1 + 1 by omega, List.range'_succ, List.range'_succ]

/-- A round starts on a multiple of the channels, so the place of a write tells its channel. -/
theorem channel_frameWrites {n samples left right : ℕ} (hs : samples % channelCount = 0) :
    ∀ w ∈ frameWrites channelCount count n samples left right,
      w.channel = w.position % channelCount := by
  induction n generalizing samples left right with
  | zero => simp [frameWrites]
  | succ n ih =>
    intro w hw
    rcases hc with rfl | rfl
    · rw [frameWrites, if_neg (by decide), List.mem_cons] at hw
      rcases hw with rfl | hw
      · exact hs.symm
      · exact ih (Nat.mod_one _) w hw
    · rw [frameWrites, if_pos rfl, List.mem_cons, List.mem_cons] at hw
      rcases hw with rfl | rfl | hw
      · exact hs.symm
      · exact (by omega : 1 = (samples + 1) % 2)
      · exact ih (by omega) w hw

end

/-! ## A frame -/

/-- A frame of `size` bytes is filled from its start, and from inside the table. -/
structure FillsFrame (port : SinePort) (size : ℕ) : Prop where
  /-- Every read is inside the table. -/
  reads : ∀ w ∈ sineWrites port size, w.index < port.samples.length
  /-- The places written, each once and in order. -/
  positions : (sineWrites port size).map FrameWrite.position =
    List.range (port.info.channelCount * (size / 2 / port.info.channelCount))
  /-- Every write is inside the frame. -/
  inFrame : ∀ w ∈ sineWrites port size, w.position < size / 2
  /-- The first channel is on the multiples of the number of channels. -/
  firstChannel : ∀ w ∈ sineWrites port size,
    w.channel = 0 ↔ port.info.channelCount ∣ w.position

/-- A frame that is not larger than the port reports is filled, and the table suffices. -/
theorem fillsFrame {reported : ℕ → ℕ → ℕ → ℕ} {wave : ℕ → ℕ → Int16}
    {samplingRate channelCount size : ℕ} {port : SinePort}
    (h : createSinePort reported wave samplingRate channelCount = some port)
    (hsize : size ≤ 2 * port.info.samplesPerFrame) : FillsFrame port size := by
  obtain ⟨hch, hc, hlen⟩ := createSinePort_eq_some h
  rw [← hch] at hc hlen
  have hpos : 0 < port.info.channelCount := by omega
  have hcount : size / 2 / port.info.channelCount ≤ port.samples.length := by
    rw [hlen]
    exact Nat.div_le_div_right (by omega)
  have hpositions : (sineWrites port size).map FrameWrite.position =
      List.range (port.info.channelCount * (size / 2 / port.info.channelCount)) := by
    rw [List.range_eq_range']
    exact map_position_frameWrites hc _ _ 0 0 0
  refine ⟨fun w hw => ?_, hpositions, fun w hw => ?_, fun w hw => ?_⟩
  · exact (index_frameWrites_lt (by omega) id w hw).trans_le hcount
  · have hmem := List.mem_map_of_mem (f := FrameWrite.position) hw
    rw [hpositions, List.mem_range] at hmem
    exact hmem.trans_le (Nat.mul_div_le _ _)
  · rw [channel_frameWrites hc _ (Nat.zero_mod _) w hw]
    exact (Nat.dvd_iff_mod_eq_zero ..).symm

/-- A stereo port at 150 Hz on a frame of eleven bytes, one short of the six samples it reports. -/
theorem fillsFrame_stereo_150 : ∃ port,
    createSinePort (fun _ _ n => n) threeEntries 150 2 = some port ∧ FillsFrame port 11 :=
  ⟨_, rfl, fillsFrame (show createSinePort (fun _ _ n => n) threeEntries 150 2 = some _ from rfl)
    (by decide)⟩

end PjmediaApps
