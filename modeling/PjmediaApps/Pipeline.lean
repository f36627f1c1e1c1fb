import PjmediaApps.CString

/-!
# Formats in the file-to-two-sound-devices programs

`func_sc_pjsua_1file_to_2sound.c`, `sc_1file_to_2sound.c` and `sc_pjsua_1file_to_2sound.c` play a
WAV file on two sound devices. Each opens two sound ports in the format of the file, a
stereo combiner at the rate of the file with twice its samples per frame, and connects the
sound ports to the two reverse channels of the combiner; a master port drives the bridge
the combiner is on. The statuses of the connects are not looked at.

A reverse channel is mono, so the connects agree exactly for mono files
(`sndConnects_agree_iff`). `sc_1file_to_2sound` gives the file port itself to the master port,
across from a bridge at 8000 Hz, and the two agree exactly for a mono file at that rate
(`masterEnds_agree_iff`).
-/

namespace PjmediaApps

open CString

/-- The format of a port. -/
structure PortFormat where
  clockRate : ℕ
  channelCount : ℕ
  samplesPerFrame : ℕ
  bitsPerSample : ℕ
  deriving DecidableEq, Repr

/-- The formats that pjmedia's ports report, given the formats they are created with. -/
structure MediaApi where
  /-- `pjmedia_snd_port_create_player`. -/
  sndPlayer : PortFormat → PortFormat
  /-- `pjmedia_conf_create`, then `pjmedia_conf_get_master_port`. -/
  confMaster : PortFormat → PortFormat
  /-- `pjmedia_splitcomb_create`. -/
  splitcomb : PortFormat → PortFormat
  /-- `pjmedia_splitcomb_create_rev_channel` of a combiner with a format. -/
  revChannel : PortFormat → ℕ → PortFormat

/-- What the programs rely on : a port reports the format it was created with, and a reverse
channel is mono with its share of the samples. -/
structure MediaApi.Lawful (api : MediaApi) : Prop where
  sndPlayer : ∀ f, api.sndPlayer f = f
  confMaster : ∀ f, api.confMaster f = f
  splitcomb : ∀ f, api.splitcomb f = f
  revChannel : ∀ f i, api.revChannel f i =
    ⟨f.clockRate, 1, f.samplesPerFrame / f.channelCount, f.bitsPerSample⟩

/-- What a program joins. -/
structure Wiring where
  /-- The ends of each `pjmedia_snd_port_connect`, a sound port and a reverse channel. -/
  sndConnects : List (PortFormat × PortFormat)
  /-- The ends of `pjmedia_master_port_create`. -/
  masterEnds : PortFormat × PortFormat

section

variable (api : MediaApi)

/-- The common part of the programs : `up` is the port on the far side of the master port
and `conf` the format of the bridge. -/
def fileTo2Sound (up conf file : PortFormat) : Wiring :=
  let sndPort := api.sndPlayer
    ⟨file.clockRate, file.channelCount, file.samplesPerFrame, file.bitsPerSample⟩
  let sndPort2 := api.sndPlayer
    ⟨file.clockRate, file.channelCount, file.samplesPerFrame, file.bitsPerSample⟩
  let mp1 := api.confMaster conf
  -- twice the samples per frame is an `unsigned`
  let sc := api.splitcomb
    ⟨file.clockRate, 2, toUInt32 (2 * file.samplesPerFrame), file.bitsPerSample⟩
  let rev1 := api.revChannel sc 0
  let rev2 := api.revChannel sc 1
  ⟨[(sndPort, rev1), (sndPort2, rev2)], (up, mp1)⟩

/-- `doStream` of `func_sc_pjsua_1file_to_2sound`. -/
def doStream (pjsuaConf file : PortFormat) : Wiring :=
  fileTo2Sound api pjsuaConf ⟨16000, 1, 320, 16⟩ file

/-- `main` of `sc_1file_to_2sound`. -/
def sc1FileTo2Sound (file : PortFormat) : Wiring :=
  fileTo2Sound api file ⟨8000, 1, 160, 16⟩ file

/-- `main` of `sc_pjsua_1file_to_2sound`. -/
def scPjsua1FileTo2Sound (pjsuaConf file : PortFormat) : Wiring :=
  fileTo2Sound api pjsuaConf ⟨16000, 1, 320, 16⟩ file

end

/-- The formats agree in what the audio depends on. -/
def SameFormat (f g : PortFormat) : Prop :=
  f.clockRate = g.clockRate ∧ f.channelCount = g.channelCount ∧
    f.samplesPerFrame = g.samplesPerFrame

instance (f g : PortFormat) : Decidable (SameFormat f g) :=
  inferInstanceAs (Decidable (_ ∧ _ ∧ _))

/-- The port of a WAV file, opened for frames of 20 ms. -/
def wavFile (clockRate channelCount bitsPerSample : ℕ) : PortFormat :=
  ⟨clockRate, channelCount, clockRate * channelCount / 50, bitsPerSample⟩

/-- Every sound port of the programs agrees with its reverse channel, and the file with the
bridge in `sc_1file_to_2sound`. -/
structure FormatsAgree (api : MediaApi) (pjsuaConf file : PortFormat) : Prop where
  doStream : ∀ e ∈ (doStream api pjsuaConf file).sndConnects, SameFormat e.1 e.2
  sc1File : ∀ e ∈ (sc1FileTo2Sound api file).sndConnects, SameFormat e.1 e.2
  scPjsua1File : ∀ e ∈ (scPjsua1FileTo2Sound api pjsuaConf file).sndConnects, SameFormat e.1 e.2
  masterEnds : SameFormat (sc1FileTo2Sound api file).masterEnds.1
    (sc1FileTo2Sound api file).masterEnds.2

section

variable {api : MediaApi} (law : api.Lawful)

include law

/-- The sound ports agree with the reverse channels exactly if the file is mono and twice its
samples per frame are an `unsigned`. -/
theorem sndConnects_agree_iff (up conf file : PortFormat) :
    (∀ e ∈ (fileTo2Sound api up conf file).sndConnects, SameFormat e.1 e.2) ↔
      file.channelCount = 1 ∧ file.samplesPerFrame < 2147483648 := by
  simp only [fileTo2Sound, law.sndPlayer, law.splitcomb, law.revChannel, SameFormat,
    List.forall_mem_cons, List.not_mem_nil, false_implies, implies_true, and_true, true_and, and_self]
  refine and_congr_right fun _ => ?_
  unfold toUInt32
  omega

/-- The file agrees with the bridge exactly if it is mono at 8000 Hz. -/
theorem masterEnds_agree_iff (clockRate channelCount bits : ℕ) :
    SameFormat (sc1FileTo2Sound api (wavFile clockRate channelCount bits)).masterEnds.1
        (sc1FileTo2Sound api (wavFile clockRate channelCount bits)).masterEnds.2 ↔
      channelCount = 1 ∧ clockRate = 8000 := by
  simp only [sc1FileTo2Sound, fileTo2Sound, law.confMaster, SameFormat, wavFile]
  constructor
  · rintro ⟨hr, hc, -⟩
    exact ⟨hc, hr⟩
  · rintro ⟨rfl, rfl⟩
    decide

/-- All formats agree exactly for a mono file at 8000 Hz. -/
theorem formatsAgree_iff (pjsuaConf : PortFormat) (clockRate channelCount bits : ℕ) :
    FormatsAgree api pjsuaConf (wavFile clockRate channelCount bits) ↔
      channelCount = 1 ∧ clockRate = 8000 := by
  constructor
  · intro h
    exact (masterEnds_agree_iff law clockRate channelCount bits).mp h.masterEnds
  · rintro ⟨rfl, rfl⟩
    have hsnd : ∀ up conf, ∀ e ∈ (fileTo2Sound api up conf (wavFile 8000 1 bits)).sndConnects,
        SameFormat e.1 e.2 :=
      fun up conf => (sndConnects_agree_iff law up conf _).mpr (by simp [wavFile])
    exact ⟨hsnd _ _, hsnd _ _, hsnd _ _, (masterEnds_agree_iff law 8000 1 bits).mpr ⟨rfl, rfl⟩⟩

end

/-- Ports that report what they were created with. -/
def plainApi : MediaApi where
  sndPlayer f := f
  confMaster f := f
  splitcomb f := f
  revChannel f _ := ⟨f.clockRate, 1, f.samplesPerFrame / f.channelCount, f.bitsPerSample⟩

theorem plainApi_lawful : plainApi.Lawful :=
  ⟨fun _ => rfl, fun _ => rfl, fun _ => rfl, fun _ _ => rfl⟩

/-- A mono file at 8000 Hz agrees everywhere. -/
theorem formatsAgree_mono_8000 : FormatsAgree plainApi ⟨16000, 1, 320, 16⟩ (wavFile 8000 1 16) :=
  (formatsAgree_iff plainApi_lawful _ 8000 1 16).mpr ⟨rfl, rfl⟩

/-- A stereo file at 44100 Hz does not agree with the reverse channels. -/
theorem not_formatsAgree_stereo_44100 :
    ¬FormatsAgree plainApi ⟨16000, 1, 320, 16⟩ (wavFile 44100 2 16) := by
  intro h
  exact absurd (h.doStream _ (List.mem_cons_self ..)) (by decide)

end PjmediaApps
