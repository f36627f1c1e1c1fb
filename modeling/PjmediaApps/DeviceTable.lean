import PjmediaApps.ArrayLoop
import Mathlib.Data.Finset.Disjoint

/-!
# The device table of `just_create_sound`

The loop of `main` in `just_create_sound.c` names four sound devices, looks each up and opens
a sound port on it. The lookup answers −1 where it fails, the guard before the open admits
−1 (`neg_one_le_getAudioDevIdx`), and −1 is the index of the default device. A name that
is missing thus opens the default device in the place of its own.

The rounds do not meet : each writes its own entry (`getElem?_deviceTable`). The table
is right exactly if no round with a missing name can open the default device
(`tableRight_iff`).
-/

namespace PjmediaApps

open ArrayLoop

/-! ## The audio subsystem -/

/-- The audio subsystem. A name is found at the index of a device that is present, two names
never at the same, and the index −1 designates one of the devices present, if any. -/
structure AudioSystem where
  /-- The indices of the devices present. -/
  present : Finset ℕ
  /-- `pjmedia_aud_dev_lookup` on a name. -/
  lookup : String → Option ℕ
  default : Option ℕ
  /-- Whether a round of the loop can open a device to record and a device to play. -/
  opens : ℕ → ℕ → ℕ → Bool
  lookup_mem : ∀ {name d}, lookup name = some d → d ∈ present
  lookup_injective : ∀ {name name' d}, lookup name = some d → lookup name' = some d → name = name'
  default_mem : ∀ {d}, default = some d → d ∈ present

/-- A sound port, the devices it is open on and its format. -/
structure SndPort where
  recDev : ℕ
  playDev : ℕ
  clockRate : ℕ
  channelCount : ℕ
  samplesPerFrame : ℕ
  bitsPerSample : ℕ
  options : ℕ
  deriving DecidableEq, Repr

/-- The devices of a port. -/
def SndPort.devices (port : SndPort) : Finset ℕ :=
  {port.recDev, port.playDev}

/-- `device_t`. The port is `none` as long as none is stored. -/
structure Device where
  sndPort : Option SndPort
  audDevName : String
  deriving DecidableEq, Repr

namespace AudioSystem

variable (sys : AudioSystem)

/-- The device an index designates. -/
def device (idx : ℤ) : Option ℕ :=
  if idx = -1 then sys.default
  else if 0 ≤ idx ∧ idx.toNat ∈ sys.present then some idx.toNat
  else none

/-- `pjmedia_snd_port_create` in a round of the loop. -/
def sndPortCreate (round : ℕ) (recId playId : ℤ)
    (clockRate channelCount samplesPerFrame bitsPerSample options : ℕ) : Option SndPort :=
  match sys.device recId, sys.device playId with
  | some r, some p =>
    if sys.opens round r p then
      some ⟨r, p, clockRate, channelCount, samplesPerFrame, bitsPerSample, options⟩
    else none
  | _, _ => none

end AudioSystem

/-! ## The loop -/

/-- `DEV_NAME`. -/
def devName : String := "sysdefault:CARD=Device"

/-- `MAX_SOUND`. -/
def maxSound : ℕ := 4

/-- `get_audio_dev_idx`. -/
def getAudioDevIdx (sys : AudioSystem) (dev : String) : ℤ :=
  match sys.lookup dev with
  | none => -1
  | some devIdx => devIdx

/-- The switch of the loop, on the name the entry had. -/
def audDevName (idx : ℕ) (name : String) : String :=
  match idx with
  | 0 => devName ++ "_1"
  | 1 => devName
  | 2 => devName ++ "_3"
  | 3 => devName ++ "_2"
  | _ => name

/-- A round of the loop on its entry. -/
def createDevice (sys : AudioSystem) (idx : ℕ) (device : Device) : Device :=
  let name := audDevName idx device.audDevName
  let devIdx := getAudioDevIdx sys name
  if -1 ≤ devIdx then
    match sys.sndPortCreate idx devIdx devIdx 8000 1 160 16 0 with
    | some port => ⟨some port, name⟩
    | none => ⟨device.sndPort, name⟩
  else ⟨device.sndPort, name⟩

/-- The table after the loop. The program does not initialise it, so before the loop its bytes are
anything, but no sound port has been stored in it. An entry that no round stores a port in is
`none` here for that reason. -/
def deviceTable (sys : AudioSystem) : List Device :=
  updateEach (createDevice sys) maxSound (List.replicate maxSound ⟨none, ""⟩)

/-! ## One round -/

/-- The port a round opens on a device. -/
def portOn (d : ℕ) : SndPort :=
  ⟨d, d, 8000, 1, 160, 16, 0⟩

theorem devices_portOn (d : ℕ) : (portOn d).devices = {d} :=
  Finset.pair_eq_singleton d

section

variable (sys : AudioSystem)

/-- The guard of the open admits the value of a failed lookup, and so every value. -/
theorem neg_one_le_getAudioDevIdx (dev : String) : -1 ≤ getAudioDevIdx sys dev := by
  unfold getAudioDevIdx
  split <;> omega

/-- The index for a name designates the device of that name, and the default device if there
is none. -/
theorem device_getAudioDevIdx (dev : String) :
    sys.device (getAudioDevIdx sys dev) = (sys.lookup dev).or sys.default := by
  cases h : sys.lookup dev with
  | none => simp [getAudioDevIdx, h, AudioSystem.device]
  | some d =>
    have hne : (d : ℤ) ≠ -1 := by omega
    simp [getAudioDevIdx, h, AudioSystem.device, hne, sys.lookup_mem h]

/-- A round stores a port on the device its index designates, if that one opens. -/
theorem sndPort_createDevice_eq_some {idx : ℕ} {device : Device} {port : SndPort}
    (hdev : device.sndPort = none) : (createDevice sys idx device).sndPort = some port ↔
      ∃ d, (sys.lookup (audDevName idx device.audDevName)).or sys.default = some d ∧
        sys.opens idx d d = true ∧ port = portOn d := by
  have hguard := neg_one_le_getAudioDevIdx sys (audDevName idx device.audDevName)
  have hdevice := device_getAudioDevIdx sys (audDevName idx device.audDevName)
  simp only [createDevice, if_pos hguard, AudioSystem.sndPortCreate, hdevice, hdev]
  cases (sys.lookup (audDevName idx device.audDevName)).or sys.default with
  | none => simp
  | some d =>
    by_cases ho : sys.opens idx d d = true
    · simp [ho, portOn, @eq_comm _ _ port]
    · simp [ho]

theorem audDevName_createDevice (idx : ℕ) (device : Device) :
    (createDevice sys idx device).audDevName = audDevName idx device.audDevName := by
  simp only [createDevice]
  split
  · split <;> rfl
  · rfl

/-! ## The table -/

/-- The entries of the table, each as its own round leaves it. -/
theorem getElem?_deviceTable {i : ℕ} {device : Device} : (deviceTable sys)[i]? = some device ↔
    i < maxSound ∧ device = createDevice sys i ⟨none, ""⟩ := by
  rw [deviceTable, getElem?_updateEach, List.getElem?_replicate]
  by_cases hi : i < maxSound <;> simp [hi, eq_comm]

/-- The ports of the table, by the entry. -/
theorem port_deviceTable {i : ℕ} {device : Device} {port : SndPort}
    (h : (deviceTable sys)[i]? = some device) : device.sndPort = some port ↔
      ∃ d, (sys.lookup device.audDevName).or sys.default = some d ∧ sys.opens i d d = true ∧
        port = portOn d := by
  obtain ⟨-, rfl⟩ := (getElem?_deviceTable sys).mp h
  rw [sndPort_createDevice_eq_some sys rfl, audDevName_createDevice]

/-- The names of the entries are different. -/
theorem audDevName_injective : ∀ i < maxSound, ∀ j < maxSound,
    audDevName i "" = audDevName j "" → i = j := by
  decide

/-- A table whose entries hold ports on their own devices only. -/
structure TableRight (table : List Device) : Prop where
  /-- A port is on the device found for the name of the entry, and that one was opened. -/
  own : ∀ (i : ℕ) (device : Device) port, table[i]? = some device → device.sndPort = some port →
    ∃ d, sys.lookup device.audDevName = some d ∧ sys.opens i d d = true ∧ port = portOn d
  /-- No two entries share a device. -/
  disjoint : ∀ (i j : ℕ) (device₁ device₂ : Device) port₁ port₂, i ≠ j → table[i]? = some device₁ →
    table[j]? = some device₂ → device₁.sndPort = some port₁ → device₂.sndPort = some port₂ →
      Disjoint port₁.devices port₂.devices
  /-- Nothing is opened for a name that is missing. -/
  missing : ∀ (i : ℕ) (device : Device), table[i]? = some device →
    sys.lookup device.audDevName = none → device.sndPort = none

/-- Where the default device does not open for a missing name, a port is on the device found
for the name of its entry. -/
theorem own_of_default_closed
    (h : ∀ i < maxSound, sys.lookup (audDevName i "") = none →
      ∀ d, sys.default = some d → sys.opens i d d = false)
    {i : ℕ} {device : Device} {port : SndPort} (hentry : (deviceTable sys)[i]? = some device)
    (hport : device.sndPort = some port) : ∃ d, sys.lookup device.audDevName = some d ∧
      sys.opens i d d = true ∧ port = portOn d := by
  obtain ⟨d, hd, hopens, rfl⟩ := (port_deviceTable sys hentry).mp hport
  rcases Option.or_eq_some_iff.mp hd with hfound | ⟨hmissing, hdefault⟩
  · exact ⟨d, hfound, hopens, rfl⟩
  · obtain ⟨hi, rfl⟩ := (getElem?_deviceTable sys).mp hentry
    rw [audDevName_createDevice] at hmissing
    rw [h i hi hmissing d hdefault] at hopens
    cases hopens

/-- Two entries do not have their names' device in common. -/
theorem index_eq_of_lookup {i j d : ℕ} {device₁ device₂ : Device}
    (hi : (deviceTable sys)[i]? = some device₁) (hj : (deviceTable sys)[j]? = some device₂)
    (h₁ : sys.lookup device₁.audDevName = some d) (h₂ : sys.lookup device₂.audDevName = some d) :
    i = j := by
  obtain ⟨hilt, rfl⟩ := (getElem?_deviceTable sys).mp hi
  obtain ⟨hjlt, rfl⟩ := (getElem?_deviceTable sys).mp hj
  have hname := sys.lookup_injective h₁ h₂
  rw [audDevName_createDevice, audDevName_createDevice] at hname
  exact audDevName_injective i hilt j hjlt hname

/-- The table is right exactly if no round that looks for a missing name can open the
default device. -/
theorem tableRight_iff : TableRight sys (deviceTable sys) ↔
    ∀ i < maxSound, sys.lookup (audDevName i "") = none →
      ∀ d, sys.default = some d → sys.opens i d d = false := by
  refine ⟨fun h i hi hmissing d hd => ?_, fun h => ⟨fun _ _ _ => own_of_default_closed sys h,
    fun i j device₁ device₂ port₁ port₂ hne hi hj hport₁ hport₂ => ?_,
    fun i device hentry hmissing => ?_⟩⟩
  · have hentry := (getElem?_deviceTable sys).mpr ⟨hi, rfl⟩
    have hnone := h.missing i _ hentry (by rwa [audDevName_createDevice])
    by_contra hopens
    have hport := (port_deviceTable sys hentry).mpr
      ⟨d, by rw [audDevName_createDevice, hmissing, Option.none_or, hd], by simpa using hopens, rfl⟩
    rw [hnone] at hport
    cases hport
  · obtain ⟨d, hd, -, rfl⟩ := own_of_default_closed sys h hi hport₁
    obtain ⟨e, he, -, rfl⟩ := own_of_default_closed sys h hj hport₂
    rw [devices_portOn, devices_portOn, Finset.disjoint_singleton]
    rintro rfl
    exact hne (index_eq_of_lookup sys hi hj hd he)
  · refine Option.eq_none_iff_forall_ne_some.mpr fun port hport => ?_
    obtain ⟨d, hd, -⟩ := own_of_default_closed sys h hentry hport
    rw [hmissing] at hd
    cases hd

end

/-- A system with a default device and three of the four named ones, all of which open. -/
def threeDevices : AudioSystem where
  present := {0, 1, 2, 3}
  lookup name :=
    if name = devName ++ "_1" then some 1
    else if name = devName then some 2
    else if name = devName ++ "_2" then some 3
    else none
  default := some 0
  opens _ _ _ := true
  lookup_mem {name d} h := by
    split_ifs at h <;> cases h <;> decide
  lookup_injective {name name' d} h h' := by
    split_ifs at h <;> split_ifs at h' <;> cases h <;> cases h' <;> simp [*]
  default_mem h := by
    cases h
    decide

/-- The entry of the missing name holds a port on the default device. -/
theorem not_tableRight_threeDevices :
    threeDevices.lookup (devName ++ "_3") = none ∧
      (deviceTable threeDevices)[2]? = some ⟨some (portOn 0), devName ++ "_3"⟩ ∧
      ¬TableRight threeDevices (deviceTable threeDevices) := by
  refine ⟨by decide, by decide, fun h => ?_⟩
  exact absurd (h.missing 2 ⟨some (portOn 0), devName ++ "_3"⟩ (by decide) (by decide)) (by decide)

end PjmediaApps
