import PjmediaApps.ConfBridge

/-!
# Start-up of `conf_to_2_sounds`

`main` creates a bridge with a slot for the sound device, the recorder and each WAV file on
the command line, and adds the recorder and the files. Every add finds a free slot, and at
the end every slot is occupied and nothing is connected (`startUp_spec`).
-/

namespace PjmediaApps

/-- `RECORDER`. -/
def recorder : ℕ := 1

/-- `port_count`. -/
def portCount (fileCount : ℕ) : ℕ :=
  fileCount + 1 + recorder

section

variable {σ : Type*} (api : ConfApi σ)

/-- The loop that creates a file port for each file, if the file loads, and adds it to the
bridge. It is `none` where `main` gives up. -/
def addFiles : List Bool → σ → Option σ
  | [], s => some s
  | false :: _, _ => none
  | true :: files, s =>
    match api.addPort s with
    | (true, s') => addFiles files s'
    | (false, _) => none

/-- `main` up to the menu, for files that load or not. The status of the recorder's add is
not looked at. -/
def startUp (files : List Bool) : Option σ :=
  match api.create (portCount files.length) with
  | none => none
  | some s => addFiles api files (api.addPort s).2

end

/-- The first `m` slots are occupied and nothing is connected. -/
structure Bridge.Filled (b : Bridge) (m : ℕ) : Prop where
  occupied : b.occupied = Finset.range m
  listeners : ∀ s, b.listeners s = ∅

theorem Bridge.filled_create {n : ℕ} (hn : 0 < n) : (Bridge.create n hn).Filled 1 :=
  ⟨rfl, fun _ => rfl⟩

namespace Bridge.Filled

variable {b : Bridge} {m : ℕ} (h : b.Filled m)

include h

theorem lowestFree (hm : m < b.capacity) : b.LowestFree m := by
  refine ⟨hm, by simp [h.occupied], fun r hr => ?_⟩
  rw [h.occupied]
  exact Finset.mem_range.mpr hr

theorem occupy (hm : m < b.capacity) : (b.occupy m hm).Filled (m + 1) :=
  ⟨by rw [Finset.range_add_one, ← h.occupied]; rfl, h.listeners⟩

end Bridge.Filled

variable {σ : Type*} {api : ConfApi σ} {view : σ → Bridge} (law : api.Lawful view)

include law

/-- While a slot is free, an add succeeds and takes the next one. -/
theorem addPort_filled {s : σ} {m : ℕ} (h : (view s).Filled m) (hm : m < (view s).capacity) :
    (api.addPort s).1 = true ∧ (view (api.addPort s).2).Filled (m + 1) ∧
      (view (api.addPort s).2).capacity = (view s).capacity := by
  obtain ⟨hst, hview⟩ := law.addPort s m (h.lowestFree hm)
  rw [hview]
  exact ⟨hst, h.occupy hm, rfl⟩

/-- With a free slot for each of the files that load, all of them are added. -/
theorem addFiles_filled : ∀ (k : ℕ) {s : σ} {m : ℕ}, (view s).Filled m →
    m + k ≤ (view s).capacity → ∃ s', addFiles api (List.replicate k true) s = some s' ∧
      (view s').Filled (m + k)
  | 0, s, _, h, _ => ⟨s, rfl, h⟩
  | k + 1, s, m, h, hm => by
    obtain ⟨hst, hf, hcap⟩ := addPort_filled law h (by omega)
    obtain ⟨s', hs', hf'⟩ := addFiles_filled k hf (by omega)
    refine ⟨s', ?_, by rwa [show m + (k + 1) = m + 1 + k by omega]⟩
    rw [List.replicate_succ, addFiles]
    split
    · next heq => rwa [heq] at hs'
    · next heq => simp [heq] at hst

/-- On a bridge created with `port_count` slots, the adds of the recorder and of all the
files succeed, and then the occupied slots are those below `port_count`. -/
theorem startUp_spec {k : ℕ} {s₀ : σ} (h₀ : api.create (portCount k) = some s₀) :
    (api.addPort s₀).1 = true ∧
      ∃ s, startUp api (List.replicate k true) = some s ∧ (view s).Filled (portCount k) := by
  obtain ⟨hn, hview⟩ := law.create _ _ h₀
  have hcap : (view s₀).capacity = portCount k := by rw [hview]; rfl
  have hpc : portCount k = 2 + k := by
    unfold portCount recorder
    omega
  have hf : (view s₀).Filled 1 := hview ▸ Bridge.filled_create hn
  obtain ⟨hst, hf', hcap'⟩ := addPort_filled law hf (by omega)
  obtain ⟨s, hs, hfs⟩ := addFiles_filled law k hf' (by omega)
  refine ⟨hst, s, ?_, hpc ▸ hfs⟩
  rw [startUp, List.length_replicate, h₀]
  exact hs

end PjmediaApps
