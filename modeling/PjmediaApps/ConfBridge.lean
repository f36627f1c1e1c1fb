import PjmediaApps.CString
import Mathlib.Data.Finset.Card
import Mathlib.Data.Finset.Range
import Mathlib.Data.Finset.Lattice.Basic
import Mathlib.Data.Finset.Sort

/-!
# The conference bridge

The bridge is code of pjmedia. `Bridge` is what it is for : numbered slots, the occupied
ones among them, and for each slot the slots that listen to it. `ConfApi` is the interface
the programs call, over an arbitrary type of states, and `ConfApi.Lawful` what they rely
on, each law read off a view of the states as a `Bridge`.

The abstract bridge is itself an implementation (`Bridge.api_lawful`).
-/

namespace PjmediaApps

open ByteStream

/-! ## The abstract bridge -/

/-- Numbered slots, the occupied ones, and who listens to whom. -/
@[ext] structure Bridge where
  /-- The number of slots. -/
  capacity : ℕ
  occupied : Finset ℕ
  /-- The slots that a slot transmits to. -/
  listeners : ℕ → Finset ℕ
  occupied_lt : ∀ s ∈ occupied, s < capacity
  listeners_subset : ∀ s, listeners s ⊆ occupied

namespace Bridge

/-- A new bridge : the sound device is in slot 0 and nothing is connected. -/
def create (n : ℕ) (hn : 0 < n) : Bridge where
  capacity := n
  occupied := {0}
  listeners _ := ∅
  occupied_lt s hs := by
    rw [Finset.mem_singleton.mp hs]
    exact hn
  listeners_subset _ := Finset.empty_subset _

/-- `s` is the lowest free slot. -/
def LowestFree (b : Bridge) (s : ℕ) : Prop :=
  s < b.capacity ∧ s ∉ b.occupied ∧ ∀ r < s, r ∈ b.occupied

/-- Put a port in a free slot. -/
def occupy (b : Bridge) (s : ℕ) (hs : s < b.capacity) : Bridge where
  capacity := b.capacity
  occupied := insert s b.occupied
  listeners := b.listeners
  occupied_lt r hr := by
    rcases Finset.mem_insert.mp hr with rfl | hr
    · exact hs
    · exact b.occupied_lt r hr
  listeners_subset r := (b.listeners_subset r).trans (Finset.subset_insert _ _)

/-- Let `dst` listen to `src`. -/
def connect (b : Bridge) (src dst : ℕ) (hdst : dst ∈ b.occupied) : Bridge where
  capacity := b.capacity
  occupied := b.occupied
  listeners s := if s = src then insert dst (b.listeners s) else b.listeners s
  occupied_lt := b.occupied_lt
  listeners_subset s := by
    split_ifs
    · exact Finset.insert_subset hdst (b.listeners_subset s)
    · exact b.listeners_subset s

/-- Let `dst` no longer listen to `src`. -/
def disconnect (b : Bridge) (src dst : ℕ) : Bridge where
  capacity := b.capacity
  occupied := b.occupied
  listeners s := if s = src then (b.listeners s).erase dst else b.listeners s
  occupied_lt := b.occupied_lt
  listeners_subset s := by
    split_ifs
    · exact (Finset.erase_subset _ _).trans (b.listeners_subset s)
    · exact b.listeners_subset s

end Bridge

/-! ## The interface -/

/-- `pjmedia_conf_port_info`, the fields the programs read. -/
structure PortInfo where
  slot : ℕ
  name : List Byte
  clockRate : ℕ
  samplesPerFrame : ℕ
  txAdjLevel : ℤ
  rxAdjLevel : ℤ
  /-- `listener_slots`, the first `listener_cnt` of them. -/
  listenerSlots : List ℕ
  deriving DecidableEq, Repr

/-- The calls of the programs on a bridge with states `σ`. A status is `true` for
`PJ_SUCCESS`. -/
structure ConfApi (σ : Type*) where
  /-- `pjmedia_conf_create` for a number of slots. -/
  create : ℕ → Option σ
  /-- `pjmedia_conf_add_port`. -/
  addPort : σ → Bool × σ
  connectPort : σ → ℤ → ℤ → Bool × σ
  disconnectPort : σ → ℤ → ℤ → Bool × σ
  adjustTxLevel : σ → ℤ → ℤ → Bool × σ
  adjustRxLevel : σ → ℤ → ℤ → Bool × σ
  /-- `pjmedia_conf_get_signal_level`, the tx and rx levels if it succeeds. -/
  getSignalLevel : σ → ℤ → Option (ℕ × ℕ) × σ
  /-- `pjmedia_conf_get_ports_info` for a number of entries. -/
  getPortsInfo : σ → ℕ → List PortInfo

/-- A call on a bridge with its arguments. -/
inductive ConfCall
  | connectPort (src dst : ℤ)
  | disconnectPort (src dst : ℤ)
  | adjustTxLevel (slot level : ℤ)
  | adjustRxLevel (slot level : ℤ)
  | getSignalLevel (slot : ℤ)
  | getPortsInfo (count : ℕ)
  deriving DecidableEq, Repr

/-- The slots a call names. -/
def ConfCall.slots : ConfCall → List ℤ
  | .connectPort src dst => [src, dst]
  | .disconnectPort src dst => [src, dst]
  | .adjustTxLevel slot _ => [slot]
  | .adjustRxLevel slot _ => [slot]
  | .getSignalLevel slot => [slot]
  | .getPortsInfo _ => []

/-- The level adjustments a call passes. -/
def ConfCall.levels : ConfCall → List ℤ
  | .adjustTxLevel _ level => [level]
  | .adjustRxLevel _ level => [level]
  | _ => []

/-- Calls in order, each with the state of the bridge it is made in. -/
abbrev Calls (σ : Type*) :=
  List (σ × ConfCall)

/-- What the programs rely on, the states seen as bridges. -/
structure ConfApi.Lawful {σ : Type*} (api : ConfApi σ) (view : σ → Bridge) : Prop where
  create : ∀ n s, api.create n = some s → ∃ hn : 0 < n, view s = Bridge.create n hn
  addPort : ∀ s i, (hi : (view s).LowestFree i) →
    (api.addPort s).1 = true ∧ view (api.addPort s).2 = (view s).occupy i hi.1
  connectPort : ∀ (s : σ) (src dst : ℕ), src ∈ (view s).occupied → (h : dst ∈ (view s).occupied) →
    (api.connectPort s src dst).1 = true ∧
      view (api.connectPort s src dst).2 = (view s).connect src dst h
  disconnectPort : ∀ (s : σ) (src dst : ℕ), src ∈ (view s).occupied → dst ∈ (view s).occupied →
    view (api.disconnectPort s src dst).2 = (view s).disconnect src dst
  adjustTxLevel : ∀ s slot level, view (api.adjustTxLevel s slot level).2 = view s
  adjustRxLevel : ∀ s slot level, view (api.adjustRxLevel s slot level).2 = view s
  getSignalLevel : ∀ s slot, view (api.getSignalLevel s slot).2 = view s
  /-- As many entries as fit, for different occupied slots, each with all the listeners. -/
  length_infos : ∀ s n, (api.getPortsInfo s n).length = min n (view s).occupied.card
  nodup_infos : ∀ s n, ((api.getPortsInfo s n).map PortInfo.slot).Nodup
  infos : ∀ s n, ∀ i ∈ api.getPortsInfo s n, i.slot ∈ (view s).occupied ∧
    i.listenerSlots.Nodup ∧ i.listenerSlots.toFinset = (view s).listeners i.slot

/-! ## The abstract bridge as an implementation -/

namespace Bridge

/-- The lowest free slot, if there is one. -/
def lowestFree (b : Bridge) : Option ℕ :=
  (List.range b.capacity).find? (· ∉ b.occupied)

/-- The entries of the occupied slots in order, with levels and formats at their defaults. -/
def portsInfo (b : Bridge) (n : ℕ) : List PortInfo :=
  ((b.occupied.sort (· ≤ ·)).take n).map fun s =>
    ⟨s, [], 44100, 882, 0, 0, (b.listeners s).sort (· ≤ ·)⟩

/-- The bridge as an implementation of its interface. Its levels are silent. -/
def api : ConfApi Bridge where
  create n := if hn : 0 < n then some (create n hn) else none
  addPort b :=
    match b.lowestFree with
    | none => (false, b)
    | some s => if hs : s < b.capacity then (true, b.occupy s hs) else (false, b)
  connectPort b src dst :=
    if h : dst.toNat ∈ b.occupied then (true, b.connect src.toNat dst.toNat h) else (false, b)
  disconnectPort b src dst := (true, b.disconnect src.toNat dst.toNat)
  adjustTxLevel b _ _ := (true, b)
  adjustRxLevel b _ _ := (true, b)
  getSignalLevel b _ := (some (0, 0), b)
  getPortsInfo := portsInfo

theorem lowestFree_eq_some {b : Bridge} {s : ℕ} (h : b.LowestFree s) : b.lowestFree = some s := by
  obtain ⟨hlt, hfree, hmin⟩ := h
  rw [lowestFree, List.find?_range_eq_some]
  exact ⟨by simpa using hfree, List.mem_range.mpr hlt, fun r hr => by simpa using hmin r hr⟩

theorem api_lawful : api.Lawful id where
  create n b h := by
    simp only [api] at h
    split_ifs at h with hn
    exact ⟨hn, (Option.some.inj h).symm⟩
  addPort b s hs := by
    have hf : b.lowestFree = some s := lowestFree_eq_some hs
    have hlt : s < b.capacity := hs.1
    simp [api, hf, hlt]
  connectPort b src dst _ h := by
    simp only [id] at h
    simp [api, h]
  disconnectPort b src dst _ _ := rfl
  adjustTxLevel _ _ _ := rfl
  adjustRxLevel _ _ _ := rfl
  getSignalLevel _ _ := rfl
  length_infos b n := by simp [api, portsInfo]
  nodup_infos b n := by
    simp only [api, portsInfo, List.map_map, Function.comp_def, List.map_id']
    exact (b.occupied.sort_nodup _).sublist (List.take_sublist _ _)
  infos b n i hi := by
    obtain ⟨s, hs, rfl⟩ := List.mem_map.mp hi
    refine ⟨(Finset.mem_sort _).mp (List.mem_of_mem_take hs), Finset.sort_nodup _ _,
      Finset.sort_toFinset _ _⟩

end Bridge

end PjmediaApps
