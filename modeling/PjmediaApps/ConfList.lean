import PjmediaApps.ConfStartUp
import PjmediaApps.Decimal
import PjmediaApps.PartialRun
import Mathlib.Algebra.BigOperators.Group.Finset.Basic
import Mathlib.Algebra.Order.BigOperators.Group.Finset

/-!
# The port list of `conf_to_2_sounds`

`conf_list` asks the bridge for at most 32 entries and writes the listeners of each into
a text of 128 bytes, three bytes or more for a listener. Nothing ties these numbers to
`port_count`, which is the number of files on the command line plus two, and nothing looks at
the length of the text while it grows. What the program does after the text has run over its
array is undefined, so the list breaks off there.

On a bridge of at most 32 slots the list is right in every state the menu can reach, and on
a larger one in none (`listingRight_iff`). It comes to its end on a bridge of at most 34 slots
whatever is connected, and on a larger one it breaks off in some state the menu can reach
(`txlist_fits_iff`).
-/

namespace PjmediaApps

open ByteStream CString PartialRun

/-! ## `conf_list` -/

/-- `MAX_PORTS`. -/
def maxPorts : ℕ := 32

/-- `sprintf(s, "#%d ", slot)`. -/
def txItem (slot : ℕ) : List Byte :=
  ch '#' :: (showNat slot ++ [ch ' '])

/-- The loop that appends each listener to `txlist`, which has room for `4 * MAX_PORTS` bytes.
It is `none` where an item and its NUL do not fit in the ten bytes of `s`, or the text with the
item and its NUL in `txlist`. -/
def appendItems : List ℕ → List Byte → Option (List Byte)
  | [], txlist => some txlist
  | j :: js, txlist =>
    if (txItem j).length + 1 ≤ 10 ∧ (txlist ++ txItem j).length + 1 ≤ 4 * maxPorts then
      appendItems js (txlist ++ txItem j)
    else none

/-- The text of the listeners. -/
def txlist (listenerSlots : List ℕ) : Option (List Byte) :=
  (appendItems listenerSlots []).map fun txlist => if txlist = [] then [ch '-'] else txlist

/-- What `conf_list` prints for an entry. -/
inductive ListRow
  | brief (slot : ℕ) (name txlist : List Byte)
  | detail (slot : ℕ) (name : List Byte) (clockRate samplesPerFrame frameTime : ℕ)
      (txAdjLevel rxAdjLevel : ℤ) (levels : Option (ℕ × ℕ)) (txlist : List Byte)
  deriving DecidableEq, Repr

/-- The slot of a row. -/
def ListRow.slot : ListRow → ℕ
  | .brief slot _ _ => slot
  | .detail slot _ _ _ _ _ _ _ _ => slot

/-- The targets of a row. -/
def ListRow.targets : ListRow → List Byte
  | .brief _ _ txlist => txlist
  | .detail _ _ _ _ _ _ _ _ txlist => txlist

/-- The level adjustments of a row in detail. -/
def ListRow.adjLevels : ListRow → Option (ℤ × ℤ)
  | .brief _ _ _ => none
  | .detail _ _ _ _ _ txAdjLevel rxAdjLevel _ _ => some (txAdjLevel, rxAdjLevel)

/-- What `conf_list` does. -/
structure Listing (σ : Type*) where
  /-- The rows it prints. -/
  rows : List ListRow
  calls : Calls σ
  /-- The bridge after the calls, `none` where the list breaks off. -/
  bridge : Option σ

section

variable {σ : Type*} (api : ConfApi σ)

/-- The row of an entry with the calls made for it, and the bridge after them. The text of the
listeners is written first. -/
def listRow (detail : Bool) (i : PortInfo) (s : σ) : List (ListRow × Calls σ) × Option σ :=
  match txlist i.listenerSlots with
  | none => ([], none)
  | some txlist =>
    if detail then
      let levels := api.getSignalLevel s i.slot
      ([(.detail i.slot i.name i.clockRate i.samplesPerFrame
          (i.samplesPerFrame * 1000 / i.clockRate) i.txAdjLevel i.rxAdjLevel levels.1 txlist,
        [(s, .getSignalLevel i.slot)])], some levels.2)
    else ([(.brief i.slot i.name txlist, [])], some s)

/-- `conf_list`. -/
def confList (detail : Bool) (s : σ) : Listing σ :=
  let r := runAll (listRow api detail) (api.getPortsInfo s maxPorts) s
  ⟨r.1.map Prod.fst, (s, .getPortsInfo maxPorts) :: r.1.flatMap Prod.snd, r.2⟩

/-- What the row of an entry shows, and the calls made for it. -/
theorem of_mem_listRow {detail : Bool} {i : PortInfo} {s : σ} {e : ListRow × Calls σ}
    (he : e ∈ (listRow api detail i s).1) :
    e.1.slot = i.slot ∧ txlist i.listenerSlots = some e.1.targets ∧
      e.1.adjLevels = (if detail then some (i.txAdjLevel, i.rxAdjLevel) else none) ∧
        e.2 = if detail then [(s, .getSignalLevel i.slot)] else [] := by
  unfold listRow at he
  cases ht : txlist i.listenerSlots with
  | none => simp [ht] at he
  | some t =>
    rw [ht] at he
    cases detail with
    | false =>
      obtain rfl := List.mem_singleton.mp he
      exact ⟨rfl, rfl, rfl, rfl⟩
    | true =>
      obtain rfl := List.mem_singleton.mp he
      exact ⟨rfl, rfl, rfl, rfl⟩

/-- The row of an entry leaves the bridge alone, but for the levels it reads. -/
theorem snd_listRow {detail : Bool} {i : PortInfo} {s s' : σ}
    (h : (listRow api detail i s).2 = some s') :
    s' = if detail then (api.getSignalLevel s i.slot).2 else s := by
  unfold listRow at h
  cases ht : txlist i.listenerSlots with
  | none => simp [ht] at h
  | some t =>
    rw [ht] at h
    cases detail <;> exact (Option.some.inj h).symm

theorem isSome_listRow (detail : Bool) (i : PortInfo) (s : σ) :
    (listRow api detail i s).2.isSome ↔ (txlist i.listenerSlots).isSome := by
  unfold listRow
  cases txlist i.listenerSlots with
  | none => rfl
  | some t => cases detail <;> exact Iff.rfl

/-- A list that comes to its end has a row for each entry, in order. -/
theorem map_slot_confList {detail : Bool} {s : σ} (h : (confList api detail s).bridge.isSome) :
    (confList api detail s).rows.map ListRow.slot =
      (api.getPortsInfo s maxPorts).map PortInfo.slot := by
  rw [confList, List.map_map]
  refine map_runAll (fun i t hi => ?_) h
  obtain ⟨txlist, ht⟩ := Option.isSome_iff_exists.mp ((isSome_listRow api detail i t).mp hi)
  unfold listRow
  rw [ht]
  cases detail <;> rfl

/-- Every row is that of an entry. -/
theorem exists_info_of_mem_rows {detail : Bool} {s : σ} {r : ListRow}
    (hr : r ∈ (confList api detail s).rows) : ∃ i ∈ api.getPortsInfo s maxPorts,
      r.slot = i.slot ∧ txlist i.listenerSlots = some r.targets ∧
        r.adjLevels = if detail then some (i.txAdjLevel, i.rxAdjLevel) else none := by
  obtain ⟨e, he, rfl⟩ := List.mem_map.mp hr
  refine forall_mem_runAll (· ∈ api.getPortsInfo s maxPorts) (fun _ => True)
    (fun e => ∃ i ∈ api.getPortsInfo s maxPorts, e.1.slot = i.slot ∧
      txlist i.listenerSlots = some e.1.targets ∧
        e.1.adjLevels = if detail then some (i.txAdjLevel, i.rxAdjLevel) else none)
    (fun _ _ _ _ _ _ => trivial) (fun i t hi _ e he => ?_) (fun _ hi => hi) trivial e he
  obtain ⟨hslot, htgt, hadj, -⟩ := of_mem_listRow api he
  exact ⟨i, hi, hslot, htgt, hadj⟩

end

/-! ## The states the menu reaches -/

/-- The states of the bridge reached from start-up with `k` files by the commands of the
menu, with slots in the range the menu accepts. -/
inductive MenuReachable {σ : Type*} (api : ConfApi σ) (k : ℕ) : σ → Prop
  | start {s₀ s : σ} : api.create (portCount k) = some s₀ →
      startUp api (List.replicate k true) = some s → MenuReachable api k s
  | connect {s : σ} (src dst : ℕ) : MenuReachable api k s → src < portCount k → dst < portCount k →
      MenuReachable api k (api.connectPort s src dst).2
  | disconnect {s : σ} (src dst : ℕ) : MenuReachable api k s → src < portCount k →
      dst < portCount k → MenuReachable api k (api.disconnectPort s src dst).2
  | adjustTx {s : σ} (slot level : ℤ) : MenuReachable api k s →
      MenuReachable api k (api.adjustTxLevel s slot level).2
  | adjustRx {s : σ} (slot level : ℤ) : MenuReachable api k s →
      MenuReachable api k (api.adjustRxLevel s slot level).2
  | signal {s : σ} (slot : ℤ) : MenuReachable api k s →
      MenuReachable api k (api.getSignalLevel s slot).2

section

variable {σ : Type*} {api : ConfApi σ} {view : σ → Bridge} (law : api.Lawful view) {k : ℕ}

include law

/-- The occupied slots are always those below `port_count`. -/
theorem MenuReachable.occupied {s : σ} (h : MenuReachable api k s) :
    (view s).occupied = Finset.range (portCount k) := by
  induction h with
  | start h₀ hs =>
    obtain ⟨-, s', hs', hf⟩ := startUp_spec law h₀
    rw [hs'] at hs
    exact Option.some.inj hs ▸ hf.occupied
  | connect src dst _ hsrc hdst ih =>
    have hs : src ∈ (view _).occupied := ih ▸ Finset.mem_range.mpr hsrc
    have hd : dst ∈ (view _).occupied := ih ▸ Finset.mem_range.mpr hdst
    rw [(law.connectPort _ src dst hs hd).2]
    exact ih
  | disconnect src dst _ hsrc hdst ih =>
    have hs : src ∈ (view _).occupied := ih ▸ Finset.mem_range.mpr hsrc
    have hd : dst ∈ (view _).occupied := ih ▸ Finset.mem_range.mpr hdst
    rw [law.disconnectPort _ src dst hs hd]
    exact ih
  | adjustTx slot level _ ih => rwa [law.adjustTxLevel]
  | adjustRx slot level _ ih => rwa [law.adjustRxLevel]
  | signal slot _ ih => rwa [law.getSignalLevel]

end

/-! ## The text of the listeners -/

/-- An item is two bytes and the digits of the slot. -/
theorem length_txItem (j : ℕ) : (txItem j).length = 2 + (showNat j).length := by
  simp [txItem]
  omega

/-- A slot below ten takes three bytes, and one more for each further digit. -/
theorem length_txItem_le {j k : ℕ} (hk : 0 < k) (hj : j < 10 ^ k) : (txItem j).length ≤ 2 + k := by
  rw [length_txItem]
  have := (length_showNat_le_iff hk).mpr hj
  omega

/-- The loop comes to its end exactly if the items fit in `s`, and all of them in `txlist`. -/
theorem isSome_appendItems_iff : ∀ {ls : List ℕ} {t : List Byte}, t.length + 1 ≤ 4 * maxPorts →
    ((appendItems ls t).isSome ↔ (∀ j ∈ ls, (txItem j).length + 1 ≤ 10) ∧
      t.length + (ls.map fun j => (txItem j).length).sum + 1 ≤ 4 * maxPorts)
  | [], t, ht => by simpa [appendItems] using ht
  | j :: ls, t, ht => by
    rw [appendItems, List.forall_mem_cons, List.map_cons, List.sum_cons]
    split_ifs with h
    · rw [isSome_appendItems_iff h.2, List.length_append]
      refine ⟨fun hls => ⟨⟨h.1, hls.1⟩, ?_⟩, fun hls => ⟨hls.1.2, ?_⟩⟩
      · have := hls.2
        omega
      · have := hls.2
        omega
    · refine ⟨fun hnone => by simp at hnone, fun hls => (h ⟨hls.1.1, ?_⟩).elim⟩
      rw [List.length_append]
      have := hls.2
      omega

theorem appendItems_eq_some : ∀ {ls : List ℕ} {t u : List Byte}, appendItems ls t = some u →
    u = t ++ ls.flatMap txItem
  | [], t, u, h => by
    rw [List.flatMap_nil, List.append_nil]
    exact (Option.some.inj h).symm
  | j :: ls, t, u, h => by
    rw [appendItems] at h
    split_ifs at h with hfit
    rw [appendItems_eq_some h, List.flatMap_cons, List.append_assoc]

/-- The items of the listeners fit in `s`, and together in `txlist`. -/
def RowFits (js : Finset ℕ) : Prop :=
  (∀ j ∈ js, (txItem j).length + 1 ≤ 10) ∧ ∑ j ∈ js, (txItem j).length + 1 ≤ 4 * maxPorts

/-- The text of different listeners is written exactly if it fits. -/
theorem isSome_txlist_iff {ls : List ℕ} (hnd : ls.Nodup) :
    (txlist ls).isSome ↔ RowFits ls.toFinset := by
  have h := @isSome_appendItems_iff ls [] (by decide)
  rw [txlist, Option.isSome_map, h, RowFits, List.sum_toFinset _ hnd]
  simp

/-- The text of slots below 34 always fits : the first ten take three bytes each and the
others four, 126 in all. -/
theorem rowFits_of_subset {js : Finset ℕ} (h : js ⊆ Finset.range 34) : RowFits js := by
  refine ⟨fun j hj => ?_, ?_⟩
  · have hlt := Finset.mem_range.mp (h hj)
    have := length_txItem_le (k := 2) (by decide) (show j < 10 ^ 2 by omega)
    omega
  · have hsum : ∑ j ∈ js, (txItem j).length ≤ ∑ j ∈ Finset.range 34, (txItem j).length :=
      Finset.sum_le_sum_of_subset h
    have hall : ∑ j ∈ Finset.range 34, (txItem j).length = 126 := by decide
    unfold maxPorts
    omega

/-- That of the slots below 35 does not. -/
theorem not_rowFits_of_subset {js : Finset ℕ} (h : Finset.range 35 ⊆ js) : ¬RowFits js := by
  rintro ⟨-, hfit⟩
  have hsum : ∑ j ∈ Finset.range 35, (txItem j).length ≤ ∑ j ∈ js, (txItem j).length :=
    Finset.sum_le_sum_of_subset h
  have hall : ∑ j ∈ Finset.range 35, (txItem j).length = 130 := by decide
  unfold maxPorts at hfit
  omega

/-! ## Reading a text of items -/

/-- The numbers behind the `#`s of a text, each up to the next space. The first argument is
the number being read, if one is. -/
def readSlots : Option ℕ → List Byte → List ℕ
  | _, [] => []
  | n, b :: t =>
    if b = ch '#' then readSlots (some 0) t
    else if b = ch ' ' then n.toList ++ readSlots none t
    else readSlots (n.map fun v => 10 * v + (b.toNat - 48)) t

/-- The digits of a number are added to it. -/
theorem readSlots_append_digits (t : List Byte) : ∀ (ds : List Byte) (v : ℕ),
    (∀ b ∈ ds, isDigit b) → readSlots (some v) (ds ++ t) =
      readSlots (some (ds.foldl (fun v b => 10 * v + (b.toNat - 48)) v)) t
  | [], _, _ => rfl
  | b :: ds, v, h => by
    rw [List.forall_mem_cons] at h
    have hmark : b ≠ ch '#' := by rintro rfl; exact absurd h.1 (by decide)
    have hspace : b ≠ ch ' ' := by rintro rfl; exact absurd h.1 (by decide)
    rw [List.cons_append, readSlots, if_neg hmark, if_neg hspace, Option.map_some,
      readSlots_append_digits t ds _ h.2, List.foldl_cons]

theorem readSlots_txItem_append (j : ℕ) (n : Option ℕ) (t : List Byte) :
    readSlots n (txItem j ++ t) = j :: readSlots none t := by
  have hspace : ch ' ' ≠ ch '#' := by decide
  have hv : (showNat j).foldl (fun v b => 10 * v + (b.toNat - 48)) 0 = j := value_showNat j
  rw [txItem, List.cons_append, readSlots, if_pos rfl, List.append_assoc,
    readSlots_append_digits _ _ _ fun b hb => isDigit_of_mem_showNat hb, hv, List.singleton_append,
    readSlots, if_neg hspace, if_pos rfl]
  rfl

theorem readSlots_flatMap_txItem : ∀ ls : List ℕ, readSlots none (ls.flatMap txItem) = ls
  | [] => rfl
  | j :: ls => by rw [List.flatMap_cons, readSlots_txItem_append, readSlots_flatMap_txItem ls]

/-- A text that is written stays in its array, and is read back. -/
theorem of_txlist_eq_some {ls : List ℕ} {t : List Byte} (h : txlist ls = some t) :
    readSlots none t = ls ∧ (∀ j ∈ ls, (txItem j).length + 1 ≤ 10) ∧
      t.length + 1 ≤ 4 * maxPorts := by
  obtain ⟨u, hu, rfl⟩ := Option.map_eq_some_iff.mp h
  obtain ⟨hitems, hfits⟩ := (@isSome_appendItems_iff ls [] (by decide)).mp (by rw [hu]; rfl)
  obtain rfl : u = ls.flatMap txItem := by simpa using appendItems_eq_some hu
  split_ifs with hnil
  · have hls := readSlots_flatMap_txItem ls
    rw [hnil] at hls
    subst hls
    exact ⟨by decide, hitems, by decide⟩
  · refine ⟨readSlots_flatMap_txItem ls, hitems, ?_⟩
    rw [List.length_flatMap]
    simpa using hfits

/-! ## When the list is right -/

/-- One row for every occupied slot, with a text that names each listener of the slot once and
nothing else, that fits in `txlist` and whose items fit in `s`. -/
structure ListingRight (b : Bridge) (rows : List ListRow) : Prop where
  nodup : (rows.map ListRow.slot).Nodup
  slots : (rows.map ListRow.slot).toFinset = b.occupied
  targets : ∀ r ∈ rows, (readSlots none r.targets).Nodup ∧
    (readSlots none r.targets).toFinset = b.listeners r.slot
  txlist_fits : ∀ r ∈ rows, r.targets.length + 1 ≤ 4 * maxPorts
  item_fits : ∀ r ∈ rows, ∀ j ∈ b.listeners r.slot, (txItem j).length + 1 ≤ 10

section

variable {σ : Type*} {api : ConfApi σ} {view : σ → Bridge} (law : api.Lawful view) {k : ℕ}

include law

/-- A list comes to its end exactly if the listeners of each of its entries fit. -/
theorem isSome_confList_iff {detail : Bool} {s : σ} : (confList api detail s).bridge.isSome ↔
    ∀ i ∈ api.getPortsInfo s maxPorts, RowFits ((view s).listeners i.slot) := by
  rw [confList, isSome_runAll_iff_forall (isSome_listRow api detail)]
  refine forall₂_congr fun i hi => ?_
  obtain ⟨-, hnd, hls⟩ := law.infos s maxPorts i hi
  rw [isSome_txlist_iff hnd, hls]

/-- A row is about an occupied slot and its text names the listeners of the slot. -/
theorem of_mem_rows {detail : Bool} {s : σ} {r : ListRow}
    (hr : r ∈ (confList api detail s).rows) : r.slot ∈ (view s).occupied ∧
      ((readSlots none r.targets).Nodup ∧
        (readSlots none r.targets).toFinset = (view s).listeners r.slot) ∧
      r.targets.length + 1 ≤ 4 * maxPorts ∧
      ∀ j ∈ (view s).listeners r.slot, (txItem j).length + 1 ≤ 10 := by
  obtain ⟨i, hi, hslot, htgt, -⟩ := exists_info_of_mem_rows api hr
  obtain ⟨hocc, hnd, hls⟩ := law.infos s maxPorts i hi
  obtain ⟨hread, hitems, hfits⟩ := of_txlist_eq_some htgt
  rw [hread, hslot, ← hls]
  exact ⟨hocc, ⟨hnd, rfl⟩, hfits, fun j hj => hitems j (List.mem_toFinset.mp hj)⟩

theorem nodup_rows {detail : Bool} {s : σ} (h : (confList api detail s).bridge.isSome) :
    ((confList api detail s).rows.map ListRow.slot).Nodup := by
  rw [map_slot_confList api h]
  exact law.nodup_infos s maxPorts

theorem length_rows {detail : Bool} {s : σ} (h : (confList api detail s).bridge.isSome) :
    (confList api detail s).rows.length = min maxPorts (view s).occupied.card := by
  rw [← law.length_infos s maxPorts, ← List.length_map ListRow.slot, map_slot_confList api h,
    List.length_map]

/-- With at most 32 files a list comes to its end in every reachable state. -/
theorem isSome_confList_of_le {s : σ} (h : MenuReachable api k s) (hk : k ≤ 32) (detail : Bool) :
    (confList api detail s).bridge.isSome := by
  refine (isSome_confList_iff law).mpr fun i _ => rowFits_of_subset ?_
  refine ((view s).listeners_subset _).trans ?_
  rw [h.occupied law]
  exact Finset.range_mono (by unfold portCount recorder; omega)

/-- The list has a row for every occupied slot only if there are at most 32. -/
theorem card_le_of_listingRight {s : σ} {detail : Bool}
    (hend : (confList api detail s).bridge.isSome)
    (h : ListingRight (view s) (confList api detail s).rows) :
    (view s).occupied.card ≤ maxPorts := by
  have hcard : (view s).occupied.card = (confList api detail s).rows.length := by
    rw [← h.slots, List.toFinset_card_of_nodup h.nodup, List.length_map]
  rw [length_rows law hend] at hcard
  omega

/-- On at most 32 slots the list is right in every reachable state. -/
theorem listingRight_of_le {s : σ} (h : MenuReachable api k s) (hk : k ≤ 30) (detail : Bool) :
    (confList api detail s).bridge.isSome ∧
      ListingRight (view s) (confList api detail s).rows := by
  have hend := isSome_confList_of_le law h (by omega : k ≤ 32) detail
  have hnd := nodup_rows law hend
  refine ⟨hend, hnd, Finset.eq_of_subset_of_card_le ?_ ?_, fun r hr => (of_mem_rows law hr).2.1,
    fun r hr => (of_mem_rows law hr).2.2.1, fun r hr => (of_mem_rows law hr).2.2.2⟩
  · intro i hi
    obtain ⟨r, hr, rfl⟩ := List.mem_map.mp (List.mem_toFinset.mp hi)
    exact (of_mem_rows law hr).1
  · rw [List.toFinset_card_of_nodup hnd, List.length_map, length_rows law hend, h.occupied law,
      Finset.card_range]
    unfold portCount recorder maxPorts
    omega

/-- With `k` files the list is right in a state the menu reaches exactly if the bridge has at
most 32 slots. -/
theorem listingRight_iff {s : σ} (h : MenuReachable api k s) :
    (∀ detail, (confList api detail s).bridge.isSome ∧
      ListingRight (view s) (confList api detail s).rows) ↔ k ≤ 30 := by
  refine ⟨fun hall => ?_, fun hk detail => listingRight_of_le law h hk detail⟩
  have hcard := card_le_of_listingRight law (hall false).1 (hall false).2
  rw [h.occupied law, Finset.card_range] at hcard
  unfold portCount recorder maxPorts at hcard
  omega

/-- The menu can connect any of the slots it accepts. -/
theorem exists_connected {s : σ} (h : MenuReachable api k s) : ∀ ps : List (ℕ × ℕ),
    (∀ p ∈ ps, p.1 < portCount k ∧ p.2 < portCount k) →
      ∃ s', MenuReachable api k s' ∧ ∀ p ∈ ps, p.2 ∈ (view s').listeners p.1
  | [], _ => ⟨s, h, by simp⟩
  | (src, dst) :: ps, hps => by
    obtain ⟨hsrc, hdst⟩ := hps (src, dst) (by simp)
    obtain ⟨s', h', hps'⟩ := exists_connected h ps fun p hp => hps p (by simp [hp])
    have hs : src ∈ (view s').occupied := h'.occupied law ▸ Finset.mem_range.mpr hsrc
    have hd : dst ∈ (view s').occupied := h'.occupied law ▸ Finset.mem_range.mpr hdst
    refine ⟨_, h'.connect src dst hsrc hdst, fun p hp => ?_⟩
    rw [(law.connectPort s' src dst hs hd).2]
    simp only [Bridge.connect]
    rcases List.mem_cons.mp hp with rfl | hp
    · simp
    · split_ifs
      · exact Finset.mem_insert_of_mem (hps' p hp)
      · exact hps' p hp

/-- The list comes to its end in every state the menu reaches exactly if the bridge has at most
34 slots. -/
theorem txlist_fits_iff {s₀ : σ} (h₀ : api.create (portCount k) = some s₀) :
    (∀ s, MenuReachable api k s → ∀ detail, (confList api detail s).bridge.isSome) ↔ k ≤ 32 := by
  refine ⟨fun hfit => ?_, fun hk s h detail => isSome_confList_of_le law h hk detail⟩
  by_contra hk
  have h35 : 35 ≤ portCount k := by
    unfold portCount recorder
    omega
  obtain ⟨-, s₁, hs₁, -⟩ := startUp_spec law h₀
  -- connect every slot to the first 35
  obtain ⟨s, h, hall⟩ := exists_connected law (.start h₀ hs₁)
    ((List.range (portCount k)).product (List.range 35)) fun p hp => by
      obtain ⟨hi, hj⟩ := List.mem_product.mp hp
      have := List.mem_range.mp hi
      have := List.mem_range.mp hj
      omega
  have hocc := h.occupied law
  -- some slot is listed
  have hlen : 0 < (api.getPortsInfo s maxPorts).length := by
    rw [law.length_infos, hocc, Finset.card_range]
    exact lt_min (by decide) (by omega)
  obtain ⟨i, hi⟩ := List.exists_mem_of_length_pos hlen
  have hslot := (law.infos s maxPorts i hi).1
  rw [hocc, Finset.mem_range] at hslot
  refine not_rowFits_of_subset (fun j hj => ?_) ((isSome_confList_iff law).mp (hfit s h false) i hi)
  exact hall (i.slot, j) (List.pair_mem_product.mpr
    ⟨List.mem_range.mpr hslot, List.mem_range.mpr (Finset.mem_range.mp hj)⟩)

end

/-- The bridge after start-up with `k` files is reachable. -/
theorem exists_menuReachable (k : ℕ) : ∃ b, MenuReachable Bridge.api k b := by
  have h₀ : Bridge.api.create (portCount k) =
      some (Bridge.create (portCount k) (by unfold portCount; omega)) := by
    have hpos : 0 < portCount k := by
      unfold portCount
      omega
    simp [Bridge.api, hpos]
  obtain ⟨-, b, hb, -⟩ := startUp_spec Bridge.api_lawful h₀
  exact ⟨b, .start h₀ hb⟩

/-- With one file the list is right after start-up. -/
theorem listingRight_one_file : ∃ b, MenuReachable Bridge.api 1 b ∧
    ∀ detail, (confList Bridge.api detail b).bridge.isSome ∧
      ListingRight b (confList Bridge.api detail b).rows := by
  obtain ⟨b, hb⟩ := exists_menuReachable 1
  exact ⟨b, hb, (listingRight_iff Bridge.api_lawful hb).mpr (by decide)⟩

/-- With 31 files the list comes to its end and leaves a slot out. -/
theorem not_listingRight_31_files : ∃ b, MenuReachable Bridge.api 31 b ∧
    (confList Bridge.api false b).bridge.isSome ∧
      ¬ListingRight b (confList Bridge.api false b).rows := by
  obtain ⟨b, hb⟩ := exists_menuReachable 31
  have hend := isSome_confList_of_le Bridge.api_lawful hb (by decide : 31 ≤ 32) false
  refine ⟨b, hb, hend, fun h => ?_⟩
  have hcard : (id b).occupied.card ≤ maxPorts := card_le_of_listingRight Bridge.api_lawful hend h
  have hocc : b.occupied = Finset.range (portCount 31) := hb.occupied Bridge.api_lawful
  rw [id, hocc, Finset.card_range] at hcard
  exact absurd hcard (by decide)

end PjmediaApps
