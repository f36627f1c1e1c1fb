import PjmediaApps.ConfConnections
import PjmediaApps.ConfList

/-!
# What the lists of `conf_to_2_sounds` show

A row of `conf_list` shows the listeners of a slot as a text of items, which `readSlots` reads
back. With at most 30 files, every list a session prints has one row for each slot, and the text
of the row names exactly the slots that the commands before the list left connected to
it (`lists_right`). The menu prints a list in every round before it asks for the selection, so
this is what its user decides on.
-/

namespace PjmediaApps

open Interactive ByteStream CString

/-! ## The lists of a session -/

/-- Every round lists the ports before it asks for the selection. -/
theorem head_actions_menuRound {α : Type*} (src : Source (List Byte) α) (portCount : ℤ) (s : α) :
    (actions ((menuRound portCount).run src s).trace).head? = some (.confList false) :=
  rfl

theorem head_actions_of_mem_trace {portCount : ℤ} {stdin : List Byte}
    {t : List (Event (List Byte) Prompt MenuAction)}
    (ht : t ∈ (menuSession portCount stdin).trace) : (actions t).head? = some (.confList false) :=
  forall_rounds (fun _ => True) (fun t => (actions t).head? = some (.confList false))
    (fun _ s _ => ⟨head_actions_menuRound _ _ s, fun _ _ => trivial⟩) _ _ _ trivial t ht

/-- What a list shows of the actions before it : one row for each slot, and in the row's text
the slots that those actions left connected. -/
structure ShowsConnections (portCount : ℕ) (rows : List ListRow) (as : List MenuAction) : Prop where
  nodup : (rows.map ListRow.slot).Nodup
  slots : ∀ i, i ∈ rows.map ListRow.slot ↔ i < portCount
  targets : ∀ r ∈ rows, ∀ dst, dst ∈ readSlots none r.targets ↔
    ∃ pre post, as = pre ++ .connectPort r.slot dst :: post ∧ .disconnectPort r.slot dst ∉ post
  /-- The text fits in `txlist`. -/
  fits : ∀ r ∈ rows, r.targets.length + 1 ≤ 4 * maxPorts

section

variable {σ : Type*} {api : ConfApi σ} {view : σ → Bridge} (law : api.Lawful view) (ub : ℤ → ℤ)
  {k : ℕ} {s₀ s : σ} (h₀ : api.create (portCount k) = some s₀)
  (hs : startUp api (List.replicate k true) = some s)

include law h₀ hs

theorem showsConnections_of_inRange (hk : k ≤ 30) {as : List MenuAction}
    (has : ∀ a ∈ as, a.InRange (portCount k)) (detail : Bool) :
    ∃ s', bridgeAfter api ub as s = some s' ∧ (confList api detail s').bridge.isSome ∧
      ShowsConnections (portCount k) (confList api detail s').rows as := by
  obtain ⟨s', hs'⟩ := Option.isSome_iff_exists.mp
    (isSome_bridgeAfter_of_le law ub (by omega) has (.start h₀ hs))
  have hreach := menuReachable_bridgeAfter law ub has (.start h₀ hs) hs'
  obtain ⟨hend, hright⟩ := listingRight_of_le law hreach hk detail
  refine ⟨s', hs', hend, hright.nodup, fun i => ?_, fun r hr dst => ?_, hright.txlist_fits⟩
  · rw [← List.mem_toFinset, hright.slots, hreach.occupied law, Finset.mem_range]
  · rw [← List.mem_toFinset, (hright.targets r hr).2,
      mem_listeners_bridgeAfter law ub h₀ hs has hs', lastConnects_iff]

/-- With at most 30 files, every list of a session comes to its end and shows the connections
that the actions before it made, and every round starts with a list. -/
theorem lists_right (hk : k ≤ 30) (stdin : List Byte) :
    (∀ t ∈ (menuSession (portCount k) stdin).trace,
      (actions t).head? = some (.confList false)) ∧
    ∀ as detail bs,
      (menuSession (portCount k) stdin).trace.flatMap actions = as ++ .confList detail :: bs →
        ∃ s', bridgeAfter api ub as s = some s' ∧ (confList api detail s').bridge.isSome ∧
          ShowsConnections (portCount k) (confList api detail s').rows as := by
  refine ⟨fun t ht => head_actions_of_mem_trace ht, fun as detail bs hsplit => ?_⟩
  exact showsConnections_of_inRange law ub h₀ hs hk (inRange_of_trace_eq_append hsplit) detail

end

/-- With one file and a text that lists the ports in detail. -/
theorem lists_right_one_file : ∃ s, startUp Bridge.api (List.replicate 1 true) = some s ∧
    (∀ t ∈ (menuSession (portCount 1) (bytes ['s', '\n'])).trace,
      (actions t).head? = some (.confList false)) ∧
    ∀ as detail bs, (menuSession (portCount 1) (bytes ['s', '\n'])).trace.flatMap actions =
      as ++ .confList detail :: bs →
        ∃ s', bridgeAfter Bridge.api (fun _ => 0) as s = some s' ∧
          (confList Bridge.api detail s').bridge.isSome ∧
            ShowsConnections (portCount 1) (confList Bridge.api detail s').rows as := by
  have h₀ : Bridge.api.create (portCount 1) = some (Bridge.create 3 (by decide)) := rfl
  obtain ⟨-, s, hs, -⟩ := startUp_spec Bridge.api_lawful h₀
  exact ⟨s, hs, lists_right Bridge.api_lawful (fun _ => 0) h₀ hs (by decide) (bytes ['s', '\n'])⟩

end PjmediaApps
