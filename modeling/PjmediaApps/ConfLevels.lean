import PjmediaApps.ConfShown

/-!
# The level adjustments of a session of `conf_to_2_sounds`

A slot has a level adjustment in each direction, 0 until the menu sets it. The bridge keeps
them, and `conf_list` reads them back for a list in detail. With at most 30 files every such list
shows for each slot what the last adjustments before it set (`levels_right`), whatever is
connected, metered or listed in between.

With the commands that can be typed the menu reaches every table of adjustments of at least
−128 for slots whose numbers fit in an answer, and no other (`exists_levels_iff`).
-/

namespace PjmediaApps

open Interactive ByteStream CString PartialRun WriteLog

/-! ## Adjustments -/

/-- The two directions of a slot. -/
inductive LevelDir
  | tx
  | rx
  deriving DecidableEq, Repr

/-- The action that adjusts the level of a slot in a direction. -/
def adjustLevel : LevelDir → ℤ → ℤ → MenuAction
  | .tx => .adjustTxLevel
  | .rx => .adjustRxLevel

/-- What an action sets the level of a direction and slot to. -/
def levelSet : MenuAction → LevelDir × ℕ → Option ℤ
  | .adjustTxLevel slot level, p => if slot = p.2 ∧ p.1 = .tx then some level else none
  | .adjustRxLevel slot level, p => if slot = p.2 ∧ p.1 = .rx then some level else none
  | _, _ => none

theorem levelSet_eq_some_iff {a : MenuAction} {dir : LevelDir} {slot : ℕ} {v : ℤ} :
    levelSet a (dir, slot) = some v ↔ a = adjustLevel dir slot v := by
  cases a <;> cases dir <;> simp [levelSet, adjustLevel]

theorem levelSet_eq_none_iff {a : MenuAction} {dir : LevelDir} {slot : ℕ} :
    levelSet a (dir, slot) = none ↔ ∀ v, a ≠ adjustLevel dir slot v := by
  simp only [Option.eq_none_iff_forall_ne_some, ne_eq, levelSet_eq_some_iff]

theorem levelSet_adjustLevel (dir : LevelDir) (slot : ℕ) (v : ℤ) (p : LevelDir × ℕ) :
    levelSet (adjustLevel dir slot v) p = if (dir, slot) = p then some v else none := by
  obtain ⟨dir', slot'⟩ := p
  cases dir <;> cases dir' <;> simp [levelSet, adjustLevel]

/-- Only commands set a level. -/
theorem isCommand_of_levelSet {a : MenuAction} {p : LevelDir × ℕ} {v : ℤ}
    (h : levelSet a p = some v) : a.isCommand := by
  rw [levelSet_eq_some_iff] at h
  rw [h]
  cases p.1 <;> rfl

theorem typable_adjustLevel {portCount : ℤ} {dir : LevelDir} {slot level : ℤ} :
    (adjustLevel dir slot level).Typable portCount ↔
      (FitsAnswer slot ∧ 0 ≤ slot ∧ slot < portCount) ∧ FitsAnswer level ∧ -128 ≤ level := by
  cases dir <;> rfl

/-- `v` is the last level the actions set for a direction of a slot, and 0 if they set none. -/
def LastLevel (as : List MenuAction) (dir : LevelDir) (slot : ℕ) (v : ℤ) : Prop :=
  (∃ pre post, as = pre ++ adjustLevel dir slot v :: post ∧
    ∀ w, adjustLevel dir slot w ∉ post) ∨
  v = 0 ∧ ∀ w, adjustLevel dir slot w ∉ as

theorem lastLevel_lastWrite (as : List MenuAction) (dir : LevelDir) (slot : ℕ) :
    LastLevel as dir slot ((lastWrite levelSet as (dir, slot)).getD 0) := by
  cases h : lastWrite levelSet as (dir, slot) with
  | none =>
    refine Or.inr ⟨rfl, fun w hw => ?_⟩
    exact levelSet_eq_none_iff.mp (lastWrite_eq_none_iff.mp h _ hw) w rfl
  | some v =>
    obtain ⟨pre, a, post, rfl, ha, hpost⟩ := lastWrite_eq_some_iff.mp h
    obtain rfl := levelSet_eq_some_iff.mp ha
    refine Or.inl ⟨pre, post, rfl, fun w hw => ?_⟩
    exact levelSet_eq_none_iff.mp (hpost _ hw) w rfl

/-! ## The bridge -/

/-- What the program relies on for the levels : 0 on a new bridge, set by the adjustment of an
occupied slot to at least −128, kept by all else, and shown in the entries of the ports. -/
structure ConfApi.KeepsLevels {σ : Type*} (api : ConfApi σ) (view : σ → Bridge)
    (levels : σ → LevelDir × ℕ → ℤ) : Prop where
  create : ∀ n s, api.create n = some s → ∀ p, levels s p = 0
  addPort : ∀ s, levels (api.addPort s).2 = levels s
  connectPort : ∀ s src dst, levels (api.connectPort s src dst).2 = levels s
  disconnectPort : ∀ s src dst, levels (api.disconnectPort s src dst).2 = levels s
  getSignalLevel : ∀ s slot, levels (api.getSignalLevel s slot).2 = levels s
  adjustTxLevel : ∀ (s : σ) (slot : ℕ) level, slot ∈ (view s).occupied → -128 ≤ level →
    levels (api.adjustTxLevel s slot level).2 = Function.update (levels s) (.tx, slot) level
  adjustRxLevel : ∀ (s : σ) (slot : ℕ) level, slot ∈ (view s).occupied → -128 ≤ level →
    levels (api.adjustRxLevel s slot level).2 = Function.update (levels s) (.rx, slot) level
  infos : ∀ s n, ∀ i ∈ api.getPortsInfo s n,
    i.txAdjLevel = levels s (.tx, i.slot) ∧ i.rxAdjLevel = levels s (.rx, i.slot)

section

variable {σ : Type*} {api : ConfApi σ} {view : σ → Bridge} (law : api.Lawful view) (ub : ℤ → ℤ)
  {levels : σ → LevelDir × ℕ → ℤ} (keeps : api.KeepsLevels view levels) {k : ℕ}

include keeps

theorem levels_addFiles : ∀ (files : List Bool) {s s' : σ}, addFiles api files s = some s' →
    levels s' = levels s
  | [], _, _, h => by rw [Option.some.inj h]
  | false :: _, _, _, h => by simp [addFiles] at h
  | true :: files, s, s', h => by
    rw [addFiles] at h
    split at h
    · next s₁ heq =>
      have hadd := keeps.addPort s
      rw [heq] at hadd
      rw [levels_addFiles files h, hadd]
    · simp at h

/-- After start-up no level is adjusted. -/
theorem levels_startUp {files : List Bool} {s : σ} (hs : startUp api files = some s)
    (p : LevelDir × ℕ) : levels s p = 0 := by
  unfold startUp at hs
  split at hs
  · simp at hs
  · next s₀ h₀ =>
    rw [levels_addFiles keeps files hs, keeps.addPort]
    exact keeps.create _ s₀ h₀ p

include law

/-- Each action in range keeps the bridge reachable, and sets the level it is about. -/
theorem applies_levels : Applies (fun s a => (perform api ub a s).2) (MenuReachable api k)
    (MenuAction.InRange (portCount k)) levels levelSet where
  inv s a s' hs ha hs' := (perform_right law ub ha hs).2 s' hs'
  get_step s a s' hs ha hs' p := by
    have hadjust : ∀ {slot : ℤ}, 0 ≤ slot ∧ slot < portCount k → ∃ n : ℕ, slot = n ∧
        n ∈ (view s).occupied := by
      rintro slot hslot
      obtain ⟨n, hn, rfl⟩ := (exists_occupied law hs).mp hslot
      exact ⟨n, rfl, hn⟩
    have hset : ∀ (dir : LevelDir) {n : ℕ} {level : ℤ},
        levels s' = Function.update (levels s) (dir, n) level →
          levels s' p = (levelSet (adjustLevel dir n level) p).getD (levels s p) := by
      intro dir n level h
      rw [levelSet_adjustLevel, h, Function.update_apply]
      by_cases hp : p = (dir, n)
      · rw [if_pos hp, if_pos hp.symm, Option.getD_some]
      · rw [if_neg hp, if_neg (Ne.symm hp), Option.getD_none]
    cases a with
    | puts m =>
      obtain rfl := Option.some.inj hs'
      rfl
    | confList detail => exact congrFun (keeps_confList api keeps.getSignalLevel hs') p
    | connectPort src dst =>
      obtain rfl := Option.some.inj hs'
      exact congrFun (keeps.connectPort s src dst) p
    | disconnectPort src dst =>
      obtain rfl := Option.some.inj hs'
      exact congrFun (keeps.disconnectPort s src dst) p
    | adjustTxLevel slot level =>
      obtain ⟨n, rfl, hn⟩ := hadjust ha.1
      obtain rfl := Option.some.inj hs'
      exact hset .tx (keeps.adjustTxLevel s n level hn ha.2)
    | adjustRxLevel slot level =>
      obtain ⟨n, rfl, hn⟩ := hadjust ha.1
      obtain rfl := Option.some.inj hs'
      exact hset .rx (keeps.adjustRxLevel s n level hn ha.2)
    | monitorLevel slot dir dur =>
      obtain rfl := Option.some.inj hs'
      exact congrFun (keeps_pollLoop api keeps.getSignalLevel slot dir _ 0 0 s) p

variable {s₀ s : σ} (h₀ : api.create (portCount k) = some s₀)
  (hs : startUp api (List.replicate k true) = some s)

include h₀ hs

/-- After actions in range the bridge has the last level set for each direction of a slot. -/
theorem levels_bridgeAfter {as : List MenuAction} (has : ∀ a ∈ as, a.InRange (portCount k))
    {s' : σ} (hs' : bridgeAfter api ub as s = some s') (p : LevelDir × ℕ) :
    levels s' p = (lastWrite levelSet as p).getD 0 := by
  rw [bridgeAfter, performAll, snd_runAll] at hs'
  have h := (applies_levels law ub keeps).get_foldlM as (.start h₀ hs) has hs' p
  rwa [levels_startUp keeps hs] at h

/-- What a list in detail shows of the actions before it : one row for each slot, and in the row
the levels that those actions set last. -/
structure ShowsLevels (portCount : ℕ) (rows : List ListRow) (as : List MenuAction) : Prop where
  nodup : (rows.map ListRow.slot).Nodup
  slots : ∀ i, i ∈ rows.map ListRow.slot ↔ i < portCount
  levels : ∀ r ∈ rows, ∃ tx rx, r.adjLevels = some (tx, rx) ∧
    LastLevel as .tx r.slot tx ∧ LastLevel as .rx r.slot rx

/-- With at most 30 files, every list in detail of a session comes to its end and shows for each
slot the levels that the actions before it set last. -/
theorem levels_right (hk : k ≤ 30) (stdin : List Byte) : ∀ as bs,
    (menuSession (portCount k) stdin).trace.flatMap actions = as ++ .confList true :: bs →
      ∃ s', bridgeAfter api ub as s = some s' ∧ (confList api true s').bridge.isSome ∧
        ShowsLevels (portCount k) (confList api true s').rows as := by
  intro as bs hsplit
  have has : ∀ a ∈ as, a.InRange (portCount k) := inRange_of_trace_eq_append hsplit
  obtain ⟨s', hs', hend, hshows⟩ := showsConnections_of_inRange law ub h₀ hs hk has true
  refine ⟨s', hs', hend, hshows.nodup, hshows.slots, fun r hr => ?_⟩
  obtain ⟨i, hi, hslot, -, hadj⟩ := exists_info_of_mem_rows api hr
  obtain ⟨htx, hrx⟩ := keeps.infos _ _ i hi
  refine ⟨_, _, hadj, ?_, ?_⟩
  · rw [htx, levels_bridgeAfter law ub keeps h₀ hs has hs', hslot]
    exact lastLevel_lastWrite as .tx i.slot
  · rw [hrx, levels_bridgeAfter law ub keeps h₀ hs has hs', hslot]
    exact lastLevel_lastWrite as .rx i.slot

/-- The tables of levels that a session can leave are those with levels of at least −128 that
fit in an answer, for slots below `port_count` whose numbers fit in an answer, and 0 for all
others. -/
theorem exists_levels_iff (R : LevelDir × ℕ → ℤ) :
    (∃ stdin s', sessionBridge api ub k stdin s = some s' ∧ levels s' = R) ↔
      ∀ p, R p ≠ 0 → (p.2 < portCount k ∧ p.2 < 10 ^ 9) ∧ -128 ≤ R p ∧ R p < 10 ^ 9 := by
  have hleft : ∀ {stdin s'}, sessionBridge api ub k stdin s = some s' → ∀ p, levels s' p =
      (lastWrite levelSet ((menuSession (portCount k) stdin).trace.flatMap actions) p).getD 0 :=
    fun h => levels_bridgeAfter law ub keeps h₀ hs (fun a ha => inRange_of_mem_actions ha) h
  have hcommand : ∀ a (p : LevelDir × ℕ) v, levelSet a p = some v → a.isCommand :=
    fun _ _ _ => isCommand_of_levelSet
  refine ⟨?_, fun hR => ?_⟩
  · rintro ⟨stdin, s', hs', rfl⟩ p hp
    rw [hleft hs'] at hp ⊢
    cases hv : lastWrite levelSet ((menuSession (portCount k) stdin).trace.flatMap actions) p with
    | none => exact (hp (by rw [hv, Option.getD_none])).elim
    | some v =>
      obtain ⟨c, hc, hset⟩ := exists_typable_of_lastWrite hcommand hv
      obtain rfl := levelSet_eq_some_iff.mp hset
      obtain ⟨⟨hfs, -, hslot⟩, hfl, hlevel⟩ := typable_adjustLevel.mp hc
      rw [Option.getD_some]
      unfold FitsAnswer at hfs hfl
      omega
  · -- type an adjustment for every direction and slot whose level is not 0
    obtain ⟨n, hn⟩ : ∃ n, n = min (portCount k) (10 ^ 9) := ⟨_, rfl⟩
    let ps := ([LevelDir.tx, .rx].product (List.range n)).filter fun p => R p ≠ 0
    have hps : ∀ p, p ∈ ps ↔ R p ≠ 0 := by
      rintro ⟨dir, slot⟩
      have hdir : dir ∈ [LevelDir.tx, .rx] := by cases dir <;> simp
      simp only [ps, List.mem_filter, List.pair_mem_product, List.mem_range, hdir, true_and,
        decide_eq_true_eq, and_iff_right_iff_imp]
      intro hp
      have : slot < portCount k ∧ slot < 10 ^ 9 := (hR _ hp).1
      omega
    have htyp : ∀ p ∈ ps, (adjustLevel p.1 p.2 (R p)).Typable (portCount k) := by
      intro p hp
      have := hR p ((hps p).mp hp)
      rw [typable_adjustLevel]
      unfold FitsAnswer
      omega
    have hset : ∀ p q : LevelDir × ℕ, levelSet (adjustLevel p.1 p.2 (R p)) q =
        if p = q then some (R q) else none := by
      intro p q
      rw [levelSet_adjustLevel]
      by_cases hq : p = q
      · rw [if_pos hq, if_pos hq, hq]
      · rw [if_neg hq, if_neg hq]
    obtain ⟨stdin, hcom, h⟩ := exists_session_lastWrite hcommand hset htyp
    -- the session connects nothing, so all its lists come to their ends
    have hend : (sessionBridge api ub k stdin s).isSome := by
      refine isSome_sessionBridge_of_no_connect law ub h₀ hs fun src dst hmem => ?_
      rw [hcom] at hmem
      obtain ⟨⟨dir, slot⟩, -, hconnect⟩ := List.mem_map.mp hmem
      cases dir <;> cases hconnect
    obtain ⟨s', hs'⟩ := Option.isSome_iff_exists.mp hend
    refine ⟨stdin, s', hs', ?_⟩
    ext p
    rw [hleft hs', h]
    by_cases hp : R p = 0
    · rw [if_neg fun h => (hps p).mp h hp, Option.getD_none, hp]
    · rw [if_pos ((hps p).mpr hp), Option.getD_some]

end

/-! ## A bridge with levels -/

/-- The abstract bridge with a table of levels. -/
def Bridge.levelsApi : ConfApi (Bridge × (LevelDir × ℕ → ℤ)) where
  create n := (api.create n).map fun b => (b, fun _ => 0)
  addPort s := ((api.addPort s.1).1, (api.addPort s.1).2, s.2)
  connectPort s src dst := ((api.connectPort s.1 src dst).1, (api.connectPort s.1 src dst).2, s.2)
  disconnectPort s src dst :=
    ((api.disconnectPort s.1 src dst).1, (api.disconnectPort s.1 src dst).2, s.2)
  adjustTxLevel s slot level :=
    if -128 ≤ level then (true, s.1, Function.update s.2 (.tx, slot.toNat) level) else (false, s)
  adjustRxLevel s slot level :=
    if -128 ≤ level then (true, s.1, Function.update s.2 (.rx, slot.toNat) level) else (false, s)
  getSignalLevel s _ := (some (0, 0), s)
  getPortsInfo s n := (s.1.portsInfo n).map fun i =>
    { i with txAdjLevel := s.2 (.tx, i.slot), rxAdjLevel := s.2 (.rx, i.slot) }

theorem Bridge.levelsApi_lawful : levelsApi.Lawful Prod.fst where
  create n s h := by
    obtain ⟨b, hb, rfl⟩ := Option.map_eq_some_iff.mp h
    exact api_lawful.create n b hb
  addPort s := api_lawful.addPort s.1
  connectPort s := api_lawful.connectPort s.1
  disconnectPort s := api_lawful.disconnectPort s.1
  adjustTxLevel s slot level := by
    unfold levelsApi
    dsimp only
    split_ifs <;> rfl
  adjustRxLevel s slot level := by
    unfold levelsApi
    dsimp only
    split_ifs <;> rfl
  getSignalLevel _ _ := rfl
  length_infos s n := by
    rw [levelsApi, List.length_map]
    exact api_lawful.length_infos s.1 n
  nodup_infos s n := by
    rw [levelsApi, List.map_map]
    exact api_lawful.nodup_infos s.1 n
  infos s n i hi := by
    obtain ⟨j, hj, rfl⟩ := List.mem_map.mp hi
    exact api_lawful.infos s.1 n j hj

theorem Bridge.levelsApi_keepsLevels : levelsApi.KeepsLevels Prod.fst Prod.snd where
  create n s h p := by
    obtain ⟨b, -, rfl⟩ := Option.map_eq_some_iff.mp h
    rfl
  addPort _ := rfl
  connectPort _ _ _ := rfl
  disconnectPort _ _ _ := rfl
  getSignalLevel _ _ := rfl
  adjustTxLevel s slot level _ hlevel := by
    simp only [levelsApi]
    rw [if_pos hlevel, Int.toNat_natCast]
  adjustRxLevel s slot level _ hlevel := by
    simp only [levelsApi]
    rw [if_pos hlevel, Int.toNat_natCast]
  infos s n i hi := by
    obtain ⟨j, hj, rfl⟩ := List.mem_map.mp hi
    exact ⟨rfl, rfl⟩

/-- With one file and a session that adjusts the recorder and lists the ports in detail. -/
theorem levels_right_one_file : ∃ s, startUp Bridge.levelsApi (List.replicate 1 true) = some s ∧
    ∀ as bs, (menuSession (portCount 1)
      (bytes ['t', '\n', '1', '\n', '5', '\n', 's', '\n'])).trace.flatMap actions =
        as ++ .confList true :: bs →
      ∃ s', bridgeAfter Bridge.levelsApi (fun _ => 0) as s = some s' ∧
        (confList Bridge.levelsApi true s').bridge.isSome ∧
          ShowsLevels (portCount 1) (confList Bridge.levelsApi true s').rows as := by
  have h₀ : Bridge.levelsApi.create (portCount 1) =
      some (Bridge.create 3 (by decide), fun _ => 0) := rfl
  obtain ⟨-, s, hs, -⟩ := startUp_spec Bridge.levelsApi_lawful h₀
  exact ⟨s, hs, levels_right Bridge.levelsApi_lawful (fun _ => 0) Bridge.levelsApi_keepsLevels h₀ hs
    (by decide) _⟩

/-- With one file the level to every slot can be set to its number. -/
theorem exists_levels_iff_one_file : ∃ s stdin s',
    startUp Bridge.levelsApi (List.replicate 1 true) = some s ∧
      sessionBridge Bridge.levelsApi (fun _ => 0) 1 stdin s = some s' ∧
      s'.2 = fun p => if p.2 < 3 then (p.2 : ℤ) else 0 := by
  have h₀ : Bridge.levelsApi.create (portCount 1) =
      some (Bridge.create 3 (by decide), fun _ => 0) := rfl
  obtain ⟨-, s, hs, -⟩ := startUp_spec Bridge.levelsApi_lawful h₀
  obtain ⟨stdin, s', hs', h⟩ := (exists_levels_iff Bridge.levelsApi_lawful (fun _ => 0)
    Bridge.levelsApi_keepsLevels h₀ hs fun p => if p.2 < 3 then (p.2 : ℤ) else 0).mpr
    fun p hp => by
      unfold portCount recorder
      split_ifs at hp ⊢ with hlt
      · omega
      · exact (hp rfl).elim
  exact ⟨s, stdin, s', hs, hs', h⟩

end PjmediaApps
