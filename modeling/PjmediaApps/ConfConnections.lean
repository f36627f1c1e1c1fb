import PjmediaApps.ConfScript
import PjmediaApps.WriteLog

/-!
# The connections a session of `conf_to_2_sounds` makes

The bridge keeps the connections, and the program only passes its commands on. After any part
of a session that does not break off two slots are connected exactly if the last command about
them connects them (`mem_listeners_bridgeAfter`, `connections_of_rounds`). Meters, level
adjustments and lists change nothing in that, and neither do the rounds that perform no command.

With the commands that can be typed, and few enough slots for every list to come to its end, the
menu reaches every set of connections between the slots (`exists_connections_iff`).
-/

namespace PjmediaApps

open Interactive ByteStream CString PartialRun WriteLog

/-! ## Commands about two slots -/

/-- What an action makes of the connection between two slots. -/
def connection (a : MenuAction) (p : ℕ × ℕ) : Option Bool :=
  if a = .connectPort p.1 p.2 then some true
  else if a = .disconnectPort p.1 p.2 then some false
  else none

theorem connection_eq_none {a : MenuAction} {p : ℕ × ℕ} : connection a p = none ↔
    a ≠ .connectPort p.1 p.2 ∧ a ≠ .disconnectPort p.1 p.2 := by
  unfold connection
  split_ifs <;> simp_all

theorem connection_eq_some_true {a : MenuAction} {p : ℕ × ℕ} :
    connection a p = some true ↔ a = .connectPort p.1 p.2 := by
  unfold connection
  split_ifs <;> simp_all

theorem connection_connectPort (i j src dst : ℕ) :
    connection (.connectPort i j) (src, dst) = if i = src ∧ j = dst then some true else none := by
  simp [connection]

theorem connection_disconnectPort (i j src dst : ℕ) :
    connection (.disconnectPort i j) (src, dst) =
      if i = src ∧ j = dst then some false else none := by
  simp [connection]

/-- Only commands connect or disconnect. -/
theorem isCommand_of_connection {a : MenuAction} {p : ℕ × ℕ} {v : Bool}
    (h : connection a p = some v) : a.isCommand := by
  unfold connection at h
  split_ifs at h with hc hd
  · rw [hc]
    rfl
  · rw [hd]
    rfl

/-- Of the actions that connect or disconnect the two slots, the last one connects them. -/
def LastConnects (as : List MenuAction) (src dst : ℕ) : Prop :=
  lastWrite connection as (src, dst) = some true

/-- Only the commands of a trace count. -/
theorem lastConnects_commands (ts : List (List (Event (List Byte) Prompt MenuAction)))
    (src dst : ℕ) :
    LastConnects (commands ts) src dst ↔ LastConnects (ts.flatMap actions) src dst := by
  rw [LastConnects, LastConnects, commands,
    lastWrite_filter (fun _ _ h => isCommand_of_connection h)]

/-- The slots are connected, and not disconnected after that. -/
theorem lastConnects_iff {as : List MenuAction} {src dst : ℕ} : LastConnects as src dst ↔
    ∃ pre post, as = pre ++ .connectPort src dst :: post ∧ .disconnectPort src dst ∉ post := by
  refine ⟨fun h => ?_, ?_⟩
  · obtain ⟨pre, e, post, has, he, hpost⟩ := lastWrite_eq_some_iff.mp h
    obtain rfl := connection_eq_some_true.mp he
    refine ⟨pre, post, has, fun hmem => ?_⟩
    exact (connection_eq_none.mp (hpost _ hmem)).2 rfl
  · rintro ⟨pre, post, rfl, hpost⟩
    have hlast : lastWrite connection post (src, dst) = none ∨
        lastWrite connection post (src, dst) = some true := by
      cases hl : lastWrite connection post (src, dst) with
      | none => exact Or.inl rfl
      | some v =>
        obtain ⟨e, he, hv⟩ := exists_mem_of_lastWrite hl
        unfold connection at hv
        split_ifs at hv with hc hd
        · exact Or.inr hv.symm
        · exact (hpost (hd ▸ he)).elim
    rw [LastConnects, lastWrite_append, lastWrite]
    rcases hlast with hl | hl
    · rw [hl]
      simp [connection]
    · rw [hl]
      rfl

/-! ## The bridge after actions -/

theorem Bridge.mem_listeners_connect {b : Bridge} {i j src dst : ℕ} {hj : j ∈ b.occupied} :
    dst ∈ (b.connect i j hj).listeners src ↔ i = src ∧ j = dst ∨ dst ∈ b.listeners src := by
  unfold Bridge.connect
  dsimp only
  by_cases hsrc : src = i
  · simp [hsrc, eq_comm]
  · simp [hsrc, Ne.symm hsrc]

theorem Bridge.mem_listeners_disconnect {b : Bridge} {i j src dst : ℕ} :
    dst ∈ (b.disconnect i j).listeners src ↔ ¬(i = src ∧ j = dst) ∧ dst ∈ b.listeners src := by
  unfold Bridge.disconnect
  dsimp only
  by_cases hsrc : src = i
  · simp [hsrc, eq_comm]
  · simp [hsrc, Ne.symm hsrc]

section

variable {σ V : Type*} (api : ConfApi σ) {f : σ → V}
  (hf : ∀ s slot, f (api.getSignalLevel s slot).2 = f s)

include hf

/-- A list of the ports changes nothing that the reading of a level does not change. -/
theorem keeps_confList {detail : Bool} {s s' : σ} (h : (confList api detail s).bridge = some s') :
    f s' = f s := by
  have hrow : ∀ i t t', True → f t = f s → (listRow api detail i t).2 = some t' → f t' = f s := by
    intro i t t' _ ht ht'
    rw [snd_listRow api ht']
    cases detail
    · exact ht
    · exact (hf t i.slot).trans ht
  exact inv_runAll (fun _ => True) (fun t => f t = f s) hrow (fun _ _ => trivial) rfl h

/-- Nor does the meter. -/
theorem keeps_pollLoop (slot : ℤ) (dir : Byte) : ∀ (n level cnt : ℕ) (s : σ),
    f (pollLoop api slot dir n level cnt s).2.2 = f s
  | 0, _, _, _ => rfl
  | n + 1, level, cnt, s => by
    have hpoll := hf s slot
    unfold pollLoop
    split
    · next s' heq => rwa [heq] at hpoll
    · next tx rx s' heq =>
      rw [heq] at hpoll
      dsimp only
      split_ifs
      all_goals
        rw [keeps_pollLoop slot dir n]
        exact hpoll

end

section

variable {σ : Type*} {api : ConfApi σ} {view : σ → Bridge} (law : api.Lawful view) (ub : ℤ → ℤ)
  {k : ℕ}

include law

/-- Each action in range keeps the bridge reachable, and changes no connection but the one it
is about. -/
theorem applies_perform : Applies (fun s a => (perform api ub a s).2) (MenuReachable api k)
    (MenuAction.InRange (portCount k)) (fun s p => decide (p.2 ∈ (view s).listeners p.1))
    connection where
  inv s a s' hs ha hs' := (perform_right law ub ha hs).2 s' hs'
  get_step s a s' hs ha hs' p := by
    obtain ⟨src, dst⟩ := p
    have hkeep : view s' = view s → (∀ i j, a ≠ .connectPort i j) →
        (∀ i j, a ≠ .disconnectPort i j) → decide (dst ∈ (view s').listeners src) =
          (connection a (src, dst)).getD (decide (dst ∈ (view s).listeners src)) := by
      intro hview hc hd
      rw [hview, connection_eq_none.mpr ⟨hc _ _, hd _ _⟩, Option.getD_none]
    cases a with
    | puts m =>
      obtain rfl := Option.some.inj hs'
      exact hkeep rfl (by simp) (by simp)
    | confList detail =>
      exact hkeep (keeps_confList api law.getSignalLevel hs') (by simp) (by simp)
    | connectPort i j =>
      obtain ⟨⟨hi0, hi⟩, hj0, hj⟩ := ha
      lift i to ℕ using hi0
      lift j to ℕ using hj0
      have hi' : i ∈ (view s).occupied := hs.occupied law ▸ Finset.mem_range.mpr (by omega)
      have hj' : j ∈ (view s).occupied := hs.occupied law ▸ Finset.mem_range.mpr (by omega)
      obtain rfl := Option.some.inj hs'
      simp only [(law.connectPort s i j hi' hj').2, Bridge.mem_listeners_connect,
        connection_connectPort]
      by_cases hp : i = src ∧ j = dst <;> simp [hp]
    | disconnectPort i j =>
      obtain ⟨⟨hi0, hi⟩, hj0, hj⟩ := ha
      lift i to ℕ using hi0
      lift j to ℕ using hj0
      have hi' : i ∈ (view s).occupied := hs.occupied law ▸ Finset.mem_range.mpr (by omega)
      have hj' : j ∈ (view s).occupied := hs.occupied law ▸ Finset.mem_range.mpr (by omega)
      obtain rfl := Option.some.inj hs'
      simp only [law.disconnectPort s i j hi' hj', Bridge.mem_listeners_disconnect,
        connection_disconnectPort]
      by_cases hp : i = src ∧ j = dst <;> simp [hp]
    | adjustTxLevel slot level =>
      obtain rfl := Option.some.inj hs'
      exact hkeep (law.adjustTxLevel s slot level) (by simp) (by simp)
    | adjustRxLevel slot level =>
      obtain rfl := Option.some.inj hs'
      exact hkeep (law.adjustRxLevel s slot level) (by simp) (by simp)
    | monitorLevel slot dir dur =>
      obtain rfl := Option.some.inj hs'
      exact hkeep (keeps_pollLoop api law.getSignalLevel slot dir _ 0 0 s) (by simp) (by simp)

/-- After actions in range, two slots are connected exactly if the last action about them
connects them. -/
theorem mem_listeners_bridgeAfter {s₀ s s' : σ} (h₀ : api.create (portCount k) = some s₀)
    (hs : startUp api (List.replicate k true) = some s) {as : List MenuAction}
    (has : ∀ a ∈ as, a.InRange (portCount k)) (hs' : bridgeAfter api ub as s = some s')
    (src dst : ℕ) : dst ∈ (view s').listeners src ↔ LastConnects as src dst := by
  obtain ⟨-, t, ht, hf⟩ := startUp_spec law h₀
  rw [Option.some.inj (ht.symm.trans hs)] at hf
  rw [bridgeAfter, performAll, snd_runAll] at hs'
  have h := (applies_perform law ub).get_foldlM as (.start h₀ hs) has hs' (src, dst)
  rw [hf.listeners] at h
  rw [← decide_eq_true_iff (p := dst ∈ _), h, LastConnects]
  cases lastWrite connection as (src, dst) <;> simp

end

/-! ## Sessions -/

section

variable {portCount : ℤ} {K V : Type*} {writes : MenuAction → K → Option V}
  (hcommand : ∀ a k v, writes a k = some v → a.isCommand)

include hcommand

/-- What a session writes last is written by a command that can be typed. -/
theorem exists_typable_of_lastWrite {stdin : List Byte} {k : K} {v : V}
    (h : lastWrite writes ((menuSession portCount stdin).trace.flatMap actions) k = some v) :
    ∃ c : MenuAction, c.Typable portCount ∧ writes c k = some v := by
  rw [← lastWrite_filter (hcommand · k)] at h
  obtain ⟨c, hc, hw⟩ := exists_mem_of_lastWrite h
  exact ⟨c, typable_of_mem_commands hc, hw⟩

/-- Commands that can be typed, each for one key, can write all the keys of a list. -/
theorem exists_session_lastWrite [DecidableEq K] {f : K → MenuAction} {w : K → V}
    (hf : ∀ a k, writes (f a) k = if a = k then some (w k) else none) {l : List K}
    (hl : ∀ k ∈ l, (f k).Typable portCount) :
    ∃ stdin, commands (menuSession portCount stdin).trace = l.map f ∧
      ∀ k, lastWrite writes ((menuSession portCount stdin).trace.flatMap actions) k =
        if k ∈ l then some (w k) else none := by
  have htyp : ∀ c ∈ l.map f, c.Typable portCount := List.forall_mem_map.mpr hl
  have hcom := commands_script htyp
  refine ⟨script (l.map f), hcom, fun k => ?_⟩
  rw [← lastWrite_filter (hcommand · k), ← commands, hcom, lastWrite_map hf]

end

section

variable {σ : Type*} {api : ConfApi σ} {view : σ → Bridge} (law : api.Lawful view) (ub : ℤ → ℤ)
  {k : ℕ} {s₀ s : σ} (h₀ : api.create (portCount k) = some s₀)
  (hs : startUp api (List.replicate k true) = some s)

include law h₀ hs

/-- After any rounds of a session that do not break off the slots below `port_count` are
occupied, and two slots are connected exactly if the last command about them connects them. With
at most 32 files no rounds break off. -/
theorem connections_of_rounds (stdin : List Byte)
    {ts us : List (List (Event (List Byte) Prompt MenuAction))}
    (hsplit : (menuSession (portCount k) stdin).trace = ts ++ us) :
    (∀ s', bridgeAfter api ub (ts.flatMap actions) s = some s' →
      (view s').occupied = Finset.range (portCount k) ∧
        ∀ src dst, dst ∈ (view s').listeners src ↔
          ∃ pre post, commands ts = pre ++ .connectPort src dst :: post ∧
            .disconnectPort src dst ∉ post) ∧
      (k ≤ 32 → (bridgeAfter api ub (ts.flatMap actions) s).isSome) := by
  have hactions : (menuSession (portCount k) stdin).trace.flatMap actions =
      ts.flatMap actions ++ us.flatMap actions := by
    rw [hsplit, List.flatMap_append]
  have has : ∀ a ∈ ts.flatMap actions, a.InRange (portCount k) :=
    inRange_of_trace_eq_append hactions
  have hreach : MenuReachable api k s := .start h₀ hs
  refine ⟨fun s' hs' => ?_, fun hk => isSome_bridgeAfter_of_le law ub hk has hreach⟩
  refine ⟨(menuReachable_bridgeAfter law ub has hreach hs').occupied law, fun src dst => ?_⟩
  rw [mem_listeners_bridgeAfter law ub h₀ hs has hs', ← lastConnects_commands, lastConnects_iff]

/-- A session that connects nothing does not break off. -/
theorem isSome_sessionBridge_of_no_connect {stdin : List Byte}
    (h : ∀ src dst, .connectPort src dst ∉ commands (menuSession (portCount k) stdin).trace) :
    (sessionBridge api ub k stdin s).isSome := by
  refine (isSome_bridgeAfter_iff ub).mpr fun as detail bs s' hsplit hs' => ?_
  refine (isSome_confList_iff law).mpr fun i _ => rowFits_of_subset fun dst hdst => ?_
  rw [mem_listeners_bridgeAfter law ub h₀ hs (inRange_of_trace_eq_append hsplit) hs',
    lastConnects_iff] at hdst
  obtain ⟨pre, post, rfl, -⟩ := hdst
  refine (h i.slot dst (List.mem_filter.mpr ⟨?_, rfl⟩)).elim
  rw [hsplit]
  simp

/-- With at most 32 files, the sets of connections that a session can leave are those between
slots below `port_count`. -/
theorem exists_connections_iff (hk : k ≤ 32) (R : ℕ → ℕ → Prop) :
    (∃ stdin s', sessionBridge api ub k stdin s = some s' ∧
      ∀ src dst, dst ∈ (view s').listeners src ↔ R src dst) ↔
      ∀ src dst, R src dst → src < portCount k ∧ dst < portCount k := by
  have hleft : ∀ {stdin s'}, sessionBridge api ub k stdin s = some s' →
      ∀ src dst, dst ∈ (view s').listeners src ↔
        LastConnects ((menuSession (portCount k) stdin).trace.flatMap actions) src dst :=
    fun h => mem_listeners_bridgeAfter law ub h₀ hs (fun a ha => inRange_of_mem_actions ha) h
  have hcommand : ∀ a (p : ℕ × ℕ) v, connection a p = some v → a.isCommand :=
    fun _ _ _ => isCommand_of_connection
  refine ⟨?_, fun hR => ?_⟩
  · rintro ⟨stdin, s', hs', h⟩ src dst hR
    rw [← h, hleft hs'] at hR
    obtain ⟨c, hc, hadd⟩ := exists_typable_of_lastWrite hcommand hR
    obtain rfl := connection_eq_some_true.mp hadd
    obtain ⟨⟨-, hsrc⟩, -, hdst⟩ := hc
    omega
  · classical
    -- type a connection for every pair of the relation
    let ps := ((List.range (portCount k)).product (List.range (portCount k))).filter
      fun p => R p.1 p.2
    have hps : ∀ src dst, (src, dst) ∈ ps ↔ R src dst := by
      intro src dst
      simp only [ps, List.mem_filter, List.pair_mem_product, List.mem_range, decide_eq_true_eq,
        and_iff_right_iff_imp]
      exact hR src dst
    have htyp : ∀ p ∈ ps, (MenuAction.connectPort p.1 p.2).Typable (portCount k) := by
      intro p hp
      have := hR p.1 p.2 ((hps p.1 p.2).mp hp)
      simp only [MenuAction.Typable, FitsAnswer]
      unfold portCount recorder at this ⊢
      omega
    have hconnect : ∀ p q : ℕ × ℕ, connection (.connectPort p.1 p.2) q =
        if p = q then some true else none := by
      intro p q
      simp [connection, Prod.ext_iff]
    obtain ⟨stdin, -, h⟩ := exists_session_lastWrite hcommand hconnect htyp
    obtain ⟨s', hs'⟩ := Option.isSome_iff_exists.mp (isSome_bridgeAfter_of_le law ub hk
      (fun a ha => inRange_of_mem_actions ha) (.start h₀ hs))
    refine ⟨stdin, s', hs', fun src dst => ?_⟩
    rw [hleft hs', LastConnects, h, ← hps]
    split_ifs with hp <;> simp [hp]

end

/-- With one file, connected to the recorder and disconnected again. -/
theorem connections_of_rounds_one_file : ∃ s ts,
    startUp Bridge.api (List.replicate 1 true) = some s ∧
      ts = (menuSession (portCount 1)
        (bytes ['c', '\n', '2', '\n', '1', '\n', 'd', '\n', '2', '\n', '1', '\n'])).trace ∧
      (∀ s', bridgeAfter Bridge.api (fun _ => 0) (ts.flatMap actions) s = some s' →
        s'.occupied = Finset.range (portCount 1) ∧
          ∀ src dst, dst ∈ s'.listeners src ↔
            ∃ pre post, commands ts = pre ++ .connectPort src dst :: post ∧
              .disconnectPort src dst ∉ post) ∧
        (bridgeAfter Bridge.api (fun _ => 0) (ts.flatMap actions) s).isSome := by
  have h₀ : Bridge.api.create (portCount 1) = some (Bridge.create 3 (by decide)) := rfl
  obtain ⟨-, s, hs, -⟩ := startUp_spec Bridge.api_lawful h₀
  refine ⟨s, _, hs, rfl, ?_⟩
  have h := fun stdin => connections_of_rounds Bridge.api_lawful (fun _ => 0) h₀ hs stdin
    (List.append_nil _).symm
  simp only [id_eq] at h
  exact ⟨(h _).1, (h _).2 (by decide)⟩

/-- With one file every slot can be made to listen to every slot. -/
theorem exists_connections_iff_one_file : ∃ s stdin s',
    startUp Bridge.api (List.replicate 1 true) = some s ∧
      sessionBridge Bridge.api (fun _ => 0) 1 stdin s = some s' ∧
      ∀ src dst, dst ∈ s'.listeners src ↔ src < 3 ∧ dst < 3 := by
  have h₀ : Bridge.api.create (portCount 1) = some (Bridge.create 3 (by decide)) := rfl
  obtain ⟨-, s, hs, -⟩ := startUp_spec Bridge.api_lawful h₀
  obtain ⟨stdin, s', hs', h⟩ := (exists_connections_iff Bridge.api_lawful (fun _ => 0) h₀ hs
    (by decide) fun src dst => src < 3 ∧ dst < 3).mpr fun src dst hsd => hsd
  simp only [id_eq] at h
  exact ⟨s, stdin, s', hs, hs', h⟩

end PjmediaApps
