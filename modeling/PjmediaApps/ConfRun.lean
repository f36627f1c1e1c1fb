import PjmediaApps.ConfConnections

/-!
# Sessions of `conf_to_2_sounds` that come to their end

Every round of the menu loop starts with a list of the ports, so a list that overruns `txlist`
breaks off any session that gets to it. A session comes to its end exactly if the listeners of
each entry fit wherever it lists the ports (`isSome_sessionBridge_iff`), and on at most 34 slots
they always do (`listsFit_of_le`).

Here what is known of the menu and of its lists is put together for the program : where
prompts and lines stay in step (`byLines_iff`), where the calls are right (`session_right`), where
the loop is left (`conf_ends`), and which commands can be performed (`exists_session_iff`). On
35 slots there is a text that breaks a session off (`not_listsFit_script`).
-/

namespace PjmediaApps

open Interactive ByteStream CString PartialRun WriteLog

/-! ## Lists that fit -/

/-- Wherever the session lists the ports, the listeners of each entry fit. -/
def ListsFit {σ : Type*} (api : ConfApi σ) (view : σ → Bridge) (ub : ℤ → ℤ) (k : ℕ)
    (stdin : List Byte) (s : σ) : Prop :=
  ∀ as detail bs s',
    (menuSession (portCount k) stdin).trace.flatMap actions = as ++ .confList detail :: bs →
      bridgeAfter api ub as s = some s' →
        ∀ i ∈ api.getPortsInfo s' maxPorts, RowFits ((view s').listeners i.slot)

section

variable {σ : Type*} {api : ConfApi σ} {view : σ → Bridge} (law : api.Lawful view) {ub : ℤ → ℤ}
  {k : ℕ} {stdin : List Byte} {s : σ}

include law

/-- A session comes to its end exactly if its lists fit, -/
theorem isSome_sessionBridge_iff :
    (sessionBridge api ub k stdin s).isSome ↔ ListsFit api view ub k stdin s := by
  rw [sessionBridge, isSome_bridgeAfter_iff, ListsFit]
  simp only [isSome_confList_iff law]

/-- and with at most 32 files they do. -/
theorem listsFit_of_le (h : MenuReachable api k s) (hk : k ≤ 32) :
    ListsFit api view ub k stdin s :=
  (isSome_sessionBridge_iff law).mp
    (isSome_bridgeAfter_of_le law ub hk (fun _ ha => inRange_of_mem_actions ha) h)

end

/-! ## The program -/

/-- The session goes line by line, and gets to `on_quit`. -/
structure ByLines {σ : Type*} (api : ConfApi σ) (ub : ℤ → ℤ) (k : ℕ) (stdin : List Byte) (s : σ) :
    Prop where
  lines : LineForLine (portCount k) stdin
  quits : (sessionBridge api ub k stdin s).isSome

/-- The calls of the session are right. -/
structure SessionRight {σ : Type*} (api : ConfApi σ) (view : σ → Bridge) (ub : ℤ → ℤ) (k : ℕ)
    (stdin : List Byte) (s : σ) : Prop where
  /-- No list breaks off. Of the calls behind one nothing could be said. -/
  ends : (sessionBridge api ub k stdin s).isSome
  /-- At start-up and at every call, the accepted slots are the occupied ones. -/
  accepted : ∀ s' ∈ s :: (sessionCalls api ub k stdin s).map Prod.fst, ∀ slot : ℤ,
    0 ≤ slot ∧ slot < portCount k ↔ ∃ n ∈ (view s').occupied, slot = (n : ℤ)
  calls : ∀ e ∈ sessionCalls api ub k stdin s, CallRight api view k e
  /-- They are the calls of its rounds, each with the numbers in the answers of the round. -/
  rounds : ∃ css, sessionCalls api ub k stdin s = css.flatten ∧
    List.Forall₂ (fun t cs => RoundCalls (portCount k) (answers t) (cs.map Prod.snd))
      (menuSession (portCount k) stdin).trace css

/-- The program comes to its end. -/
structure EndsRight {σ : Type*} (api : ConfApi σ) (ub : ℤ → ℤ) (k : ℕ) (stdin : List Byte) (s : σ) :
    Prop where
  /-- The menu loop is left within one round more than stdin has bytes, and no list of its
  rounds breaks off. -/
  quits : ∃ n ≤ stdin.length + 1,
    (rounds stdinSource (fun _ => menuRound (portCount k)) n () stdin).result = none ∧
      (bridgeAfter api ub ((rounds stdinSource (fun _ => menuRound (portCount k)) n ()
        stdin).trace.flatMap actions) s).isSome
  /-- The scan of `input` ends, on every array and whatever is read. -/
  input : ∀ buf got, InputRight buf got

section

variable {σ : Type*} {api : ConfApi σ} {view : σ → Bridge} (law : api.Lawful view) (ub : ℤ → ℤ)
  {k : ℕ} {s₀ s : σ}

include law

/-- In a session that comes to its end, every round makes the calls its answers stand for. -/
theorem exists_roundCalls (h : MenuReachable api k s) {stdin : List Byte}
    (hend : (sessionBridge api ub k stdin s).isSome) :
    ∃ css, sessionCalls api ub k stdin s = css.flatten ∧
      List.Forall₂ (fun t cs => RoundCalls (portCount k) (answers t) (cs.map Prod.snd))
        (menuSession (portCount k) stdin).trace css := by
  refine exists_forall₂_runAll (MenuReachable api k) _ actions (fun t ht u u' hu hrun => ?_) h hend
  have hround := roundRight_menuSession (portCount k) stdin t ht
  exact ⟨roundCalls_of_roundRight ub law hround hu hrun,
    menuReachable_bridgeAfter law ub hround.inRange hu hrun⟩

/-- What is right of the calls of any session, also of one that breaks off. -/
theorem callRight_of_mem_sessionCalls (h : MenuReachable api k s) (stdin : List Byte) :
    ∀ e ∈ sessionCalls api ub k stdin s, CallRight api view k e :=
  performAll_right law ub (fun _ ha => inRange_of_mem_actions ha) h

theorem sessionRight_iff (h : MenuReachable api k s) (stdin : List Byte) :
    SessionRight api view ub k stdin s ↔ ListsFit api view ub k stdin s := by
  rw [← isSome_sessionBridge_iff law]
  refine ⟨SessionRight.ends, fun hend => ?_⟩
  have hcalls := callRight_of_mem_sessionCalls law ub h stdin
  refine ⟨hend, List.forall_mem_cons.mpr ⟨fun _ => exists_occupied law h, ?_⟩, hcalls,
    exists_roundCalls law ub h hend⟩
  intro s' hs' slot
  obtain ⟨e, he, rfl⟩ := List.mem_map.mp hs'
  exact exists_occupied law (hcalls e he).reachable

theorem endsRight_iff (stdin : List Byte) :
    EndsRight api ub k stdin s ↔ ListsFit api view ub k stdin s := by
  rw [← isSome_sessionBridge_iff law]
  refine ⟨?_, fun hend => ⟨⟨_, le_rfl, menuSession_result _ stdin, hend⟩, inputRight⟩⟩
  rintro ⟨⟨n, hn, hres, hend⟩, -⟩
  rwa [← rounds_eq_of_le hres hn] at hend

variable (h₀ : api.create (portCount k) = some s₀)
  (hs : startUp api (List.replicate k true) = some s)

include h₀ hs

/-- The program goes line by line exactly if every line that is due to a prompt fits in its array
or quits, and the lists fit. -/
theorem byLines_iff (stdin : List Byte) : (ByLines api ub k stdin s ↔
      (∀ t ∈ (menuByLines (portCount k) stdin).trace, DueFit t) ∧
        ListsFit api view ub k stdin s) ∧
    (k ≤ 32 → ListsFit api view ub k stdin s) := by
  refine ⟨?_, listsFit_of_le law (.start h₀ hs)⟩
  rw [← lineForLine_iff_due, ← isSome_sessionBridge_iff law]
  exact ⟨fun h => ⟨h.lines, h.quits⟩, fun h => ⟨h.1, h.2⟩⟩

/-- Whatever stdin holds, the program comes to its end exactly if the lists fit. -/
theorem conf_ends (stdin : List Byte) :
    (EndsRight api ub k stdin s ↔ ListsFit api view ub k stdin s) ∧
      (k ≤ 32 → ListsFit api view ub k stdin s) :=
  ⟨endsRight_iff law ub stdin, listsFit_of_le law (.start h₀ hs)⟩

/-- With at most 32 files, the sequences of commands of the sessions that come to their end are
exactly those of commands that can be typed. -/
theorem exists_session_iff (hk : k ≤ 32) (cs : List MenuAction) :
    (∃ stdin, commands (menuSession (portCount k) stdin).trace = cs ∧
        (sessionBridge api ub k stdin s).isSome) ↔
      ∀ c ∈ cs, c.Typable (portCount k) := by
  refine ⟨?_, fun h => ⟨script cs, commands_script h, ?_⟩⟩
  · rintro ⟨stdin, rfl, -⟩ c hc
    exact typable_of_mem_commands hc
  · exact (isSome_sessionBridge_iff law).mpr (listsFit_of_le law (.start h₀ hs) hk)

/-- Commands that connect the first 35 slots to every slot listed break a session off. -/
theorem not_listsFit_script {cs : List MenuAction} (hcs : ∀ c ∈ cs, c.Typable (portCount k))
    (hno : ∀ src dst, .disconnectPort src dst ∉ cs)
    (hall : ∀ s', (view s').occupied = Finset.range (portCount k) →
      ∃ i ∈ api.getPortsInfo s' maxPorts, ∀ j : ℕ, j < 35 → .connectPort i.slot j ∈ cs) :
    ¬ListsFit api view ub k (script cs) s := by
  intro hfit
  obtain ⟨as, has, hcom⟩ := exists_actions_script hcs
  have hrange := inRange_of_trace_eq_append has
  have hend := (isSome_sessionBridge_iff law).mpr hfit
  rw [sessionBridge, has] at hend
  obtain ⟨t, ht⟩ := Option.isSome_iff_exists.mp hend
  obtain ⟨s', hs', -⟩ := exists_of_runAll_append ht
  have hreach := menuReachable_bridgeAfter law ub hrange (.start h₀ hs) hs'
  obtain ⟨i, hi, hconn⟩ := hall s' (hreach.occupied law)
  refine not_rowFits_of_subset (fun j hj => ?_) (hfit as false [] s' has hs' i hi)
  rw [mem_listeners_bridgeAfter law ub h₀ hs hrange hs', LastConnects,
    ← lastWrite_filter (fun _ _ h => isCommand_of_connection h), hcom]
  -- the commands connect the two slots and never disconnect them
  refine lastWrite_of_mem (hconn j (Finset.mem_range.mp hj)) (by simp [connection]) ?_
  intro c hc v hv
  unfold connection at hv
  split_ifs at hv with h₁ h₂
  · exact (Option.some.inj hv).symm
  · exact (hno _ _ (h₂ ▸ hc)).elim

end

/-! ## One file, and 33 -/

/-- A start-up of the abstract bridge. -/
theorem exists_startUp (k : ℕ) : ∃ s₀ s, Bridge.api.create (portCount k) = some s₀ ∧
    startUp Bridge.api (List.replicate k true) = some s := by
  have hpos : 0 < portCount k := by
    unfold portCount
    omega
  have h₀ : Bridge.api.create (portCount k) = some (Bridge.create (portCount k) hpos) := by
    simp [Bridge.api, hpos]
  obtain ⟨-, s, hs, -⟩ := startUp_spec Bridge.api_lawful h₀
  exact ⟨_, s, h₀, hs⟩

/-- With one file, a text that connects the file to the recorder is read line by line. -/
theorem byLines_one_file : ∃ s, startUp Bridge.api (List.replicate 1 true) = some s ∧
    ByLines Bridge.api (fun _ => 0) 1
      (bytes ['c', '\n', '2', '\n', '1', '\n', 'q', 'u', 'i', 't', '\n']) s := by
  obtain ⟨s₀, s, h₀, hs⟩ := exists_startUp 1
  obtain ⟨hiff, hfit⟩ := byLines_iff Bridge.api_lawful (fun _ => 0) h₀ hs
    (bytes ['c', '\n', '2', '\n', '1', '\n', 'q', 'u', 'i', 't', '\n'])
  refine ⟨s, hs, hiff.mpr ⟨fun t ht p l hl => Or.inl ?_, hfit (by decide)⟩⟩
  have hshort : ∀ t ∈ (menuByLines (portCount 1)
      (bytes ['c', '\n', '2', '\n', '1', '\n', 'q', 'u', 'i', 't', '\n'])).trace,
        ∀ q ∈ answers t, q.2.all (fun l => l.length < bufSize) := by decide
  simpa using hshort t ht _ hl

/-- A source slot of ten digits is split, and its tail answers the next prompt. -/
theorem not_byLines_ten_digits : ∃ s, startUp Bridge.api (List.replicate 0 true) = some s ∧
    ¬ByLines Bridge.api (fun _ => 0) 0
      (bytes ['c', '\n', '0', '0', '0', '0', '0', '0', '0', '0', '0', '1', '\n', '0', '\n']) s := by
  obtain ⟨-, s, -, hs⟩ := exists_startUp 0
  exact ⟨s, hs, fun h => absurd h.lines.commands (by decide)⟩

/-- With one file, a text that ends in the middle of a dialogue. -/
theorem conf_ends_one_file : ∃ s, startUp Bridge.api (List.replicate 1 true) = some s ∧
    EndsRight Bridge.api (fun _ => 0) 1 (bytes ['c', '\n', '1']) s := by
  obtain ⟨s₀, s, h₀, hs⟩ := exists_startUp 1
  obtain ⟨hiff, hfit⟩ := conf_ends Bridge.api_lawful (fun _ => 0) h₀ hs (bytes ['c', '\n', '1'])
  exact ⟨s, hs, hiff.mpr (hfit (by decide))⟩

/-- With one file, the recorder can be connected and disconnected again. -/
theorem exists_session_iff_one_file : ∃ s, startUp Bridge.api (List.replicate 1 true) = some s ∧
    ∃ stdin, commands (menuSession (portCount 1) stdin).trace =
        [.connectPort 2 1, .disconnectPort 2 1] ∧
      (sessionBridge Bridge.api (fun _ => 0) 1 stdin s).isSome := by
  obtain ⟨s₀, s, h₀, hs⟩ := exists_startUp 1
  refine ⟨s, hs, (exists_session_iff Bridge.api_lawful (fun _ => 0) h₀ hs (by decide) _).mpr ?_⟩
  simp [MenuAction.Typable, FitsAnswer, portCount, recorder]

/-- Connect slot 0 to 35 slots. -/
def crowd : List MenuAction :=
  (List.range 35).map fun (j : ℕ) => .connectPort 0 j

/-- With 33 files, the list after these commands breaks off. -/
theorem not_listsFit_crowd {s : Bridge} (hs : startUp Bridge.api (List.replicate 33 true) = some s) :
    ¬ListsFit Bridge.api id (fun _ => 0) 33 (script crowd) s := by
  obtain ⟨s₀, -, h₀, -⟩ := exists_startUp 33
  refine not_listsFit_script Bridge.api_lawful _ h₀ hs ?_ ?_ fun b hb => ?_
  · intro c hc
    obtain ⟨j, hj, rfl⟩ := List.mem_map.mp hc
    have := List.mem_range.mp hj
    simp only [MenuAction.Typable, FitsAnswer, portCount, recorder]
    omega
  · intro src dst hmem
    obtain ⟨j, -, hj⟩ := List.mem_map.mp hmem
    cases hj
  · -- slot 0 is the first one listed
    refine ⟨⟨0, [], 44100, 882, 0, 0, (b.listeners 0).sort (· ≤ ·)⟩, ?_, fun j hj => ?_⟩
    · refine List.mem_map.mpr ⟨0, ?_, rfl⟩
      rw [show b.occupied = Finset.range (portCount 33) from hb, Finset.sort_range]
      decide
    · exact List.mem_map.mpr ⟨j, List.mem_range.mpr hj, rfl⟩

/-- and the program does not get to `on_quit`. -/
theorem not_endsRight_crowd : ∃ s, startUp Bridge.api (List.replicate 33 true) = some s ∧
    ¬EndsRight Bridge.api (fun _ => 0) 33 (script crowd) s := by
  obtain ⟨s₀, s, h₀, hs⟩ := exists_startUp 33
  exact ⟨s, hs, fun h => not_listsFit_crowd hs ((endsRight_iff Bridge.api_lawful _ _).mp h)⟩

end PjmediaApps
