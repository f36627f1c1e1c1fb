import PjmediaApps.PortControl

/-!
# Failed configurations

`receiver_config_stream` and `streamer_config_stream` return a status. The control loops drop
it : they have changed the port before the call, and start the endpoint after it, whatever
it returned. `StatusLaw` says that the port of the loop is always the last one configured
with success, and that the endpoint is not started again on a failed configuration.

A failed configuration is never made up for : the port has moved, and the last success has
not. So the law holds exactly if no configuration fails (`statusLaw_iff`).
-/

namespace PjmediaApps

open Interactive ByteStream CString

/-! ## Effects -/

/-- What a call on the stream came to. -/
inductive Effect
  | stopped
  | configured (port : ℤ) (ok : Bool)
  | started
  deriving DecidableEq, Repr

/-- The effects of calls on a stream if its configurations from the `k`-th on return the
statuses `ok`. -/
def effects (ok : ℕ → Bool) : ℕ → List Control → List Effect
  | _, [] => []
  | k, .stop :: cs => .stopped :: effects ok k cs
  | k, .config p :: cs => .configured p (ok k) :: effects ok (k + 1) cs
  | k, .start :: cs => .started :: effects ok k cs

/-- The ports of the configurations with their statuses. -/
def configured (es : List Effect) : List (ℤ × Bool) :=
  es.filterMap fun
    | .configured p ok => some (p, ok)
    | _ => none

/-- The port of the last configuration that succeeded. -/
def selected (es : List Effect) : Option ℤ :=
  ((configured es).filter Prod.snd).getLast?.map Prod.fst

/-- The port of the loop is the last one configured with success, after start-up and after
every command, and a start after a stop comes on a success. -/
structure StatusLaw {C : Type} (app : ControlLoop C) (control : C → Option Control)
    (ok : ℕ → Bool) (temp stdin : List Byte) : Prop where
  selected : ∀ n x, (app.run temp stdin n).result = some x →
    selected (effects ok 0 ((app.calls temp stdin n).filterMap control)) = some x.port
  started : ∀ n pre post,
    effects ok 0 ((app.calls temp stdin n).filterMap control) = pre ++ .started :: post →
      .stopped ∈ pre → (configured pre).getLast?.map Prod.snd = some true

/-- The commands in stdin that configure the stream. -/
def moves (stdin : List Byte) : ℕ :=
  (commandPieces stdin).countP fun l => (Command.ofLine l).shift ≠ 0

theorem effects_append (ok : ℕ → Bool) : ∀ (k : ℕ) (cs ds : List Control),
    effects ok k (cs ++ ds) = effects ok k cs ++ effects ok (k + (ports cs).length) ds
  | _, [], _ => rfl
  | k, .stop :: cs, ds => by
    simp only [List.cons_append, effects, effects_append ok k cs ds, ports_stop]
  | k, .config p :: cs, ds => by
    simp only [List.cons_append, effects, effects_append ok (k + 1) cs ds, ports_config,
      List.length_cons, Nat.add_assoc, Nat.add_comm 1]
  | k, .start :: cs, ds => by
    simp only [List.cons_append, effects, effects_append ok k cs ds, ports_start]

theorem configured_append (es fs : List Effect) :
    configured (es ++ fs) = configured es ++ configured fs :=
  List.filterMap_append

theorem selected_append (es fs : List Effect) :
    selected (es ++ fs) = (selected fs).or (selected es) := by
  simp only [selected, configured_append, List.filter_append, List.getLast?_append]
  cases ((configured fs).filter Prod.snd).getLast? <;> rfl

/-- The `j`-th configuration has the status `ok` gives it. -/
theorem configured_effects (ok : ℕ → Bool) : ∀ (k : ℕ) (cs : List Control) {e : ℤ × Bool},
    e ∈ configured (effects ok k cs) → ∃ j, k ≤ j ∧ j < k + (ports cs).length ∧ e.2 = ok j
  | _, [], e, h => by simp [effects, configured] at h
  | k, .stop :: cs, e, h => configured_effects ok k cs h
  | k, .start :: cs, e, h => configured_effects ok k cs h
  | k, .config p :: cs, e, h => by
    rw [ports_config, List.length_cons]
    rcases List.mem_cons.mp h with rfl | h
    · exact ⟨k, le_rfl, by omega, rfl⟩
    · obtain ⟨j, hl, hu, he⟩ := configured_effects ok (k + 1) cs h
      exact ⟨j, by omega, by omega, he⟩

/-! ## Runs of the machine -/

/-- The configurations in a run : one at start-up, and one for each move. -/
theorem length_ports_machineCalls (port : ℤ) (cs : List Command) :
    (ports (machineCalls port cs)).length = 1 + cs.countP fun c => c.shift ≠ 0 := by
  rw [machineCalls, ports_config, ports_start, List.length_cons, Nat.add_comm 1]
  congr 1
  induction cs generalizing port with
  | nil => rfl
  | cons c cs ih =>
    rw [reactions_cons, List.flatten_cons, ports_append, List.length_append, ih, Nat.add_comm]
    by_cases hc : c.shift = 0
    · rw [(controlStep_of_shift_eq_zero hc port).2]
      simp [hc]
    · rw [controlStep_of_shift_ne_zero hc]
      simp [hc]

theorem machineCalls_concat (port : ℤ) (cs : List Command) (c : Command) :
    machineCalls port (cs ++ [c]) =
      machineCalls port cs ++ (controlStep (after controlStep port cs) c).2 := by
  simp [machineCalls]

/-- What one more command selects. -/
theorem selected_concat (ok : ℕ → Bool) (port : ℤ) (cs : List Command) (c : Command) :
    selected (effects ok 0 (machineCalls port (cs ++ [c]))) =
      if c.shift ≠ 0 ∧ ok (1 + cs.countP fun c => c.shift ≠ 0) then
        some (after controlStep port (cs ++ [c]))
      else selected (effects ok 0 (machineCalls port cs)) := by
  rw [machineCalls_concat, effects_append, selected_append, Nat.zero_add,
    length_ports_machineCalls, after_append]
  generalize after controlStep port cs = p
  generalize 1 + cs.countP (fun c => decide (c.shift ≠ 0)) = k
  by_cases hc : c.shift = 0
  · have hnone : configured (effects ok k (controlStep p c).2) = [] := by
      refine List.eq_nil_iff_forall_not_mem.mpr fun e he => ?_
      obtain ⟨j, hl, hu, -⟩ := configured_effects ok k _ he
      rw [(controlStep_of_shift_eq_zero hc p).2, List.length_nil] at hu
      omega
    rw [if_neg fun h => h.1 hc, selected, hnone]
    rfl
  · rw [controlStep_of_shift_ne_zero hc, after_cons, after_nil, controlStep_of_shift_ne_zero hc]
    cases hk : ok k <;> simp [effects, selected, configured, hk, hc]

/-- The port is the last one configured with success, after start-up and after each of the
commands `cs`, exactly if every configuration succeeds. -/
theorem forall_selected_iff (ok : ℕ → Bool) (port : ℤ) (cs : List Command) :
    (∀ ds, ds <+: cs →
      selected (effects ok 0 (machineCalls port ds)) = some (after controlStep port ds)) ↔
        ∀ k ≤ cs.countP fun c => c.shift ≠ 0, ok k = true := by
  induction cs using List.reverseRecOn with
  | nil =>
    cases h0 : ok 0 <;>
      simp [machineCalls, effects, selected, configured, h0]
  | append_singleton cs c ih =>
    have hcount : (cs ++ [c]).countP (fun c => c.shift ≠ 0) =
        cs.countP (fun c => c.shift ≠ 0) + if c.shift ≠ 0 then 1 else 0 := by
      simp [List.countP_append, List.countP_singleton]
    have hafter : after controlStep port (cs ++ [c]) =
        (controlStep (after controlStep port cs) c).1 := by
      rw [after_append, after_cons, after_nil]
    rw [hcount]
    refine ⟨fun hall k hk => ?_, fun hok ds hds => ?_⟩
    · have hprev := hall cs (List.prefix_append _ _)
      have hlast := hall (cs ++ [c]) List.prefix_rfl
      by_cases hle : k ≤ cs.countP fun c => c.shift ≠ 0
      · exact ih.mp (fun ds hds => hall ds (hds.trans (List.prefix_append _ _))) k hle
      · -- the configuration of the last command : had it failed, the old port would stay
        have hc : c.shift ≠ 0 := by
          intro hc
          rw [if_neg (not_not.mpr hc)] at hk
          omega
        rw [if_pos hc] at hk
        by_contra hfail
        rw [selected_concat, if_neg, hprev, hafter] at hlast
        · exact hc ((controlStep_eq_self_iff _ c).mp (Option.some.inj hlast).symm)
        · rintro ⟨-, hok⟩
          rw [show k = 1 + cs.countP fun c => c.shift ≠ 0 by omega] at hfail
          exact hfail hok
    · rcases List.prefix_concat_iff.mp hds with rfl | hds
      · rw [selected_concat]
        by_cases hc : c.shift ≠ 0
        · rw [if_pos ⟨hc, hok _ (by rw [if_pos hc]; omega)⟩]
        · rw [if_neg fun h => hc h.1, ih.mpr (fun k hk => hok k (by omega)) cs List.prefix_rfl,
            hafter, (controlStep_eq_self_iff _ c).mpr (not_not.mp hc)]
      · exact ih.mpr (fun k hk => hok k (by omega)) ds hds

/-- If every configuration succeeds, a start after a stop comes on a success. -/
theorem started_of_forall {ok : ℕ → Bool} {port : ℤ} {cs : List Command}
    (hok : ∀ k ≤ cs.countP fun c => c.shift ≠ 0, ok k = true) {pre post : List Effect}
    (h : effects ok 0 (machineCalls port cs) = pre ++ .started :: post) (hstop : .stopped ∈ pre) :
    (configured pre).getLast?.map Prod.snd = some true := by
  -- the configuration at start-up comes before the stop
  obtain ⟨pre, rfl⟩ : ∃ pre', pre = .configured port (ok 0) :: pre' := by
    cases pre with
    | nil => simp at hstop
    | cons e pre => exact ⟨pre, by rw [(List.cons.inj h).1]⟩
  have hall : ∀ e ∈ configured (.configured port (ok 0) :: pre), e.2 = true := by
    intro e he
    have hmem : e ∈ configured (effects ok 0 (machineCalls port cs)) := by
      rw [h, configured_append]
      exact List.mem_append_left _ he
    obtain ⟨j, -, hj, hej⟩ := configured_effects ok 0 _ hmem
    rw [length_ports_machineCalls] at hj
    rw [hej]
    exact hok j (by omega)
  have hne : configured (.configured port (ok 0) :: pre) ≠ [] := by
    simp [configured]
  rw [List.getLast?_eq_some_getLast hne, Option.map_some,
    hall _ (List.getLast_mem hne)]

/-! ## The law -/

/-- A program that controls its stream keeps the status law exactly if no configuration
fails. -/
theorem Controls.statusLaw_iff_forall {C : Type} {app : ControlLoop C}
    {control : C → Option Control} (h : Controls app control) (ok : ℕ → Bool)
    (temp stdin : List Byte) :
    StatusLaw app control ok temp stdin ↔ ∀ k ≤ moves stdin, ok k = true := by
  have hmoves : moves stdin =
      ((commandPieces stdin).map Command.ofLine).countP fun c => c.shift ≠ 0 := by
    rw [List.countP_map]
    rfl
  rw [hmoves]
  refine ⟨fun hlaw => ?_, fun hok => ?_⟩
  · refine (forall_selected_iff ok app.port _).mp fun ds hds => ?_
    have hlen : ds.length ≤ (commandPieces stdin).length := by simpa using hds.length_le
    have hds' : ds = ((commandPieces stdin).take ds.length).map Command.ofLine := by
      rw [List.map_take]
      exact List.prefix_iff_eq_take.mp hds
    have hrun := app.run_result temp stdin ds.length
    rw [if_pos hlen] at hrun
    have hsel := hlaw.selected _ _ hrun
    rwa [h.calls_eq, h.port_eq hrun, ← hds'] at hsel
  · refine ⟨fun n x hx => ?_, fun n pre post hpre hstop => ?_⟩
    · rw [h.calls_eq, h.port_eq hx]
      refine (forall_selected_iff ok app.port _).mpr hok _ ?_
      exact (List.take_prefix _ _).map _
    · rw [h.calls_eq] at hpre
      refine started_of_forall (fun k hk => hok k (hk.trans ?_)) hpre hstop
      exact ((List.take_prefix n _).map Command.ofLine).sublist.countP_le

/-- The three programs keep the status law exactly if no configuration of their stream
fails. -/
theorem statusLaw_iff (ok : ℕ → Bool) (argv1 argv2 temp stdin : List Byte) :
    (StatusLaw appReceiver ReceiverCall.control ok temp stdin ↔
        ∀ k ≤ moves stdin, ok k = true) ∧
      (StatusLaw appStreamer StreamerCall.control ok temp stdin ↔
        ∀ k ≤ moves stdin, ok k = true) ∧
      (StatusLaw (appStreamer2 argv1 argv2) StreamerCall.control ok temp stdin ↔
        ∀ k ≤ moves stdin, ok k = true) :=
  ⟨controls_appReceiver.statusLaw_iff_forall ok temp stdin,
    controls_appStreamer.statusLaw_iff_forall ok temp stdin,
    (controls_appStreamer2 argv1 argv2).statusLaw_iff_forall ok temp stdin⟩

/-- The first `+` fails : the loop has port 4322, and the stream 4321. -/
theorem not_statusLaw_failed_move : ¬StatusLaw appReceiver ReceiverCall.control (· ≠ 1)
    (List.replicate 10 0) (bytes ['+', '\n']) := by
  intro h
  exact absurd (h.selected 1 ⟨4322, bytes ['+', '\n'] ++ List.replicate 8 0⟩ (by decide))
    (by decide)

end PjmediaApps
