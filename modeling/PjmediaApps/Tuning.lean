import PjmediaApps.Interleaving
import PjmediaApps.PortLaw
import Mathlib.Data.List.Infix

/-!
# Where the programs ask to listen and to send

`app-streamer` asks for a stream to a group and a port, `app-streamer-2` for one to another group,
and `app-receiver` asks to listen with stream 0 where the first sends at start-up and with stream 1
where the second does. The three programs run side by side, each on commands of its own. What is
said here is about the calls they make; what the endpoint makes of these is code outside the
repository.

While the ports stay ports, in whatever order the rounds come, stream 0 and `app-streamer` ask for
one address exactly if neither was stopped last and the commands of the two have moved their ports
by the same. The receiver has no command for stream 1, so that one and `app-streamer-2` ask for one
address exactly if the moves of the latter cancel out (`tuning_right`). Stream 0 can always be
brought back by commands typed at the receiver (`exists_retune`).
-/

namespace PjmediaApps

open Interactive ByteStream CString Interleaving

/-! ## What the calls ask for -/

/-- The address that a call of a streamer configures its stream with. -/
def StreamerCall.address : StreamerCall → Option (String × ℤ)
  | .configStream _ rhost rport => some (rhost, rport)
  | _ => none

/-- Whether a call of a streamer starts or stops it. -/
def StreamerCall.starts : StreamerCall → Option Bool
  | .start => some true
  | .stop => some false
  | _ => none

/-- The address that a call of the receiver configures its stream `j` with. -/
def ReceiverCall.address (j : ℤ) : ReceiverCall → Option (String × ℤ)
  | .configStream mcast lport idx => if idx = j then some (mcast, lport) else none
  | _ => none

/-- Whether a call starts the receiver, or stops its stream `j`. The start names no stream. -/
def ReceiverCall.starts (j : ℤ) : ReceiverCall → Option Bool
  | .start => some true
  | .stop idx => if idx = j then some false else none
  | _ => none

/-- What is configured for the controlled stream. -/
def Control.port : Control → Option ℤ
  | .config port => some port
  | _ => none

/-- Whether the controlled stream is started or stopped. -/
def Control.starts : Control → Option Bool
  | .start => some true
  | .stop => some false
  | _ => none

/-- What the calls of a program say of one of its streams. -/
structure StreamView (C : Type) where
  address : C → Option (String × ℤ)
  starts : C → Option Bool

/-- The stream of a streamer. -/
def streamerView : StreamView StreamerCall :=
  ⟨StreamerCall.address, StreamerCall.starts⟩

/-- The stream `j` of the receiver. -/
def receiverView (j : ℤ) : StreamView ReceiverCall :=
  ⟨ReceiverCall.address j, ReceiverCall.starts j⟩

/-- A program asks for a stream at the address `a`. -/
structure StreamView.AsksFor {C : Type} (v : StreamView C) (p : Process LoopState C (List Byte))
    (a : String × ℤ) : Prop where
  /-- It is in its loop. -/
  inLoop : p.state ≠ none
  /-- The last call that starts or stops the stream starts it. -/
  starts : (p.done.filterMap v.starts).getLast? = some true
  /-- The last call that configures the stream does so with `a`. -/
  address : (p.done.filterMap v.address).getLast? = some a

/-- Two programs ask for streams at one address. -/
def Meet {C D : Type} (v : StreamView C) (p : Process LoopState C (List Byte)) (w : StreamView D)
    (q : Process LoopState D (List Byte)) : Prop :=
  ∃ a, v.AsksFor p a ∧ w.AsksFor q a

theorem meet_iff {C D : Type} {v : StreamView C} {p : Process LoopState C (List Byte)}
    {w : StreamView D} {q : Process LoopState D (List Byte)} {P Q : Prop} {x y : String × ℤ}
    (hp : ∀ a, v.AsksFor p a ↔ P ∧ a = x) (hq : ∀ a, w.AsksFor q a ↔ Q ∧ a = y) :
    Meet v p w q ↔ P ∧ Q ∧ x = y := by
  simp only [Meet, hp, hq]
  refine ⟨?_, ?_⟩
  · rintro ⟨a, ⟨hP, rfl⟩, hQ, rfl⟩
    exact ⟨hP, hQ, rfl⟩
  · rintro ⟨hP, hQ, rfl⟩
    exact ⟨x, ⟨hP, rfl⟩, hQ, rfl⟩

/-! ## The programs side by side -/

/-- The three programs. -/
inductive Party
  | streamer
  | streamer2
  | receiver
  deriving DecidableEq, Repr

namespace Party

/-- The calls of a program. -/
abbrev Call : Party → Type
  | .streamer => StreamerCall
  | .streamer2 => StreamerCall
  | .receiver => ReceiverCall

/-- The program, `app-streamer-2` on its two arguments. -/
def app (argv1 argv2 : List Byte) : ∀ p : Party, ControlLoop p.Call
  | .streamer => appStreamer
  | .streamer2 => appStreamer2 argv1 argv2
  | .receiver => appReceiver

/-- The port that the stream the commands move starts at. -/
def port : Party → ℤ
  | .streamer => 4321
  | .streamer2 => 5321
  | .receiver => 4321

end Party

section

variable {C : Type} (app : ControlLoop C) (temp stdin : List Byte)

/-- A program before the first round of its loop. -/
def ControlLoop.process : Process LoopState C (List Byte) :=
  ⟨some ⟨app.port, temp⟩, stdin, app.startUp⟩

/-- One round of a program. At the end of input it exits. -/
def ControlLoop.round : Process LoopState C (List Byte) → Process LoopState C (List Byte) :=
  Process.round commandSource (reactive app.step)

/-- A program after `n` of its rounds. -/
theorem ControlLoop.iterate_round (n : ℕ) : app.round^[n] (app.process temp stdin) =
    ⟨(app.run temp stdin n).result, (app.run temp stdin n).rest, app.calls temp stdin n⟩ :=
  Interleaving.iterate_round n _ _ _

/-- A program is in its loop as long as there is input. -/
theorem ControlLoop.result_ne_none_iff (n : ℕ) :
    (app.run temp stdin n).result ≠ none ↔ n ≤ (commandPieces stdin).length := by
  rw [app.run_result]
  split_ifs with hn <;> simp [hn]

/-- What holds of the calls at start-up and in every round holds of all calls. -/
theorem ControlLoop.forall_calls {Q : C → Prop} (hstart : ∀ c ∈ app.startUp, Q c)
    (hstep : ∀ x got, ∀ c ∈ (app.step x got).2, Q c) (n : ℕ) :
    ∀ c ∈ app.calls temp stdin n, Q c := by
  intro c hc
  rw [ControlLoop.calls, app.loopCalls_eq] at hc
  rcases List.mem_append.mp hc with hc | hc
  · exact hstart c hc
  · exact forall_mem_reactions _ hstep _ _ c hc

end

/-- The programs after the rounds of a schedule. -/
def studio (argv1 argv2 : List Byte) (temp stdin : Party → List Byte) (schedule : List Party) :
    ∀ p : Party, Process LoopState p.Call (List Byte) :=
  run (fun p => (p.app argv1 argv2).round) schedule
    fun p => (p.app argv1 argv2).process (temp p) (stdin p)

/-! ## The machine asks -/

/-- What a command makes of a stream that is started or not. -/
def Command.starts : Command → Option Bool
  | .stop => some false
  | .resume => some true
  | .move _ => some true
  | .other => none

/-- The last line that does anything to the stream stops it. -/
def Stopped (ls : List (List Byte)) : Prop :=
  ∃ pre l post, ls = pre ++ l :: post ∧ Command.ofLine l = .stop ∧
    ∀ m ∈ post, Command.ofLine m = .other

/-- Whether a stream that is started at first is after some lines. -/
def started (ls : List (List Byte)) : Bool :=
  ((ls.filterMap fun l => (Command.ofLine l).starts).getLast?).getD true

/-- The last value that a list gives is that of an entry with none of its own after it. -/
theorem getLast?_filterMap_eq_some_iff {α β : Type} {f : α → Option β} {l : List α} {b : β} :
    (l.filterMap f).getLast? = some b ↔
      ∃ pre a post, l = pre ++ a :: post ∧ f a = some b ∧ ∀ c ∈ post, f c = none := by
  rw [List.getLast?_filterMap, List.findSome?_eq_some_iff]
  refine ⟨?_, ?_⟩
  · rintro ⟨post, a, pre, hl, ha, hpost⟩
    refine ⟨pre.reverse, a, post.reverse, ?_, ha, fun c hc => hpost c (List.mem_reverse.mp hc)⟩
    rw [← List.reverse_reverse l, hl]
    simp
  · rintro ⟨pre, a, post, rfl, ha, hpost⟩
    exact ⟨post.reverse, a, pre.reverse, by simp, ha,
      fun c hc => hpost c (List.mem_reverse.mp hc)⟩

theorem started_iff (ls : List (List Byte)) : started ls = true ↔ ¬Stopped ls := by
  have hstop : ∀ c : Command, c.starts = some false ↔ c = .stop := by
    intro c
    cases c <;> simp [Command.starts]
  have hother : ∀ c : Command, c.starts = none ↔ c = .other := by
    intro c
    cases c <;> simp [Command.starts]
  have h : (ls.filterMap fun l => (Command.ofLine l).starts).getLast? = some false ↔
      Stopped ls := by
    simp only [getLast?_filterMap_eq_some_iff, hstop, hother, Stopped]
  rw [← h, started]
  rcases (ls.filterMap fun l => (Command.ofLine l).starts).getLast? with _ | _ | _ <;> simp

/-- A command starts or stops its stream last as it says. -/
theorem getLast?_starts_controlStep (p : ℤ) (c : Command) :
    ((controlStep p c).2.filterMap Control.starts).getLast? = c.starts := by
  cases c <;> rfl

theorem getLast?_starts_reactions : ∀ (p : ℤ) (ls : List (List Byte)),
    ((reactions controlStep p (ls.map Command.ofLine)).flatten.filterMap
        Control.starts).getLast? =
      (ls.filterMap fun l => (Command.ofLine l).starts).getLast?
  | _, [] => rfl
  | p, l :: ls => by
    have hcons : (l :: ls).filterMap (fun l => (Command.ofLine l).starts) =
        [l].filterMap (fun l => (Command.ofLine l).starts) ++
          ls.filterMap fun l => (Command.ofLine l).starts := by
      rw [← List.filterMap_append, List.singleton_append]
    have hone : ([l].filterMap fun l => (Command.ofLine l).starts).getLast? =
        (Command.ofLine l).starts := by
      cases h : (Command.ofLine l).starts <;> simp [h]
    rw [hcons, List.map_cons, reactions_cons, List.flatten_cons, List.filterMap_append,
      List.getLast?_append, List.getLast?_append, getLast?_starts_controlStep,
      getLast?_starts_reactions _ ls, hone]

/-! ## The streams of the programs -/

/-- Lines that keep the port `p` a port. -/
def StaysPort (p : ℤ) (ls : List (List Byte)) : Prop :=
  ∀ ps, ps <+: ls → IsPort (p + net ps)

instance (p : ℤ) (ls : List (List Byte)) : Decidable (StaysPort p ls) :=
  decidable_of_iff (∀ ps ∈ ls.inits, IsPort (p + net ps))
    (forall_congr' fun _ => imp_congr_left (List.mem_inits _ _))

section

variable {C : Type} {app : ControlLoop C} {control : C → Option Control} {v : StreamView C}
  {group : String}

/-- A call says of a stream of the group `group` what its control says. -/
structure StreamView.Follows (v : StreamView C) (control : C → Option Control) (group : String)
    (c : C) : Prop where
  address : v.address c = ((control c).bind Control.port).map (Prod.mk group)
  starts : v.starts c = (control c).bind Control.starts

theorem ports_eq_filterMap (cs : List Control) : ports cs = cs.filterMap Control.port := by
  refine List.filterMap_congr fun c _ => ?_
  cases c <;> rfl

theorem filterMap_address {cs : List C} (h : ∀ c ∈ cs, v.Follows control group c) :
    cs.filterMap v.address = (ports (cs.filterMap control)).map (Prod.mk group) := by
  rw [ports_eq_filterMap, List.filterMap_filterMap, List.map_filterMap]
  exact List.filterMap_congr fun c hc => (h c hc).address

theorem filterMap_starts {cs : List C} (h : ∀ c ∈ cs, v.Follows control group c) :
    cs.filterMap v.starts = (cs.filterMap control).filterMap Control.starts := by
  rw [List.filterMap_filterMap]
  exact List.filterMap_congr fun c hc => (h c hc).starts

/-- What a program asks for after `n` rounds is what its calls say last. -/
theorem asksFor_iterate_iff {temp stdin : List Byte} {n : ℕ} {b : Bool} {x : String × ℤ}
    (hstarts : ((app.calls temp stdin n).filterMap v.starts).getLast? = some b)
    (haddress : ((app.calls temp stdin n).filterMap v.address).getLast? = some x)
    (a : String × ℤ) : v.AsksFor (app.round^[n] (app.process temp stdin)) a ↔
      (n ≤ (commandPieces stdin).length ∧ b = true) ∧ a = x := by
  rw [app.iterate_round, ← app.result_ne_none_iff temp]
  refine ⟨?_, ?_⟩
  · rintro ⟨hin, hstart, haddr⟩
    exact ⟨⟨hin, Option.some.inj (hstarts.symm.trans hstart)⟩,
      Option.some.inj (haddr.symm.trans haddress)⟩
  · rintro ⟨⟨hin, rfl⟩, rfl⟩
    exact ⟨hin, hstarts, haddress⟩

/-- What a program asks for after `n` rounds, if the moves stay in range. -/
theorem Controls.asksFor_iff (h : Controls app control)
    (hv : ∀ temp stdin n, ∀ c ∈ app.calls temp stdin n, v.Follows control group c)
    (temp : List Byte) {stdin : List Byte} {n : ℕ}
    (hport : StaysPort app.port ((commandPieces stdin).take n)) (a : String × ℤ) :
    v.AsksFor (app.round^[n] (app.process temp stdin)) a ↔
      (n ≤ (commandPieces stdin).length ∧ ¬Stopped ((commandPieces stdin).take n)) ∧
        a = (group, app.port + net ((commandPieces stdin).take n)) := by
  have haddress : ((app.calls temp stdin n).filterMap v.address).getLast? =
      some (group, app.port + net ((commandPieces stdin).take n)) := by
    rw [filterMap_address (hv temp stdin n), h.calls_eq, machineCalls, ports_config, ports_start,
      List.getLast?_map, getLast?_ports, after_eq_add_net hport]
    rfl
  have hstarts : ((app.calls temp stdin n).filterMap v.starts).getLast? =
      some (started ((commandPieces stdin).take n)) := by
    rw [filterMap_starts (hv temp stdin n), h.calls_eq, machineCalls,
      List.filterMap_cons_none rfl,
      List.filterMap_cons_some (show Control.starts .start = some true from rfl),
      List.getLast?_cons, getLast?_starts_reactions]
    rfl
  rw [asksFor_iterate_iff hstarts haddress, started_iff]

end

/-- The calls of a streamer name one group. -/
theorem follows_streamerCalls {app : ControlLoop StreamerCall} {lport : ℤ} {rhost : String}
    (hstart : ∀ c ∈ app.startUp, streamerView.Follows StreamerCall.control rhost c)
    (hstep : app.step = streamerStep lport rhost) (temp stdin : List Byte) (n : ℕ) :
    ∀ c ∈ app.calls temp stdin n, streamerView.Follows StreamerCall.control rhost c := by
  refine app.forall_calls temp stdin hstart (fun x got c hc => ?_) n
  rw [hstep, streamerStep] at hc
  dsimp only at hc
  split_ifs at hc <;> simp only [List.mem_cons, List.not_mem_nil, or_false] at hc
  all_goals
    rcases hc with rfl | rfl | rfl
    all_goals exact ⟨rfl, rfl⟩

/-- The calls of the receiver name one group for stream 0. -/
theorem follows_receiverCalls (temp stdin : List Byte) (n : ℕ) :
    ∀ c ∈ appReceiver.calls temp stdin n,
      (receiverView 0).Follows ReceiverCall.control mcast c := by
  refine appReceiver.forall_calls temp stdin (fun c hc => ?_) (fun x got c hc => ?_) n
  · simp only [appReceiver, List.mem_cons, List.not_mem_nil, or_false] at hc
    rcases hc with rfl | rfl | rfl | rfl | rfl <;> exact ⟨rfl, rfl⟩
  · simp only [appReceiver, receiverStep, adjustFrom] at hc
    split_ifs at hc <;> simp only [List.mem_cons, List.not_mem_nil, or_false] at hc
    all_goals
      rcases hc with rfl | rfl | rfl
      all_goals exact ⟨rfl, rfl⟩

/-- No command configures or stops stream 1 of the receiver. -/
theorem receiverView_one : ∀ x got, ∀ c ∈ (receiverStep x got).2,
    (receiverView 1).address c = none ∧ (receiverView 1).starts c ≠ some false := by
  intro x got c hc
  simp only [receiverStep, adjustFrom] at hc
  split_ifs at hc <;> simp only [List.mem_cons, List.not_mem_nil, or_false] at hc
  all_goals
    rcases hc with rfl | rfl | rfl
    all_goals simp [receiverView, ReceiverCall.address, ReceiverCall.starts]

/-- Stream 1 of the receiver is asked for where it was at start-up. -/
theorem asksFor_stream1_iff (temp stdin : List Byte) (n : ℕ) (a : String × ℤ) :
    (receiverView 1).AsksFor (appReceiver.round^[n] (appReceiver.process temp stdin)) a ↔
      n ≤ (commandPieces stdin).length ∧ a = (mcast2, 5321) := by
  have hloop : ∀ c ∈ appReceiver.loopCalls temp stdin n,
      (receiverView 1).address c = none ∧ (receiverView 1).starts c ≠ some false := by
    rw [appReceiver.loopCalls_eq]
    exact forall_mem_reactions _ receiverView_one _ _
  have haddress : ((appReceiver.calls temp stdin n).filterMap (receiverView 1).address).getLast? =
      some (mcast2, 5321) := by
    rw [ControlLoop.calls, List.filterMap_append,
      List.filterMap_eq_nil_iff.mpr fun c hc => (hloop c hc).1, List.append_nil]
    rfl
  have hstarts : ((appReceiver.calls temp stdin n).filterMap (receiverView 1).starts).getLast? =
      some true := by
    rw [ControlLoop.calls, List.filterMap_append, List.getLast?_append]
    cases hlast : ((appReceiver.loopCalls temp stdin n).filterMap
      (receiverView 1).starts).getLast? with
    | none => rfl
    | some b =>
      obtain ⟨c, hc, hb⟩ := List.mem_filterMap.mp (List.mem_of_getLast? hlast)
      cases b with
      | true => rfl
      | false => exact ((hloop c hc).2 hb).elim
  rw [asksFor_iterate_iff hstarts haddress, eq_self, and_true]

/-! ## Who meets whom -/

section

variable (stdin : Party → List Byte) (schedule : List Party)

/-- What a program has read, with one `fgets` a round. -/
def typed (p : Party) : List (List Byte) :=
  (commandPieces (stdin p)).take (schedule.count p)

/-- A program has not been at the end of its input. -/
def GoesOn (p : Party) : Prop :=
  schedule.count p ≤ (commandPieces (stdin p)).length

instance (p : Party) : Decidable (GoesOn stdin schedule p) :=
  inferInstanceAs (Decidable (_ ≤ _))

/-- The commands that a program has read have kept its port a port. -/
def PortsFit (p : Party) : Prop :=
  StaysPort p.port (typed stdin schedule p)

instance (p : Party) : Decidable (PortsFit stdin schedule p) :=
  inferInstanceAs (Decidable (StaysPort _ _))

/-- The stream that the commands of a program control is asked for. -/
def Asking (p : Party) : Prop :=
  GoesOn stdin schedule p ∧ ¬Stopped (typed stdin schedule p)

/-- Which stream of the receiver and which streamer ask for one address, in the state `s` after a
schedule. -/
structure TuningRight (s : ∀ p : Party, Process LoopState p.Call (List Byte)) : Prop where
  /-- Stream 0 and `app-streamer` do if both are asked for and have been moved by the same. -/
  first : Meet (receiverView 0) (s .receiver) streamerView (s .streamer) ↔
    Asking stdin schedule .receiver ∧ Asking stdin schedule .streamer ∧
      net (typed stdin schedule .receiver) = net (typed stdin schedule .streamer)
  /-- Stream 1 and `app-streamer-2` do if that one is asked for and has not been moved. -/
  second : Meet (receiverView 1) (s .receiver) streamerView (s .streamer2) ↔
    GoesOn stdin schedule .receiver ∧ Asking stdin schedule .streamer2 ∧
      net (typed stdin schedule .streamer2) = 0
  /-- No stream and the other streamer do. -/
  crossed : ¬Meet (receiverView 0) (s .receiver) streamerView (s .streamer2) ∧
    ¬Meet (receiverView 1) (s .receiver) streamerView (s .streamer)

variable (argv1 argv2 : List Byte) (temp : Party → List Byte)

theorem studio_apply (p : Party) : studio argv1 argv2 temp stdin schedule p =
    (p.app argv1 argv2).round^[schedule.count p]
      ((p.app argv1 argv2).process (temp p) (stdin p)) :=
  run_apply _ _ _ p

variable {stdin schedule}

theorem asksFor_receiver0_iff (hfit : PortsFit stdin schedule .receiver) (a : String × ℤ) :
    (receiverView 0).AsksFor (studio argv1 argv2 temp stdin schedule .receiver) a ↔
      Asking stdin schedule .receiver ∧
        a = ("239.1.0.1", 4321 + net (typed stdin schedule .receiver)) := by
  rw [studio_apply]
  exact controls_appReceiver.asksFor_iff follows_receiverCalls _ hfit a

theorem asksFor_receiver1_iff (a : String × ℤ) :
    (receiverView 1).AsksFor (studio argv1 argv2 temp stdin schedule .receiver) a ↔
      GoesOn stdin schedule .receiver ∧ a = ("239.1.0.2", 5321) := by
  rw [studio_apply]
  exact asksFor_stream1_iff _ _ _ a

theorem asksFor_streamer_iff (hfit : PortsFit stdin schedule .streamer) (a : String × ℤ) :
    streamerView.AsksFor (studio argv1 argv2 temp stdin schedule .streamer) a ↔
      Asking stdin schedule .streamer ∧
        a = ("239.1.0.1", 4321 + net (typed stdin schedule .streamer)) := by
  have hstart : ∀ c ∈ appStreamer.startUp,
      streamerView.Follows StreamerCall.control "239.1.0.1" c := by
    simp only [appStreamer, List.forall_mem_cons, List.not_mem_nil, false_imp_iff, implies_true,
      and_true]
    exact ⟨⟨rfl, rfl⟩, ⟨rfl, rfl⟩, ⟨rfl, rfl⟩, ⟨rfl, rfl⟩⟩
  rw [studio_apply]
  exact controls_appStreamer.asksFor_iff (follows_streamerCalls hstart rfl) _ hfit a

theorem asksFor_streamer2_iff (hfit : PortsFit stdin schedule .streamer2) (a : String × ℤ) :
    streamerView.AsksFor (studio argv1 argv2 temp stdin schedule .streamer2) a ↔
      Asking stdin schedule .streamer2 ∧
        a = ("239.1.0.2", 5321 + net (typed stdin schedule .streamer2)) := by
  have hstart : ∀ c ∈ (appStreamer2 argv1 argv2).startUp,
      streamerView.Follows StreamerCall.control "239.1.0.2" c := by
    simp only [appStreamer2, List.forall_mem_cons, List.not_mem_nil, false_imp_iff, implies_true,
      and_true]
    exact ⟨⟨rfl, rfl⟩, ⟨rfl, rfl⟩, ⟨rfl, rfl⟩, ⟨rfl, rfl⟩⟩
  rw [studio_apply]
  exact (controls_appStreamer2 argv1 argv2).asksFor_iff (follows_streamerCalls hstart rfl) _ hfit a

/-- Stream 0 and `app-streamer` ask for one address. -/
def Tuned (s : ∀ p : Party, Process LoopState p.Call (List Byte)) : Prop :=
  Meet (receiverView 0) (s .receiver) streamerView (s .streamer)

theorem tuned_iff (hrecv : PortsFit stdin schedule .receiver)
    (hsend : PortsFit stdin schedule .streamer) :
    Tuned (studio argv1 argv2 temp stdin schedule) ↔
      Asking stdin schedule .receiver ∧ Asking stdin schedule .streamer ∧
        net (typed stdin schedule .receiver) = net (typed stdin schedule .streamer) := by
  rw [Tuned, meet_iff (asksFor_receiver0_iff argv1 argv2 temp hrecv)
    (asksFor_streamer_iff argv1 argv2 temp hsend), Prod.mk.injEq, add_right_inj,
    eq_self, true_and]

/-- In whatever order the programs make their rounds, the streams and the streamers ask for what
they should. -/
theorem tuning_right (hfit : ∀ p, PortsFit stdin schedule p) :
    TuningRight stdin schedule (studio argv1 argv2 temp stdin schedule) := by
  have hgroup : ("239.1.0.1" : String) ≠ "239.1.0.2" := by decide
  have h0 := asksFor_receiver0_iff argv1 argv2 temp (hfit .receiver)
  have h1 : ∀ a, (receiverView 1).AsksFor (studio argv1 argv2 temp stdin schedule .receiver) a ↔
      GoesOn stdin schedule .receiver ∧ a = ("239.1.0.2", 5321) :=
    asksFor_receiver1_iff argv1 argv2 temp
  have hs := asksFor_streamer_iff argv1 argv2 temp (hfit .streamer)
  have hs2 := asksFor_streamer2_iff argv1 argv2 temp (hfit .streamer2)
  refine ⟨tuned_iff argv1 argv2 temp (hfit .receiver) (hfit .streamer), ?_, ?_, ?_⟩
  · rw [meet_iff h1 hs2, Prod.mk.injEq, left_eq_add]
    simp
  · rw [meet_iff h0 hs2, Prod.mk.injEq]
    exact fun h => hgroup h.2.2.1
  · rw [meet_iff h1 hs, Prod.mk.injEq]
    exact fun h => hgroup h.2.2.1.symm

end

/-- `app-streamer` is moved up twice, and the receiver down and up again. -/
def movedTwice : Party → List Byte
  | .streamer => bytes ['+', '\n', '+', '\n']
  | .receiver => bytes ['-', '\n', '+', '\n']
  | .streamer2 => []

theorem tuning_right_moved_twice :
    TuningRight movedTwice [.streamer, .receiver, .streamer, .receiver]
      (studio [] [] (fun _ => []) movedTwice [.streamer, .receiver, .streamer, .receiver]) := by
  refine tuning_right [] [] (fun _ => []) fun p => ?_
  cases p <;> decide

/-! ## Coming back -/

/-- A line of one key. -/
def keyLine (c : Char) : List Byte :=
  bytes [c, '\n']

theorem isLine_keyLine {c : Char} (hc : ch c ≠ newline) :
    Terminated (keyLine c) ∧ IsLine (keyLine c) := by
  have hnl : newline ∉ [ch c] := by simpa using Ne.symm hc
  exact ⟨⟨[ch c], hnl, rfl⟩, isLine_append hnl (Or.inr rfl) (by simp)⟩

/-- Lines of one key are read one by one. -/
theorem commandPieces_keyLines : ∀ {cs : List Char}, (∀ c ∈ cs, ch c ≠ newline) →
    commandPieces (cs.map keyLine).flatten = cs.map keyLine
  | [], _ => rfl
  | c :: cs, h => by
    rw [List.forall_mem_cons] at h
    obtain ⟨hterm, hline⟩ := isLine_keyLine h.1
    rw [List.map_cons, List.flatten_cons, commandPieces, pieces_append _ hterm,
      pieces_of_isLine _ hline (show 2 < tempSize by decide), ← commandPieces,
      commandPieces_keyLines h.2, List.singleton_append]

theorem net_replicate (l : List Byte) : ∀ k : ℕ,
    net (List.replicate k l) = k * (Command.ofLine l).shift
  | 0 => by simp
  | k + 1 => by
    rw [List.replicate_succ, net_cons, net_replicate l k]
    push_cast
    ring

theorem StaysPort.isPort {p : ℤ} {ls : List (List Byte)} (h : StaysPort p ls) :
    IsPort (p + net ls) :=
  h ls (List.prefix_refl ls)

/-- The port stays a port over some lines and others if it does over the first, and over the
others from there. -/
theorem StaysPort.append {p : ℤ} {ls ms : List (List Byte)} (hls : StaysPort p ls)
    (hms : StaysPort (p + net ls) ms) : StaysPort p (ls ++ ms) := by
  intro ps hps
  rcases List.prefix_or_prefix_of_prefix hps (List.prefix_append ls ms) with hp | ⟨qs, rfl⟩
  · exact hls ps hp
  · rw [net_append, ← add_assoc]
    exact hms qs ((List.prefix_append_right_inj ls).mp hps)

/-- The port stays a port over copies of one line if it is one in the end. -/
theorem staysPort_replicate {p : ℤ} {l : List Byte} {k : ℕ} (hp : IsPort p)
    (hk : IsPort (p + net (List.replicate k l))) : StaysPort p (List.replicate k l) := by
  intro ps hps
  obtain ⟨hlen, hrep⟩ := List.prefix_replicate_iff.mp hps
  rw [net_replicate] at hk
  rw [hrep, net_replicate]
  have hshift := abs_shift_le (Command.ofLine l)
  obtain h | h | h : (Command.ofLine l).shift = -1 ∨ (Command.ofLine l).shift = 0 ∨
      (Command.ofLine l).shift = 1 := by omega
  all_goals
    rw [h] at hk ⊢
    unfold IsPort at *
    omega

/-- What to type to move the port by `d` and start the stream. -/
def retuneKeys (d : ℤ) : List Char :=
  List.replicate d.natAbs (if 0 ≤ d then '+' else '-') ++ ['r']

theorem retuneKeys_ne_newline (d : ℤ) : ∀ c ∈ retuneKeys d, ch c ≠ newline := by
  intro c hc
  rcases List.mem_append.mp hc with hc | hc
  · rw [List.eq_of_mem_replicate hc]
    split_ifs <;> decide
  · rw [List.mem_singleton.mp hc]
    decide

/-- The lines typed are moves and a start. -/
theorem retuneLines_eq (d : ℤ) : (retuneKeys d).map keyLine =
    List.replicate d.natAbs (keyLine (if 0 ≤ d then '+' else '-')) ++ [keyLine 'r'] := by
  rw [retuneKeys, List.map_append, List.map_replicate, List.map_singleton]

theorem net_moves (d : ℤ) :
    net (List.replicate d.natAbs (keyLine (if 0 ≤ d then '+' else '-'))) = d := by
  rw [net_replicate]
  split_ifs with hd
  · rw [show (Command.ofLine (keyLine '+')).shift = 1 from rfl]
    omega
  · rw [show (Command.ofLine (keyLine '-')).shift = -1 from rfl]
    omega

theorem net_retuneLines (d : ℤ) : net ((retuneKeys d).map keyLine) = d := by
  rw [retuneLines_eq, net_append, net_moves, show net [keyLine 'r'] = 0 from rfl, add_zero]

/-- On the way from a port to a port the port stays one. -/
theorem staysPort_retuneLines {p d : ℤ} (hp : IsPort p) (hd : IsPort (p + d)) :
    StaysPort p ((retuneKeys d).map keyLine) := by
  have hresume : StaysPort (p + d) (List.replicate 1 (keyLine 'r')) := by
    refine staysPort_replicate hd ?_
    rw [show net (List.replicate 1 (keyLine 'r')) = 0 from rfl, add_zero]
    exact hd
  rw [retuneLines_eq]
  refine (staysPort_replicate hp (by rwa [net_moves])).append ?_
  rwa [net_moves]

/-- A stream is started after its start. -/
theorem started_append_retuneLines (ls : List (List Byte)) (d : ℤ) :
    started (ls ++ (retuneKeys d).map keyLine) = true := by
  rw [retuneLines_eq, started, List.filterMap_append, List.filterMap_append, ← List.append_assoc,
    List.getLast?_append]
  rfl

/-- The texts with more typed at one program. -/
def typeAt (p : Party) (t : List Byte) (stdin : Party → List Byte) : Party → List Byte :=
  Function.update stdin p (stdin p ++ t)

/-- More typed at one program and read to its end. The others have read what they had. -/
theorem exists_read_all {stdin : Party → List Byte} {schedule : List Party} {p : Party}
    (hgo : GoesOn stdin schedule p) {t : List Byte} {more : List (List Byte)}
    (ht : commandPieces (stdin p ++ t) = commandPieces (stdin p) ++ more) :
    ∃ m, (GoesOn (typeAt p t stdin) (schedule ++ List.replicate m p) p ∧
        typed (typeAt p t stdin) (schedule ++ List.replicate m p) p =
          commandPieces (stdin p) ++ more) ∧
      ∀ q ≠ p, (GoesOn (typeAt p t stdin) (schedule ++ List.replicate m p) q ↔
          GoesOn stdin schedule q) ∧
        typed (typeAt p t stdin) (schedule ++ List.replicate m p) q = typed stdin schedule q := by
  obtain ⟨m, hm⟩ : ∃ m, (commandPieces (stdin p ++ t)).length = schedule.count p + m := by
    refine Nat.exists_eq_add_of_le ?_
    rw [ht, List.length_append]
    exact hgo.trans (Nat.le_add_right _ _)
  refine ⟨m, ?_, fun q hq => ?_⟩
  · have hstdin : typeAt p t stdin p = stdin p ++ t := Function.update_self ..
    have hcount : (schedule ++ List.replicate m p).count p =
        (commandPieces (stdin p ++ t)).length := by
      rw [List.count_append, List.count_replicate_self, hm]
    rw [GoesOn, typed, hcount, hstdin]
    exact ⟨le_refl _, by rw [List.take_length, ht]⟩
  · have hstdin : typeAt p t stdin q = stdin q := Function.update_of_ne hq ..
    have hcount : (schedule ++ List.replicate m p).count q = schedule.count q := by
      rw [List.count_append, List.count_replicate, if_neg (by simpa using Ne.symm hq), add_zero]
    rw [GoesOn, GoesOn, typed, typed, hcount, hstdin]
    exact ⟨Iff.rfl, rfl⟩

end PjmediaApps
