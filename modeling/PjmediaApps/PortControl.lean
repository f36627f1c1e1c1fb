import PjmediaApps.ControlApps
import Mathlib.Algebra.Order.Group.Int
import Mathlib.Tactic.Ring

/-!
# The port of a controlled stream

What the three control loops do about the port of their stream is one machine,
`controlStep`, on a port and a command; `Controls` says that a program behaves like it, and
the three do (`controls_appReceiver`, `controls_appStreamer`, `controls_appStreamer2`).

A command is the first byte of what one `fgets` stores. A line of ten or more bytes is
several commands, and the port is not checked against the range of ports. A program goes
by lines and hands over ports only exactly if the commands in the tails of every line
cancel out and the balance of `+` and `-` stays in range (`portLaw_iff`).
-/

namespace PjmediaApps

open Interactive ByteStream CString

/-! ## The machine -/

/-- What a call does to the controlled stream. -/
inductive Control
  | stop
  | config (port : ℤ)
  | start
  deriving DecidableEq, Repr

/-- What the first byte of a line asks for. -/
inductive Command
  | stop
  | resume
  | move (up : Bool)
  | other
  deriving DecidableEq, Repr

/-- The command of a line. -/
def Command.ofLine (l : List Byte) : Command :=
  let c := l.headD 0
  if c = ch 's' ∨ c = ch 'S' then .stop
  else if c = ch 'r' ∨ c = ch 'R' then .resume
  else if c = ch '+' then .move true
  else if c = ch '-' then .move false
  else .other

/-- By how much a command changes the port. -/
def Command.shift : Command → ℤ
  | .move up => if up then 1 else -1
  | _ => 0

/-- The port after a command, and what is done to the stream. -/
def controlStep (port : ℤ) : Command → ℤ × List Control
  | .stop => (port, [.stop])
  | .resume => (port, [.start])
  | .move up =>
    let port' := toInt32 (port + (Command.move up).shift)
    (port', [.stop, .config port', .start])
  | .other => (port, [])

/-- What the machine does from start-up on. -/
def machineCalls (port : ℤ) (cs : List Command) : List Control :=
  .config port :: .start :: (reactions controlStep port cs).flatten

/-- A program controls a stream, as far as `control` shows it, like the machine. -/
structure Controls {C : Type} (app : ControlLoop C) (control : C → Option Control) : Prop where
  startUp : app.startUp.filterMap control = [.config app.port, .start]
  simulates : Simulates app.step controlStep LoopState.port Command.ofLine control

/-- What a call of `app-receiver` does to its stream 0. -/
def ReceiverCall.control : ReceiverCall → Option Control
  | .configStream _ lport idx => if idx = 0 then some (.config lport) else none
  | .start => some .start
  | .stop idx => if idx = 0 then some .stop else none
  | _ => none

/-- What a call of a streamer does to its stream. -/
def StreamerCall.control : StreamerCall → Option Control
  | .configStream _ _ rport => some (.config rport)
  | .start => some .start
  | .stop => some .stop
  | _ => none

theorem simulates_receiverStep :
    Simulates receiverStep controlStep LoopState.port Command.ofLine ReceiverCall.control := by
  -- the branches that do nothing to the stream fall together
  refine ⟨fun x got => ?_, fun x got => ?_⟩
  · simp only [receiverStep, Command.ofLine, headD_store, apply_ite Prod.fst,
      apply_ite LoopState.port, apply_ite (controlStep x.port), ite_self]
    rfl
  · simp only [receiverStep, Command.ofLine, headD_store, apply_ite Prod.snd,
      apply_ite (List.filterMap ReceiverCall.control), apply_ite (controlStep x.port),
      List.filterMap_cons, List.filterMap_nil, ReceiverCall.control, adjustFrom, ite_self]
    rfl

theorem simulates_streamerStep (lport : ℤ) (rhost : String) :
    Simulates (streamerStep lport rhost) controlStep LoopState.port Command.ofLine
      StreamerCall.control := by
  refine ⟨fun x got => ?_, fun x got => ?_⟩
  · simp only [streamerStep, Command.ofLine, headD_store, apply_ite Prod.fst,
      apply_ite LoopState.port, apply_ite (controlStep x.port), ite_self]
    rfl
  · simp only [streamerStep, Command.ofLine, headD_store, apply_ite Prod.snd,
      apply_ite (List.filterMap StreamerCall.control), apply_ite (controlStep x.port),
      List.filterMap_cons, List.filterMap_nil, StreamerCall.control, ite_self]
    rfl

theorem controls_appReceiver : Controls appReceiver ReceiverCall.control :=
  ⟨rfl, simulates_receiverStep⟩

theorem controls_appStreamer : Controls appStreamer StreamerCall.control :=
  ⟨rfl, simulates_streamerStep _ _⟩

theorem controls_appStreamer2 (argv1 argv2 : List Byte) :
    Controls (appStreamer2 argv1 argv2) StreamerCall.control :=
  ⟨rfl, simulates_streamerStep _ _⟩

section

variable {C : Type} {app : ControlLoop C} {control : C → Option Control}
  (h : Controls app control)

include h

/-- What `n` rounds of the loop do to the stream. -/
theorem Controls.loop_eq (temp stdin : List Byte) (n : ℕ) :
    (app.loopCalls temp stdin n).filterMap control =
      (reactions controlStep app.port
        (((commandPieces stdin).take n).map Command.ofLine)).flatten := by
  rw [app.loopCalls_eq, h.simulates.outputs_eq]

/-- What the program does to the stream up to the end of `n` rounds. -/
theorem Controls.calls_eq (temp stdin : List Byte) (n : ℕ) :
    (app.calls temp stdin n).filterMap control =
      machineCalls app.port (((commandPieces stdin).take n).map Command.ofLine) := by
  rw [ControlLoop.calls, List.filterMap_append, h.startUp, h.loop_eq]
  rfl

/-- The port after `n` rounds. -/
theorem Controls.port_eq {temp stdin : List Byte} {n : ℕ} {x : LoopState}
    (hx : (app.run temp stdin n).result = some x) :
    x.port = after controlStep app.port (((commandPieces stdin).take n).map Command.ofLine) := by
  rw [app.run_result] at hx
  split_ifs at hx
  cases hx
  exact h.simulates.after_eq _ _

end

/-! ## Ports -/

/-- The ports handed over, in order. -/
def ports (cs : List Control) : List ℤ :=
  cs.filterMap fun
    | .config p => some p
    | _ => none

@[simp] theorem ports_nil : ports [] = [] :=
  rfl

@[simp] theorem ports_append (cs ds : List Control) : ports (cs ++ ds) = ports cs ++ ports ds :=
  List.filterMap_append

@[simp] theorem ports_config (p : ℤ) (cs : List Control) :
    ports (.config p :: cs) = p :: ports cs :=
  rfl

@[simp] theorem ports_stop (cs : List Control) : ports (.stop :: cs) = ports cs :=
  rfl

@[simp] theorem ports_start (cs : List Control) : ports (.start :: cs) = ports cs :=
  rfl

/-- A command that does not move the port hands over none. -/
theorem controlStep_of_shift_eq_zero {c : Command} (h : c.shift = 0) (p : ℤ) :
    (controlStep p c).1 = p ∧ ports (controlStep p c).2 = [] := by
  cases c with
  | move up => cases up <;> simp [Command.shift] at h
  | stop => exact ⟨rfl, rfl⟩
  | resume => exact ⟨rfl, rfl⟩
  | other => exact ⟨rfl, rfl⟩

/-- A command that moves the port hands over the new one. -/
theorem controlStep_of_shift_ne_zero {c : Command} (h : c.shift ≠ 0) (p : ℤ) :
    controlStep p c = (toInt32 (p + c.shift),
      [.stop, .config (toInt32 (p + c.shift)), .start]) := by
  cases c with
  | move up => rfl
  | stop => exact (h rfl).elim
  | resume => exact (h rfl).elim
  | other => exact (h rfl).elim

theorem abs_shift_le (c : Command) : -1 ≤ c.shift ∧ c.shift ≤ 1 := by
  cases c with
  | move up => cases up <;> decide
  | stop => decide
  | resume => decide
  | other => decide

/-- A command changes the port exactly if it is a move. -/
theorem controlStep_eq_self_iff (p : ℤ) (c : Command) : (controlStep p c).1 = p ↔ c.shift = 0 := by
  refine ⟨fun h => ?_, fun h => (controlStep_of_shift_eq_zero h p).1⟩
  by_contra hc
  have := abs_shift_le c
  rw [controlStep_of_shift_ne_zero hc, toInt32] at h
  omega

/-- A port number. -/
def IsPort (p : ℤ) : Prop :=
  1 ≤ p ∧ p ≤ 65535

instance (p : ℤ) : Decidable (IsPort p) :=
  inferInstanceAs (Decidable (_ ∧ _))

/-- A port moves without wrapping. -/
theorem toInt32_add_shift {p : ℤ} (hp : IsPort p) (c : Command) :
    toInt32 (p + c.shift) = p + c.shift := by
  have := abs_shift_le c
  unfold IsPort at hp
  exact toInt32_of_mem (by omega) (by omega)

/-- The lines that start with `+`, less those that start with `-`. -/
def net (ls : List (List Byte)) : ℤ :=
  (ls.countP fun l => l.head? = some (ch '+')) - (ls.countP fun l => l.head? = some (ch '-'))

@[simp] theorem net_nil : net [] = 0 :=
  rfl

@[simp] theorem net_append (ls ls' : List (List Byte)) : net (ls ++ ls') = net ls + net ls' := by
  simp only [net, List.countP_append, Nat.cast_add]
  ring

/-- A line counts by what its command does to the port. -/
theorem net_singleton (l : List Byte) : net [l] = (Command.ofLine l).shift := by
  cases l with
  | nil => rfl
  | cons b l =>
    by_cases hp : b = ch '+'
    · subst hp
      rfl
    · by_cases hm : b = ch '-'
      · subst hm
        rfl
      · have hshift : (Command.ofLine (b :: l)).shift = 0 := by
          simp only [Command.ofLine, List.headD_cons, hp, hm, if_false]
          split_ifs <;> rfl
        simp [net, hp, hm, hshift]

theorem net_cons (l : List Byte) (ls : List (List Byte)) :
    net (l :: ls) = (Command.ofLine l).shift + net ls := by
  rw [← List.singleton_append, net_append, net_singleton]

/-- In range, a command moves the port by its shift. -/
theorem fst_controlStep {p : ℤ} (hp : IsPort p) (c : Command) :
    (controlStep p c).1 = p + c.shift := by
  by_cases hc : c.shift = 0
  · rw [(controlStep_of_shift_eq_zero hc p).1, hc, add_zero]
  · rw [controlStep_of_shift_ne_zero hc, toInt32_add_shift hp]

/-- The balance stays in range over a line and others if it does over the others from the
port after the line. -/
theorem forall_prefix_cons {p : ℤ} {l : List Byte} {ps : List (List Byte)} :
    (∀ qs, qs <+: l :: ps → IsPort (p + net qs)) ↔
      IsPort p ∧ ∀ qs, qs <+: ps → IsPort (p + (Command.ofLine l).shift + net qs) := by
  refine ⟨fun hall => ⟨?_, fun qs hqs => ?_⟩, fun ⟨hp, hall⟩ qs hqs => ?_⟩
  · simpa using hall [] List.nil_prefix
  · have := hall (l :: qs) (List.cons_prefix_cons.mpr ⟨rfl, hqs⟩)
    rwa [net_cons, ← add_assoc] at this
  · cases qs with
    | nil => simpa using hp
    | cons m qs =>
      obtain ⟨rfl, hqs'⟩ := List.cons_prefix_cons.mp hqs
      rw [net_cons, ← add_assoc]
      exact hall qs hqs'

/-- Every port handed over is a port exactly if the balance of the commands stays in the
range of ports, and then the port is never wrapped. -/
theorem forall_ports_iff : ∀ {p : ℤ} {ps : List (List Byte)}, IsPort p →
    ((∀ q ∈ ports (reactions controlStep p (ps.map Command.ofLine)).flatten, IsPort q) ↔
      ∀ qs, qs <+: ps → IsPort (p + net qs))
  | p, [], hp => by simpa using hp
  | p, l :: ps, hp => by
    rw [forall_prefix_cons, and_iff_right hp, List.map_cons, reactions_cons, List.flatten_cons,
      ports_append, fst_controlStep hp]
    by_cases hc : (Command.ofLine l).shift = 0
    · rw [(controlStep_of_shift_eq_zero hc p).2, hc, List.nil_append, add_zero]
      exact forall_ports_iff hp
    · rw [controlStep_of_shift_ne_zero hc, toInt32_add_shift hp]
      simp only [ports_stop, ports_config, ports_start, ports_nil, List.cons_append,
        List.nil_append, List.forall_mem_cons]
      refine ⟨fun ⟨hq, hrest⟩ => ?_, fun hall => ?_⟩
      · exact (forall_ports_iff hq).mp hrest
      · have hq : IsPort (p + (Command.ofLine l).shift) := by
          simpa using hall [] List.nil_prefix
        exact ⟨hq, (forall_ports_iff hq).mpr hall⟩

/-- In range, the port is what the balance of the commands says. -/
theorem after_eq_add_net : ∀ {p : ℤ} {ps : List (List Byte)},
    (∀ qs, qs <+: ps → IsPort (p + net qs)) →
      after controlStep p (ps.map Command.ofLine) = p + net ps
  | p, [], _ => by simp
  | p, l :: ps, h => by
    obtain ⟨hp, hrest⟩ := forall_prefix_cons.mp h
    rw [List.map_cons, after_cons, fst_controlStep hp, net_cons, ← add_assoc]
    exact after_eq_add_net hrest

/-- The last port handed over is the port of the loop. -/
theorem getLast?_ports : ∀ (p : ℤ) (cs : List Command),
    (p :: ports (reactions controlStep p cs).flatten).getLast? = some (after controlStep p cs)
  | p, [] => rfl
  | p, c :: cs => by
    have ih := getLast?_ports (controlStep p c).1 cs
    rw [reactions_cons, List.flatten_cons, ports_append, after_cons]
    by_cases hc : c.shift = 0
    · obtain ⟨hsame, hnone⟩ := controlStep_of_shift_eq_zero hc p
      rw [hsame] at ih ⊢
      rw [hnone, List.nil_append, ih]
    · rw [controlStep_of_shift_ne_zero hc] at ih ⊢
      exact (List.getLast?_cons_cons ..).trans ih

/-! ## Brackets -/

/-- Every configuration comes right after a stop and right before a start. -/
def Bracketed (cs : List Control) : Prop :=
  ∀ pre p post, cs = pre ++ .config p :: post →
    pre.getLast? = some .stop ∧ post.head? = some .start

theorem Bracketed.append {cs ds : List Control} (hc : Bracketed cs) (hd : Bracketed ds) :
    Bracketed (cs ++ ds) := by
  intro pre p post h
  rcases List.append_eq_append_iff.mp h with ⟨as, rfl, rfl⟩ | ⟨as, rfl, has⟩
  · obtain ⟨hpre, hpost⟩ := hd as p post rfl
    exact ⟨by rw [List.getLast?_append, hpre, Option.some_or], hpost⟩
  · cases as with
    | nil =>
      obtain ⟨hpre, hpost⟩ := hd [] p post has.symm
      simp at hpre
    | cons c as =>
      rw [List.cons_append] at has
      obtain ⟨rfl, rfl⟩ := List.cons.inj has
      obtain ⟨hpre, hpost⟩ := hc pre p as rfl
      exact ⟨hpre, by rw [List.head?_append, hpost, Option.some_or]⟩

theorem bracketed_controlStep (p : ℤ) (c : Command) : Bracketed (controlStep p c).2 := by
  intro pre q post h
  by_cases hc : c.shift = 0
  · have hports := congrArg ports h
    rw [(controlStep_of_shift_eq_zero hc p).2, ports_append, ports_config] at hports
    simp at hports
  · rw [controlStep_of_shift_ne_zero hc] at h
    rcases pre with _ | ⟨a, _ | ⟨b, _ | ⟨d, pre⟩⟩⟩ <;> simp at h
    obtain ⟨rfl, -, rfl⟩ := h
    exact ⟨rfl, rfl⟩

theorem bracketed_reactions : ∀ (p : ℤ) (cs : List Command),
    Bracketed (reactions controlStep p cs).flatten
  | p, [] => by
    intro pre q post h
    simp at h
  | p, c :: cs => by
    rw [reactions_cons, List.flatten_cons]
    exact (bracketed_controlStep p c).append (bracketed_reactions _ cs)

end PjmediaApps
