import PjmediaApps.PortControl

/-!
# The port law of the control loops

`PortLaw` is what the control loops are for : after each line the port last handed over is
the initial one moved by the lines that start with `+` and `-`, every port handed over is a
port, and the stream is configured between a stop and a start.

The brackets always hold. The rest holds exactly on balanced inputs (`portLaw_iff`) : a line
of ten or more bytes must not move the port by what follows its first nine bytes, and the
moves must not leave the range of ports, which the loops do not check.
-/

namespace PjmediaApps

open Interactive ByteStream CString

/-- What a program should do about the port on a content of stdin. -/
structure PortLaw {C : Type} (app : ControlLoop C) (control : C → Option Control)
    (temp stdin : List Byte) : Prop where
  /-- When the lines `ls` have been read, the port last handed over is the initial port moved
  by `ls`. -/
  counted : ∀ n ls, lines stdin = ls ++ lines (app.run temp stdin n).rest →
    (ports ((app.calls temp stdin n).filterMap control)).getLast? = some (app.port + net ls)
  isPort : ∀ n, ∀ p ∈ ports ((app.calls temp stdin n).filterMap control), IsPort p
  bracketed : ∀ n, Bracketed ((app.loopCalls temp stdin n).filterMap control)

/-- The commands in the tails of the lines cancel out line by line, and those read so far
never move the port out of range. -/
structure Balanced (port : ℤ) (stdin : List Byte) : Prop where
  tails : ∀ l ∈ lines stdin, net (commandPieces l).tail = 0
  inRange : ∀ ps, ps <+: commandPieces stdin → IsPort (port + net ps)

/-! ## Lines and rounds -/

section

variable {C : Type} (app : ControlLoop C) (temp stdin : List Byte)

/-- The rounds that have read the lines `ls` have read their pieces. -/
theorem take_pieces_of_lines {n : ℕ} {ls : List (List Byte)}
    (h : lines stdin = ls ++ lines (app.run temp stdin n).rest) :
    (commandPieces stdin).take n = ls.flatMap commandPieces := by
  have hsplit : (commandPieces stdin).take n ++ (commandPieces stdin).drop n =
      ls.flatMap commandPieces ++ (commandPieces stdin).drop n := by
    rw [List.take_append_drop, ← app.pieces_run_rest temp stdin n, commandPieces,
      pieces_eq_flatMap _ stdin, h, List.flatMap_append, ← pieces_eq_flatMap]
  exact List.append_cancel_right hsplit

/-- Some number of rounds reads the lines `ls` that stdin starts with. -/
theorem exists_rounds_of_lines {ls ls' : List (List Byte)} (h : lines stdin = ls ++ ls') :
    ∃ n, lines stdin = ls ++ lines (app.run temp stdin n).rest := by
  refine ⟨(ls.flatMap commandPieces).length, ?_⟩
  have hrest := app.pieces_run_rest temp stdin (ls.flatMap commandPieces).length
  rw [commandPieces, commandPieces, pieces_eq_flatMap _ stdin, h, List.flatMap_append,
    List.drop_left] at hrest
  have hflat := congrArg List.flatten hrest
  rw [flatten_pieces, flatten_flatMap_pieces] at hflat
  rw [hflat, lines_flatten_of_eq_append h, h]

end

/-! ## The law -/

/-- A line counts like its first piece. -/
theorem net_pieces {l : List Byte} (hl : l ≠ []) :
    net (commandPieces l) = net [l] + net (commandPieces l).tail := by
  obtain ⟨b, t, rfl⟩ := List.exists_cons_of_ne_nil hl
  obtain ⟨m, ps, hps⟩ := exists_pieces_eq_cons two_le_tempSize b t
  rw [commandPieces, hps, net_cons, net_singleton, List.tail_cons]
  rfl

/-- If the tails of the lines cancel out, pieces count like lines. -/
theorem net_flatMap_pieces : ∀ {ls : List (List Byte)}, (∀ l ∈ ls, l ≠ []) →
    (∀ l ∈ ls, net (commandPieces l).tail = 0) → net (ls.flatMap commandPieces) = net ls
  | [], _, _ => rfl
  | l :: ls, hne, h => by
    simp only [List.forall_mem_cons] at hne h
    rw [List.flatMap_cons, net_append, net_flatMap_pieces hne.2 h.2, net_pieces hne.1, h.1,
      add_zero, ← net_append, List.singleton_append]

section

variable {C : Type} {app : ControlLoop C} {control : C → Option Control}
  (h : Controls app control)

include h

/-- The port last handed over in `n` rounds, if the moves stay in range. -/
theorem Controls.getLast?_ports_eq {temp stdin : List Byte}
    (hrange : ∀ ps, ps <+: commandPieces stdin → IsPort (app.port + net ps)) (n : ℕ) :
    (ports ((app.calls temp stdin n).filterMap control)).getLast? =
      some (app.port + net ((commandPieces stdin).take n)) := by
  rw [h.calls_eq, machineCalls, ports_config, ports_start, getLast?_ports, after_eq_add_net]
  exact fun qs hqs => hrange qs (hqs.trans (List.take_prefix _ _))

theorem Controls.forall_isPort_iff (hport : IsPort app.port) (temp stdin : List Byte) :
    (∀ n, ∀ p ∈ ports ((app.calls temp stdin n).filterMap control), IsPort p) ↔
      ∀ ps, ps <+: commandPieces stdin → IsPort (app.port + net ps) := by
  have hn : ∀ n, (∀ p ∈ ports ((app.calls temp stdin n).filterMap control), IsPort p) ↔
      ∀ ps, ps <+: (commandPieces stdin).take n → IsPort (app.port + net ps) := by
    intro n
    rw [h.calls_eq, machineCalls, ports_config, ports_start, List.forall_mem_cons,
      forall_ports_iff hport]
    exact and_iff_right hport
  refine ⟨fun hall ps hps => ?_, fun hall n => ?_⟩
  · have := (hn (commandPieces stdin).length).mp (hall _)
    rw [List.take_length] at this
    exact this ps hps
  · exact (hn n).mpr fun ps hps => hall ps (hps.trans (List.take_prefix _ _))

/-- A program that controls its stream keeps the port law exactly on balanced inputs. -/
theorem Controls.portLaw_iff_balanced (hport : IsPort app.port) (temp stdin : List Byte) :
    PortLaw app control temp stdin ↔ Balanced app.port stdin := by
  refine ⟨fun hlaw => ?_, fun hbal => ?_⟩
  · have hrange := (h.forall_isPort_iff hport temp stdin).mp hlaw.isPort
    -- the lines read so far have counted like their pieces
    have hcount : ∀ ls ls', lines stdin = ls ++ ls' → net (ls.flatMap commandPieces) = net ls := by
      intro ls ls' hls
      obtain ⟨n, hn⟩ := exists_rounds_of_lines app temp stdin hls
      have hlast := hlaw.counted n ls hn
      rw [h.getLast?_ports_eq hrange, take_pieces_of_lines app temp stdin hn] at hlast
      have := Option.some.inj hlast
      omega
    refine ⟨fun l hl => ?_, hrange⟩
    obtain ⟨ls, ls', hls⟩ := List.append_of_mem hl
    have hbefore := hcount ls (l :: ls') hls
    have hafter := hcount (ls ++ [l]) ls' (by rw [hls, List.append_assoc, List.singleton_append])
    rw [List.flatMap_append, List.flatMap_singleton, net_append, net_append, hbefore,
      net_pieces (ne_nil_of_mem_lines hl)] at hafter
    omega
  · refine ⟨fun n ls hn => ?_, (h.forall_isPort_iff hport temp stdin).mpr hbal.inRange, fun n => ?_⟩
    · have hmem : ∀ l ∈ ls, l ∈ lines stdin := by
        intro l hl
        rw [hn]
        exact List.mem_append_left _ hl
      rw [h.getLast?_ports_eq hbal.inRange, take_pieces_of_lines app temp stdin hn,
        net_flatMap_pieces (fun l hl => ne_nil_of_mem_lines (hmem l hl))
          fun l hl => hbal.tails l (hmem l hl)]
    · rw [h.loop_eq]
      exact bracketed_reactions _ _

end

/-- The three programs keep the port law exactly on balanced inputs. -/
theorem portLaw_iff (argv1 argv2 temp stdin : List Byte) :
    (PortLaw appReceiver ReceiverCall.control temp stdin ↔ Balanced 4321 stdin) ∧
      (PortLaw appStreamer StreamerCall.control temp stdin ↔ Balanced 4321 stdin) ∧
      (PortLaw (appStreamer2 argv1 argv2) StreamerCall.control temp stdin ↔ Balanced 5321 stdin) :=
  ⟨controls_appReceiver.portLaw_iff_balanced (by decide) temp stdin,
    controls_appStreamer.portLaw_iff_balanced (by decide) temp stdin,
    (controls_appStreamer2 argv1 argv2).portLaw_iff_balanced (show IsPort 5321 by decide)
      temp stdin⟩

/-- A line of eleven bytes that starts with `r` moves the port by its tenth. -/
theorem not_portLaw_long_line : ¬PortLaw appReceiver ReceiverCall.control (List.replicate 10 0)
    (bytes ['r', 'e', 's', 'u', 'm', 'e', ' ', ' ', ' ', '+', '\n']) := by
  intro h
  exact absurd (h.counted 2 [bytes ['r', 'e', 's', 'u', 'm', 'e', ' ', ' ', ' ', '+', '\n']]
    (by decide)) (by decide)

end PjmediaApps
