import PjmediaApps.CString

/-!
# The control loops of the endpoint programs

`app-receiver`, `app-streamer` and `app-streamer-2` set up an endpoint, then read commands with
`fgets` into an array of ten bytes and switch on its first byte. The port of one stream, the
receiver's local port or the streamer's remote port, is a variable of the loop that `+` and
`-` change before they stop the endpoint, configure the stream and start the endpoint.

The functions of the endpoint are not part of the repository, so a program is the calls it
makes on them. Their statuses are dropped by all three loops.
-/

namespace PjmediaApps

open Interactive ByteStream CString

/-! ## Calls -/

/-- A call on the receiver. -/
inductive ReceiverCall
  | init (nchans : ℤ)
  | configDevSink (idx : ℤ)
  | configStream (mcast : String) (lport idx : ℤ)
  | start
  | stop (idx : ℤ)
  | updateStats
  /-- The increment is a `float`; here it is a whole number. -/
  | adjustVolume (idx incremental : ℤ)
  | dumpStreams
  deriving DecidableEq, Repr

/-- A call on the streamer. -/
inductive StreamerCall
  | init
  | configStream (lport : ℤ) (rhost : String) (rport : ℤ)
  | configFileSource (file : List Byte)
  | configDevSource (idx : ℤ)
  | start
  | stop
  | updateStats
  deriving DecidableEq, Repr

/-! ## Programs -/

/-- `sizeof(temp)`. -/
def tempSize : ℕ := 10

theorem two_le_tempSize : 2 ≤ tempSize := by
  decide

/-- Standard input as `fgets` reads it into `temp`. -/
abbrev commandSource : Source (List Byte) (List Byte) :=
  fgetsSource tempSize two_le_tempSize

/-- What successive rounds of a loop read. -/
abbrev commandPieces (stdin : List Byte) : List (List Byte) :=
  pieces two_le_tempSize stdin

/-- The variables of a control loop : the port, and the array `temp`. -/
structure LoopState where
  port : ℤ
  temp : List Byte
  deriving DecidableEq, Repr

/-- A program with a control loop : the calls before the loop, the port it starts with, and
what it does with the bytes of one `fgets`. -/
structure ControlLoop (C : Type) where
  startUp : List C
  port : ℤ
  step : LoopState → List Byte → LoopState × List C

namespace ControlLoop

variable {C : Type} (app : ControlLoop C) (temp stdin : List Byte) (n : ℕ)

/-- At most `n` rounds of the loop. What `temp` holds before the first is not known. -/
def run : Outcome (List (Event (List Byte) Unit C)) (Option LoopState) (List Byte) :=
  rounds commandSource (reactive app.step) n ⟨app.port, temp⟩ stdin

/-- The calls of `n` rounds of the loop. -/
def loopCalls : List C :=
  (app.run temp stdin n).trace.flatMap actions

/-- The calls of the program up to the end of `n` rounds. -/
def calls : List C :=
  app.startUp ++ app.loopCalls temp stdin n

end ControlLoop

/-! ## The receiver -/

/-- The bits a number needs beyond the 24 of a `float`'s significand. -/
def excessBits (n : ℕ) : ℕ :=
  Nat.log2 n + 1 - 24

/-- The `float` an `unsigned` is converted to : the nearest whole number with 24 significant
bits, the even one of two. -/
def uintToFloat (n : ℕ) : ℕ :=
  let unit := 2 ^ excessBits n
  let q := n / unit
  let r := n % unit
  if 2 * r < unit ∨ 2 * r = unit ∧ q % 2 = 0 then q * unit else (q + 1) * unit

/-- `mcast`. -/
def mcast : String := "239.1.0.1"

/-- `mcast2`. -/
def mcast2 : String := "239.1.0.2"

/-- `case 'm'` : volume and index from fixed places of `temp`. A string that runs past the
end of the array ends there. -/
def adjustFrom (temp : List Byte) : ReceiverCall :=
  let vol := toUInt32 (atoi (cstr (temp.drop 4)))
  let vol := toUInt32 (toUInt32 (vol * 256) / 100 - 128)
  let idx := atoi (cstr (temp.drop 2))
  .adjustVolume idx (uintToFloat vol)

/-- The body of the loop of `app-receiver`. -/
def receiverStep (x : LoopState) (got : List Byte) : LoopState × List ReceiverCall :=
  let temp := store x.temp got
  let c := temp.headD 0
  if c = ch 's' ∨ c = ch 'S' then (⟨x.port, temp⟩, [.stop 0])
  else if c = ch 'r' ∨ c = ch 'R' then (⟨x.port, temp⟩, [.start])
  else if c = ch '+' then
    let lport := toInt32 (x.port + 1)
    (⟨lport, temp⟩, [.stop 0, .configStream mcast lport 0, .start])
  else if c = ch '-' then
    let lport := toInt32 (x.port - 1)
    (⟨lport, temp⟩, [.stop 0, .configStream mcast lport 0, .start])
  else if c = ch 'v' then (⟨x.port, temp⟩, [.updateStats])
  else if c = ch 'm' then (⟨x.port, temp⟩, [adjustFrom temp])
  else if c = ch 'd' then (⟨x.port, temp⟩, [.dumpStreams])
  else (⟨x.port, temp⟩, [])

theorem receiverStep_adjust {x : LoopState} {got : List Byte} (h : got.headD 0 = ch 'm') :
    (receiverStep x got).2 = [adjustFrom (store x.temp got)] := by
  simp only [receiverStep, headD_store, h]
  rfl

/-- The streams the receiver is initialised with. -/
def receiverStreams : ℕ := 3

/-- `main` of `app-receiver`. -/
def appReceiver : ControlLoop ReceiverCall where
  startUp := [.init receiverStreams, .configDevSink 2, .configStream mcast 4321 0,
    .configStream mcast2 5321 1, .start]
  port := 4321
  step := receiverStep

/-! ## The streamers -/

/-- The body of the loop of a streamer. -/
def streamerStep (lport : ℤ) (rhost : String) (x : LoopState) (got : List Byte) :
    LoopState × List StreamerCall :=
  let temp := store x.temp got
  let c := temp.headD 0
  if c = ch 's' ∨ c = ch 'S' then (⟨x.port, temp⟩, [.stop])
  else if c = ch 'r' ∨ c = ch 'R' then (⟨x.port, temp⟩, [.start])
  else if c = ch '+' then
    let rport := toInt32 (x.port + 1)
    (⟨rport, temp⟩, [.stop, .configStream lport rhost rport, .start])
  else if c = ch '-' then
    let rport := toInt32 (x.port - 1)
    (⟨rport, temp⟩, [.stop, .configStream lport rhost rport, .start])
  else if c = ch 'v' then (⟨x.port, temp⟩, [.updateStats])
  else (⟨x.port, temp⟩, [])

/-- `main` of `app-streamer`. -/
def appStreamer : ControlLoop StreamerCall where
  startUp := [.init, .configStream 2345 "239.1.0.1" 4321, .configDevSource 2, .start]
  port := 4321
  step := streamerStep 2345 "239.1.0.1"

/-- `main` of `app-streamer-2` on its two arguments. -/
def appStreamer2 (argv1 argv2 : List Byte) : ControlLoop StreamerCall where
  startUp := [.init, .configStream (atoi argv1) "239.1.0.2" 5321, .configFileSource argv2, .start]
  port := 5321
  step := streamerStep (atoi argv1) "239.1.0.2"

/-! ## Loops as machines on pieces of stdin -/

namespace ControlLoop

variable {C : Type} (app : ControlLoop C) (temp stdin : List Byte) (n : ℕ)

/-- `n` rounds react to the first `n` pieces. -/
theorem loopCalls_eq : app.loopCalls temp stdin n =
    (reactions app.step ⟨app.port, temp⟩ ((commandPieces stdin).take n)).flatten :=
  (rounds_reactive app.step commandSource n _ stdin).1

theorem run_result : (app.run temp stdin n).result =
    if n ≤ (commandPieces stdin).length then
      some (after app.step ⟨app.port, temp⟩ ((commandPieces stdin).take n)) else none :=
  (rounds_reactive app.step commandSource n _ stdin).2.1

theorem pieces_run_rest :
    commandPieces (app.run temp stdin n).rest = (commandPieces stdin).drop n :=
  (rounds_reactive app.step commandSource n _ stdin).2.2

end ControlLoop

end PjmediaApps
