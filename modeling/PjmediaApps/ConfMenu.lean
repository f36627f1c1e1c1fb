import PjmediaApps.CString

/-!
# The menu of `conf_to_2_sounds`

The menu loop of `main` in `conf_to_2_sounds.c`, as a dialogue per round. A round lists
the ports, reads a selection, and for five of the selections asks one to three further
prompts through `input`. Each prompt has a check; an empty answer, the end of file or a
failed check goes back to the menu (`continue`). A dialogue that gets through performs
one call on the bridge.

Both the selection and `input` read with `fgets` into arrays of ten bytes. The arrays `tmp`,
`tmp1` and `tmp2` are read only up to the NUL of the last `fgets`, so a round does not depend
on the rounds before it, and the loop state is `Unit`.
-/

namespace PjmediaApps

open Interactive ByteStream CString

/-! ## Prompts, messages, calls -/

/-- The prompts of the menu and of its dialogues. -/
inductive Prompt
  | selection
  | sourcePort
  | destinationPort
  | port
  | level
  | monitorPort
  | direction
  | duration
  deriving DecidableEq, Repr

/-- What the menu prints, headings of the dialogues and rejections. -/
inductive Message
  | connect
  | disconnect
  | adjustTransmit
  | adjustReceive
  | displayMeter
  | invalidSlot
  | invalidLevel
  | invalidOption
  | invalidDuration
  | invalidInput (c : Byte)
  deriving DecidableEq, Repr

/-- What the menu does : print, list the ports, or a call on the bridge. -/
inductive MenuAction
  | puts (m : Message)
  | confList (detail : Bool)
  | connectPort (src dst : ℤ)
  | disconnectPort (src dst : ℤ)
  | adjustTxLevel (slot level : ℤ)
  | adjustRxLevel (slot level : ℤ)
  | monitorLevel (slot : ℤ) (dir : Byte) (dur : ℤ)
  deriving DecidableEq, Repr

/-- The actions that a dialogue was gone through for. -/
def MenuAction.isCommand : MenuAction → Bool
  | .puts _ | .confList _ => false
  | _ => true

/-- The actions that call the bridge. -/
def MenuAction.isCall : MenuAction → Bool
  | .puts _ => false
  | _ => true

/-- A round of the menu, or what is left of one. It returns `none` to leave the loop. -/
abbrev Round :=
  Dialogue (List Byte) Prompt MenuAction (Option Unit)

/-- `continue`, or `break` out of the switch. -/
def again : Round :=
  .ret (some ())

/-- `goto on_quit`, or `break` out of the loop. -/
def onQuit : Round :=
  .ret none

/-! ## `input` -/

/-- The scan of `input` : NUL for each carriage return and newline, up to the first NUL. -/
def stripNewlines : List Byte → List Byte
  | [] => []
  | b :: buf =>
    if b = ch '\r' ∨ b = ch '\n' then 0 :: stripNewlines buf
    else if b = 0 then b :: buf
    else b :: stripNewlines buf

/-- `input` on what `fgets` gave : the string it leaves in the array, or `none` where it
answers false. -/
def input : Option (List Byte) → Option (List Byte)
  | none => none
  | some got =>
    let str := cstr (stripNewlines (got ++ [0]))
    if str = [] then none else some str

/-- A byte that `input` keeps. -/
def isText (b : Byte) : Bool :=
  b ≠ ch '\r' && b ≠ ch '\n' && b ≠ 0

/-- The scan leaves the bytes read up to the first carriage return, newline or NUL,
whatever the array held behind them. -/
theorem cstr_stripNewlines (stale : List Byte) :
    ∀ got, cstr (stripNewlines (got ++ 0 :: stale)) = got.takeWhile isText
  | [] => by
    have h0 : ¬((0 : Byte) = ch '\r' ∨ (0 : Byte) = ch '\n') := by decide
    simp [stripNewlines, cstr, if_neg h0]
  | b :: got => by
    have ih := cstr_stripNewlines stale got
    by_cases hb : b = ch '\r' ∨ b = ch '\n'
    · have ht : isText b = false := by
        rcases hb with rfl | rfl <;> decide
      simp [stripNewlines, cstr, if_pos hb, ht]
    · by_cases h0 : b = 0
      · subst h0
        have ht : isText 0 = false := by decide
        simp [stripNewlines, cstr, if_neg hb, ht]
      · have ht : isText b = true := by
          simp only [not_or] at hb
          simp [isText, hb.1, hb.2, h0]
        simp only [cstr] at ih ⊢
        rw [List.cons_append, stripNewlines, if_neg hb, if_neg h0,
          List.takeWhile_cons_of_pos (by simpa using h0), List.takeWhile_cons_of_pos ht, ih]

/-- `input` answers with the text the bytes start with, if there is any. -/
theorem input_some (got : List Byte) : input (some got) =
    if got.takeWhile isText = [] then none else some (got.takeWhile isText) := by
  rw [input, cstr_stripNewlines []]

/-- A string from `input` is not empty and no longer than what was read. -/
theorem length_of_input {got str : List Byte} (h : input (some got) = some str) :
    str ≠ [] ∧ str.length ≤ got.length := by
  rw [input_some] at h
  split_ifs at h with hne
  cases h
  exact ⟨hne, (List.takeWhile_prefix _).length_le⟩

/-- Ask a prompt through `input`; where it answers false, `continue`. -/
def askInput (p : Prompt) (k : List Byte → Round) : Round :=
  .ask p fun got =>
    match input got with
    | none => again
    | some str => k str

/-- Ask a prompt and check the answer; where the check fails, print why and `continue`. -/
def askChecked {β : Type} (p : Prompt) (check : List Byte → Except Message β) (k : β → Round) :
    Round :=
  askInput p fun str =>
    match check str with
    | .error m => .act (.puts m) again
    | .ok v => k v

/-! ## Checks -/

/-- `*err || slot < 0 || slot >= port_count`. -/
def checkSlot (portCount : ℤ) (str : List Byte) : Except Message ℤ :=
  let r := strtol str
  let slot := toInt32 r.1
  if r.2 ≠ [] ∨ slot < 0 ∨ portCount ≤ slot then .error .invalidSlot else .ok slot

/-- `*err || level < -128`. -/
def checkLevel (str : List Byte) : Except Message ℤ :=
  let r := strtol str
  let level := toInt32 r.1
  if r.2 ≠ [] ∨ level < -128 then .error .invalidLevel else .ok level

/-- `tmp2[0] != 'r' && tmp2[0] != 't'`. -/
def checkDirection (str : List Byte) : Except Message Byte :=
  let dir := str.headD 0
  if dir ≠ ch 'r' ∧ dir ≠ ch 't' then .error .invalidOption else .ok dir

/-- `*err`. -/
def checkDuration (str : List Byte) : Except Message ℤ :=
  let r := strtol str
  if r.2 ≠ [] then .error .invalidDuration else .ok (toInt32 r.1)

/-! ## Dialogues -/

/-- A dialogue for a source and a destination slot. -/
def twoSlots (portCount : ℤ) (heading : Message) (call : ℤ → ℤ → MenuAction) : Round :=
  .act (.puts heading) <|
    askChecked .sourcePort (checkSlot portCount) fun src =>
      askChecked .destinationPort (checkSlot portCount) fun dst =>
        .act (call src dst) again

/-- A dialogue for a slot and a level. -/
def slotAndLevel (portCount : ℤ) (heading : Message) (call : ℤ → ℤ → MenuAction) : Round :=
  .act (.puts heading) <|
    askChecked .port (checkSlot portCount) fun src =>
      askChecked .level checkLevel fun level =>
        .act (call src level) again

/-- `case 'c'`. -/
def connect (portCount : ℤ) : Round :=
  twoSlots portCount .connect .connectPort

/-- `case 'd'`. -/
def disconnect (portCount : ℤ) : Round :=
  twoSlots portCount .disconnect .disconnectPort

/-- `case 't'`. -/
def adjustTx (portCount : ℤ) : Round :=
  slotAndLevel portCount .adjustTransmit .adjustTxLevel

/-- `case 'r'`. -/
def adjustRx (portCount : ℤ) : Round :=
  slotAndLevel portCount .adjustReceive .adjustRxLevel

/-- `case 'v'`. -/
def displayMeter (portCount : ℤ) : Round :=
  .act (.puts .displayMeter) <|
    askChecked .monitorPort (checkSlot portCount) fun src =>
      askChecked .direction checkDirection fun dir =>
        askChecked .duration checkDuration fun dur =>
          .act (.monitorLevel src dir dur) again

/-- The switch on `tmp[0]`. -/
def select (portCount : ℤ) (c : Byte) : Round :=
  if c = ch 's' then .act (.confList true) again
  else if c = ch 'c' then connect portCount
  else if c = ch 'd' then disconnect portCount
  else if c = ch 't' then adjustTx portCount
  else if c = ch 'r' then adjustRx portCount
  else if c = ch 'v' then displayMeter portCount
  else if c = ch 'q' then onQuit
  else .act (.puts (.invalidInput c)) again

/-- One round of the menu loop. -/
def menuRound (portCount : ℤ) : Round :=
  .act (.confList false) <|
    .ask .selection fun
      | none => onQuit
      | some tmp => select portCount (tmp.headD 0)

/-! ## The session -/

/-- `sizeof(tmp)`, `sizeof(tmp1)` and `sizeof(tmp2)`. -/
def bufSize : ℕ := 10

theorem two_le_bufSize : 2 ≤ bufSize := by
  decide

/-- Standard input as `fgets` reads it into the arrays of `main`. -/
abbrev stdinSource : Source (List Byte) (List Byte) :=
  fgetsSource bufSize two_le_bufSize

/-- The menu loop of `main` on a content of stdin. It is left within the number of rounds
allowed here (`menuSession_result`). -/
def menuSession (portCount : ℤ) (stdin : List Byte) :
    Outcome (List (Event (List Byte) Prompt MenuAction)) (Option Unit) (List Byte) :=
  rounds stdinSource (fun _ => menuRound portCount) (stdin.length + 1) () stdin

/-- A round that goes on has read a selection. -/
theorem size_menuRound_lt {α : Type*} (src : Source (List Byte) α) (portCount : ℤ) {s : α}
    {u : Unit} (h : ((menuRound portCount).run src s).result = some u) :
    src.size ((menuRound portCount).run src s).rest < src.size s := by
  cases hr : (src.read s).1 with
  | none =>
    simp [menuRound, Dialogue.run, hr, onQuit] at h
  | some tmp =>
    have hlt := src.size_lt s tmp hr
    have hle := Dialogue.size_rest_le src (select portCount (tmp.headD 0)) (src.read s).2
    simp only [menuRound, Dialogue.run, hr]
    omega

/-- The menu loop always reaches `on_quit`. -/
theorem menuSession_result (portCount : ℤ) (stdin : List Byte) :
    (menuSession portCount stdin).result = none :=
  rounds_result_eq_none (fun _ _ _ h => size_menuRound_lt _ portCount h) _ _ _ (Nat.lt_succ_self _)

/-- The commands of a session, in order. -/
def commands (ts : List (List (Event (List Byte) Prompt MenuAction))) : List MenuAction :=
  (ts.flatMap actions).filter MenuAction.isCommand

end PjmediaApps
