import PjmediaApps.Lifetimes
import PjmediaApps.SinePort

/-!
# `main` of `custome-media-port`

The program plays the sine generator on a sound device until a line is read. It creates one
resource after another, and destroys them in the reverse order. A call that fails ends it on the
way, mostly through an assertion, and so does an argument that is not there, which is converted all
the same. So whatever the calls come to, the resources that are alive are at every moment the
first of them in the order of creation, and the sound port is opened in the format of the
generator it is then connected to (`sineMain_right`).
-/

namespace PjmediaApps

open ByteStream CString Lifetimes

/-! ## Events -/

/-- What `main` creates and destroys. -/
inductive SineResource
  | pjlib
  /-- The caching pool `cp`. -/
  | factory
  | endpt
  | pool
  | sinePort
  | sndPort
  /-- The generator feeds the sound port. -/
  | connection
  deriving DecidableEq, Repr

/-- What a run of `main` does. -/
inductive SineEvent
  | created (r : SineResource)
  | destroyed (r : SineResource)
  /-- `pjmedia_snd_port_create_player` is called. -/
  | createPlayer (dev : ℤ) (f : PortFormat)
  | invalidArguments
  | usage
  /-- `app_perror` reports that the sound device cannot be opened. -/
  | openError
  /-- The wave plays until a line is read. -/
  | playing
  deriving DecidableEq, Repr

/-- The start or the end of a lifetime. -/
def SineEvent.lifetime : SineEvent → Option (Lifetimes.Event SineResource)
  | .created r => some (.start r)
  | .destroyed r => some (.stop r)
  | _ => none

/-- The lifetimes in a run. -/
def sineLifetimes (es : List SineEvent) : List (Lifetimes.Event SineResource) :=
  es.filterMap SineEvent.lifetime

/-- The arguments of `main`, how its calls on other code go, and the samples per frame and the
table that `create_sine_port` gives. -/
structure SineEnv where
  /-- `none` for an argument that is not there. -/
  argv1 : Option (List Byte)
  argv2 : Option (List Byte)
  initOk : Bool
  endptOk : Bool
  /-- The allocations of `create_sine_port` succeed. -/
  memoryOk : Bool
  reported : ℕ → ℕ → ℕ → ℕ
  wave : ℕ → ℕ → Int16
  playerOk : Bool
  connectOk : Bool
  disconnectOk : Bool
  destroySndOk : Bool
  destroySineOk : Bool

/-! ## `main` -/

/-- `create_sine_port` as `main` calls it, `none` where one of its assertions fails. It fails in
no other way. -/
def SineEnv.sinePort (env : SineEnv) (channelCount : ℤ) : Option SinePort :=
  if env.memoryOk then createSinePort env.reported env.wave 11025 channelCount.toNat else none

/-- `main` once a line is read. -/
def quitSine (env : SineEnv) : List SineEvent × Exit :=
  if env.disconnectOk = false then ([], .aborted)
  else if env.destroySndOk = false then ([.destroyed .connection], .aborted)
  else if env.destroySineOk = false then
    ([.destroyed .connection, .destroyed .sndPort], .aborted)
  else
    ([.destroyed .connection, .destroyed .sndPort, .destroyed .sinePort, .destroyed .pool,
      .destroyed .endpt, .destroyed .factory, .destroyed .pjlib], .returned 0)

/-- `main` with the generator created. -/
def playSine (env : SineEnv) (port : SinePort) : List SineEvent × Exit :=
  let es := [.created .sinePort]
  match env.argv2 with
  | none => (es, .undefined)
  | some dev =>
    let es := es ++ [.createPlayer (atoi dev) port.info]
    if env.playerOk = false then (es ++ [.openError], .returned 1)
    else
      let es := es ++ [.created .sndPort]
      if env.connectOk = false then (es, .aborted)
      else
        let q := quitSine env
        (es ++ [.created .connection, .playing] ++ q.1, q.2)

/-- `main`. -/
def sineMain (env : SineEnv) : List SineEvent × Exit :=
  match env.argv1 with
  | none => ([], .undefined)
  | some nchannel =>
    let channelCount := atoi nchannel
    if channelCount < 1 ∨ channelCount > 2 then ([.invalidArguments, .usage], .returned 1)
    else if env.initOk = false then ([], .aborted)
    else
      let es := [.created .pjlib, .created .factory]
      if env.endptOk = false then (es, .aborted)
      else
        let es := es ++ [.created .endpt, .created .pool]
        match env.sinePort channelCount with
        | none => (es, .aborted)
        | some port =>
          let r := playSine env port
          (es ++ r.1, r.2)

/-! ## What the program does -/

/-- The resources in the order `main` creates them. -/
def sineResources : List SineResource :=
  [.pjlib, .factory, .endpt, .pool, .sinePort, .sndPort, .connection]

section

variable (env : SineEnv)

/-- The number of channels, as the first argument gives it. -/
def SineEnv.channels : Option ℤ :=
  env.argv1.map atoi

/-- Everything succeeds up to the sound port. -/
structure CreatesSine : Prop where
  channels : ∃ c, env.channels = some c ∧ 1 ≤ c ∧ c ≤ 2
  init : env.initOk = true
  endpt : env.endptOk = true
  memory : env.memoryOk = true

/-- Everything succeeds up to the connection. -/
structure Plays : Prop extends CreatesSine env where
  device : env.argv2.isSome
  player : env.playerOk = true
  connect : env.connectOk = true

/-- Everything that `main` looks at succeeds after that. -/
structure Quits : Prop where
  disconnect : env.disconnectOk = true
  destroySnd : env.destroySndOk = true
  destroySine : env.destroySineOk = true

/-- An argument is not there when it is converted. -/
def SineEnv.LacksArgument : Prop :=
  env.argv1 = none ∨ CreatesSine env ∧ env.argv2 = none

/-- An assertion fails : something is not created, connected or destroyed. -/
def SineEnv.FailsAssertion : Prop :=
  (∃ c, env.channels = some c ∧ 1 ≤ c ∧ c ≤ 2) ∧
      (env.initOk = false ∨ env.endptOk = false ∨ env.memoryOk = false) ∨
    CreatesSine env ∧ env.argv2.isSome ∧ env.playerOk = true ∧ env.connectOk = false ∨
    Plays env ∧ ¬Quits env

/-- How a run of `main` ends and what it leaves. -/
structure SineMainRight (run : List SineEvent × Exit) : Prop where
  returned : ∀ n, run.2 = .returned n → n = 0 ∨ n = 1
  exit_zero : run.2 = .returned 0 ↔ Plays env ∧ Quits env
  aborted : run.2 = .aborted ↔ env.FailsAssertion
  undefined : run.2 = .undefined ↔ env.LacksArgument
  playing : .playing ∈ run.1 ↔ Plays env
  /-- At every moment the resources alive are the first ones in the order of creation. -/
  stack : ∀ es, es <+: sineLifetimes run.1 → ∃ n, ∀ r, Alive es r ↔ r ∈ sineResources.take n
  /-- A run that does not play destroys nothing. -/
  early : ¬Plays env → ∀ r, .stop r ∉ sineLifetimes run.1
  /-- A run that returns 0 leaves nothing. -/
  clean : run.2 = .returned 0 → ∀ r, ¬Alive (sineLifetimes run.1) r
  /-- The sound port is opened in the format of the generator. -/
  player : ∀ dev f, .createPlayer dev f ∈ run.1 → (∃ a, env.argv2 = some a ∧ dev = atoi a) ∧
    ∃ c port, env.channels = some c ∧ env.sinePort c = some port ∧ f = port.info ∧
      f.clockRate = 11025 ∧ (f.channelCount : ℤ) = c ∧ f.bitsPerSample = 16
  /-- The usage is shown for a number of channels that is not 1 or 2, before anything else. -/
  usage : .usage ∈ run.1 ↔ ∃ c, env.channels = some c ∧ ¬(1 ≤ c ∧ c ≤ 2)

end

theorem sinePort_eq_some {env : SineEnv} {c : ℤ} {port : SinePort}
    (h : env.sinePort c = some port) : env.memoryOk = true ∧ 0 < c ∧ port.info.clockRate = 11025 ∧
      (port.info.channelCount : ℤ) = c ∧ port.info.bitsPerSample = 16 := by
  unfold SineEnv.sinePort createSinePort at h
  split_ifs at h with hm hc
  cases h
  have hpos : 0 < c := by omega
  exact ⟨hm, hpos, rfl, Int.toNat_of_nonneg hpos.le, rfl⟩

theorem isSome_sinePort {env : SineEnv} {c : ℤ} (hc : 1 ≤ c ∧ c ≤ 2)
    (hm : env.memoryOk = true) : (env.sinePort c).isSome := by
  rw [SineEnv.sinePort, if_pos hm, createSinePort, if_pos (by omega)]
  rfl

/-- The run that creates everything and destroys it in the reverse order. -/
def sineScope : List (Lifetimes.Event SineResource) :=
  scope sineResources sineResources.reverse

theorem stack_of_prefix {es : List (Lifetimes.Event SineResource)} (h : es <+: sineScope) :
    ∃ n, ∀ r, Alive es r ↔ r ∈ sineResources.take n := by
  rw [List.prefix_iff_eq_take.mp h]
  exact ⟨_, alive_take_reverse_iff (by decide) es.length⟩

/-- A run that ends before it plays. -/
theorem sineMainRight_of_early {env : SineEnv} {es : List SineEvent} {exit : Exit}
    (hnot : ¬Plays env) (n : ℕ) (hl : sineLifetimes es = (sineResources.take n).map .start)
    (hplaying : .playing ∉ es) (hret : ∀ n, exit = .returned n → n = 1)
    (habort : exit = .aborted ↔ env.FailsAssertion) (hund : exit = .undefined ↔ env.LacksArgument)
    (husage : .usage ∈ es ↔ ∃ c, env.channels = some c ∧ ¬(1 ≤ c ∧ c ≤ 2))
    (hplayer : ∀ dev f, .createPlayer dev f ∈ es → (∃ a, env.argv2 = some a ∧ dev = atoi a) ∧
      ∃ c port, env.channels = some c ∧ env.sinePort c = some port ∧ f = port.info) :
    SineMainRight env (es, exit) where
  returned n h := Or.inr (hret n h)
  exit_zero := ⟨fun h => absurd (hret 0 h) (by decide), fun h => (hnot h.1).elim⟩
  aborted := habort
  undefined := hund
  playing := ⟨fun h => (hplaying h).elim, fun h => (hnot h).elim⟩
  stack fs hfs := by
    refine stack_of_prefix (hfs.trans ?_)
    rw [hl]
    exact ((List.take_prefix _ _).map _).trans (List.prefix_append _ _)
  early _ r hr := by
    rw [hl] at hr
    obtain ⟨_, -, h⟩ := List.mem_map.mp hr
    cases h
  clean h := absurd (hret 0 h) (by decide)
  player dev f h := by
    obtain ⟨hdev, c, port, hc, hport, rfl⟩ := hplayer dev f h
    obtain ⟨-, -, hrate, hch, hbits⟩ := sinePort_eq_some hport
    exact ⟨hdev, c, port, hc, hport, rfl, hrate, hch, hbits⟩
  usage := husage

/-- Once it plays, a run destroys in the reverse order up to where it ends. -/
theorem quitSine_cases (env : SineEnv) : (¬Quits env ∧ (quitSine env).2 = .aborted ∨
    Quits env ∧ (quitSine env).2 = .returned 0 ∧ sineLifetimes (quitSine env).1 =
      sineResources.reverse.map .stop) ∧
    sineLifetimes (quitSine env).1 <+: sineResources.reverse.map .stop ∧
      ∀ e ∈ (quitSine env).1, ∃ r, e = .destroyed r := by
  unfold quitSine
  by_cases hd : env.disconnectOk = false
  · rw [if_pos hd]
    exact ⟨Or.inl ⟨fun h => absurd h.disconnect (by simp [hd]), rfl⟩, by decide, by simp⟩
  rw [if_neg hd]
  by_cases hs : env.destroySndOk = false
  · rw [if_pos hs]
    exact ⟨Or.inl ⟨fun h => absurd h.destroySnd (by simp [hs]), rfl⟩, by decide, by simp⟩
  rw [if_neg hs]
  by_cases hp : env.destroySineOk = false
  · rw [if_pos hp]
    exact ⟨Or.inl ⟨fun h => absurd h.destroySine (by simp [hp]), rfl⟩, by decide, by simp⟩
  rw [if_neg hp]
  rw [Bool.not_eq_false] at hd hs hp
  exact ⟨Or.inr ⟨⟨hd, hs, hp⟩, rfl, rfl⟩, by decide, by simp⟩

/-- A run that plays. -/
theorem sineMainRight_of_plays {env : SineEnv} {c : ℤ} {dev : List Byte} {port : SinePort}
    (hplays : Plays env) (hc : env.channels = some c) (hport : env.sinePort c = some port)
    (hdev : env.argv2 = some dev) {es : List SineEvent}
    (hes : es = [.created .pjlib, .created .factory, .created .endpt, .created .pool,
      .created .sinePort, .createPlayer (atoi dev) port.info, .created .sndPort,
      .created .connection, .playing] ++ (quitSine env).1) :
    SineMainRight env (es, (quitSine env).2) := by
  obtain ⟨hcases, hprefix, hdestroyed⟩ := quitSine_cases env
  have hq : ∀ e ∈ (quitSine env).1, e ≠ .playing ∧ e ≠ .usage ∧ ∀ dev f,
      e ≠ .createPlayer dev f := by
    intro e he
    obtain ⟨r, rfl⟩ := hdestroyed e he
    simp
  have hl : sineLifetimes es = sineResources.map .start ++ sineLifetimes (quitSine env).1 := by
    rw [hes, sineLifetimes, List.filterMap_append]
    rfl
  have hargs : ¬env.LacksArgument := by
    rintro (h | ⟨-, h⟩)
    · simp [SineEnv.channels, h] at hc
    · simp [hdev] at h
  have hassert : env.FailsAssertion ↔ ¬Quits env := by
    simp [SineEnv.FailsAssertion, hplays, hplays.init, hplays.endpt, hplays.memory, hplays.connect]
  refine ⟨fun n hn => ?_, ?_, ?_, ?_, ?_, fun fs hfs => ?_, fun hn => (hn hplays).elim,
    fun h0 r => ?_, fun dev' f h => ?_, ?_⟩
  · rcases hcases with ⟨-, h⟩ | ⟨-, h, -⟩
    · simp [h] at hn
    · exact Or.inl (by simpa [h, eq_comm] using hn)
  · rcases hcases with ⟨hn, h⟩ | ⟨hq, h, -⟩
    · simp [h, hn]
    · simp [h, hq, hplays]
  · rw [hassert]
    rcases hcases with ⟨hn, h⟩ | ⟨hq, h, -⟩
    · simp [h, hn]
    · simp [h, hq]
  · rcases hcases with ⟨-, h⟩ | ⟨-, h, -⟩ <;> simp [h, hargs]
  · simp [hes, hplays]
  · refine stack_of_prefix (hfs.trans ?_)
    rw [hl, sineScope, scope]
    exact (List.prefix_append_right_inj _).mpr hprefix
  · rcases hcases with ⟨-, h⟩ | ⟨-, -, h⟩
    · simp [h] at h0
    · have hall : sineLifetimes es = scope sineResources sineResources.reverse := by
        rw [hl, h, scope]
      rw [hall, alive_scope_iff, List.mem_reverse]
      exact fun h => h.2 h.1
  · have hmem : dev' = atoi dev ∧ f = port.info := by
      rw [hes] at h
      rcases List.mem_append.mp h with h | h
      · simpa using h
      · exact ((hq _ h).2.2 dev' f rfl).elim
    obtain ⟨-, -, hrate, hch, hbits⟩ := sinePort_eq_some hport
    obtain ⟨rfl, rfl⟩ := hmem
    exact ⟨⟨dev, hdev, rfl⟩, c, port, hc, hport, rfl, hrate, hch, hbits⟩
  · have hnot : SineEvent.usage ∉ (quitSine env).1 := fun h => (hq _ h).2.1 rfl
    obtain ⟨c', hc', hrange⟩ := hplays.channels
    simp [hes, hnot, hc', hrange]

/-- A run that creates the generator. -/
theorem sineMainRight_playSine {env : SineEnv} {c : ℤ} {port : SinePort} (hsine : CreatesSine env)
    (hc : env.channels = some c) (hport : env.sinePort c = some port) {es : List SineEvent}
    (hes : es = [.created .pjlib, .created .factory, .created .endpt, .created .pool] ++
      (playSine env port).1) : SineMainRight env (es, (playSine env port).2) := by
  have hrange : 1 ≤ c ∧ c ≤ 2 := by simpa [hc] using hsine.channels
  have hinit := hsine.init
  have hendpt := hsine.endpt
  have hmem := hsine.memory
  have harg : env.argv1 ≠ none := fun h => by simp [SineEnv.channels, h] at hc
  cases hdev : env.argv2 with
  | none =>
    have hplays : ¬Plays env := fun h => by simpa [hdev] using h.device
    have hrun : playSine env port = ([.created .sinePort], .undefined) := by rw [playSine, hdev]
    rw [hrun] at hes ⊢
    subst hes
    exact sineMainRight_of_early hplays 5 rfl (by simp) (by simp)
      (by simp [SineEnv.FailsAssertion, hinit, hendpt, hmem, hdev, hplays])
      (by simp [SineEnv.LacksArgument, hdev, hsine]) (by simp [hc, hrange]) (by simp)
  | some dev =>
    have hargs : ¬env.LacksArgument := by simp [SineEnv.LacksArgument, harg, hdev]
    by_cases hplayer : env.playerOk = false
    · have hplays : ¬Plays env := fun h => absurd h.player (by simp [hplayer])
      have hrun : playSine env port = ([.created .sinePort, .createPlayer (atoi dev) port.info,
          .openError], .returned 1) := by
        simp [playSine, hdev, hplayer]
      rw [hrun] at hes ⊢
      subst hes
      exact sineMainRight_of_early hplays 5 rfl (by simp) (by simp)
        (by simp [SineEnv.FailsAssertion, hinit, hendpt, hmem, hplayer, hplays])
        (by simp [hargs]) (by simp [hc, hrange]) (by simp [hdev, hc, hport])
    by_cases hconnect : env.connectOk = false
    · have hplays : ¬Plays env := fun h => absurd h.connect (by simp [hconnect])
      have hrun : playSine env port = ([.created .sinePort, .createPlayer (atoi dev) port.info,
          .created .sndPort], .aborted) := by
        simp [playSine, hdev, hplayer, hconnect]
      rw [hrun] at hes ⊢
      subst hes
      exact sineMainRight_of_early hplays 6 rfl (by simp) (by simp)
        (by simp [SineEnv.FailsAssertion, hsine, hdev, hplayer, hconnect])
        (by simp [hargs]) (by simp [hc, hrange]) (by simp [hdev, hc, hport])
    · have hplays : Plays env :=
        ⟨hsine, by rw [hdev]; rfl, by simpa using hplayer, by simpa using hconnect⟩
      have hrun : playSine env port = ([.created .sinePort, .createPlayer (atoi dev) port.info,
          .created .sndPort, .created .connection, .playing] ++ (quitSine env).1,
            (quitSine env).2) := by
        simp [playSine, hdev, hplayer, hconnect]
      rw [hrun] at hes ⊢
      exact sineMainRight_of_plays hplays hc hport hdev hes

/-- Every run of `main` is right. -/
theorem sineMain_right (env : SineEnv) : SineMainRight env (sineMain env) := by
  unfold sineMain
  cases harg : env.argv1 with
  | none =>
    have hch : env.channels = none := by rw [SineEnv.channels, harg, Option.map_none]
    have hnot : ¬CreatesSine env := fun h => by simpa [hch] using h.channels
    have hplays : ¬Plays env := fun h => hnot h.toCreatesSine
    exact sineMainRight_of_early hplays 0 rfl (by simp) (by simp)
      (by simp [SineEnv.FailsAssertion, hch, hnot, hplays]) (by simp [SineEnv.LacksArgument, harg])
      (by simp [hch]) (by simp)
  | some nchannel =>
    have hch : env.channels = some (atoi nchannel) := by rw [SineEnv.channels, harg, Option.map_some]
    dsimp only
    generalize atoi nchannel = c at hch ⊢
    have hargs : ¬CreatesSine env → ¬env.LacksArgument := fun h => by
      simp [SineEnv.LacksArgument, harg, h]
    by_cases hrange : c < 1 ∨ c > 2
    · have hbad : ¬(1 ≤ c ∧ c ≤ 2) := by omega
      have hnot : ¬CreatesSine env := fun h => hbad (by simpa [hch] using h.channels)
      have hplays : ¬Plays env := fun h => hnot h.toCreatesSine
      rw [if_pos hrange]
      exact sineMainRight_of_early hplays 0 rfl (by simp) (by simp)
        (by simp [SineEnv.FailsAssertion, hch, hbad, hnot, hplays])
        (by simp [hargs hnot]) (by simpa [hch] using fun _ => by omega) (by simp)
    rw [if_neg hrange]
    have hok : 1 ≤ c ∧ c ≤ 2 := by omega
    by_cases hinit : env.initOk = false
    · have hnot : ¬CreatesSine env := fun h => absurd h.init (by simp [hinit])
      have hplays : ¬Plays env := fun h => hnot h.toCreatesSine
      rw [if_pos hinit]
      exact sineMainRight_of_early hplays 0 rfl (by simp) (by simp)
        (by simp [SineEnv.FailsAssertion, hch, hok, hinit])
        (by simp [hargs hnot]) (by simp [hch, hok]) (by simp)
    rw [if_neg hinit]
    by_cases hendpt : env.endptOk = false
    · have hnot : ¬CreatesSine env := fun h => absurd h.endpt (by simp [hendpt])
      have hplays : ¬Plays env := fun h => hnot h.toCreatesSine
      rw [if_pos hendpt]
      exact sineMainRight_of_early hplays 2 rfl (by simp) (by simp)
        (by simp [SineEnv.FailsAssertion, hch, hok, hendpt])
        (by simp [hargs hnot]) (by simp [hch, hok]) (by simp)
    rw [if_neg hendpt]
    rw [Bool.not_eq_false] at hinit hendpt
    cases hport : env.sinePort c with
    | none =>
      have hmem : env.memoryOk = false := by
        by_contra hmem
        have := isSome_sinePort hok (by simpa using hmem : env.memoryOk = true)
        simp [hport] at this
      have hnot : ¬CreatesSine env := fun h => absurd h.memory (by simp [hmem])
      have hplays : ¬Plays env := fun h => hnot h.toCreatesSine
      exact sineMainRight_of_early hplays 4 rfl (by simp) (by simp)
        (by simp [SineEnv.FailsAssertion, hch, hok, hmem])
        (by simp [hargs hnot]) (by simp [hch, hok]) (by simp)
    | some port =>
      exact sineMainRight_playSine ⟨⟨c, hch, hok⟩, hinit, hendpt, (sinePort_eq_some hport).1⟩ hch
        hport rfl

end PjmediaApps
