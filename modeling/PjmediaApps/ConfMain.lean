import PjmediaApps.ConfRun
import PjmediaApps.Lifetimes
import PjmediaApps.SndOptions

/-!
# `main` of `conf_to_2_sounds`

The whole program : the options, the resources it creates on the way to the menu, the menu, and
the resources it destroys at `on_quit`. Every call that can fail ends the program where its
status is looked at, and nothing is cleaned up on the way out. Some statuses are looked at by an
assertion, which aborts the program : the build does not turn assertions off. Behind a
text that overruns its array nothing is said about the program.

On a lawful bridge every port that is created is added, so the program gets to the menu exactly if
the options are accepted and everything is created. It returns 0 exactly if then no list overruns
its text and everything is destroyed too, and otherwise ends in the way its first failure
says (`confMain_right`). Every run creates and destroys the same resources in the same order,
up to where it ends.
-/

namespace PjmediaApps

open Interactive ByteStream CString Lifetimes

/-! ## Events -/

/-- What `main` creates and destroys. -/
inductive Resource
  | pjlib
  /-- The caching pool `cp`. -/
  | factory
  | endpt
  | pool
  | conf
  | recorder
  /-- `file_port[i]`. -/
  | file (i : ℕ)
  deriving DecidableEq, Repr

/-- What `main` reports through `app_perror`. -/
inductive MainError
  | createConf
  | createWriter
  | useFile (name : List Byte)
  | addPort
  deriving DecidableEq, Repr

/-- What a run of `main` does. -/
inductive MainEvent
  | created (r : Resource)
  | destroyed (r : Resource)
  /-- `pjmedia_conf_create` is called. -/
  | createConf (portCount : ℕ) (o : SndOptions)
  /-- `pjmedia_wav_writer_port_create` is called. -/
  | createWriter (o : SndOptions)
  | optionError (e : OptError)
  | error (e : MainError)
  | usage
  | menuEntered
  /-- The menu loop has performed commands and is left. -/
  | menuLeft (cs : List MenuAction)
  deriving DecidableEq, Repr

/-- The start or the end of a lifetime. -/
def MainEvent.lifetime : MainEvent → Option (Lifetimes.Event Resource)
  | .created r => some (.start r)
  | .destroyed r => some (.stop r)
  | _ => none

/-- The lifetimes in a run. -/
def lifetimes (es : List MainEvent) : List (Lifetimes.Event Resource) :=
  es.filterMap MainEvent.lifetime

/-- How the calls of `main` on other code go, apart from those on the bridge. -/
structure ConfEnv where
  /-- `pj_init` succeeds. -/
  initOk : Bool
  /-- What `pj_getopt_long` gives for the command line. -/
  options : List Opt
  /-- What the build makes of a default frame size that overflows. -/
  frameOverflow : SndOptions → ℤ
  endptOk : Bool
  recorderOk : Bool
  /-- The files behind the options, and whether a player can be created for each. -/
  files : List (List Byte × Bool)
  /-- What the build makes of a number of polls that overflows. -/
  boundOverflow : ℤ → ℤ
  destroyConfOk : Bool
  destroyFileOk : ℕ → Bool

/-- The variables of `main` before the options : `CLOCK_RATE`, `NCHANNELS`, `NSAMPLES` and
`NBITS`. -/
def confDefaults : SndOptions :=
  ⟨-1, 44100, 1, 44100 * 20 / 1000, 16⟩

/-! ## `main` -/

/-- `sizeof(title)`. -/
def titleSize : ℕ := 80

/-- "Unable to use %s" with the name of a file, and its NUL, fit in `title`. -/
def TitleFits (name : List Byte) : Prop :=
  "Unable to use ".length + name.length + 1 ≤ titleSize

instance (name : List Byte) : Decidable (TitleFits name) :=
  inferInstanceAs (Decidable (_ ≤ _))

/-- What `main` does about a file that cannot be used. -/
def unusable (name : List Byte) : List MainEvent × Exit :=
  if TitleFits name then ([.error (.useFile name), .usage], .returned 1) else ([], .undefined)

section

variable {σ : Type*} (api : ConfApi σ)

/-- The loop that creates a port for each file and adds it to the bridge. It gives the bridge, or
the end of `main`. -/
def createFiles : ℕ → List (List Byte × Bool) → σ → List MainEvent × Except Exit σ
  | _, [], s => ([], .ok s)
  | _, (name, false) :: _, _ => ((unusable name).1, .error (unusable name).2)
  | i, (_, true) :: files, s =>
    match api.addPort s with
    | (false, _) => ([.created (.file i), .error .addPort], .error (.returned 1))
    | (true, s') =>
      let r := createFiles (i + 1) files s'
      (.created (.file i) :: r.1, r.2)

/-- The loop that destroys the file ports from `i` on, and whether it gets to its end. -/
def destroyFiles (ok : ℕ → Bool) : ℕ → ℕ → List MainEvent × Bool
  | _, 0 => ([], true)
  | i, n + 1 =>
    if ok i then
      let r := destroyFiles ok (i + 1) n
      (.destroyed (.file i) :: r.1, r.2)
    else ([], false)

/-- `main` from `on_quit` on. -/
def onQuitMain (env : ConfEnv) : List MainEvent × Exit :=
  if env.destroyConfOk = false then ([], .aborted)
  else
    let r := destroyFiles env.destroyFileOk 0 env.files.length
    if r.2 = false then (.destroyed .conf :: r.1, .aborted)
    else
      (.destroyed .conf :: (r.1 ++ [.destroyed .recorder, .destroyed .pool, .destroyed .endpt,
        .destroyed .factory, .destroyed .pjlib]), .returned 0)

/-- `main`. The status of the recorder's add is not looked at. -/
def confMain (env : ConfEnv) (stdin : List Byte) : List MainEvent × Exit :=
  if env.initOk = false then ([], .aborted)
  else
    match getSndOptions env.frameOverflow env.options confDefaults with
    | (some e, _) => ([.created .pjlib, .optionError e, .usage], .returned 1)
    | (none, o) =>
      let es := [.created .pjlib, .created .factory]
      if env.endptOk = false then (es, .aborted)
      else
        let n := portCount env.files.length
        let es := es ++ [.created .endpt, .created .pool, .createConf n o]
        match api.create n with
        | none => (es ++ [.error .createConf], .returned 1)
        | some s =>
          let es := es ++ [.created .conf, .createWriter o]
          if env.recorderOk = false then (es ++ [.error .createWriter], .returned 1)
          else
            let r := createFiles api 0 env.files (api.addPort s).2
            let es := es ++ .created .recorder :: r.1
            match r.2 with
            | .error exit => (es, exit)
            | .ok s =>
              let es := es ++ [.menuEntered]
              match sessionBridge api env.boundOverflow env.files.length stdin s with
              | none => (es, .undefined)
              | some _ =>
                let q := onQuitMain env
                (es ++ .menuLeft (commands (menuSession n stdin).trace) :: q.1, q.2)

end

/-! ## The loops over the files -/

/-- Ports of files in order. -/
def filePorts (i n : ℕ) : List Resource :=
  (List.range' i n).map .file

theorem filePorts_succ (i n : ℕ) : filePorts i (n + 1) = .file i :: filePorts (i + 1) n := by
  rw [filePorts, List.range'_succ, List.map_cons, filePorts]

/-- The loop destroys the ports up to the first that fails. -/
theorem destroyFiles_eq (ok : ℕ → Bool) : ∀ n i,
    (destroyFiles ok i n = ((filePorts i n).map .destroyed, true) ∧ ∀ j < n, ok (i + j)) ∨
      ∃ m < n, destroyFiles ok i n = ((filePorts i m).map .destroyed, false) ∧ ok (i + m) = false
  | 0, i => Or.inl ⟨rfl, by simp⟩
  | n + 1, i => by
    cases hi : ok i with
    | false => exact Or.inr ⟨0, by omega, by simp [destroyFiles, hi, filePorts], hi⟩
    | true =>
      rcases destroyFiles_eq ok n (i + 1) with ⟨h, hall⟩ | ⟨m, hm, h, hbad⟩
      · refine Or.inl ⟨by simp [destroyFiles, hi, h, filePorts_succ], fun j hj => ?_⟩
        obtain _ | j := j
        · exact hi
        · have := hall j (by omega)
          rwa [show i + 1 + j = i + (j + 1) by omega] at this
      · refine Or.inr ⟨m + 1, by omega, by simp [destroyFiles, hi, h, filePorts_succ], ?_⟩
        rwa [show i + (m + 1) = i + 1 + m by omega]

section

variable {σ : Type*} {api : ConfApi σ} {view : σ → Bridge} (law : api.Lawful view)

include law

/-- With a free slot for every file, the loop creates and adds the ports up to the first file
that cannot be used. -/
theorem createFiles_eq : ∀ (files : List (List Byte × Bool)) (i : ℕ) {s : σ} {m : ℕ},
    (view s).Filled m → m + files.length ≤ (view s).capacity →
      ((∀ f ∈ files, f.2) ∧ ∃ s', addFiles api (files.map Prod.snd) s = some s' ∧
        createFiles api i files s = ((filePorts i files.length).map .created, .ok s')) ∨
      ∃ pre name post, files = pre ++ (name, false) :: post ∧ (∀ f ∈ pre, f.2) ∧
        createFiles api i files s = ((filePorts i pre.length).map .created ++ (unusable name).1,
          .error (unusable name).2)
  | [], i, s, m, _, _ => Or.inl ⟨by simp, s, rfl, rfl⟩
  | (name, false) :: files, i, s, m, _, _ => Or.inr ⟨[], name, files, rfl, by simp, rfl⟩
  | (name, true) :: files, i, s, m, hf, hm => by
    simp only [List.length_cons] at hm
    obtain ⟨hst, hf', hcap⟩ := addPort_filled law hf (by omega)
    obtain ⟨s', hs'⟩ : ∃ s', api.addPort s = (true, s') := ⟨_, Prod.ext hst rfl⟩
    rw [hs'] at hf' hcap
    rcases createFiles_eq files (i + 1) hf' (by omega) with ⟨hall, s'', hadd, h⟩ |
      ⟨pre, bad, post, rfl, hpre, h⟩
    · refine Or.inl ⟨List.forall_mem_cons.mpr ⟨rfl, hall⟩, s'', ?_, ?_⟩
      · simp [addFiles, hs', hadd]
      · simp [createFiles, hs', h, filePorts_succ]
    · refine Or.inr ⟨(name, true) :: pre, bad, post, rfl, List.forall_mem_cons.mpr ⟨rfl, hpre⟩, ?_⟩
      simp [createFiles, hs', h, filePorts_succ]

end

/-! ## The runs of `main` -/

/-- The resources in the order `main` creates them for a number of files. -/
def creations (fileCount : ℕ) : List Resource :=
  [.pjlib, .factory, .endpt, .pool, .conf, .recorder] ++ filePorts 0 fileCount

/-- The resources in the order `main` destroys them. -/
def destructions (fileCount : ℕ) : List Resource :=
  [.conf] ++ filePorts 0 fileCount ++ [.recorder, .pool, .endpt, .factory, .pjlib]

/-- The events up to the loop over the files, for a number of files and the options. -/
def startEvents (fileCount : ℕ) (o : SndOptions) : List MainEvent :=
  [.created .pjlib, .created .factory, .created .endpt, .created .pool,
    .createConf (portCount fileCount) o, .created .conf, .createWriter o, .created .recorder]

section

variable {σ : Type*} (api : ConfApi σ) (env : ConfEnv) (stdin : List Byte)

/-- Everything succeeds up to the files. -/
structure ReachesFiles : Prop where
  init : env.initOk = true
  options : ∀ r ∈ env.options, r.Accepted
  endpt : env.endptOk = true
  bridge : (api.create (portCount env.files.length)).isSome
  recorder : env.recorderOk = true

/-- Everything succeeds up to the menu. -/
structure ReachesMenu : Prop extends ReachesFiles api env where
  files : ∀ f ∈ env.files, f.2 = true

/-- The menu loop is left : no list of the session overruns its text. -/
def MenuReturns : Prop :=
  ∃ s, startUp api (env.files.map Prod.snd) = some s ∧
    (sessionBridge api env.boundOverflow env.files.length stdin s).isSome

/-- Everything that `main` looks at succeeds from `on_quit` on. -/
structure Cleans : Prop where
  conf : env.destroyConfOk = true
  files : ∀ i < env.files.length, env.destroyFileOk i = true

/-- The options of a run. -/
def confOptions : SndOptions :=
  (getSndOptions env.frameOverflow env.options confDefaults).2

/-- How a run of `main` goes, by the place where it ends. -/
inductive MainRun : List MainEvent × Exit → Prop
  | init : env.initOk = false → MainRun ([], .aborted)
  | options (e : OptError) : env.initOk = true → ¬(∀ r ∈ env.options, r.Accepted) →
      MainRun ([.created .pjlib, .optionError e, .usage], .returned 1)
  | endpt : env.initOk = true → (∀ r ∈ env.options, r.Accepted) → env.endptOk = false →
      MainRun ([.created .pjlib, .created .factory], .aborted)
  | bridge : env.initOk = true → (∀ r ∈ env.options, r.Accepted) → env.endptOk = true →
      (api.create (portCount env.files.length)).isSome = false →
      MainRun ((startEvents env.files.length (confOptions env)).take 5 ++ [.error .createConf],
        .returned 1)
  | recorder : env.initOk = true → (∀ r ∈ env.options, r.Accepted) → env.endptOk = true →
      env.recorderOk = false →
      MainRun ((startEvents env.files.length (confOptions env)).take 7 ++ [.error .createWriter],
        .returned 1)
  | files (pre post : List (List Byte × Bool)) (name : List Byte) : ReachesFiles api env →
      env.files = pre ++ (name, false) :: post → (∀ f ∈ pre, f.2 = true) →
      MainRun (startEvents env.files.length (confOptions env) ++
        ((filePorts 0 pre.length).map .created ++ (unusable name).1), (unusable name).2)
  | overrun : ReachesMenu api env → ¬MenuReturns api env stdin →
      MainRun (startEvents env.files.length (confOptions env) ++
        ((filePorts 0 env.files.length).map .created ++ [.menuEntered]), .undefined)
  | menu : ReachesMenu api env → MenuReturns api env stdin →
      MainRun (startEvents env.files.length (confOptions env) ++
        ((filePorts 0 env.files.length).map .created ++ .menuEntered ::
          .menuLeft (commands (menuSession (portCount env.files.length) stdin).trace) ::
            (onQuitMain env).1), (onQuitMain env).2)

variable {api} {view : σ → Bridge} (law : api.Lawful view)

include law

/-- On a lawful bridge no add fails, and so these are the runs. -/
theorem mainRun_confMain : MainRun api env stdin (confMain api env stdin) := by
  by_cases hinit : env.initOk = false
  · rw [confMain, if_pos hinit]
    exact .init hinit
  rw [confMain, if_neg hinit]
  rw [Bool.not_eq_false] at hinit
  have hopt := getSndOptions_eq_none_iff env.frameOverflow env.options confDefaults
  have ho : confOptions env = (getSndOptions env.frameOverflow env.options confDefaults).2 := rfl
  generalize getSndOptions env.frameOverflow env.options confDefaults = res at hopt ho ⊢
  obtain ⟨_ | e, o⟩ := res
  · have hacc := hopt.mp rfl
    obtain rfl : confOptions env = o := ho
    dsimp only
    by_cases hendpt : env.endptOk = false
    · rw [if_pos hendpt]
      exact .endpt hinit hacc hendpt
    rw [if_neg hendpt]
    rw [Bool.not_eq_false] at hendpt
    cases hcreate : api.create (portCount env.files.length) with
    | none => exact .bridge hinit hacc hendpt (by rw [hcreate]; rfl)
    | some s₀ =>
      dsimp only
      by_cases hrec : env.recorderOk = false
      · rw [if_pos hrec]
        exact .recorder hinit hacc hendpt hrec
      rw [if_neg hrec]
      rw [Bool.not_eq_false] at hrec
      have hreach : ReachesFiles api env := ⟨hinit, hacc, hendpt, by rw [hcreate]; rfl, hrec⟩
      -- the bridge has a slot for the recorder and each file
      obtain ⟨hn, hview⟩ := law.create _ _ hcreate
      have hcap : (view s₀).capacity = portCount env.files.length := by rw [hview]; rfl
      have hpc : portCount env.files.length = 2 + env.files.length := by
        unfold portCount recorder
        omega
      obtain ⟨-, hf, hcap'⟩ := addPort_filled law (hview ▸ Bridge.filled_create hn) (by omega)
      rcases createFiles_eq law env.files 0 hf (by omega) with ⟨hall, s, hadd, h⟩ |
        ⟨pre, name, post, hfiles, hpre, h⟩
      · have hs : startUp api (env.files.map Prod.snd) = some s := by
          rw [startUp, List.length_map, hcreate]
          exact hadd
        rw [h]
        dsimp only
        cases hend : sessionBridge api env.boundOverflow env.files.length stdin s with
        | none =>
          have hnot : ¬MenuReturns api env stdin := by
            rintro ⟨t, ht, hsome⟩
            rw [Option.some.inj (ht.symm.trans hs), hend] at hsome
            cases hsome
          have hrun : MainRun api env stdin _ := .overrun ⟨hreach, hall⟩ hnot
          simpa [startEvents] using hrun
        | some s' =>
          have hrun : MainRun api env stdin _ :=
            .menu ⟨hreach, hall⟩ ⟨s, hs, by rw [hend]; rfl⟩
          simpa [startEvents] using hrun
      · rw [h]
        have hrun : MainRun api env stdin _ := .files pre post name hreach hfiles hpre
        simpa [startEvents] using hrun
  · exact .options e hinit fun h => absurd (hopt.mpr h) (by simp)

end

/-- From `on_quit` on the bridge and the files are destroyed up to the first that fails, and
the rest only after all of them. -/
theorem onQuitMain_cases (env : ConfEnv) :
    (¬Cleans env ∧ (onQuitMain env = ([], .aborted) ∨ ∃ m < env.files.length,
      onQuitMain env = (.destroyed .conf :: (filePorts 0 m).map .destroyed, .aborted))) ∨
    Cleans env ∧ onQuitMain env = ((destructions env.files.length).map .destroyed,
      .returned 0) := by
  by_cases hconf : env.destroyConfOk = false
  · refine Or.inl ⟨fun h => absurd h.conf (by simp [hconf]), Or.inl ?_⟩
    rw [onQuitMain, if_pos hconf]
  rw [onQuitMain, if_neg hconf]
  rw [Bool.not_eq_false] at hconf
  rcases destroyFiles_eq env.destroyFileOk env.files.length 0 with ⟨h, hall⟩ | ⟨m, hm, h, hbad⟩
  · refine Or.inr ⟨⟨hconf, fun i hi => ?_⟩, ?_⟩
    · have := hall i hi
      rwa [Nat.zero_add] at this
    · rw [h]
      simp [destructions]
  · refine Or.inl ⟨fun hc => ?_, Or.inr ⟨m, hm, ?_⟩⟩
    · have := hc.files m hm
      rw [Nat.zero_add] at hbad
      exact absurd this (by simp [hbad])
    · rw [h]
      simp

/-! ## What the program does -/

section

variable {σ : Type*} (api : ConfApi σ) (env : ConfEnv) (stdin : List Byte)

/-- The first file that cannot be used. -/
def firstUnusable : Option (List Byte) :=
  (env.files.find? fun f => !f.2).map Prod.fst

/-- An assertion of `main` fails : PJLIB or the endpoint is not there, or something is not
destroyed. -/
def FailsAssertion : Prop :=
  env.initOk = false ∨ (∀ r ∈ env.options, r.Accepted) ∧ env.endptOk = false ∨
    ReachesMenu api env ∧ MenuReturns api env stdin ∧ ¬Cleans env

/-- A text of `main` overruns its array : the title about a file, or that of a list. -/
def Overruns : Prop :=
  (ReachesFiles api env ∧ ∃ name, firstUnusable env = some name ∧ ¬TitleFits name) ∨
    ReachesMenu api env ∧ ¬MenuReturns api env stdin

/-- How a run of `main` ends and what it shows. -/
structure MainRight (run : List MainEvent × Exit) : Prop where
  returned : ∀ n, run.2 = .returned n → n = 0 ∨ n = 1
  exit_zero : run.2 = .returned 0 ↔
    ReachesMenu api env ∧ MenuReturns api env stdin ∧ Cleans env
  aborted : run.2 = .aborted ↔ FailsAssertion api env stdin
  undefined : run.2 = .undefined ↔ Overruns api env stdin
  /-- The menu runs once everything is created, and only then. -/
  menu_entered : .menuEntered ∈ run.1 ↔ ReachesMenu api env
  menu_left : ∀ cs, .menuLeft cs ∈ run.1 ↔ ReachesMenu api env ∧ MenuReturns api env stdin ∧
    cs = commands (menuSession (portCount env.files.length) stdin).trace
  /-- With at most 32 files it is always left. -/
  menu_returns : ReachesMenu api env → env.files.length ≤ 32 → MenuReturns api env stdin
  /-- The usage is shown for options that are not accepted, and for a file that cannot be used. -/
  usage : .usage ∈ run.1 ↔ env.initOk = true ∧ ¬(∀ r ∈ env.options, r.Accepted) ∨
    ReachesFiles api env ∧ ∃ name, firstUnusable env = some name ∧ TitleFits name
  /-- The bridge and the recorder are created with the values of the options. -/
  conf_format : ∀ n o, .createConf n o ∈ run.1 →
    n = portCount env.files.length ∧ o = confOptions env
  writer_format : ∀ o, .createWriter o ∈ run.1 → o = confOptions env
  /-- No add fails. -/
  added : .error .addPort ∉ run.1

variable {api env stdin}

theorem firstUnusable_of_append {pre post : List (List Byte × Bool)} {name : List Byte}
    (hfiles : env.files = pre ++ (name, false) :: post) (hpre : ∀ f ∈ pre, f.2 = true) :
    firstUnusable env = some name := by
  have hfind : env.files.find? (fun f => !f.2) = some (name, false) :=
    List.find?_eq_some_iff_append.mpr ⟨rfl, pre, post, hfiles, fun f hf => by simp [hpre f hf]⟩
  rw [firstUnusable, hfind, Option.map_some]

theorem ReachesMenu.firstUnusable_eq_none (h : ReachesMenu api env) : firstUnusable env = none := by
  rw [firstUnusable, Option.map_eq_none_iff, List.find?_eq_none]
  intro f hf
  simp [h.files f hf]

/-- The files of a run that gets to the menu are those of a start-up. -/
theorem ReachesMenu.map_files (h : ReachesMenu api env) :
    env.files.map Prod.snd = List.replicate env.files.length true := by
  rw [List.eq_replicate_iff, List.length_map]
  refine ⟨rfl, fun b hb => ?_⟩
  obtain ⟨f, hf, rfl⟩ := List.mem_map.mp hb
  exact h.files f hf

/-- On at most 34 slots no list overruns its text. -/
theorem menuReturns_of_le {view : σ → Bridge} (law : api.Lawful view) (h : ReachesMenu api env)
    (hle : env.files.length ≤ 32) : MenuReturns api env stdin := by
  obtain ⟨s₀, h₀⟩ := Option.isSome_iff_exists.mp h.bridge
  obtain ⟨-, s, hs, -⟩ := startUp_spec law h₀
  refine ⟨s, h.map_files ▸ hs, (isSome_sessionBridge_iff law).mpr ?_⟩
  exact listsFit_of_le law (.start h₀ hs) hle

/-- A run that ends before the files. -/
theorem mainRight_of_not_reachesFiles {es : List MainEvent} {exit : Exit}
    (hnot : ¬ReachesFiles api env) (hret : ∀ n, exit = .returned n → n = 1)
    (habort : exit = .aborted ↔
      env.initOk = false ∨ (∀ r ∈ env.options, r.Accepted) ∧ env.endptOk = false)
    (hund : exit ≠ .undefined) (hentered : .menuEntered ∉ es) (hleft : ∀ cs, .menuLeft cs ∉ es)
    (husage : .usage ∈ es ↔ env.initOk = true ∧ ¬(∀ r ∈ env.options, r.Accepted))
    (hconf : ∀ n o, .createConf n o ∈ es → n = portCount env.files.length ∧ o = confOptions env)
    (hwriter : ∀ o, .createWriter o ∈ es → o = confOptions env)
    (hadd : .error .addPort ∉ es) : MainRight api env stdin (es, exit) := by
  have hmenu : ¬ReachesMenu api env := fun h => hnot h.toReachesFiles
  refine ⟨fun n hn => Or.inr (hret n hn), ?_, ?_, ?_, ?_, fun cs => ?_, fun h => (hmenu h).elim, ?_,
    hconf, hwriter, hadd⟩
  · simpa [hmenu] using fun h => absurd (hret 0 h) (by decide)
  · simpa [FailsAssertion, hmenu] using habort
  · simpa [Overruns, hmenu, hnot] using hund
  · simpa [hmenu] using hentered
  · simpa [hmenu] using hleft cs
  · simpa [hnot] using husage

/-- A run that ends at a file that cannot be used. -/
theorem mainRight_of_unusable {pre post : List (List Byte × Bool)} {name : List Byte}
    (hreach : ReachesFiles api env) (hfiles : env.files = pre ++ (name, false) :: post)
    (hpre : ∀ f ∈ pre, f.2 = true) :
    MainRight api env stdin (startEvents env.files.length (confOptions env) ++
      ((filePorts 0 pre.length).map .created ++ (unusable name).1), (unusable name).2) := by
  have hname := firstUnusable_of_append hfiles hpre
  have hmenu : ¬ReachesMenu api env := fun h => by
    rw [h.firstUnusable_eq_none] at hname
    cases hname
  have hopt := hreach.options
  have hends : ¬FailsAssertion api env stdin := by
    simp [FailsAssertion, hmenu, hreach.init, hreach.endpt]
  by_cases hfit : TitleFits name
  · have hrun : unusable name = ([.error (.useFile name), .usage], .returned 1) := if_pos hfit
    have hover : ¬Overruns api env stdin := by simp [Overruns, hmenu, hname, hfit]
    rw [hrun]
    refine ⟨by simp, by simp [hmenu], by simp [hends], by simp [hover], ?_, ?_,
      fun h => (hmenu h).elim, ?_, ?_, ?_, ?_⟩
    · simp [startEvents, hmenu]
    · simp [startEvents, hmenu]
    · simp [startEvents, hreach, hname, hfit]
    · simp [startEvents]
    · simp [startEvents]
    · simp [startEvents]
  · have hrun : unusable name = ([], .undefined) := if_neg hfit
    have hover : Overruns api env stdin := Or.inl ⟨hreach, name, hname, hfit⟩
    rw [hrun]
    refine ⟨by simp, by simp [hmenu], by simp [hends], by simp [hover], ?_, ?_,
      fun h => (hmenu h).elim, ?_, ?_, ?_, ?_⟩
    · simp [startEvents, hmenu]
    · simp [startEvents, hmenu]
    · simpa [startEvents, hname, hfit] using fun _ => hopt
    · simp [startEvents]
    · simp [startEvents]
    · simp [startEvents]

/-- From `on_quit` on there are only destructions. -/
theorem mem_onQuitMain {e : MainEvent} (he : e ∈ (onQuitMain env).1) : ∃ r, e = .destroyed r := by
  rcases onQuitMain_cases env with ⟨-, h | ⟨m, -, h⟩⟩ | ⟨-, h⟩
  · simp [h] at he
  · rw [h] at he
    rcases List.mem_cons.mp he with rfl | he
    · exact ⟨_, rfl⟩
    · obtain ⟨r, -, rfl⟩ := List.mem_map.mp he
      exact ⟨r, rfl⟩
  · rw [h] at he
    obtain ⟨r, -, rfl⟩ := List.mem_map.mp he
    exact ⟨r, rfl⟩

theorem notMem_onQuitMain {e : MainEvent} (h : ∀ r, e ≠ .destroyed r) : e ∉ (onQuitMain env).1 := by
  intro he
  obtain ⟨r, rfl⟩ := mem_onQuitMain he
  exact h r rfl

/-- From `on_quit` on a run returns 0 if everything is destroyed, and else aborts. -/
theorem snd_onQuitMain (env : ConfEnv) :
    Cleans env ∧ (onQuitMain env).2 = .returned 0 ∨ ¬Cleans env ∧ (onQuitMain env).2 = .aborted := by
  rcases onQuitMain_cases env with ⟨hn, h | ⟨m, -, h⟩⟩ | ⟨hc, h⟩
  · exact Or.inr ⟨hn, by rw [h]⟩
  · exact Or.inr ⟨hn, by rw [h]⟩
  · exact Or.inl ⟨hc, by rw [h]⟩

/-- A run that gets to the menu. -/
theorem mainRight_of_reachesMenu {view : σ → Bridge} (law : api.Lawful view)
    (hreach : ReachesMenu api env) {es : List MainEvent} {exit : Exit}
    (hes : ∀ e ∈ es, (∃ cs, e = .menuLeft cs) ∨ ∃ r, e = .destroyed r)
    (hleft : ∀ cs, .menuLeft cs ∈ es ↔ MenuReturns api env stdin ∧
      cs = commands (menuSession (portCount env.files.length) stdin).trace)
    (hret : ∀ n, exit = .returned n → n = 0)
    (hzero : exit = .returned 0 ↔ MenuReturns api env stdin ∧ Cleans env)
    (habort : exit = .aborted ↔ MenuReturns api env stdin ∧ ¬Cleans env)
    (hund : exit = .undefined ↔ ¬MenuReturns api env stdin) :
    MainRight api env stdin (startEvents env.files.length (confOptions env) ++
      ((filePorts 0 env.files.length).map .created ++ .menuEntered :: es), exit) := by
  have hnone := hreach.firstUnusable_eq_none
  have hno : ∀ e : MainEvent, (∀ cs, e ≠ .menuLeft cs) → (∀ r, e ≠ .destroyed r) → e ∉ es := by
    intro e h₁ h₂ he
    rcases hes e he with ⟨cs, rfl⟩ | ⟨r, rfl⟩
    · exact h₁ cs rfl
    · exact h₂ r rfl
  refine ⟨fun n hn => Or.inl (hret n hn), by simp [hzero, hreach], ?_, ?_, ?_, fun cs => ?_,
    fun _ hle => menuReturns_of_le law hreach hle, ?_, fun n o h => ?_, fun o h => ?_, fun h => ?_⟩
  · rw [habort]
    simp [FailsAssertion, hreach, hreach.init, hreach.endpt]
  · rw [hund]
    simp [Overruns, hreach, hnone]
  · simp [hreach]
  · simp [startEvents, hleft, hreach]
  · have hq := hno .usage (by simp) (by simp)
    simpa [startEvents, hq, hnone] using fun _ => hreach.options
  · have hq := hno (.createConf n o) (by simp) (by simp)
    simpa [startEvents, hq] using h
  · have hq := hno (.createWriter o) (by simp) (by simp)
    simpa [startEvents, hq] using h
  · have hq := hno (.error .addPort) (by simp) (by simp)
    simp [startEvents, hq] at h

end

/-- On a lawful bridge every run of `main` is right. -/
theorem confMain_right {σ : Type*} {api : ConfApi σ} {view : σ → Bridge} (law : api.Lawful view)
    (env : ConfEnv) (stdin : List Byte) : MainRight api env stdin (confMain api env stdin) := by
  have h := mainRun_confMain env stdin law
  generalize confMain api env stdin = run at h
  cases h with
  | init hinit =>
    exact mainRight_of_not_reachesFiles (fun h => absurd h.init (by simp [hinit])) (by simp)
      (by simp [hinit]) (by simp) (by simp) (by simp) (by simp [hinit]) (by simp) (by simp) (by simp)
  | options e hinit hacc =>
    exact mainRight_of_not_reachesFiles (fun h => hacc h.options) (by simp) (by simp [hinit, hacc])
      (by simp) (by simp) (by simp) (by simp [hinit, hacc]) (by simp) (by simp) (by simp)
  | endpt hinit hacc hendpt =>
    refine mainRight_of_not_reachesFiles (fun h => absurd h.endpt (by simp [hendpt])) (by simp) ?_
      (by simp) (by simp) (by simp) ?_ (by simp) (by simp) (by simp)
    · simpa [hinit, hendpt] using hacc
    · simpa using fun _ => hacc
  | bridge hinit hacc hendpt hcreate =>
    refine mainRight_of_not_reachesFiles (fun h => absurd h.bridge (by simp [hcreate])) (by simp)
      (by simp [hinit, hendpt]) (by simp) ?_ ?_ ?_ ?_ ?_ ?_
    · simp [startEvents]
    · simp [startEvents]
    · simpa [startEvents] using fun _ => hacc
    · simp [startEvents]
    · simp [startEvents]
    · simp [startEvents]
  | recorder hinit hacc hendpt hrec =>
    refine mainRight_of_not_reachesFiles (fun h => absurd h.recorder (by simp [hrec])) (by simp)
      (by simp [hinit, hendpt]) (by simp) ?_ ?_ ?_ ?_ ?_ ?_
    · simp [startEvents]
    · simp [startEvents]
    · simpa [startEvents] using fun _ => hacc
    · simp [startEvents]
    · simp [startEvents]
    · simp [startEvents]
  | files pre post name hreach hfiles hpre => exact mainRight_of_unusable hreach hfiles hpre
  | overrun hreach hover =>
    exact mainRight_of_reachesMenu law hreach (by simp) (by simp [hover]) (by simp) (by simp [hover])
      (by simp [hover]) (by simp [hover])
  | menu hreach hmenu =>
    have hq : ∀ cs, MainEvent.menuLeft cs ∉ (onQuitMain env).1 :=
      fun cs => notMem_onQuitMain (by simp)
    refine mainRight_of_reachesMenu law hreach (fun e he => ?_) (fun cs => by simp [hq, hmenu]) ?_ ?_
      ?_ ?_
    · rcases List.mem_cons.mp he with rfl | he
      · exact Or.inl ⟨_, rfl⟩
      · exact Or.inr (mem_onQuitMain he)
    all_goals rcases snd_onQuitMain env with ⟨hc, h⟩ | ⟨hc, h⟩ <;> simp [h, hc, hmenu]

/-- One file that loads, no options, and everything succeeds. -/
def oneFileEnv : ConfEnv where
  initOk := true
  options := []
  frameOverflow _ := 0
  endptOk := true
  recorderOk := true
  files := [(bytes ['a', '.', 'w', 'a', 'v'], true)]
  boundOverflow _ := 0
  destroyConfOk := true
  destroyFileOk _ := true

theorem confMain_right_one_file : MainRight Bridge.api oneFileEnv (bytes ['q', '\n'])
    (confMain Bridge.api oneFileEnv (bytes ['q', '\n'])) :=
  confMain_right Bridge.api_lawful oneFileEnv _

end PjmediaApps
