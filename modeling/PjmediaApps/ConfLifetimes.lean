import PjmediaApps.ConfMain

/-!
# What `conf_to_2_sounds` leaves behind

Every run of `main` creates and destroys the resources in one order, up to where it ends
(`lifetimes_order`) : it is a front part of the run that creates all of them and then destroys all
of them. A run that does not get to the menu destroys nothing. At every moment what is alive has
alive what it is built on, and a port that was created is alive as long as the bridge is
(`confMain_safe`).
-/

namespace PjmediaApps

open Interactive ByteStream CString Lifetimes

/-! ## The lifetimes of a trace -/

@[simp] theorem lifetimes_nil : lifetimes [] = [] :=
  rfl

@[simp] theorem lifetimes_append (es fs : List MainEvent) :
    lifetimes (es ++ fs) = lifetimes es ++ lifetimes fs :=
  List.filterMap_append

@[simp] theorem lifetimes_created (r : Resource) (es : List MainEvent) :
    lifetimes (.created r :: es) = .start r :: lifetimes es :=
  rfl

@[simp] theorem lifetimes_destroyed (r : Resource) (es : List MainEvent) :
    lifetimes (.destroyed r :: es) = .stop r :: lifetimes es :=
  rfl

/-- The other events are no part of a lifetime. -/
theorem lifetimes_cons_of_none {e : MainEvent} (he : e.lifetime = none) (es : List MainEvent) :
    lifetimes (e :: es) = lifetimes es :=
  List.filterMap_cons_none he

@[simp] theorem lifetimes_map_created (l : List Resource) :
    lifetimes (l.map .created) = l.map .start := by
  induction l with
  | nil => rfl
  | cons r l ih => rw [List.map_cons, lifetimes_created, ih, List.map_cons]

@[simp] theorem lifetimes_map_destroyed (l : List Resource) :
    lifetimes (l.map .destroyed) = l.map .stop := by
  induction l with
  | nil => rfl
  | cons r l ih => rw [List.map_cons, lifetimes_destroyed, ih, List.map_cons]

/-- The events up to the loop over the files create everything but the file ports. -/
theorem lifetimes_startEvents (k : ℕ) (o : SndOptions) : lifetimes (startEvents k o) =
    [Resource.pjlib, .factory, .endpt, .pool, .conf, .recorder].map .start :=
  rfl

/-! ## The order of a run -/

theorem filePorts_prefixes {i m n : ℕ} (h : m ≤ n) : filePorts i m <+: filePorts i n := by
  obtain ⟨d, rfl⟩ := Nat.exists_eq_add_of_le h
  rw [filePorts, filePorts, ← List.range'_append_1, List.map_append]
  exact List.prefix_append _ _

section

variable {σ : Type*} {api : ConfApi σ} {env : ConfEnv} {stdin : List Byte}

/-- What a run creates, and in what order it destroys. -/
structure LifetimesOrdered (api : ConfApi σ) (env : ConfEnv) (run : List MainEvent × Exit) : Prop where
  /-- The run is a front part of the one that creates everything and then destroys it. -/
  order : lifetimes run.1 <+: scope (creations env.files.length) (destructions env.files.length)
  /-- Nothing is destroyed before the menu. -/
  early : ¬ReachesMenu api env →
    lifetimes run.1 <+: (creations env.files.length).map .start
  /-- A run that returns 0 is the whole one. -/
  whole : run.2 = .returned 0 → lifetimes run.1 =
    scope (creations env.files.length) (destructions env.files.length)

/-- A run that only creates. -/
theorem lifetimesOrdered_of_early {es : List MainEvent} {exit : Exit}
    (h : lifetimes es <+: (creations env.files.length).map .start) (hexit : exit ≠ .returned 0) :
    LifetimesOrdered api env (es, exit) :=
  ⟨h.trans (List.prefix_append _ _), fun _ => h, fun h0 => (hexit h0).elim⟩

/-- A file that cannot be used ends the run with nothing created or destroyed for it. -/
theorem lifetimes_unusable (name : List Byte) :
    lifetimes (unusable name).1 = [] ∧ (unusable name).2 ≠ .returned 0 := by
  unfold unusable
  split_ifs <;> exact ⟨rfl, by simp⟩

/-- The events up to the menu create everything. -/
theorem lifetimes_toMenu (es : List MainEvent) :
    lifetimes (startEvents env.files.length (confOptions env) ++
      ((filePorts 0 env.files.length).map .created ++ .menuEntered :: es)) =
        (creations env.files.length).map .start ++ lifetimes es := by
  rw [lifetimes_append, lifetimes_append, lifetimes_startEvents, lifetimes_map_created,
    lifetimes_cons_of_none rfl, creations, List.map_append, List.append_assoc]

theorem lifetimes_order {run : List MainEvent × Exit} (h : MainRun api env stdin run) :
    LifetimesOrdered api env run := by
  have hstart : ∀ l, l <+: [Resource.pjlib, .factory, .endpt, .pool, .conf, .recorder] →
      l.map Lifetimes.Event.start <+: (creations env.files.length).map .start :=
    fun l hl => (hl.trans (List.prefix_append _ _)).map _
  cases h with
  | init => exact lifetimesOrdered_of_early List.nil_prefix (by simp)
  | options e => exact lifetimesOrdered_of_early (hstart [.pjlib] (by decide)) (by simp)
  | endpt => exact lifetimesOrdered_of_early (hstart [.pjlib, .factory] (by decide)) (by simp)
  | bridge =>
    exact lifetimesOrdered_of_early (hstart [.pjlib, .factory, .endpt, .pool] (by decide)) (by simp)
  | recorder =>
    exact lifetimesOrdered_of_early (hstart [.pjlib, .factory, .endpt, .pool, .conf] (by decide))
      (by simp)
  | files pre post name _ hfiles =>
    obtain ⟨hnone, hexit⟩ := lifetimes_unusable name
    refine lifetimesOrdered_of_early ?_ hexit
    have hlen : pre.length ≤ env.files.length := by simp [hfiles]
    rw [lifetimes_append, lifetimes_append, lifetimes_startEvents, lifetimes_map_created, hnone,
      List.append_nil, ← List.map_append]
    exact ((List.prefix_append_right_inj _).mpr (filePorts_prefixes hlen)).map _
  | overrun hreach hover =>
    refine lifetimesOrdered_of_early ?_ (by simp)
    rw [lifetimes_toMenu, lifetimes_nil, List.append_nil]
  | menu hreach =>
    have hall := @lifetimes_toMenu env
      (.menuLeft (commands (menuSession (portCount env.files.length) stdin).trace) ::
        (onQuitMain env).1)
    rw [lifetimes_cons_of_none rfl] at hall
    refine ⟨?_, fun hn => (hn hreach).elim, fun h0 => ?_⟩
    · rw [hall, scope, List.prefix_append_right_inj]
      rcases onQuitMain_cases env with ⟨-, h | ⟨m, hm, h⟩⟩ | ⟨-, h⟩
      · simp [h]
      · rw [h, lifetimes_destroyed, lifetimes_map_destroyed, destructions, List.append_assoc,
          ← List.map_cons, ← List.singleton_append]
        refine List.IsPrefix.map _ ((List.prefix_append_right_inj _).mpr ?_)
        exact (filePorts_prefixes hm.le).trans (List.prefix_append _ _)
      · rw [h, lifetimes_map_destroyed]
    · rw [hall, scope]
      rcases onQuitMain_cases env with ⟨-, h | ⟨m, hm, h⟩⟩ | ⟨-, h⟩
      · simp [h] at h0
      · simp [h] at h0
      · rw [h, lifetimes_map_destroyed]

end

/-! ## What is alive -/

/-- What a resource is built on. -/
inductive BuiltOn : Resource → Resource → Prop
  | factory : BuiltOn .factory .pjlib
  | endpt : BuiltOn .endpt .factory
  | pool : BuiltOn .pool .factory
  | conf : BuiltOn .conf .pool
  | recorder : BuiltOn .recorder .pool
  | file (i : ℕ) : BuiltOn (.file i) .pool

/-- The ports, which are added to the bridge. -/
inductive IsMediaPort : Resource → Prop
  | recorder : IsMediaPort .recorder
  | file (i : ℕ) : IsMediaPort (.file i)

theorem notMem_filePorts {i n : ℕ} {r : Resource} (hr : ∀ j, r ≠ .file j) :
    r ∉ filePorts i n := by
  intro h
  obtain ⟨j, -, rfl⟩ := List.mem_map.mp h
  exact hr j rfl

/-- A resource is created after the one it is built on, -/
theorem BuiltOn.before_creations {r d : Resource} (h : BuiltOn r d) (k : ℕ) :
    Before (creations k) d r := by
  cases h with
  | factory => exact before_append (l := [Resource.pjlib]) (by simp) (by simp)
  | endpt => exact before_append (l := [Resource.pjlib, .factory]) (by simp) (by simp)
  | pool => exact before_append (l := [Resource.pjlib, .factory, .endpt]) (by simp) (by simp)
  | conf => exact before_append (l := [Resource.pjlib, .factory, .endpt, .pool]) (by simp) (by simp)
  | recorder =>
    exact before_append (l := [Resource.pjlib, .factory, .endpt, .pool, .conf]) (by simp) (by simp)
  | file i => exact before_append (by simp) (by simp)

/-- and destroyed before it. -/
theorem BuiltOn.before_destructions {r d : Resource} (h : BuiltOn r d) {k : ℕ}
    (hr : r ∈ creations k) : Before (destructions k) r d := by
  have hsplit : ∀ l l', destructions k = [.conf] ++ filePorts 0 k ++ (l ++ l') →
      r ∈ [.conf] ++ filePorts 0 k ++ l → d ∉ l → (∀ j, d ≠ .file j) → d ≠ .conf →
        Before (destructions k) r d := by
    intro l l' hd hr hdl hfile hconf
    rw [hd, ← List.append_assoc]
    refine before_append hr ?_
    simp [hconf, notMem_filePorts hfile, hdl]
  cases h with
  | factory =>
    exact hsplit [.recorder, .pool, .endpt, .factory] _ rfl (by simp) (by simp) (by simp) (by simp)
  | endpt => exact hsplit [.recorder, .pool, .endpt] _ rfl (by simp) (by simp) (by simp) (by simp)
  | pool => exact hsplit [.recorder, .pool, .endpt] _ rfl (by simp) (by simp) (by simp) (by simp)
  | conf => exact hsplit [] _ rfl (by simp) (by simp) (by simp) (by simp)
  | recorder => exact hsplit [.recorder] _ rfl (by simp) (by simp) (by simp) (by simp)
  | file i =>
    have hi : Resource.file i ∈ filePorts 0 k := by simpa [creations] using hr
    exact hsplit [] _ rfl (by simp [hi]) (by simp) (by simp) (by simp)

/-- The bridge is destroyed before the ports. -/
theorem IsMediaPort.before_destructions {p : Resource} (hp : IsMediaPort p) (k : ℕ) :
    Before (destructions k) .conf p := by
  refine before_append (l := [Resource.conf]) (by simp) ?_
  cases hp <;> simp

theorem nodup_filePorts (i n : ℕ) : (filePorts i n).Nodup :=
  List.Nodup.map (fun _ _ h => Resource.file.inj h) List.nodup_range'

theorem nodup_creations (k : ℕ) : (creations k).Nodup := by
  rw [creations, List.nodup_append]
  refine ⟨by decide, nodup_filePorts 0 k, fun r hr d hd => ?_⟩
  obtain ⟨j, -, rfl⟩ := List.mem_map.mp hd
  rintro rfl
  simp at hr

/-- The destructions are the creations in another order. -/
theorem perm_destructions (k : ℕ) : (destructions k).Perm (creations k) := by
  have hfix : [Resource.conf, .recorder, .pool, .endpt, .factory, .pjlib].Perm
      [.pjlib, .factory, .endpt, .pool, .conf, .recorder] := by decide
  refine ((List.perm_append_right_iff _).mpr List.perm_append_comm).trans ?_
  rw [List.append_assoc]
  exact List.perm_append_comm.trans ((List.perm_append_right_iff _).mpr hfix)

theorem nodup_scope (k : ℕ) : (scope (creations k) (destructions k)).Nodup := by
  have hd : (destructions k).Nodup := (perm_destructions k).nodup_iff.mpr (nodup_creations k)
  rw [scope, List.nodup_append]
  refine ⟨List.Nodup.map (fun _ _ h => Event.start.inj h) (nodup_creations k),
    List.Nodup.map (fun _ _ h => Event.stop.inj h) hd, fun e he e' he' => ?_⟩
  obtain ⟨r, -, rfl⟩ := List.mem_map.mp he
  obtain ⟨r', -, rfl⟩ := List.mem_map.mp he'
  simp

/-- What holds of the lifetimes of a run at every moment, and at its end. -/
structure LifetimesSafe {σ : Type*} (api : ConfApi σ) (env : ConfEnv)
    (run : List MainEvent × Exit) : Prop where
  /-- What is alive has alive what it is built on. -/
  built_on : ∀ es, es <+: lifetimes run.1 → ∀ r d, BuiltOn r d → Alive es r → Alive es d
  /-- No port that was created is destroyed before the bridge. -/
  ports : ∀ es, es <+: lifetimes run.1 → ∀ p, IsMediaPort p → .start p ∈ es →
    Alive es .conf → Alive es p
  /-- Nothing is created or destroyed twice. -/
  once : (lifetimes run.1).Nodup
  /-- A run that does not get to the menu destroys nothing. -/
  early : ¬ReachesMenu api env → ∀ r, .stop r ∉ lifetimes run.1
  /-- A run that returns 0 leaves nothing. -/
  clean : run.2 = .returned 0 → ∀ r, ¬Alive (lifetimes run.1) r

theorem confMain_safe {σ : Type*} {api : ConfApi σ} {view : σ → Bridge} (law : api.Lawful view)
    (env : ConfEnv) (stdin : List Byte) : LifetimesSafe api env (confMain api env stdin) := by
  have h := lifetimes_order (mainRun_confMain env stdin law)
  have hmoment : ∀ es, es <+: lifetimes (confMain api env stdin).1 → ∃ n,
      es = (scope (creations env.files.length) (destructions env.files.length)).take n :=
    fun es hes => ⟨_, List.prefix_iff_eq_take.mp (hes.trans h.order)⟩
  refine ⟨fun es hes r d hrd hr => ?_, fun es hes p hp hstart hconf => ?_,
    (nodup_scope _).sublist h.order.sublist, fun hn r hr => ?_, fun h0 r hr => ?_⟩
  · obtain ⟨n, rfl⟩ := hmoment es hes
    have hmem := List.mem_of_mem_take ((alive_take_iff _ _ n r).mp hr).1
    exact alive_of_before (hrd.before_creations _) (hrd.before_destructions hmem) hr
  · obtain ⟨n, rfl⟩ := hmoment es hes
    refine alive_of_started (hp.before_destructions _) ?_ hconf
    rw [scope, List.take_append, ← List.map_take, ← List.map_take] at hstart
    rcases List.mem_append.mp hstart with hs | hs
    · obtain ⟨q, hq, hqp⟩ := List.mem_map.mp hs
      rwa [← Event.start.inj hqp]
    · obtain ⟨q, -, hqp⟩ := List.mem_map.mp hs
      cases hqp
  · obtain ⟨d, -, hd⟩ := List.mem_map.mp ((h.early hn).subset hr)
    cases hd
  · rw [h.whole h0, alive_scope_iff] at hr
    exact hr.2 ((perm_destructions _).mem_iff.mpr hr.1)

theorem confMain_safe_one_file : LifetimesSafe Bridge.api oneFileEnv
    (confMain Bridge.api oneFileEnv (bytes ['q', '\n'])) :=
  confMain_safe Bridge.api_lawful oneFileEnv _

end PjmediaApps
