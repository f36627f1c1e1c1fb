import PjmediaApps.Decimal
import PjmediaApps.WriteLog

/-!
# The sound options

`get_snd_options` of `util.h` goes over the options of the command line as `pj_getopt_long`
returns them. Each of the five options is a number read by `strtol` to its end, and the first
option that is unknown or whose value is no number ends the loop. A frame size of zero, given
or not, is replaced by the samples of 20 ms, as far as `int` holds the products they are
computed from.

The options are accepted exactly if every one is known and its value is a decimal number or
empty. Then every field has the value given for it last, and the one of the caller if there is
none (`getSndOptions_right`), so options printed for given values are read back in any
order (`getSndOptions_printed`).
-/

namespace PjmediaApps

open ByteStream CString WriteLog

/-- What a call of `pj_getopt_long` gives : the character it returns, `pj_optarg` and
`pj_optopt`. -/
structure Opt where
  c : Byte
  optarg : List Byte
  optopt : Byte
  deriving DecidableEq, Repr

/-- The variables that the options set. -/
structure SndOptions where
  devId : ℤ
  clockRate : ℤ
  channelCount : ℤ
  samplesPerFrame : ℤ
  bitsPerSample : ℤ
  deriving DecidableEq, Repr

/-- What `get_snd_options` logs before it returns `PJ_EINVAL`. -/
inductive OptError
  | deviceId
  | clockRate
  | channelCount
  | samplesPerFrame
  | bitsPerSample
  | unknown (optopt : Byte)
  deriving DecidableEq, Repr

/-! ## The loop -/

/-- A case of the switch : read the value to its end, and set a variable to it. -/
def readValue (r : Opt) (e : OptError) (set : ℤ → SndOptions) : Except OptError SndOptions :=
  let v := strtol r.optarg
  if v.2 ≠ [] then .error e else .ok (set (toInt32 v.1))

/-- The switch on an option. -/
def optStep (o : SndOptions) (r : Opt) : Except OptError SndOptions :=
  if r.c = ch 'd' then readValue r .deviceId fun v => { o with devId := v }
  else if r.c = ch 'r' then readValue r .clockRate fun v => { o with clockRate := v }
  else if r.c = ch 'c' then readValue r .channelCount fun v => { o with channelCount := v }
  else if r.c = ch 'f' then readValue r .samplesPerFrame fun v => { o with samplesPerFrame := v }
  else if r.c = ch 'b' then readValue r .bitsPerSample fun v => { o with bitsPerSample := v }
  else .error (.unknown r.optopt)

/-- The loop over the options : the error that ends it, if one does, and the variables. -/
def optLoop : List Opt → SndOptions → Option OptError × SndOptions
  | [], o => (none, o)
  | r :: rs, o =>
    match optStep o r with
    | .error e => (some e, o)
    | .ok o' => optLoop rs o'

section

variable (ub : SndOptions → ℤ)

/-- `*clock_rate * *channel_count * 20 / 1000`. A product that overflows is undefined, and what
a build makes of it is a parameter. -/
def frameOf20ms (o : SndOptions) : ℤ :=
  let n := o.clockRate * o.channelCount
  if FitsInt n ∧ FitsInt (n * 20) then (n * 20).tdiv 1000 else ub o

/-- `get_snd_options` on what `pj_getopt_long` gives, one call after another, and the variables
of the caller. -/
def getSndOptions (rs : List Opt) (o : SndOptions) : Option OptError × SndOptions :=
  match optLoop rs { o with samplesPerFrame := 0 } with
  | (some e, o') => (some e, o')
  | (none, o') =>
    (none,
      if o'.samplesPerFrame = 0 then { o' with samplesPerFrame := frameOf20ms ub o' } else o')

end

/-! ## The fields -/

/-- The variables by name. -/
inductive SndField
  | devId
  | clockRate
  | channelCount
  | samplesPerFrame
  | bitsPerSample
  deriving DecidableEq, Repr

namespace SndField

/-- The character of the option for a field. -/
def letter : SndField → Byte
  | .devId => ch 'd'
  | .clockRate => ch 'r'
  | .channelCount => ch 'c'
  | .samplesPerFrame => ch 'f'
  | .bitsPerSample => ch 'b'

/-- The error for a value that is no number. -/
def error : SndField → OptError
  | .devId => .deviceId
  | .clockRate => .clockRate
  | .channelCount => .channelCount
  | .samplesPerFrame => .samplesPerFrame
  | .bitsPerSample => .bitsPerSample

def get (o : SndOptions) : SndField → ℤ
  | .devId => o.devId
  | .clockRate => o.clockRate
  | .channelCount => o.channelCount
  | .samplesPerFrame => o.samplesPerFrame
  | .bitsPerSample => o.bitsPerSample

def set (o : SndOptions) : SndField → ℤ → SndOptions
  | .devId, v => { o with devId := v }
  | .clockRate, v => { o with clockRate := v }
  | .channelCount, v => { o with channelCount := v }
  | .samplesPerFrame, v => { o with samplesPerFrame := v }
  | .bitsPerSample, v => { o with bitsPerSample := v }

/-- The field an option is for. -/
def ofLetter (c : Byte) : Option SndField :=
  if c = ch 'd' then some .devId
  else if c = ch 'r' then some .clockRate
  else if c = ch 'c' then some .channelCount
  else if c = ch 'f' then some .samplesPerFrame
  else if c = ch 'b' then some .bitsPerSample
  else none

theorem ofLetter_eq_some {c : Byte} {f : SndField} : ofLetter c = some f ↔ c = f.letter := by
  unfold ofLetter
  split_ifs with hd hr hc hf hb
  · subst hd; cases f <;> decide
  · subst hr; cases f <;> decide
  · subst hc; cases f <;> decide
  · subst hf; cases f <;> decide
  · subst hb; cases f <;> decide
  · cases f <;> simp [letter, *]

theorem ofLetter_eq_none {c : Byte} : ofLetter c = none ↔ ∀ f : SndField, c ≠ f.letter := by
  rw [Option.eq_none_iff_forall_ne_some]
  exact forall_congr' fun f => not_congr ofLetter_eq_some

theorem get_set (o : SndOptions) (f g : SndField) (v : ℤ) :
    get (set o f v) g = if g = f then v else get o g := by
  cases f <;> cases g <;> rfl

/-- The variables are determined by the fields. -/
@[ext] theorem ext_get {o o' : SndOptions} (h : ∀ f, get o f = get o' f) : o = o' := by
  cases o
  cases o'
  simp only [SndOptions.mk.injEq]
  exact ⟨h .devId, h .clockRate, h .channelCount, h .samplesPerFrame, h .bitsPerSample⟩

end SndField

/-! ## Accepted options -/

/-- The option is known, and its value is a decimal number or empty. -/
def Opt.Accepted (r : Opt) : Prop :=
  (∃ f : SndField, r.c = f.letter) ∧ (r.optarg = [] ∨ ∃ n, IsDecimal r.optarg n)

/-- What an option sets a field to. -/
def setting (r : Opt) (f : SndField) : Option ℤ :=
  if r.c = f.letter then some (toInt32 (strtol r.optarg).1) else none

/-- The error for an option that is not accepted. -/
def rejection (r : Opt) : OptError :=
  match SndField.ofLetter r.c with
  | some f => f.error
  | none => .unknown r.optopt

/-- The variables with those that an option sets. -/
def setOpt (o : SndOptions) (r : Opt) : SndOptions :=
  match SndField.ofLetter r.c with
  | some f => f.set o (toInt32 (strtol r.optarg).1)
  | none => o

theorem strtol_snd_eq_nil_iff {s : List Byte} :
    (strtol s).2 = [] ↔ s = [] ∨ ∃ n, IsDecimal s n := by
  by_cases hs : s = []
  · subst hs
    exact ⟨fun _ => Or.inl rfl, fun _ => rfl⟩
  · have h := fun v => @strtol_consumes_iff s hs v
    refine ⟨fun hend => ?_, ?_⟩
    · obtain ⟨n, hn, -⟩ := (h (strtol s).1).mp (Prod.ext rfl hend)
      exact Or.inr ⟨n, hn⟩
    · rintro (hnil | ⟨n, hn⟩)
      · exact (hs hnil).elim
      · rw [(h (clampLong n)).mpr ⟨n, hn, rfl⟩]

/-- The five cases of the switch are one. -/
theorem optStep_eq (o : SndOptions) (r : Opt) : optStep o r =
    match SndField.ofLetter r.c with
    | some f => readValue r f.error (f.set o)
    | none => .error (.unknown r.optopt) := by
  cases hg : SndField.ofLetter r.c with
  | some f =>
    obtain ⟨c, optarg, optopt⟩ := r
    obtain rfl : c = f.letter := SndField.ofLetter_eq_some.mp hg
    cases f <;> rfl
  | none =>
    have hne := SndField.ofLetter_eq_none.mp hg
    have hd : r.c ≠ ch 'd' := hne .devId
    have hr : r.c ≠ ch 'r' := hne .clockRate
    have hc : r.c ≠ ch 'c' := hne .channelCount
    have hf : r.c ≠ ch 'f' := hne .samplesPerFrame
    have hb : r.c ≠ ch 'b' := hne .bitsPerSample
    rw [optStep, if_neg hd, if_neg hr, if_neg hc, if_neg hf, if_neg hb]

theorem optStep_of_accepted (o : SndOptions) {r : Opt} (h : r.Accepted) :
    optStep o r = .ok (setOpt o r) := by
  obtain ⟨⟨f, hf⟩, hval⟩ := h
  rw [optStep_eq, setOpt, SndField.ofLetter_eq_some.mpr hf]
  exact if_neg (not_not.mpr (strtol_snd_eq_nil_iff.mpr hval))

theorem optStep_of_not_accepted (o : SndOptions) {r : Opt} (h : ¬r.Accepted) :
    optStep o r = .error (rejection r) := by
  rw [optStep_eq, rejection]
  cases hf : SndField.ofLetter r.c with
  | none => rfl
  | some f =>
    refine if_pos fun hend => h ⟨⟨f, SndField.ofLetter_eq_some.mp hf⟩, ?_⟩
    exact strtol_snd_eq_nil_iff.mp hend

/-- Accepted options are all set. -/
theorem optLoop_of_accepted : ∀ {rs : List Opt} (o : SndOptions), (∀ r ∈ rs, r.Accepted) →
    optLoop rs o = (none, rs.foldl setOpt o)
  | [], _, _ => rfl
  | r :: rs, o, h => by
    rw [List.forall_mem_cons] at h
    rw [optLoop, optStep_of_accepted o h.1, List.foldl_cons]
    exact optLoop_of_accepted _ h.2

/-- The first option that is not accepted ends the loop. -/
theorem optLoop_append_of_not_accepted {r : Opt} (hr : ¬r.Accepted) (post : List Opt) :
    ∀ {pre : List Opt} (o : SndOptions), (∀ r ∈ pre, r.Accepted) →
      optLoop (pre ++ r :: post) o = (some (rejection r), pre.foldl setOpt o)
  | [], o, _ => by rw [List.nil_append, optLoop, optStep_of_not_accepted o hr, List.foldl_nil]
  | q :: pre, o, h => by
    rw [List.forall_mem_cons] at h
    rw [List.cons_append, optLoop, optStep_of_accepted o h.1, List.foldl_cons]
    exact optLoop_append_of_not_accepted hr post _ h.2

/-- Some first option is not accepted, or all are. -/
theorem forall_accepted_or (rs : List Opt) : (∀ r ∈ rs, r.Accepted) ∨
    ∃ pre r post, rs = pre ++ r :: post ∧ (∀ r' ∈ pre, r'.Accepted) ∧ ¬r.Accepted := by
  induction rs with
  | nil => exact Or.inl (by simp)
  | cons r rs ih =>
    by_cases hr : r.Accepted
    · rcases ih with h | ⟨pre, r', post, rfl, hpre, hr'⟩
      · exact Or.inl (List.forall_mem_cons.mpr ⟨hr, h⟩)
      · exact Or.inr ⟨r :: pre, r', post, rfl, List.forall_mem_cons.mpr ⟨hr, hpre⟩, hr'⟩
    · exact Or.inr ⟨[], r, rs, rfl, by simp, hr⟩

/-- Setting options writes their fields and keeps the others. -/
theorem applies_setOpt : Applies (fun o r => some (setOpt o r)) (fun _ => True) (fun _ => True)
    (fun o f => SndField.get o f) setting where
  inv _ _ _ _ _ _ := trivial
  get_step o r o' _ _ ho' f := by
    obtain rfl := Option.some.inj ho'
    unfold setOpt setting
    cases hg : SndField.ofLetter r.c with
    | none =>
      rw [if_neg (SndField.ofLetter_eq_none.mp hg f), Option.getD_none]
    | some g =>
      have hc := SndField.ofLetter_eq_some.mp hg
      have hfg : r.c = f.letter ↔ f = g := by
        rw [← SndField.ofLetter_eq_some, hg, Option.some_inj, eq_comm]
      simp only [SndField.get_set, hfg]
      split_ifs <;> rfl

/-- After accepted options a field has the value given for it last. -/
theorem get_setAll (rs : List Opt) (o : SndOptions) (f : SndField) :
    SndField.get (rs.foldl setOpt o) f = (lastWrite setting rs f).getD (SndField.get o f) :=
  applies_setOpt.get_foldlM rs trivial (fun _ _ => trivial) List.foldlM_pure f

section

variable (ub : SndOptions → ℤ)

/-! ## The frame size -/

/-- The default frame has the samples of 20 ms if twenty times the samples of a second are in
an `int`. -/
theorem frameOf20ms_of_le {o : SndOptions} (h : 0 ≤ o.clockRate * o.channelCount)
    (hle : o.clockRate * o.channelCount ≤ 107374182) :
    frameOf20ms ub o = o.clockRate * o.channelCount / 50 := by
  unfold frameOf20ms FitsInt
  generalize o.clockRate * o.channelCount = n at h hle ⊢
  dsimp only
  rw [if_pos (by omega), Int.tdiv_eq_ediv_of_nonneg (by omega)]
  omega

/-! ## `get_snd_options` -/

/-- The variables with the default frame size in place of zero. -/
def withFrame (o : SndOptions) : SndOptions :=
  if o.samplesPerFrame = 0 then { o with samplesPerFrame := frameOf20ms ub o } else o

theorem getSndOptions_of_accepted {rs : List Opt} (h : ∀ r ∈ rs, r.Accepted) (o : SndOptions) :
    getSndOptions ub rs o =
      (none, withFrame ub (rs.foldl setOpt { o with samplesPerFrame := 0 })) := by
  rw [getSndOptions, optLoop_of_accepted _ h]
  rfl

theorem getSndOptions_of_not_accepted {pre post : List Opt} {r : Opt}
    (hpre : ∀ r ∈ pre, r.Accepted) (hr : ¬r.Accepted) (o : SndOptions) :
    getSndOptions ub (pre ++ r :: post) o =
      (some (rejection r), pre.foldl setOpt { o with samplesPerFrame := 0 }) := by
  rw [getSndOptions, optLoop_append_of_not_accepted hr post _ hpre]

theorem getSndOptions_eq_none_iff (rs : List Opt) (o : SndOptions) :
    (getSndOptions ub rs o).1 = none ↔ ∀ r ∈ rs, r.Accepted := by
  rcases forall_accepted_or rs with h | ⟨pre, r, post, rfl, hpre, hr⟩
  · rw [getSndOptions_of_accepted ub h]
    exact ⟨fun _ => h, fun _ => rfl⟩
  · rw [getSndOptions_of_not_accepted ub hpre hr]
    exact ⟨by simp, fun h => (hr (h r (by simp))).elim⟩

theorem get_withFrame (o : SndOptions) {f : SndField} (hf : f ≠ .samplesPerFrame) :
    SndField.get (withFrame ub o) f = SndField.get o f := by
  unfold withFrame
  split_ifs
  · cases f <;> first | rfl | exact (hf rfl).elim
  · rfl

/-- What `get_snd_options` does with the options `rs` and the caller's variables `o`. -/
structure OptionsRight (rs : List Opt) (o : SndOptions) (res : Option OptError × SndOptions) :
    Prop where
  /-- It fails exactly if an option is unknown or its value no number. -/
  accepted : res.1 = none ↔ ∀ r ∈ rs, r.Accepted
  /-- The error is that of the first such option. -/
  rejected : ∀ e, res.1 = some e → ∃ pre r post, rs = pre ++ r :: post ∧
    (∀ r' ∈ pre, r'.Accepted) ∧ ¬r.Accepted ∧ e = rejection r
  /-- The other variables have the last value given, or stay. -/
  fields : res.1 = none → ∀ f, f ≠ .samplesPerFrame →
    SndField.get res.2 f = (lastWrite setting rs f).getD (SndField.get o f)
  /-- The frame size is the last value given, if that is not zero. -/
  given : res.1 = none → ∀ v, lastWrite setting rs .samplesPerFrame = some v → v ≠ 0 →
    res.2.samplesPerFrame = v
  /-- Else it is what 20 ms have at the rate and channels chosen, wherever the options for
  these stand. -/
  frame : res.1 = none → (∀ v, lastWrite setting rs .samplesPerFrame = some v → v = 0) →
    0 ≤ res.2.clockRate * res.2.channelCount →
      res.2.clockRate * res.2.channelCount ≤ 107374182 →
        res.2.samplesPerFrame = res.2.clockRate * res.2.channelCount / 50

/-- An option for each variable, with its value printed. -/
def printed (o : SndOptions) : List Opt :=
  [SndField.devId, .clockRate, .channelCount, .samplesPerFrame, .bitsPerSample].map fun f =>
    ⟨f.letter, showInt (f.get o), 0⟩

theorem mem_printed {o : SndOptions} {r : Opt} :
    r ∈ printed o ↔ ∃ f : SndField, r = ⟨f.letter, showInt (f.get o), 0⟩ := by
  rw [printed, List.mem_map]
  refine ⟨fun ⟨f, _, h⟩ => ⟨f, h.symm⟩, fun ⟨f, h⟩ => ⟨f, ?_, h.symm⟩⟩
  cases f <;> simp

theorem SndField.letter_inj {f g : SndField} (h : f.letter = g.letter) : f = g :=
  Option.some.inj ((ofLetter_eq_some.mpr rfl).symm.trans (ofLetter_eq_some.mpr h))

/-- Options printed for values that fit in an `int` are read back in any order, and a frame
size of zero as the default. -/
theorem getSndOptions_printed {o : SndOptions}
    (ho : ∀ f : SndField, -2147483648 ≤ f.get o ∧ f.get o < 2147483648) {rs : List Opt}
    (hrs : rs.Perm (printed o)) (init : SndOptions) :
    getSndOptions ub rs init = (none, withFrame ub o) := by
  have hmem : ∀ r, r ∈ rs ↔ ∃ f : SndField, r = ⟨f.letter, showInt (f.get o), 0⟩ := fun r =>
    hrs.mem_iff.trans mem_printed
  have hacc : ∀ r ∈ rs, r.Accepted := by
    intro r hr
    obtain ⟨f, rfl⟩ := (hmem r).mp hr
    exact ⟨⟨f, rfl⟩, Or.inr ⟨_, isDecimal_showInt _⟩⟩
  have hval : ∀ f : SndField, toInt32 (strtol (showInt (f.get o))).1 = f.get o := by
    intro f
    rw [strtol_showInt, clampLong_of_mem (ho f).1 (ho f).2, toInt32_of_mem (ho f).1 (ho f).2]
  have hlast : ∀ f : SndField, lastWrite setting rs f = some (f.get o) := by
    intro f
    refine lastWrite_of_mem ((hmem _).mpr ⟨f, rfl⟩) ?_ fun r' hr' w hw => ?_
    · rw [setting, if_pos rfl, hval]
    · obtain ⟨g, rfl⟩ := (hmem r').mp hr'
      unfold setting at hw
      split_ifs at hw with hfg
      obtain rfl := SndField.letter_inj hfg
      rw [← Option.some.inj hw, hval]
  have hset : rs.foldl setOpt { init with samplesPerFrame := 0 } = o := by
    ext f
    rw [get_setAll, hlast, Option.getD_some]
  rw [getSndOptions_of_accepted ub hacc, hset]

end

/-- Two channels at 8000 Hz, with the options in the order in which `printed` gives them. -/
theorem getSndOptions_printed_stereo :
    getSndOptions (fun _ => 0) (printed ⟨-1, 8000, 2, 0, 16⟩) ⟨0, 44100, 1, 882, 16⟩ =
      (none, ⟨-1, 8000, 2, 320, 16⟩) :=
  getSndOptions_printed _ (fun f => by cases f <;> simp [SndField.get]) (List.Perm.refl _) _

end PjmediaApps
