import PjmediaApps.Streams

/-!
# Streams of programs side by side

The programs that create streams all use ports of one host. If several of them run on it, their
calls of `create_stream` come in some order. Whatever the order, all streams are created exactly
if one program sends and another receives, or if there is only one, and not `internal_stream.c`.
Then a stream that is sent is heard exactly if the receiver runs, and once (`sideBySide_right`).
-/

namespace PjmediaApps

/-! ## The programs -/

/-- The programs that create streams. -/
inductive StreamProgram
  | internalStream
  | pthreadEndpoints
  | sameEndpt
  /-- `test_pj_stream_original.c` with the argument 0, -/
  | send
  /-- and with another. -/
  | receive
  deriving DecidableEq, Repr

/-- A program with the codec it finds and the numbers `pj_rand` gives it. -/
structure StreamProcess where
  program : StreamProgram
  codecInfo : CodecInfo
  rand : ℕ → ℕ

/-- The streams of `pthread_endpoints.c`, and of the sender. -/
def sendCalls (codecInfo : CodecInfo) (rand : ℕ → ℕ) : List StreamCall :=
  [⟨codecInfo, .encoding, 4000, SockAddr.init localhost 6070, rand 0⟩,
    ⟨codecInfo, .encoding, 4002, SockAddr.init localhost 6072, rand 1⟩]

/-- The streams of the receiver. -/
def receiveCalls (codecInfo : CodecInfo) (rand : ℕ → ℕ) : List StreamCall :=
  [⟨codecInfo, .decoding, 6070, ⟨0, [], 0⟩, rand 0⟩,
    ⟨codecInfo, .decoding, 6072, ⟨0, [], 0⟩, rand 1⟩]

/-- The calls of `create_stream` in a program, in order. -/
def StreamProcess.calls (p : StreamProcess) : List StreamCall :=
  match p.program with
  | .internalStream => internalStreamCalls p.codecInfo p.rand
  | .pthreadEndpoints | .send => sendCalls p.codecInfo p.rand
  | .sameEndpt => [⟨p.codecInfo, .encoding, 4000, SockAddr.init localhost 6070, p.rand 0⟩,
      ⟨p.codecInfo, .decoding, 6072, ⟨0, [], 0⟩, p.rand 1⟩]
  | .receive => receiveCalls p.codecInfo p.rand

/-- A stream is sent to the port that another listens on. -/
def Reaches (c c' : StreamCall) : Prop :=
  c.dir = .encoding ∧ c'.dir = .decoding ∧ c.info.remAddr = SockAddr.init localhost c'.localPort

/-- The program only sends, on two ports. -/
def StreamProcess.Sends (p : StreamProcess) : Prop :=
  p.program = .pthreadEndpoints ∨ p.program = .send

/-- One of the programs sends and the other receives. -/
def Match (p q : StreamProcess) : Prop :=
  p.Sends ∧ q.program = .receive ∨ p.program = .receive ∧ q.Sends

instance : Std.Symm Match :=
  ⟨fun _ _ h => Or.imp And.symm And.symm (Or.symm h)⟩

instance : Std.Symm Apart :=
  ⟨fun _ _ h => Or.symm h⟩

/-! ## Ports -/

theorem hasPorts_of_mem_calls {p : StreamProcess} : ∀ c ∈ p.calls, c.HasPorts := by
  obtain ⟨program, codecInfo, rand⟩ := p
  cases program <;> simp [StreamProcess.calls, internalStreamCalls, sendCalls, receiveCalls,
    StreamCall.HasPorts]

/-- Only `internal_stream.c` gets into its own way. -/
theorem pairwise_apart_calls (p : StreamProcess) :
    p.calls.Pairwise Apart ↔ p.program ≠ .internalStream := by
  obtain ⟨program, codecInfo, rand⟩ := p
  cases program <;> simp [StreamProcess.calls, internalStreamCalls, sendCalls, receiveCalls, Apart]

/-- Only a sender and a receiver keep out of each other's way. -/
theorem forall_apart_calls (p q : StreamProcess) :
    (∀ c ∈ p.calls, ∀ c' ∈ q.calls, Apart c c') ↔ Match p q := by
  obtain ⟨program, codecInfo, rand⟩ := p
  obtain ⟨program', codecInfo', rand'⟩ := q
  cases program <;> cases program' <;>
    simp [StreamProcess.calls, internalStreamCalls, sendCalls, receiveCalls, Apart, Match,
      StreamProcess.Sends]

/-- The ports of programs side by side are apart exactly if any two of them match. -/
theorem pairwise_apart_flatMap_calls (ps : List StreamProcess) :
    (ps.flatMap StreamProcess.calls).Pairwise Apart ↔
      (∀ p ∈ ps, p.program ≠ .internalStream) ∧ ps.Pairwise Match := by
  simp only [List.pairwise_flatMap, pairwise_apart_calls, forall_apart_calls]

/-- Of three programs two do not match. -/
theorem length_le_two_of_match {ps : List StreamProcess}
    (h : ps.Pairwise Match) : ps.length ≤ 2 := by
  match ps with
  | [] | [_] | [_, _] => simp
  | p :: q :: r :: _ =>
    simp only [List.pairwise_cons, List.mem_cons, forall_eq_or_imp] at h
    obtain ⟨⟨hpq, hpr, -⟩, ⟨hqr, -⟩, -⟩ := h
    unfold Match StreamProcess.Sends at hpq hpr hqr
    grind

/-! ## Who hears whom -/

/-- No program but `internal_stream.c` hears itself. -/
theorem not_reaches_self {p : StreamProcess} (hp : p.program ≠ .internalStream) {c c' : StreamCall}
    (hc : c ∈ p.calls) (hc' : c' ∈ p.calls) : ¬Reaches c c' := by
  obtain ⟨program, codecInfo, rand⟩ := p
  rintro ⟨henc, hdec, haddr⟩
  cases program
  · exact hp rfl
  all_goals
    simp only [StreamProcess.calls, sendCalls, receiveCalls, List.mem_cons, List.not_mem_nil,
      or_false] at hc hc'
    rcases hc with rfl | rfl <;> rcases hc' with rfl | rfl <;>
      simp [StreamCall.info, SockAddr.init, afInet] at henc hdec haddr

/-- The receiver sends nothing. -/
theorem not_encoding_of_receive {p : StreamProcess} (hp : p.program = .receive) {c : StreamCall}
    (hc : c ∈ p.calls) : c.dir ≠ .encoding := by
  simp only [StreamProcess.calls, hp, receiveCalls, List.mem_cons, List.not_mem_nil, or_false] at hc
  rcases hc with rfl | rfl <;> simp

/-- What a sender sends reaches a receiver. -/
theorem exists_reaches {p r : StreamProcess} (hp : p.Sends) (hr : r.program = .receive)
    {c : StreamCall} (hc : c ∈ p.calls) : ∃ c' ∈ r.calls, Reaches c c' := by
  have hcalls : p.calls = sendCalls p.codecInfo p.rand := by
    unfold StreamProcess.calls
    rcases hp with h | h <;> rw [h]
  rw [StreamProcess.calls, hr]
  simp only [hcalls, sendCalls, List.mem_cons, List.not_mem_nil, or_false] at hc
  rcases hc with rfl | rfl
  · exact ⟨⟨r.codecInfo, .decoding, 6070, ⟨0, [], 0⟩, r.rand 0⟩, by simp [receiveCalls], rfl, rfl,
      rfl⟩
  · exact ⟨⟨r.codecInfo, .decoding, 6072, ⟨0, [], 0⟩, r.rand 1⟩, by simp [receiveCalls], rfl, rfl,
      rfl⟩

/-! ## In any order -/

/-- What becomes of the streams of programs that run side by side, with the calls `cs` in some
order. -/
structure SideBySideRight {σ τ ρ : Type*} (net : MediaNet σ τ ρ) (ps : List StreamProcess)
    (cs : List StreamCall) (s : σ) : Prop where
  /-- All streams are created exactly if the programs match. -/
  all : (createStreams net cs s).1.map Prod.fst = cs ↔
    (∀ p ∈ ps, p.program ≠ .internalStream) ∧ ps.Pairwise Match
  /-- Then there are two programs at most, -/
  two : (createStreams net cs s).1.map Prod.fst = cs → ps.length ≤ 2
  /-- a stream that is sent is heard exactly if the receiver runs, -/
  heard : (createStreams net cs s).1.map Prod.fst = cs → ∀ c ∈ cs, c.dir = .encoding →
    ((∃ c' ∈ cs, Reaches c c') ↔ ∃ p ∈ ps, p.program = .receive)
  /-- and once. -/
  once : (createStreams net cs s).1.map Prod.fst = cs → ∀ c ∈ cs, ∀ c' ∈ cs, ∀ c'' ∈ cs,
    Reaches c c' → Reaches c c'' → c' = c''

/-- Programs started side by side on a reliable network, with the ports they use free, do the
same in whatever order their calls come. -/
theorem sideBySide_right {σ τ ρ : Type*} {net : MediaNet σ τ ρ} {taken : σ → Finset ℕ}
    {portOf : τ → ℕ} (law : net.Lawful taken portOf) (rel : net.Reliable taken)
    (ps : List StreamProcess) {cs : List StreamCall}
    (hcs : cs.Perm (ps.flatMap StreamProcess.calls)) {s : σ}
    (hfree : ∀ c ∈ cs, Disjoint (portPair c.localPort) (taken s)) :
    SideBySideRight net ps cs s := by
  have hmem : ∀ c ∈ cs, ∃ p ∈ ps, c ∈ p.calls := fun c hc => List.mem_flatMap.mp (hcs.subset hc)
  have hports : ∀ c ∈ cs, c.HasPorts := by
    intro c hc
    obtain ⟨p, -, hcp⟩ := hmem c hc
    exact hasPorts_of_mem_calls c hcp
  have hapart : (createStreams net cs s).1.map Prod.fst = cs ↔ cs.Pairwise Apart :=
    (map_createStreams_iff law rel hports).trans (and_iff_right hfree)
  have hall : cs.Pairwise Apart ↔
      (∀ p ∈ ps, p.program ≠ .internalStream) ∧ ps.Pairwise Match :=
    (hcs.pairwise_iff Or.symm).trans (pairwise_apart_flatMap_calls ps)
  refine ⟨hapart.trans hall, fun h => ?_, fun h c hc henc => ?_,
    fun h c _ c' hc' c'' hc'' hr hr' => ?_⟩
  · exact length_le_two_of_match (hall.mp (hapart.mp h)).2
  · obtain ⟨hself, hmatch⟩ := hall.mp (hapart.mp h)
    obtain ⟨p, hp, hcp⟩ := hmem c hc
    refine ⟨fun ⟨c', hc', hr⟩ => ?_, fun ⟨r, hrp, hrec⟩ => ?_⟩
    · obtain ⟨q, hq, hcq⟩ := hmem c' hc'
      have hne : p ≠ q := by
        rintro rfl
        exact not_reaches_self (hself p hp) hcp hcq hr
      rcases hmatch.forall hp hq hne with ⟨-, hrec⟩ | ⟨hrec, -⟩
      · exact ⟨q, hq, hrec⟩
      · exact ⟨p, hp, hrec⟩
    · have hne : p ≠ r := by
        rintro rfl
        exact not_encoding_of_receive hrec hcp henc
      rcases hmatch.forall hp hrp hne with ⟨hsends, -⟩ | ⟨hrec', -⟩
      · obtain ⟨c', hc', hr⟩ := exists_reaches hsends hrec hcp
        exact ⟨c', hcs.symm.subset (List.mem_flatMap.mpr ⟨r, hrp, hc'⟩), hr⟩
      · exact (not_encoding_of_receive hrec' hcp henc).elim
  · -- the two would listen on one port
    by_contra hne
    have hports := (hapart.mp h).forall hc' hc'' hne
    have hport : c'.localPort = c''.localPort := by
      have := hr.2.2.symm.trans hr'.2.2
      simpa [SockAddr.init] using this
    unfold Apart at hports
    omega

/-- A sender and a receiver that take turns. -/
theorem sideBySide_right_in_turns :
    SideBySideRight plainNet [⟨.send, pcmu, id⟩, ⟨.receive, pcmu, id⟩]
      [⟨pcmu, .encoding, 4000, SockAddr.init localhost 6070, 0⟩,
        ⟨pcmu, .decoding, 6070, ⟨0, [], 0⟩, 0⟩,
        ⟨pcmu, .encoding, 4002, SockAddr.init localhost 6072, 1⟩,
        ⟨pcmu, .decoding, 6072, ⟨0, [], 0⟩, 1⟩] ∅ :=
  sideBySide_right plainNet_lawful plainNet_reliable _ (.cons _ (.swap _ _ _)) (by simp)

end PjmediaApps
