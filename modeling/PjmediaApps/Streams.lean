import Mathlib.Data.Finset.Disjoint
import Mathlib.Data.Finset.Basic
import Mathlib.Data.Finset.Lattice.Lemmas
import Mathlib.Data.List.Pairwise
import Mathlib.Order.Nat

/-!
# Streams and their transports

`create_stream`, the same text in `internal_stream.c`, `pthread_endpoints.c`, `same_endpt.c` and
`test_pj_stream_original.c`, creates a UDP transport on a local port and a stream on the
transport, and closes the transport again if there is no stream. A transport takes its port and
the next one, for RTP and RTCP. Transports and streams are code of pjmedia, `MediaNet`.

After any calls the ports that are taken are those of the streams : a call that fails leaves no
transport behind, and no two streams can have ports less than two apart. On a network where
nothing else fails every stream is created exactly if the ports asked for allow it
(`createStreams_right`). `internal_stream.c` asks for both of its encoding streams on one port, so
one of them is never created (`internalStream_not_both`).
-/

namespace PjmediaApps

/-! ## The interface -/

/-- `pj_sockaddr_in`. -/
structure SockAddr where
  family : ℕ
  addr : List ℕ
  port : ℕ
  deriving DecidableEq, Repr

/-- `pj_AF_INET()`. -/
def afInet : ℕ := 2

/-- `pj_sockaddr_in_init`. -/
def SockAddr.init (addr : List ℕ) (port : ℕ) : SockAddr :=
  ⟨afInet, addr, port⟩

/-- 127.0.0.1. -/
def localhost : List ℕ :=
  [127, 0, 0, 1]

/-- `pjmedia_dir`, of those the programs use. -/
inductive MediaDir
  | encoding
  | decoding
  deriving DecidableEq, Repr

/-- `pjmedia_codec_info`. -/
structure CodecInfo where
  pt : ℕ
  encodingName : String
  clockRate : ℕ
  channelCnt : ℕ
  deriving DecidableEq, Repr

/-- `pjmedia_stream_info` for an audio stream, the fields that are set. -/
structure StreamInfo where
  dir : MediaDir
  fmt : CodecInfo
  txPt : ℕ
  rxPt : ℕ
  ssrc : ℕ
  remAddr : SockAddr
  deriving DecidableEq, Repr

/-- The calls on transports `τ` and streams `ρ`, over states `σ`. -/
structure MediaNet (σ τ ρ : Type*) where
  /-- `pjmedia_transport_udp_create` on a port. -/
  udpCreate : σ → ℕ → Option τ × σ
  /-- `pjmedia_stream_create`. -/
  streamCreate : σ → StreamInfo → τ → Option ρ × σ
  /-- `pjmedia_transport_close`. -/
  transportClose : σ → τ → σ

/-- The ports of a transport. -/
def portPair (p : ℕ) : Finset ℕ :=
  {p, p + 1}

/-- What the programs rely on, with the ports that are taken in a state. -/
structure MediaNet.Lawful {σ τ ρ : Type*} (net : MediaNet σ τ ρ) (taken : σ → Finset ℕ)
    (portOf : τ → ℕ) : Prop where
  /-- A transport takes ports that were free. Port 0 stands for any port, and the port after
  65535 is no port. -/
  udpCreate_some : ∀ s p t s', 0 < p → p < 65535 → net.udpCreate s p = (some t, s') →
    portOf t = p ∧ Disjoint (portPair p) (taken s) ∧ taken s' = portPair p ∪ taken s
  udpCreate_none : ∀ s p s', net.udpCreate s p = (none, s') → taken s' = taken s
  streamCreate : ∀ s info t, taken (net.streamCreate s info t).2 = taken s
  transportClose : ∀ s t, taken (net.transportClose s t) = taken s \ portPair (portOf t)

/-- A call fails only for want of ports. -/
structure MediaNet.Reliable {σ τ ρ : Type*} (net : MediaNet σ τ ρ) (taken : σ → Finset ℕ) :
    Prop where
  udpCreate : ∀ s p, 0 < p → p < 65535 → Disjoint (portPair p) (taken s) →
    (net.udpCreate s p).1.isSome
  streamCreate : ∀ s info t, (net.streamCreate s info t).1.isSome

/-! ## `create_stream` -/

/-- The arguments of a call of `create_stream`, and the number `pj_rand` gives in it. -/
structure StreamCall where
  codecInfo : CodecInfo
  dir : MediaDir
  localPort : ℕ
  remAddr : SockAddr
  rand : ℕ
  deriving DecidableEq, Repr

/-- The local port of a call names two ports. -/
def StreamCall.HasPorts (c : StreamCall) : Prop :=
  0 < c.localPort ∧ c.localPort < 65535

/-- The stream info of a call. An address that is not set is replaced by an arbitrary one. -/
def StreamCall.info (c : StreamCall) : StreamInfo where
  dir := c.dir
  fmt := c.codecInfo
  txPt := c.codecInfo.pt
  rxPt := c.codecInfo.pt
  ssrc := c.rand
  remAddr := if c.remAddr.family = 0 then SockAddr.init localhost 0 else c.remAddr

section

variable {σ τ ρ : Type*} (net : MediaNet σ τ ρ)

/-- `create_stream`, the stream if it succeeds. -/
def createStream (c : StreamCall) (s : σ) : Option ρ × σ :=
  match net.udpCreate s c.localPort with
  | (none, s') => (none, s')
  | (some transport, s') =>
    match net.streamCreate s' c.info transport with
    | (none, s'') => (none, net.transportClose s'' transport)
    | (some stream, s'') => (some stream, s'')

/-- Calls in order, and the streams of those that succeed. -/
def createStreams : List StreamCall → σ → List (StreamCall × ρ) × σ
  | [], s => ([], s)
  | c :: cs, s =>
    let r := createStream net c s
    let rs := createStreams cs r.2
    ((r.1.map fun stream => (c, stream)).toList ++ rs.1, rs.2)

end

/-! ## The ports taken -/

/-- The ports of some calls. -/
def portsOf (cs : List StreamCall) : Finset ℕ :=
  cs.foldr (fun c ps => portPair c.localPort ∪ ps) ∅

theorem disjoint_portPair_iff {p q : ℕ} :
    Disjoint (portPair p) (portPair q) ↔ p + 2 ≤ q ∨ q + 2 ≤ p := by
  simp only [portPair, Finset.disjoint_left, Finset.mem_insert, Finset.mem_singleton]
  refine ⟨fun h => ?_, fun h a => by omega⟩
  by_contra hcon
  rcases Nat.lt_trichotomy p q with hlt | heq | hlt
  · exact h (a := p + 1) (Or.inr rfl) (Or.inl (by omega))
  · exact h (a := p) (Or.inl rfl) (Or.inl heq)
  · exact h (a := q + 1) (Or.inl (by omega)) (Or.inr rfl)

section

variable {σ τ ρ : Type*} {net : MediaNet σ τ ρ} {taken : σ → Finset ℕ} {portOf : τ → ℕ}
  (law : net.Lawful taken portOf)

include law

/-- A call takes the ports of its stream, which were free, or none. -/
theorem createStream_spec {c : StreamCall} (hc : c.HasPorts) (s : σ) :
    ((createStream net c s).1 = none ∧ taken (createStream net c s).2 = taken s) ∨
      ∃ stream, (createStream net c s).1 = some stream ∧
        Disjoint (portPair c.localPort) (taken s) ∧
          taken (createStream net c s).2 = portPair c.localPort ∪ taken s := by
  unfold createStream
  split
  · next s' h => exact Or.inl ⟨rfl, law.udpCreate_none _ _ _ h⟩
  · next t s' h =>
    obtain ⟨hport, hfree, htaken⟩ := law.udpCreate_some _ _ _ _ hc.1 hc.2 h
    have hstream := law.streamCreate s' c.info t
    split
    · next s'' h' =>
      rw [h'] at hstream
      refine Or.inl ⟨rfl, ?_⟩
      rw [law.transportClose, hstream, htaken, hport, Finset.union_sdiff_left]
      exact Finset.sdiff_eq_self_of_disjoint hfree.symm
    · next stream s'' h' =>
      rw [h'] at hstream
      exact Or.inr ⟨stream, rfl, hfree, hstream.trans htaken⟩

omit law in
/-- On a reliable network a call whose ports are free gives a stream. -/
theorem createStream_isSome (rel : net.Reliable taken) {c : StreamCall} (hc : c.HasPorts) {s : σ}
    (hfree : Disjoint (portPair c.localPort) (taken s)) : (createStream net c s).1.isSome := by
  obtain ⟨t, ht⟩ := Option.isSome_iff_exists.mp (rel.udpCreate s _ hc.1 hc.2 hfree)
  obtain ⟨s', h⟩ : ∃ s', net.udpCreate s c.localPort = (some t, s') := ⟨_, Prod.ext ht rfl⟩
  obtain ⟨stream, hs⟩ := Option.isSome_iff_exists.mp (rel.streamCreate s' c.info t)
  obtain ⟨s'', h'⟩ : ∃ s'', net.streamCreate s' c.info t = (some stream, s'') :=
    ⟨_, Prod.ext hs rfl⟩
  rw [createStream, h]
  dsimp only
  rw [h']
  rfl

end

/-- Ports of calls that leave room for both transports. -/
def Apart (c c' : StreamCall) : Prop :=
  c.localPort + 2 ≤ c'.localPort ∨ c'.localPort + 2 ≤ c.localPort

/-- Calls that are apart are not for one port. -/
theorem length_le_one_of_apart {cs : List StreamCall} {p : ℕ} (h : cs.Pairwise Apart)
    (hp : ∀ c ∈ cs, c.localPort = p) : cs.length ≤ 1 := by
  match cs with
  | [] => exact Nat.zero_le _
  | [_] => exact le_rfl
  | c :: c' :: cs =>
    have hapart := (List.pairwise_cons.mp h).1 c' (by simp)
    have hc := hp c (by simp)
    have hc' := hp c' (by simp)
    unfold Apart at hapart
    omega

/-- What calls of `create_stream` leave. -/
structure StreamsLeft {σ ρ : Type*} (taken : σ → Finset ℕ) (cs : List StreamCall) (s : σ)
    (res : List (StreamCall × ρ) × σ) : Prop where
  /-- The streams are those of some of the calls, in order. -/
  calls : (res.1.map Prod.fst).Sublist cs
  /-- The ports taken are those from before and those of the streams. -/
  taken_eq : taken res.2 = portsOf (res.1.map Prod.fst) ∪ taken s
  /-- The ports of a stream were free. -/
  free : ∀ c ∈ res.1.map Prod.fst, Disjoint (portPair c.localPort) (taken s)
  /-- Any two streams have ports at least two apart. -/
  apart : (res.1.map Prod.fst).Pairwise Apart

section

variable {σ τ ρ : Type*} {net : MediaNet σ τ ρ} {taken : σ → Finset ℕ} {portOf : τ → ℕ}
  (law : net.Lawful taken portOf)

include law

theorem streamsLeft_createStreams : ∀ (cs : List StreamCall) (s : σ), (∀ c ∈ cs, c.HasPorts) →
    StreamsLeft taken cs s (createStreams net cs s)
  | [], s, _ => ⟨List.Sublist.refl _, (Finset.empty_union _).symm, by simp [createStreams], .nil⟩
  | c :: cs, s, hcs => by
    have ih := streamsLeft_createStreams cs (createStream net c s).2 (List.forall_mem_cons.mp hcs).2
    simp only [createStreams]
    rcases createStream_spec law (hcs c (List.mem_cons_self ..)) s with
      ⟨hnone, htaken⟩ | ⟨stream, hsome, hfree, htaken⟩
    · rw [hnone]
      refine ⟨ih.calls.cons _, ?_, fun r hr => ?_, ih.apart⟩
      · exact ih.taken_eq.trans (by rw [htaken]; rfl)
      · rw [← htaken]
        exact ih.free r hr
    · rw [hsome]
      have hrest : ∀ c' ∈ (createStreams net cs (createStream net c s).2).1.map Prod.fst,
          Disjoint (portPair c'.localPort) (portPair c.localPort) ∧
            Disjoint (portPair c'.localPort) (taken s) := by
        intro c' hc'
        have := ih.free c' hc'
        rwa [htaken, Finset.disjoint_union_right] at this
      refine ⟨ih.calls.cons_cons _, ?_, ?_, List.pairwise_cons.mpr ⟨fun c' hc' => ?_, ih.apart⟩⟩
      · rw [ih.taken_eq, htaken, ← Finset.union_assoc, Finset.union_comm (portsOf _)]
        rfl
      · exact List.forall_mem_cons.mpr ⟨hfree, fun c' hc' => (hrest c' hc').2⟩
      · exact disjoint_portPair_iff.mp (hrest c' hc').1.symm

/-- On a reliable network calls for free ports that are apart all give streams. -/
theorem map_createStreams_of_apart (rel : net.Reliable taken) : ∀ (cs : List StreamCall) (s : σ),
    (∀ c ∈ cs, c.HasPorts) → (∀ c ∈ cs, Disjoint (portPair c.localPort) (taken s)) →
      cs.Pairwise Apart → (createStreams net cs s).1.map Prod.fst = cs
  | [], _, _, _, _ => rfl
  | c :: cs, s, hcs, hfree, hapart => by
    rw [List.forall_mem_cons] at hcs hfree
    rw [List.pairwise_cons] at hapart
    obtain ⟨stream, hstream⟩ :=
      Option.isSome_iff_exists.mp (createStream_isSome rel hcs.1 hfree.1)
    have htaken : taken (createStream net c s).2 = portPair c.localPort ∪ taken s := by
      rcases createStream_spec law hcs.1 s with ⟨hnone, -⟩ | ⟨-, -, -, h⟩
      · rw [hnone] at hstream
        cases hstream
      · exact h
    have ih := map_createStreams_of_apart rel cs (createStream net c s).2 hcs.2
      (fun c' hc' => ?_) hapart.2
    · simp only [createStreams, hstream, List.map_append, ih]
      rfl
    · rw [htaken, Finset.disjoint_union_right]
      exact ⟨(disjoint_portPair_iff.mpr (hapart.1 c' hc')).symm, hfree.2 c' hc'⟩

/-- On a reliable network all streams are created exactly if the ports are free and apart. -/
theorem map_createStreams_iff (rel : net.Reliable taken) {cs : List StreamCall} {s : σ}
    (hcs : ∀ c ∈ cs, c.HasPorts) : (createStreams net cs s).1.map Prod.fst = cs ↔
      (∀ c ∈ cs, Disjoint (portPair c.localPort) (taken s)) ∧ cs.Pairwise Apart := by
  refine ⟨fun hall => ?_, fun ⟨hfree, hapart⟩ => ?_⟩
  · have h := streamsLeft_createStreams law cs s hcs
    have hfree := h.free
    have hapart := h.apart
    rw [hall] at hfree hapart
    exact ⟨hfree, hapart⟩
  · exact map_createStreams_of_apart law rel cs s hcs hfree hapart

/-- What calls of `create_stream` do. -/
structure StreamsRight {σ τ ρ : Type*} (net : MediaNet σ τ ρ) (taken : σ → Finset ℕ)
    (cs : List StreamCall) (s : σ) : Prop extends
    StreamsLeft taken cs s (createStreams net cs s) where
  /-- On a reliable network all streams are created exactly if the ports are free and apart. -/
  all : net.Reliable taken → ((createStreams net cs s).1.map Prod.fst = cs ↔
    (∀ c ∈ cs, Disjoint (portPair c.localPort) (taken s)) ∧ cs.Pairwise Apart)

/-- After any calls of `create_stream` the ports taken are those of the streams there are, and
those taken before. -/
theorem createStreams_right (cs : List StreamCall) (s : σ) (hcs : ∀ c ∈ cs, c.HasPorts) :
    StreamsRight net taken cs s :=
  ⟨streamsLeft_createStreams law cs s hcs, fun rel => map_createStreams_iff law rel hcs⟩

end

/-! ## A network with nothing else on it -/

/-- Ports are taken by transports only, and every stream is created. -/
def plainNet : MediaNet (Finset ℕ) ℕ StreamInfo where
  udpCreate s p := if Disjoint (portPair p) s then (some p, portPair p ∪ s) else (none, s)
  streamCreate s info _ := (some info, s)
  transportClose s t := s \ portPair t

theorem plainNet_lawful : plainNet.Lawful id id where
  udpCreate_some s p t s' _ _ h := by
    simp only [plainNet] at h
    split at h
    · next hfree =>
      obtain ⟨rfl, rfl⟩ : p = t ∧ portPair p ∪ s = s' := by simpa using h
      exact ⟨rfl, hfree, rfl⟩
    · simp at h
  udpCreate_none s p s' h := by
    simp only [plainNet] at h
    split at h
    · simp at h
    · exact (Prod.mk.inj h).2.symm
  streamCreate _ _ _ := rfl
  transportClose _ _ := rfl

theorem plainNet_reliable : plainNet.Reliable id where
  udpCreate s p _ _ h := by
    simp only [id] at h
    simp [plainNet, h]
  streamCreate _ _ _ := rfl

/-! ## `internal_stream.c` -/

/-- The calls of `internal_stream.c` : two encoding streams, and a decoding stream for the
first of them. -/
def internalStreamCalls (codecInfo : CodecInfo) (rand : ℕ → ℕ) : List StreamCall :=
  [⟨codecInfo, .encoding, 4000, SockAddr.init localhost 6070, rand 0⟩,
    ⟨codecInfo, .encoding, 4000, SockAddr.init localhost 6072, rand 1⟩,
    ⟨codecInfo, .decoding, 6070, ⟨0, [], 0⟩, rand 2⟩]

/-- Whatever the calls on the network give, at most one of the two encoding streams of
`internal_stream.c` is created. -/
theorem internalStream_not_both {σ τ ρ : Type*} {net : MediaNet σ τ ρ} {taken : σ → Finset ℕ}
    {portOf : τ → ℕ} (law : net.Lawful taken portOf) (codecInfo : CodecInfo) (rand : ℕ → ℕ)
    (s : σ) : (((createStreams net (internalStreamCalls codecInfo rand) s).1.map Prod.fst).filter
      fun c => c.dir = .encoding).length ≤ 1 := by
  have h := streamsLeft_createStreams law (internalStreamCalls codecInfo rand) s
    (by simp [internalStreamCalls, StreamCall.HasPorts])
  refine length_le_one_of_apart (p := 4000) (h.apart.filter _) fun c hc => ?_
  obtain ⟨hc, hdir⟩ := List.mem_filter.mp hc
  have hmem := h.calls.subset hc
  simp only [internalStreamCalls, List.mem_cons, List.not_mem_nil, or_false] at hmem
  rcases hmem with rfl | rfl | rfl
  · rfl
  · rfl
  · simp at hdir

/-- The first codec of the programs. -/
def pcmu : CodecInfo :=
  ⟨0, "PCMU", 8000, 1⟩

theorem createStreams_right_internal :
    plainNet.Reliable id ∧ StreamsRight plainNet id (internalStreamCalls pcmu id) ∅ :=
  ⟨plainNet_reliable,
    createStreams_right plainNet_lawful _ _ (by simp [internalStreamCalls, StreamCall.HasPorts])⟩

theorem internalStream_not_both_plain :
    (((createStreams plainNet (internalStreamCalls pcmu id) ∅).1.map Prod.fst).filter
      fun c => c.dir = .encoding).length ≤ 1 :=
  internalStream_not_both plainNet_lawful pcmu id ∅

end PjmediaApps
