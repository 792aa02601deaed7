/-
**The generator of a synthetic workload.**

Requests arrive at times drawn one after another, until the workload is over.  The generator
schedules the first arrival when it is attached, and each later one when a request arrives.  Every
prompt is a prefix that it shares with the other requests of its bucket and a suffix of its own.
The prefixes are drawn once, and they fill whole blocks.

Main definitions:

* `Numbered` — arrivals that are named by their numbers;
* `StreamConfig` — the knobs of the workload;
* `StreamRandom` — a random generator that also draws times;
* `RequestGenerator` — the generator;
* `RequestGenerator.attach`, `RequestGenerator.onArriveChain` — its calls;
* `RequestGenerator.Generated`, `RequestGenerator.Stream` — the arrivals that it makes.

Main results:

* `StreamConfig.prefixLen_le` — a prompt is not shorter than its prefix;
* `RequestGenerator.run_buildRequest` — a request is made;
* `RequestGenerator.Owing.run_onArriveChain` — **the chain goes on until the workload is over**;
* `RequestGenerator.Fresh.run_attach` — so does attaching.
-/

import NanoKVRouter.TraceChain
import NanoKVRouter.TraceRequests

set_option relaxedAutoImplicit false
set_option autoImplicit false

namespace NanoKVRouter

/-! ### Numbered names -/

/-- The arrivals of requests that are named by their numbers, in order. -/
def Numbered (name : String) (evs : List (Event Payload)) : Prop :=
  ∀ (i : ℕ) (ev : Event Payload), evs[i]? = some ev →
    ∃ req, ev.payload = .requestArrive req ∧ req.requestId = name ++ toString i

/-- A name tells its number. -/
theorem numbered_injective (name : String) {i j : ℕ}
    (h : name ++ toString i = name ++ toString j) : i = j := by
  have hlist := congrArg String.toList h
  rw [String.toList_append, String.toList_append, Nat.toString_eq_repr, Nat.toString_eq_repr,
    Nat.toList_repr, Nat.toList_repr] at hlist
  have hdigits := congrArg (Nat.ofDigitChars 10 · 0) (List.append_cancel_left hlist)
  simpa [Nat.ofDigitChars_toDigits] using hdigits

/-- An arrival that follows others has a new name. -/
theorem Numbered.ne {name : String} {evs : List (Event Payload)} {last : Event Payload}
    (h : Numbered name (evs ++ [last])) {ev : Event Payload} (hev : ev ∈ evs) {req req' : Request}
    (hp : ev.payload = .requestArrive req) (hlast : last.payload = .requestArrive req') :
    req.requestId ≠ req'.requestId := by
  obtain ⟨i, hi, rfl⟩ := List.getElem_of_mem hev
  obtain ⟨r, hr, hid⟩ := h i evs[i]
    (by rw [List.getElem?_append_left hi, List.getElem?_eq_getElem hi])
  obtain ⟨r', hr', hid'⟩ := h evs.length last List.getElem?_concat_length
  cases hp.symm.trans hr
  cases hlast.symm.trans hr'
  rw [hid, hid']
  exact fun heq => absurd (numbered_injective name heq) (by omega)

/-! ### Configuration -/

/-- The knobs of `WorkloadConfig` and `GeneratorConfig` that only this generator reads. -/
structure StreamConfig where
  requestRate : ℚ := 50
  durationS : ℚ := 60
  prefixSharingRatio : ℚ := 3 / 5
  avgPromptLen : ℕ := 1024
  numBuckets : ℕ := 10
  requestRate_pos : 0 < requestRate := by decide +kernel
  durationS_pos : 0 < durationS := by decide +kernel
  ratio_mem : 0 ≤ prefixSharingRatio ∧ prefixSharingRatio ≤ 1 := by decide +kernel
  one_le_avgPromptLen : 1 ≤ avgPromptLen := by decide
  one_le_numBuckets : 1 ≤ numBuckets := by decide

theorem sixty_pos : (0 : ℚ) < 60 := by decide +kernel

theorem threeFifths_mem : (0 : ℚ) ≤ 3 / 5 ∧ (3 / 5 : ℚ) ≤ 1 := by decide +kernel

/-- The default knobs. -/
def StreamConfig.defaults : StreamConfig :=
  { durationS_pos := sixty_pos, ratio_mem := threeFifths_mem }

namespace StreamConfig

variable (stream : StreamConfig)

/-- `_mean_interarrival_ms`. -/
def meanInterarrivalMs : Time := 1000 / stream.requestRate

/-- `_end_time_ms`. -/
def endTimeMs : Time := stream.durationS * 1000

/-- `_prefix_len`: the share of the prompt, cut to full blocks. -/
def prefixLen (blockSize : ℕ) : ℤ :=
  pyInt (stream.prefixSharingRatio * stream.avgPromptLen) / blockSize * blockSize

/-- `_suffix_len`. -/
def suffixLen (blockSize : ℕ) : ℤ := stream.avgPromptLen - stream.prefixLen blockSize

theorem meanInterarrivalMs_pos : 0 < stream.meanInterarrivalMs :=
  div_pos (by decide +kernel) stream.requestRate_pos

/-- The share of the prompt. -/
theorem pyInt_share : 0 ≤ pyInt (stream.prefixSharingRatio * stream.avgPromptLen) ∧
    pyInt (stream.prefixSharingRatio * stream.avgPromptLen) ≤ stream.avgPromptLen := by
  obtain ⟨hlow, hhigh⟩ := stream.ratio_mem
  have hlen : (0 : ℚ) ≤ stream.avgPromptLen := Nat.cast_nonneg _
  have hnn : 0 ≤ stream.prefixSharingRatio * stream.avgPromptLen := mul_nonneg hlow hlen
  rw [pyInt, if_neg (not_lt.2 hnn)]
  refine ⟨Int.floor_nonneg.2 hnn, ?_⟩
  have hle : stream.prefixSharingRatio * stream.avgPromptLen ≤ stream.avgPromptLen :=
    mul_le_of_le_one_left hlen hhigh
  have hfloor := Int.floor_le_floor hle
  rwa [Int.floor_natCast] at hfloor

theorem prefixLen_nonneg (blockSize : ℕ) : 0 ≤ stream.prefixLen blockSize :=
  Int.mul_nonneg (Int.ediv_nonneg stream.pyInt_share.1 (Int.natCast_nonneg _))
    (Int.natCast_nonneg _)

/-- A prompt is not shorter than its prefix. -/
theorem prefixLen_le (blockSize : ℕ) : stream.prefixLen blockSize ≤ stream.avgPromptLen := by
  obtain ⟨-, hle⟩ := stream.pyInt_share
  rcases Nat.eq_zero_or_pos blockSize with rfl | hpos
  · rw [prefixLen, Nat.cast_zero, Int.mul_zero]
    exact Int.natCast_nonneg _
  · exact (Int.ediv_mul_le _ (by omega)).trans hle

end StreamConfig

/-! ### The generator -/

/-- A random generator that also draws from exponential distributions.  No draw is below `minGap`;
of the library's generator it is known that no draw is negative. -/
structure StreamRandom (ρ : Type) extends PyRandom ρ where
  expovariate : ℚ → Py ρ ℚ
  minGap : ℚ
  minGap_nonneg : 0 ≤ minGap
  draws_expovariate : ∀ lambd, 0 < lambd → ∀ rng,
    ∃ x rng', (expovariate lambd).run rng = .ok x rng' ∧ minGap ≤ x

/-- The generator. -/
structure RequestGenerator (ρ : Type) where
  config : NanoKVConfig
  stream : StreamConfig
  rng : ρ
  bucketPrefixes : List (List Token)
  nextRequestId : ℕ
  attached : Bool

namespace RequestGenerator

open TraceGenerator (isArrival delivered pending pending_push_arrival delivered_advance)

variable {ρ : Type}

/-- `_prefix_len` of the generator. -/
def prefixLen (gen : RequestGenerator ρ) : ℤ := gen.stream.prefixLen gen.config.model.blockSize

/-- `_suffix_len` of the generator. -/
def suffixLen (gen : RequestGenerator ρ) : ℤ := gen.stream.suffixLen gen.config.model.blockSize

/-- A call of the generator's own random generator. -/
def onRng {α : Type} (m : Py ρ α) : Py (RequestGenerator ρ) α :=
  Py.onPart rng (fun rng gen => { gen with rng }) m

/-- The text of the error of a second `attach`. -/
def attachedTwice : String :=
  "RequestGenerator.attach() called more than once; arrival events would spawn explosively " ++
    "(K^N growth where K = chain fanout per ARRIVE, N = simulated steps). Construct a fresh " ++
    "generator for a fresh simulation."

section Calls

variable (rand : StreamRandom ρ) (hexdigest : List UInt8 → String) (uuid4 : RequestId)

/-- A new generator, whose prefixes are drawn first; `rng` is the state of its random generator for
the seed of the configuration. -/
def make (config : NanoKVConfig) (stream : StreamConfig) (rng : ρ) :
    Except PyErr (RequestGenerator ρ) :=
  match ((List.range stream.numBuckets).mapM fun _ =>
      randomTokens rand.randint config.generator.vocabSize
        (stream.prefixLen config.model.blockSize).toNat).run rng with
  | .ok bucketPrefixes rng' =>
      .ok {
        config, stream, rng := rng', bucketPrefixes
        nextRequestId := 0
        attached := false }
  | .error e _ => .error e

/-- `_sample_interarrival`. -/
def sampleInterarrival : Py (RequestGenerator ρ) Time := do
  onRng (rand.expovariate (1 / (← get).stream.meanInterarrivalMs))

/-- `_build_request`: a prompt of a bucket prefix and a suffix of its own. -/
def buildRequest (arrivalTime : Time) : Py (RequestGenerator ρ) StampedRequest := do
  let gen ← get
  let bucketIdx ← onRng (rand.randint 0 (gen.stream.numBuckets - 1))
  let suffix ← onRng (randomTokens rand.randint gen.config.generator.vocabSize
    gen.suffixLen.toNat)
  match gen.bucketPrefixes[bucketIdx.toNat]? with
  | none => Py.raise (.indexError "list index out of range")
  | some bucket =>
      let req ← makeRequest hexdigest uuid4 (bucket ++ suffix) arrivalTime gen.config 0 none
      modify fun gen => { gen with nextRequestId := gen.nextRequestId + 1 }
      pure { req with requestId := s!"req-{gen.nextRequestId}" }

/-- `_enqueue_arrival`: schedule the arrival of a new request. -/
def enqueueArrival (t : Time) : Py (SimulationEngine Payload × RequestGenerator ρ) Unit := do
  let req ← Py.onPart Prod.snd (fun gen s => (s.1, gen)) (buildRequest rand hexdigest uuid4 t)
  Py.onPart Prod.fst (fun eng s => (eng, s.2))
    (SimulationEngine.schedule { time := t, payload := .requestArrive req.toRequest })

/-- `attach`: schedule the first arrival.  The handler of the chain is registered with the engine's
handlers. -/
def attach : Py (SimulationEngine Payload × RequestGenerator ρ) Unit := do
  if (← get).2.attached then
    Py.raise (.runtimeError attachedTwice)
  else
    modify fun s => (s.1, { s.2 with attached := true })
    let firstT ← Py.onPart Prod.snd (fun gen s => (s.1, gen)) (sampleInterarrival rand)
    if firstT < (← get).2.stream.endTimeMs then
      enqueueArrival rand hexdigest uuid4 firstT

/-- `_on_arrive_chain`: schedule the next arrival after the current one. -/
def onArriveChain : Py (SimulationEngine Payload × RequestGenerator ρ) Unit := do
  let now := (← get).1.now
  let gap ← Py.onPart Prod.snd (fun gen s => (s.1, gen)) (sampleInterarrival rand)
  let nextT := now + gap
  if nextT < (← get).2.stream.endTimeMs then
    enqueueArrival rand hexdigest uuid4 nextT

end Calls

/-! ### A request -/

/-- What stays the same in the run of a generator; every token can be packed for the hash. -/
structure StreamParams where
  config : NanoKVConfig
  stream : StreamConfig
  prefixes : List (List Token)
  length_prefixes : prefixes.length = stream.numBuckets
  length_prefix : ∀ bucket ∈ prefixes,
    (bucket.length : ℤ) = stream.prefixLen config.model.blockSize
  tokens : ∀ bucket ∈ prefixes, ∀ tok ∈ bucket,
    Between 0 (config.generator.vocabSize - 1 : ℤ) tok
  minGap : ℚ
  minGap_nonneg : 0 ≤ minGap
  packs : config.generator.vocabSize ≤ 2 ^ 32

/-- The generator runs with these parameters. -/
structure Plays (P : StreamParams) (gen : RequestGenerator ρ) : Prop where
  config : gen.config = P.config
  stream : gen.stream = P.stream
  prefixes : gen.bucketPrefixes = P.prefixes

/-- The `i`-th request, which arrives at `time`: its prompt starts with a prefix of a bucket. -/
structure Generated (P : StreamParams) (i : ℕ) (time : Time) (req : Request) : Prop where
  time_lt : time < P.stream.endTimeMs
  requestId : req.requestId = s!"req-{i}"
  arrivalTime : req.arrivalTime = time
  starts : ∃ bucket ∈ P.prefixes, bucket <+: req.tokenIds
  length : req.tokenIds.length = P.stream.avgPromptLen
  tokens : ∀ tok ∈ req.tokenIds, Between 0 (P.config.generator.vocabSize - 1 : ℤ) tok
  expectedOutputLen : req.expectedOutputLen = P.config.workload.avgOutputLen
  sloTtft : req.sloTtft = P.config.slo.ttftTargetMs
  sloTbt : req.sloTbt = P.config.slo.tbtTargetMs

section Requests

variable {rand : StreamRandom ρ} {hexdigest : List UInt8 → String} {uuid4 : RequestId}
  {P : StreamParams} {gen : RequestGenerator ρ} {eng : SimulationEngine Payload} {t : Time}

theorem run_onRng_ok {α : Type} {m : Py ρ α} {a : α} {rng : ρ} (h : m.run gen.rng = .ok a rng) :
    (onRng m).run gen = .ok a { gen with rng } :=
  Py.run_onPart_ok h

theorem Plays.withRng (h : gen.Plays P) (rng : ρ) : Plays P { gen with rng } :=
  ⟨h.config, h.stream, h.prefixes⟩

/-- The draws of a vocabulary. -/
theorem draws_vocab (rand : StreamRandom ρ) (config : NanoKVConfig) :
    Draws rand.randint 0 (config.generator.vocabSize - 1)
      (Between 0 (config.generator.vocabSize - 1 : ℤ)) := by
  have := config.generator.one_le_vocabSize
  exact rand.draws_randint 0 _ (by omega)

/-- A time is drawn. -/
theorem run_sampleInterarrival (gen : RequestGenerator ρ) :
    ∃ gap rng', (sampleInterarrival rand).run gen = .ok gap { gen with rng := rng' } ∧
      rand.minGap ≤ gap := by
  obtain ⟨gap, rng', hrun, hgap⟩ := rand.draws_expovariate (1 / gen.stream.meanInterarrivalMs)
    (one_div_pos.2 gen.stream.meanInterarrivalMs_pos) gen.rng
  refine ⟨gap, rng', ?_, hgap⟩
  rw [sampleInterarrival, Py.run_get_bind]
  exact run_onRng_ok hrun

/-- **A request is made.** -/
theorem run_buildRequest (hgen : gen.Plays P) (ht : t < P.stream.endTimeMs) :
    ∃ req rng', (buildRequest rand hexdigest uuid4 t).run gen =
        .ok req { gen with rng := rng', nextRequestId := gen.nextRequestId + 1 } ∧
      Generated P gen.nextRequestId t req.toRequest := by
  have hbuckets := gen.stream.one_le_numBuckets
  obtain ⟨i, rng₁, hi, hlow, hhigh⟩ :=
    rand.draws_randint 0 (gen.stream.numBuckets - 1) (by omega) gen.rng
  obtain ⟨suffix, rng₂, hsuffix, hlen, htoks⟩ :=
    run_randomTokens (draws_vocab rand gen.config) gen.suffixLen.toNat rng₁
  -- the bucket has a prefix
  obtain ⟨bucket, hbucket⟩ : ∃ bucket, gen.bucketPrefixes[i.toNat]? = some bucket := by
    have hlength := P.length_prefixes
    rw [← hgen.prefixes, ← hgen.stream] at hlength
    exact ⟨_, List.getElem?_eq_getElem (by omega)⟩
  have hmem : bucket ∈ P.prefixes := hgen.prefixes ▸ List.mem_of_getElem? hbucket
  have hprompt : ∀ tok ∈ bucket ++ suffix,
      Between 0 (P.config.generator.vocabSize - 1 : ℤ) tok := by
    intro tok htok
    rcases List.mem_append.1 htok with htok | htok
    · exact P.tokens bucket hmem tok htok
    · rw [← hgen.config]
      exact htoks tok htok
  have hfits : ∀ tok ∈ (bucket ++ suffix).take gen.config.model.blockSize, FitsU32 tok :=
    fun tok htok => fitsU32_of_between P.packs (hprompt tok (List.mem_of_mem_take htok))
  obtain ⟨req, hmake, hfields⟩ : ∃ req : StampedRequest,
      (makeRequest hexdigest uuid4 (bucket ++ suffix) t gen.config 0 none).run
          { gen with rng := rng₂ } = .ok req { gen with rng := rng₂ } ∧
        req.toRequest = {
          requestId := uuid4
          tokenIds := bucket ++ suffix
          expectedOutputLen := gen.config.workload.avgOutputLen
          arrivalTime := t
          sloTtft := gen.config.slo.ttftTargetMs
          sloTbt := gen.config.slo.tbtTargetMs } := by
    obtain ⟨hash, hmake⟩ := @run_makeRequest _ hexdigest _ _ hfits uuid4 t 0 none
      { gen with rng := rng₂ }
    exact ⟨_, hmake, rfl⟩
  have hlength : (bucket ++ suffix).length = P.stream.avgPromptLen := by
    have hle := gen.stream.prefixLen_le gen.config.model.blockSize
    have hpre := P.length_prefix bucket hmem
    rw [← hgen.config, ← hgen.stream] at hpre
    rw [List.length_append, hlen, suffixLen, StreamConfig.suffixLen, ← hgen.stream]
    omega
  refine ⟨{ req with requestId := s!"req-{gen.nextRequestId}" }, rng₂, ?_, ?_⟩
  · rw [buildRequest, Py.run_get_bind, Py.run_bind_ok (run_onRng_ok hi),
      Py.run_bind_ok (run_onRng_ok hsuffix)]
    dsimp only
    rw [hbucket]
    dsimp only
    rw [Py.run_bind_ok hmake]
    rfl
  · change Generated P gen.nextRequestId t
      { req.toRequest with requestId := s!"req-{gen.nextRequestId}" }
    rw [hfields, hgen.config]
    exact {
      time_lt := ht
      requestId := rfl
      arrivalTime := rfl
      starts := ⟨bucket, hmem, List.prefix_append ..⟩
      length := hlength
      tokens := hprompt
      expectedOutputLen := rfl
      sloTtft := rfl
      sloTbt := rfl }

/-- The arrival of a request is scheduled. -/
theorem run_enqueueArrival (hgen : gen.Plays P) (ht : t < P.stream.endTimeMs)
    (hle : eng.currentTime ≤ t) :
    ∃ req rng', (enqueueArrival rand hexdigest uuid4 t).run (eng, gen) =
        .ok () (eng.push { time := t, payload := .requestArrive req } hle,
          { gen with rng := rng', nextRequestId := gen.nextRequestId + 1 }) ∧
      Generated P gen.nextRequestId t req := by
  obtain ⟨req, rng', hrun, hreq⟩ :=
    @run_buildRequest _ rand hexdigest uuid4 _ _ _ hgen ht
  refine ⟨req.toRequest, rng', ?_, hreq⟩
  have hpart : (Py.onPart Prod.snd (fun gen s => (s.1, gen))
      (buildRequest rand hexdigest uuid4 t)).run (eng, gen) = .ok req (eng,
        { gen with rng := rng', nextRequestId := gen.nextRequestId + 1 }) :=
    Py.run_onPart_ok hrun
  rw [enqueueArrival, Py.run_bind_ok hpart]
  exact Py.run_onPart_ok (SimulationEngine.run_schedule_ok_iff.2 ⟨hle, rfl⟩)

end Requests

/-! ### The stream of the arrivals -/

/-- The arrivals that have been made: they are those of the requests up to the next one, in the
order of their numbers and of their times, which lie apart. -/
structure Stream (P : StreamParams) (gen : RequestGenerator ρ) (evs : List (Event Payload)) :
    Prop where
  plays : gen.Plays P
  nextRequestId : gen.nextRequestId = evs.length
  arrivals : ∀ i ev, evs[i]? = some ev →
    ∃ req, ev.payload = .requestArrive req ∧ Generated P i ev.time req
  late : ∀ ev ∈ evs, P.minGap ≤ ev.time
  spaced : evs.Pairwise fun a b => a.time + P.minGap ≤ b.time

/-- At most one arrival is in the queue. -/
structure Settled (P : StreamParams) (eng : SimulationEngine Payload) (gen : RequestGenerator ρ) :
    Prop where
  stream : Stream P gen (delivered eng ++ pending eng)
  pending_le : (pending eng).length ≤ 1

/-- An arrival has been taken from the queue, and the chain has not been called for it. -/
structure Owing (P : StreamParams) (eng : SimulationEngine Payload) (gen : RequestGenerator ρ) :
    Prop where
  stream : Stream P gen (delivered eng)
  pending_eq : pending eng = []
  past : ∀ ev ∈ delivered eng, ev.time ≤ eng.currentTime
  nonneg : 0 ≤ eng.currentTime

section Stream

variable {rand : StreamRandom ρ} {hexdigest : List UInt8 → String} {uuid4 : RequestId}
  {P : StreamParams} {gen gen' : RequestGenerator ρ} {eng eng' : SimulationEngine Payload}
  {evs : List (Event Payload)} {t : Time}

theorem Stream.nil (hgen : gen.Plays P) (hid : gen.nextRequestId = 0) : Stream P gen [] :=
  ⟨hgen, hid, fun i ev hev => by simp at hev, fun _ hev => absurd hev List.not_mem_nil,
    List.Pairwise.nil⟩

theorem Stream.numbered (h : Stream P gen evs) : Numbered "req-" evs := by
  intro i ev hev
  obtain ⟨req, hp, hreq⟩ := h.arrivals i ev hev
  exact ⟨req, hp, hreq.requestId⟩

/-- A draw changes nothing about the arrivals. -/
theorem Stream.withRng (h : Stream P gen evs) (rng : ρ) : Stream P { gen with rng } evs :=
  ⟨h.plays.withRng rng, h.nextRequestId, h.arrivals, h.late, h.spaced⟩

/-- The next arrival follows the others. -/
theorem Stream.append (h : Stream P gen evs) {ev : Event Payload} {req : Request} {rng : ρ}
    (hev : ev.payload = .requestArrive req) (hreq : Generated P gen.nextRequestId ev.time req)
    (hlate : P.minGap ≤ ev.time) (hlast : ∀ a ∈ evs, a.time + P.minGap ≤ ev.time) :
    Stream P { gen with rng, nextRequestId := gen.nextRequestId + 1 } (evs ++ [ev]) where
  plays := ⟨h.plays.config, h.plays.stream, h.plays.prefixes⟩
  nextRequestId := by
    rw [List.length_append, List.length_singleton, ← h.nextRequestId]
  arrivals := by
    intro i ev' hev'
    rcases lt_trichotomy i evs.length with hi | rfl | hi
    · rw [List.getElem?_append_left hi] at hev'
      exact h.arrivals i ev' hev'
    · rw [List.getElem?_concat_length] at hev'
      cases hev'
      exact ⟨req, hev, h.nextRequestId ▸ hreq⟩
    · rw [List.getElem?_eq_none (by rw [List.length_append, List.length_singleton]; omega)] at hev'
      cases hev'
  late := by
    intro a ha
    rcases List.mem_append.1 ha with ha | ha
    · exact h.late a ha
    · exact List.mem_singleton.1 ha ▸ hlate
  spaced := List.pairwise_append.2 ⟨h.spaced, List.pairwise_singleton _ _, fun a ha b hb =>
    List.mem_singleton.1 hb ▸ hlast a ha⟩

/-- The `i`-th request does not arrive before that many gaps. -/
theorem Stream.due (h : Stream P gen evs) : ∀ (i : ℕ) (hi : i < evs.length),
    (i + 1) * P.minGap ≤ evs[i].time := by
  intro i
  induction i with
  | zero =>
      intro hi
      rw [Nat.cast_zero, zero_add, one_mul]
      exact h.late _ (List.getElem_mem hi)
  | succ i ih =>
      intro hi
      have hstep := List.pairwise_iff_getElem.1 h.spaced i (i + 1) (by omega) hi (by omega)
      have hprev := ih (by omega)
      rw [Nat.cast_succ, add_one_mul]
      exact (add_le_add_left hprev _).trans hstep

/-- Where the draws have a gap, there are only so many requests before the end. -/
theorem Stream.length_mul_lt (h : Stream P gen evs) (hpos : 0 < evs.length) :
    evs.length * P.minGap < P.stream.endTimeMs := by
  obtain ⟨n, hn⟩ := Nat.exists_eq_add_one.2 hpos
  have hlast : n < evs.length := by omega
  obtain ⟨req, -, hreq⟩ := h.arrivals n _ (List.getElem?_eq_getElem hlast)
  rw [hn, Nat.cast_succ]
  exact (h.due n hlast).trans_lt hreq.time_lt

theorem Settled.congr (h : Settled P eng gen) (hd : delivered eng' = delivered eng)
    (hp : pending eng' = pending eng) : Settled P eng' gen := by
  obtain ⟨h₁, h₂⟩ := h
  rw [← hd, ← hp] at h₁
  rw [← hp] at h₂
  exact ⟨h₁, h₂⟩

theorem Owing.congr (h : Owing P eng gen) (hd : delivered eng' = delivered eng)
    (hp : pending eng' = pending eng) (ht : eng'.currentTime = eng.currentTime) :
    Owing P eng' gen := by
  obtain ⟨h₁, h₂, h₃, h₄⟩ := h
  rw [← hd] at h₁ h₃
  rw [← hp] at h₂
  rw [← ht] at h₃ h₄
  exact ⟨h₁, h₂, h₃, h₄⟩

/-- Once an arrival is taken, the chain is owed. -/
theorem Settled.advance_arrival (h : Settled P eng gen) {ev : Event Payload}
    {rest : List (Event Payload)} (hq : eng.queue.events = ev :: rest)
    (hev : isArrival ev = true) : Owing P (eng.advance ev rest hq) gen := by
  obtain ⟨hdel, hpend, honly⟩ := delivered_advance h.pending_le hq hev
  have hspaced := h.stream.spaced
  have hlate := h.stream.late ev (List.mem_append_right _ (honly ▸ List.mem_singleton_self ev))
  refine ⟨by rw [hdel]; exact h.stream, hpend, ?_, P.minGap_nonneg.trans hlate⟩
  rw [hdel, honly]
  rw [honly] at hspaced
  intro a ha
  rcases List.mem_append.1 ha with ha | ha
  · have hle := (List.pairwise_append.1 hspaced).2.2 a ha ev (List.mem_singleton_self ev)
    exact (le_add_of_nonneg_right P.minGap_nonneg).trans hle
  · rw [List.mem_singleton.1 ha]
    exact le_refl _

/-- With nothing in the queue, the next arrival is scheduled. -/
theorem Owing.run_enqueueArrival (h : Owing P eng gen) (ht : t < P.stream.endTimeMs)
    (hgap : eng.currentTime + P.minGap ≤ t) (hle : eng.currentTime ≤ t) :
    ∃ req gen', (enqueueArrival rand hexdigest uuid4 t).run (eng, gen) =
        .ok () (eng.push { time := t, payload := .requestArrive req } hle, gen') ∧
      Settled P (eng.push { time := t, payload := .requestArrive req } hle) gen' := by
  obtain ⟨req, rng', hrun, hreq⟩ :=
    @RequestGenerator.run_enqueueArrival _ rand hexdigest uuid4 _ _ _ _ h.stream.plays ht hle
  refine ⟨req, _, hrun, ?_⟩
  have harr : isArrival { time := t, payload := .requestArrive req } = true := rfl
  have hpend := pending_push_arrival hle harr h.pending_eq
  have hdel : delivered (eng.push { time := t, payload := .requestArrive req } hle) =
    delivered eng := rfl
  refine ⟨?_, ?_⟩
  · rw [hpend, hdel]
    refine h.stream.append rfl hreq ?_ fun a ha => ?_
    · exact (le_add_of_nonneg_left h.nonneg).trans hgap
    · exact (add_le_add_left (h.past a ha) _).trans hgap
  · rw [hpend]
    exact le_refl 1

/-- Where nothing more is scheduled, the arrivals stay as they are. -/
theorem Owing.settled (h : Owing P eng gen) : Settled P eng gen := by
  obtain ⟨h₁, h₂, -, -⟩ := h
  refine ⟨by rw [h₂, List.append_nil]; exact h₁, by rw [h₂]; exact Nat.zero_le _⟩

theorem Owing.withRng (h : Owing P eng gen) (rng : ρ) : Owing P eng { gen with rng } :=
  ⟨h.stream.withRng rng, h.pending_eq, h.past, h.nonneg⟩

/-- **The chain goes on until the workload is over**: it schedules the next arrival, or it draws a
time behind the end. -/
theorem Owing.run_onArriveChain (h : Owing P eng gen) (hmin : P.minGap = rand.minGap) :
    (∃ gen', (onArriveChain rand hexdigest uuid4).run (eng, gen) = .ok () (eng, gen') ∧
      Settled P eng gen') ∨
    ∃ t req gen', ∃ hle : eng.currentTime ≤ t,
      (onArriveChain rand hexdigest uuid4).run (eng, gen) =
        .ok () (eng.push { time := t, payload := .requestArrive req } hle, gen') ∧
      Settled P (eng.push { time := t, payload := .requestArrive req } hle) gen' := by
  obtain ⟨gap, rng', hrun, hgap⟩ := @run_sampleInterarrival _ rand gen
  have hpart : (Py.onPart Prod.snd (fun gen s => (s.1, gen)) (sampleInterarrival rand)).run
      (eng, gen) = .ok gap (eng, { gen with rng := rng' }) := Py.run_onPart_ok hrun
  have h' := h.withRng rng'
  rw [onArriveChain, Py.run_get_bind, Py.run_bind_ok hpart, Py.run_get_bind]
  dsimp only
  by_cases ht : eng.now + gap < gen.stream.endTimeMs
  · rw [if_pos ht]
    rw [h.stream.plays.stream] at ht
    have hle : eng.currentTime ≤ eng.now + gap :=
      le_add_of_nonneg_right (rand.minGap_nonneg.trans hgap)
    rw [← hmin] at hgap
    obtain ⟨req, gen', hrun', hs⟩ := @Owing.run_enqueueArrival _ rand hexdigest uuid4 _ _ _ _ h' ht
      (add_le_add_right hgap _) hle
    exact Or.inr ⟨_, req, gen', hle, hrun', hs⟩
  · rw [if_neg ht]
    exact Or.inl ⟨_, rfl, h'.settled⟩

/-- A generator that has not been attached. -/
structure Fresh (P : StreamParams) (gen : RequestGenerator ρ) : Prop where
  plays : gen.Plays P
  nextRequestId : gen.nextRequestId = 0
  attached : gen.attached = false

/-- Nothing has been made for a fresh engine. -/
theorem Fresh.owing (h : gen.Fresh P) (attached : Bool) : Owing P .init { gen with attached } where
  stream := .nil ⟨h.plays.config, h.plays.stream, h.plays.prefixes⟩ h.nextRequestId
  pending_eq := rfl
  past := fun _ hev => absurd hev List.not_mem_nil
  nonneg := le_refl 0

/-- **Attaching schedules the first arrival**, if it is drawn before the end. -/
theorem Fresh.run_attach (h : gen.Fresh P) (hmin : P.minGap = rand.minGap) :
    (∃ gen', (attach rand hexdigest uuid4).run (.init, gen) = .ok () (.init, gen') ∧
      Settled P .init gen') ∨
    ∃ t req gen', ∃ hle : (SimulationEngine.init (π := Payload)).currentTime ≤ t,
      (attach rand hexdigest uuid4).run (.init, gen) = .ok ()
        (SimulationEngine.init.push { time := t, payload := .requestArrive req } hle, gen') ∧
      Settled P (SimulationEngine.init.push { time := t, payload := .requestArrive req } hle)
        gen' := by
  obtain ⟨gap, rng', hrun, hgap⟩ := @run_sampleInterarrival _ rand { gen with attached := true }
  have hpart : (Py.onPart Prod.snd (fun gen s => (s.1, gen)) (sampleInterarrival rand)).run
      ((.init : SimulationEngine Payload), { gen with attached := true }) =
        .ok gap (.init, { gen with attached := true, rng := rng' }) := Py.run_onPart_ok hrun
  have howing := (h.owing true).withRng rng'
  have hattached : ¬ gen.attached = true := by rw [h.attached]; exact Bool.false_ne_true
  rw [attach, Py.run_get_bind, if_neg hattached, Py.run_modify_bind, Py.run_bind_ok hpart,
    Py.run_get_bind]
  dsimp only
  by_cases ht : gap < gen.stream.endTimeMs
  · rw [if_pos ht]
    rw [h.plays.stream] at ht
    have hle : (0 : ℚ) ≤ gap := rand.minGap_nonneg.trans hgap
    rw [← hmin, ← zero_add P.minGap] at hgap
    obtain ⟨req, gen', hrun', hs⟩ :=
      @Owing.run_enqueueArrival _ rand hexdigest uuid4 _ _ _ _ howing ht hgap hle
    exact Or.inr ⟨gap, req, gen', hle, hrun', hs⟩
  · rw [if_neg ht]
    exact Or.inl ⟨_, rfl, howing.settled⟩

/-- **A new generator is fresh**: its prefixes fill whole blocks. -/
theorem exists_make (config : NanoKVConfig) (stream : StreamConfig) (rng : ρ)
    (hpacks : config.generator.vocabSize ≤ 2 ^ 32) :
    ∃ (P : StreamParams) (gen : RequestGenerator ρ), make rand config stream rng = .ok gen ∧
      gen.Fresh P ∧ P.config = config ∧ P.stream = stream ∧ P.minGap = rand.minGap := by
  obtain ⟨prefixes, rng', hrun, hlen, hall⟩ := Py.run_mapM_returns
    (f := fun _ : ℕ => randomTokens rand.randint config.generator.vocabSize
      (stream.prefixLen config.model.blockSize).toNat)
    (P := fun bucket => bucket.length = (stream.prefixLen config.model.blockSize).toNat ∧
      ∀ tok ∈ bucket, Between 0 (config.generator.vocabSize - 1 : ℤ) tok)
    (fun _ rng => by
      obtain ⟨toks, rng', hrun, hlen, htoks⟩ := run_randomTokens (draws_vocab rand config)
        (stream.prefixLen config.model.blockSize).toNat rng
      exact ⟨toks, rng', hrun, hlen, htoks⟩) (List.range stream.numBuckets) rng
  let P : StreamParams := {
    config, stream, prefixes
    length_prefixes := by rw [hlen, List.length_range]
    length_prefix := fun bucket hmem => by
      rw [(hall bucket hmem).1]
      exact Int.toNat_of_nonneg (stream.prefixLen_nonneg _)
    tokens := fun bucket hmem => (hall bucket hmem).2
    minGap := rand.minGap
    minGap_nonneg := rand.minGap_nonneg
    packs := hpacks }
  refine ⟨P, ⟨config, stream, rng', prefixes, 0, false⟩, ?_, ⟨⟨rfl, rfl, rfl⟩, rfl, rfl⟩, rfl, rfl,
    rfl⟩
  rw [make, hrun]

end Stream

end RequestGenerator

end NanoKVRouter
