/-
**A whole simulation.**

`_run_one` builds two pools of nodes, a cache manager for the decode pool, a scheduler by its name
and a generator of arrivals, wires them up and runs the engine.  Everything that the results on the
simulator ask for holds by construction: the pools are disjoint, the caches are fresh, what the
factory builds keeps the contract, and the generators number their requests.

So a simulation ends with everything delivered and with metrics that reconcile with the run, unless
a slower tier makes a prompt collide.  A replay always comes to an end; a synthetic workload does
unless its arrivals come closer and closer before its end.

Main definitions:

* `ClusterConfig`, `ContentionModel`, `TraceSection`, `RunConfig` — the configuration of a run;
* `RunConfig.wiring` — the simulator of a run;
* `Outside` — what a run takes from outside;
* `runOne` — `_run_one`.

Main results:

* `RunConfig.pools_disjoint` — the pools are disjoint;
* `runOne_stream` — **a run with a synthetic workload**;
* `runOne_trace` — **a run that replays a trace**.
-/

import NanoKVRouter.ClosedLoop
import NanoKVRouter.PrefixCoherence
import Mathlib.Algebra.Order.Archimedean.Basic

set_option relaxedAutoImplicit false
set_option autoImplicit false

namespace NanoKVRouter

open TraceGenerator (isArrival delivered pending)

/-! ### Configuration -/

/-- How many nodes the pools have. -/
structure ClusterConfig where
  prefillNodes : ℕ := 4
  decodeNodes : ℕ := 4
  one_le_prefillNodes : 1 ≤ prefillNodes := by decide
  one_le_decodeNodes : 1 ≤ decodeNodes := by decide

/-- `contention_model`. -/
inductive ContentionModel
  | none
  | perNodeLane
deriving DecidableEq

/-- The transfer model that is chosen. -/
def ContentionModel.transferModel : ContentionModel → TransferModel
  | none => .noop
  | perNodeLane => .perNodeLane .empty .empty

/-- The trace of a run; mode `synthesis` needs the section `prefixSynthesis`. -/
structure TraceSection where
  traceCfg : TraceConfig
  prefixSynthesis : Option PrefixSynthesisConfig

/-- The root configuration.  `params` are the parameters of the scheduler, of any type. -/
structure RunConfig (π : Type) where
  root : NanoKVConfig
  cluster : ClusterConfig
  node : NodeConfig
  bandwidth : BandwidthConfig
  contention : ContentionModel
  params : PyDict String π
  stream : StreamConfig
  trace : Option TraceSection

/-- What a run takes from outside: how a parameter is read as a number, the order in which sets are
iterated, the random generators for the seeds, the power of floats, the lines of the trace and what
`json.loads` makes of them, and the library's hash and identifiers. -/
structure Outside (ρ π : Type) where
  toFloat : π → Except PyErr ℚ
  streamOrder : SetOrder
  rand : StreamRandom ρ
  rng : ρ
  synthesisRng : ρ
  pow : ℕ → ℚ → Except PyErr ℚ
  loads : String → Option TraceRecord
  lines : List String
  hexdigest : List UInt8 → String
  uuid4 : RequestId
  pow_pos : ∀ n alpha x, 0 < n → pow n alpha = .ok x → 0 < x
  one_pow : ∀ alpha, pow 1 alpha = .ok 1

/-! ### The simulator of a run -/

namespace RunConfig

variable {π : Type} (cfg : RunConfig π)

/-- The nodes of a pool. -/
def pool (letter : String) (n : ℕ) : List NodeSpec :=
  (List.range n).map fun i => ⟨letter ++ toString i, cfg.root.model, cfg.node⟩

/-- Two nodes of the pools with one id are one. -/
theorem eq_of_mem_pools {a b : NodeSpec}
    (ha : a ∈ cfg.pool "p" cfg.cluster.prefillNodes ++ cfg.pool "d" cfg.cluster.decodeNodes)
    (hb : b ∈ cfg.pool "p" cfg.cluster.prefillNodes ++ cfg.pool "d" cfg.cluster.decodeNodes)
    (h : a.nodeId = b.nodeId) : a = b := by
  have hspec : ∀ s ∈ cfg.pool "p" cfg.cluster.prefillNodes ++
      cfg.pool "d" cfg.cluster.decodeNodes, s = ⟨s.nodeId, cfg.root.model, cfg.node⟩ := by
    intro s hs
    rcases List.mem_append.1 hs with hs | hs
    · obtain ⟨i, -, rfl⟩ := List.mem_map.1 hs
      rfl
    · obtain ⟨i, -, rfl⟩ := List.mem_map.1 hs
      rfl
  rw [hspec a ha, hspec b hb, h]

/-- The simulator that is wired up: nodes `p0`, `p1`, … for prefill and `d0`, `d1`, … for decode. -/
def wiring (policy : SchedulingPolicy Cursors) (streamOrder : SetOrder) : Wiring Cursors where
  policy := policy
  prefillNodes := cfg.pool "p" cfg.cluster.prefillNodes
  decodeNodes := cfg.pool "d" cfg.cluster.decodeNodes
  modelCfg := cfg.root.model
  bandwidthCfg := cfg.bandwidth
  streamOrder := streamOrder
  unique := fun _ ha _ hb h => cfg.eq_of_mem_pools ha hb h

/-- **The pools are disjoint.** -/
theorem pools_disjoint (policy : SchedulingPolicy Cursors) (streamOrder : SetOrder) :
    ∀ id ∈ (cfg.wiring policy streamOrder).prefillIds,
      id ∉ (cfg.wiring policy streamOrder).decodeIds := by
  have hhead : ∀ (letter : String) (c : Char) (n : ℕ), letter.toList = [c] →
      ∀ id ∈ (cfg.pool letter n).map NodeSpec.nodeId, id.toList.head? = some c := by
    intro letter c n hletter id hid
    obtain ⟨s, hs, rfl⟩ := List.mem_map.1 hid
    obtain ⟨i, -, rfl⟩ := List.mem_map.1 hs
    rw [String.toList_append, hletter]
    rfl
  intro id hp hd
  have h := (hhead "p" 'p' _ rfl id hp).symm.trans (hhead "d" 'd' _ rfl id hd)
  exact absurd h (by decide)

end RunConfig

/-! ### `_run_one` -/

section Run

variable {ρ π : Type} (out : Outside ρ π)

/-- The synthesis model of a trace, in the mode that has one. -/
def TraceSection.synthesisModel (t : TraceSection) (cfg : RunConfig π) :
    Except PyErr (Option (PrefixSynthesisModel ρ)) :=
  if t.traceCfg.prefixMode = .synthesis then
    match t.prefixSynthesis with
    | none => .error (.valueError ("prefix_mode='synthesis' requires trace.prefix_synthesis " ++
        "config; add a prefix_synthesis section to your YAML."))
    | some synthesis => do
        let weights ← synthesis.zipfWeights out.pow
        let model ← PrefixSynthesisModel.make out.rand.toPyRandom synthesis
          cfg.root.model.blockSize cfg.root.generator.vocabSize cfg.root.model.one_le_blockSize
          cfg.root.generator.one_le_vocabSize weights cfg.stream.avgPromptLen out.synthesisRng
        pure (some model)
  else
    .ok none

/-- `_run_one`: run a complete simulation and return the summary of its metrics.  `fuel` bounds the
turns of the engine. -/
def runOne (cfg : RunConfig π) (schedulerName : String) (fuel : ℕ) :
    Except PyErr MetricsSummary := do
  let policy ← buildScheduler out.toFloat schedulerName cfg.params cfg.root.model cfg.bandwidth
  let w := cfg.wiring policy out.streamOrder
  match cfg.trace with
  | some t =>
      let model ← t.synthesisModel out cfg
      let gen ← TraceGenerator.make cfg.root t.traceCfg model out.rng
      w.runClosed
        (TraceGenerator.attach out.rand.toPyRandom out.loads out.hexdigest out.uuid4 out.lines)
        (TraceGenerator.scheduleNext out.rand.toPyRandom out.loads out.hexdigest out.uuid4)
        (w.closedStart {} cfg.node cfg.contention.transferModel gen) fuel
  | none =>
      let gen ← RequestGenerator.make out.rand cfg.root cfg.stream out.rng
      w.runClosed (RequestGenerator.attach out.rand out.hexdigest out.uuid4)
        (RequestGenerator.onArriveChain out.rand out.hexdigest out.uuid4)
        (w.closedStart {} cfg.node cfg.contention.transferModel gen) fuel

end Run

/-! ### The generators as sources -/

section Sources

variable {ρ π : Type}

namespace RequestGenerator

/-- The generator of a synthetic workload. -/
def source (rand : StreamRandom ρ) (hexdigest : List UInt8 → String)
    (uuid4 : RequestId) (P : StreamParams) (hmin : P.minGap = rand.minGap) :
    ArrivalSource (RequestGenerator ρ) where
  chain := onArriveChain rand hexdigest uuid4
  name := "req-"
  settled := Settled P
  owing := Owing P
  settled_congr := Settled.congr
  owing_congr := Owing.congr
  numbered := fun h => h.stream.numbered
  pending_eq := fun h => h.pending_eq
  take := fun hq h hev => h.advance_arrival hq hev
  makes := fun h => h.run_onArriveChain hmin

end RequestGenerator

namespace TraceGenerator

/-- The generator of a replay whose records are well-formed and ordered. -/
def source (rand : PyRandom ρ) (loads : String → Option TraceRecord)
    (hexdigest : List UInt8 → String) (uuid4 : RequestId) {P : ReplayParams}
    {records : List TraceRecord} (htrace : OrderedTrace P records)
    (hpacks : ∀ record ∈ replayed P records, record.Packs P) :
    ArrivalSource (TraceGenerator ρ) where
  chain := scheduleNext rand loads hexdigest uuid4
  name := "trace-"
  settled := Settled P loads records false
  owing := Owing P loads records
  settled_congr := Settled.congr
  owing_congr := Owing.congr
  numbered := by
    intro eng gen h i ev hev
    have harr := h.ledger.arrivals
    obtain ⟨hi, -⟩ := List.getElem?_eq_some_iff.1 hev
    obtain ⟨-, req, hp, -, hid⟩ := harr.arrival i _ ev
      (List.getElem?_eq_getElem (hi.trans_le harr.length_le)) hev
    exact ⟨req, hp, hid⟩
  pending_eq := fun h => h.pending_eq
  take := fun hq h hev => h.advance_arrival hq hev
  makes := by
    intro eng gen h
    rcases @Owing.scheduleNext_cases _ _ _ _ _ _ rand hexdigest uuid4 h htrace hpacks with hnone |
      ⟨req, gen', hle, hrun, hs⟩
    · exact Or.inl hnone
    · exact Or.inr ⟨_, _, gen', hle, hrun, hs⟩

end TraceGenerator

end Sources

/-! ### Whole runs -/

section Runs

variable {ρ π : Type} {out : Outside ρ π} {cfg : RunConfig π} {schedulerName : String}
  {policy : SchedulingPolicy Cursors}

/-- A run with a synthetic workload is the run of a closed system. -/
theorem runOne_eq_stream (hstream : cfg.trace = none)
    (hsched : buildScheduler out.toFloat schedulerName cfg.params cfg.root.model cfg.bandwidth =
      .ok policy) {gen : RequestGenerator ρ}
    (hmake : RequestGenerator.make out.rand cfg.root cfg.stream out.rng = .ok gen) (fuel : ℕ) :
    runOne out cfg schedulerName fuel =
      (cfg.wiring policy out.streamOrder).runClosed
        (RequestGenerator.attach out.rand out.hexdigest out.uuid4)
        (RequestGenerator.onArriveChain out.rand out.hexdigest out.uuid4)
        ((cfg.wiring policy out.streamOrder).closedStart {} cfg.node
          cfg.contention.transferModel gen) fuel := by
  rw [runOne, hsched, hstream]
  change (RequestGenerator.make out.rand cfg.root cfg.stream out.rng >>= fun gen => _) = _
  rw [hmake]
  rfl

/-- A random generator that returns the lowest of what it is asked for, and times that lie apart. -/
def drawApart : StreamRandom Unit where
  toPyRandom := TraceGenerator.drawLow
  expovariate := fun _ => pure 10
  minGap := 10
  minGap_nonneg := by decide +kernel
  draws_expovariate := fun _ _ rng => ⟨10, rng, rfl, le_refl 10⟩

/-- Three records, read from the lines of a file. -/
def quietOutside : Outside Unit ℚ where
  toFloat := .ok
  streamOrder := .byId
  rand := drawApart
  rng := ()
  synthesisRng := ()
  pow := fun n _ => .ok n
  loads := TraceGenerator.twoRecords
  lines := ["first", "", "second"]
  hexdigest := fun _ => ""
  uuid4 := ""
  pow_pos := fun n _ x hn h => by
    cases h
    exact Nat.cast_pos.2 hn
  one_pow := fun _ => congrArg Except.ok Nat.cast_one

theorem fortieth_pos : (0 : ℚ) < 1 / 40 := by decide +kernel

theorem one_le_forty : 1 ≤ 40 := by decide

/-- A run of a fortieth of a second on one node in each pool, without slower tiers. -/
def shortRun (trace : Option TraceSection) : RunConfig ℚ where
  root := { NanoKVConfig.defaults with
    workload := { WorkloadConfig.defaults with
      avgOutputLen := 1, one_le_avgOutputLen := Nat.one_pos } }
  cluster := ⟨1, 1, Nat.one_pos, Nat.one_pos⟩
  node := { NodeConfig.defaults with cpuBlocks := 0, diskBlocks := 0 }
  bandwidth := .defaults
  contention := .none
  params := .empty
  stream := { StreamConfig.defaults with
    durationS := 1 / 40, durationS_pos := fortieth_pos
    avgPromptLen := 40, one_le_avgPromptLen := one_le_forty }
  trace := trace

/-- What stays the same in the replay of a run. -/
def TraceSection.replayParams (t : TraceSection) (cfg : RunConfig π) : ReplayParams where
  config := cfg.root
  traceCfg := t.traceCfg
  synthesisVocab :=
    if t.traceCfg.prefixMode = .synthesis then cfg.root.generator.vocabSize else 0

/-- In the mode that draws prefixes the section for them is there, and its weights do not
overflow. -/
def TraceSection.Complete (t : TraceSection) (out : Outside ρ π) : Prop :=
  t.traceCfg.prefixMode = .synthesis →
    ∃ synthesis weights, t.prefixSynthesis = some synthesis ∧
      synthesis.zipfWeights out.pow = .ok weights

/-- The synthesis model of a trace is valid. -/
theorem TraceSection.exists_synthesisModel (out : Outside ρ π) (cfg : RunConfig π)
    {t : TraceSection} (hsection : t.Complete out) :
    ∃ model, t.synthesisModel out cfg = .ok model ∧ (∀ m ∈ model, m.Valid) ∧
      (t.traceCfg.prefixMode = .synthesis → model.isSome) ∧
      (model.map PrefixSynthesisModel.vocabSize).getD 0 = (t.replayParams cfg).synthesisVocab := by
  rw [synthesisModel, replayParams]
  by_cases hmode : t.traceCfg.prefixMode = .synthesis
  · obtain ⟨synthesis, weights, hsynthesis, hweights⟩ := hsection hmode
    obtain ⟨hlen, hpos⟩ := PrefixSynthesisModel.zipfWeights_spec out.pow_pos out.one_pow
      hweights
    obtain ⟨model, hmake, hvalid, hvocab⟩ := @PrefixSynthesisModel.valid_make ρ
      out.rand.toPyRandom synthesis cfg.root.model.blockSize cfg.root.generator.vocabSize
      cfg.root.model.one_le_blockSize cfg.root.generator.one_le_vocabSize weights hlen hpos
      cfg.stream.avgPromptLen out.synthesisRng
    refine ⟨some model, ?_, ?_, fun _ => rfl, ?_⟩
    · rw [if_pos hmode, hsynthesis]
      dsimp only
      rw [hweights]
      change (PrefixSynthesisModel.make _ _ _ _ _ _ _ _ _ >>= fun model => _) = _
      rw [hmake]
      rfl
    · intro m hm
      cases hm
      exact hvalid
    · rw [if_pos hmode]
      exact hvocab
  · refine ⟨none, by rw [if_neg hmode], ?_, fun h => absurd h hmode, ?_⟩
    · intro m hm
      cases hm
    · rw [if_neg hmode]
      rfl

/-- A run that replays a trace is the run of a closed system whose generator is new. -/
theorem runOne_eq_trace {t : TraceSection} (ht : cfg.trace = some t)
    (hsched : buildScheduler out.toFloat schedulerName cfg.params cfg.root.model cfg.bandwidth =
      .ok policy)
    (hsection : t.Complete out) :
    ∃ gen : TraceGenerator ρ, gen.Fresh ∧ gen.paramsOf = t.replayParams cfg ∧
      ∀ fuel, runOne out cfg schedulerName fuel = (cfg.wiring policy out.streamOrder).runClosed
        (TraceGenerator.attach out.rand.toPyRandom out.loads out.hexdigest out.uuid4 out.lines)
        (TraceGenerator.scheduleNext out.rand.toPyRandom out.loads out.hexdigest out.uuid4)
        ((cfg.wiring policy out.streamOrder).closedStart {} cfg.node
          cfg.contention.transferModel gen) fuel := by
  obtain ⟨model, hmodel, hvalid, hsome, hvocab⟩ := t.exists_synthesisModel out cfg hsection
  obtain ⟨gen, hmake⟩ : ∃ gen, TraceGenerator.make cfg.root t.traceCfg model out.rng = .ok gen := by
    rw [TraceGenerator.make, dif_neg]
    · exact ⟨_, rfl⟩
    · rintro ⟨hmode, hnone⟩
      obtain ⟨m, rfl⟩ := Option.isSome_iff_exists.1 (hsome hmode)
      cases hnone
  have hparams : gen.paramsOf = t.replayParams cfg := by
    rw [TraceGenerator.make] at hmake
    split at hmake
    · cases hmake
    · cases hmake
      rw [TraceGenerator.paramsOf, hvocab]
      rfl
  refine ⟨gen, TraceGenerator.fresh_make hvalid hmake, hparams, fun fuel => ?_⟩
  rw [runOne, hsched, ht]
  change (t.synthesisModel out cfg >>= fun model =>
    TraceGenerator.make cfg.root t.traceCfg model out.rng >>= fun gen => _) = _
  rw [hmodel]
  change (TraceGenerator.make cfg.root t.traceCfg model out.rng >>= fun gen => _) = _
  rw [hmake]
  rfl

/-- **A run that replays a trace**, whose records are well-formed and ordered and can be packed for
the hash, and whose section for drawn prefixes is complete.  It always comes to an end, with an
arrival for every record that is replayed, all of them delivered, and with metrics that reconcile
with it; or, if there is a slower tier, it raises `RuntimeError` at a collision. -/
theorem runOne_trace {t : TraceSection} (ht : cfg.trace = some t)
    (hsched : buildScheduler out.toFloat schedulerName cfg.params cfg.root.model cfg.bandwidth =
      .ok policy)
    (hsection : t.Complete out)
    (htrace : TraceGenerator.OrderedTrace (t.replayParams cfg) (out.lines.filterMap out.loads))
    (hpacks : ∀ record ∈
      TraceGenerator.replayed (t.replayParams cfg) (out.lines.filterMap out.loads),
      record.Packs (t.replayParams cfg)) :
    let expected := TraceGenerator.replayed (t.replayParams cfg) (out.lines.filterMap out.loads)
    (∃ n, ∃ s : Closed Cursors (TraceGenerator ρ), Wiring.Finished s ∧
      TraceGenerator.Arrivals (t.replayParams cfg) expected s.arrivals ∧
      s.arrivals.length = expected.length ∧ ∀ fuel, n < fuel →
        runOne out cfg schedulerName fuel = .ok s.2.2.1.collector.summary) ∨
    (0 < cfg.node.cpuBlocks + cfg.node.diskBlocks ∧ ∃ n msg, ∀ fuel, n < fuel →
      runOne out cfg schedulerName fuel = .error (.runtimeError msg)) := by
  intro expected
  obtain ⟨gen, hfresh, hparams, hrun⟩ := @runOne_eq_trace ρ π out cfg schedulerName policy t ht
    hsched hsection
  have hpolicy : (cfg.wiring policy out.streamOrder).policy.Contract :=
    (buildScheduler_built hsched).contract
  have hpools := cfg.pools_disjoint policy out.streamOrder
  let src := TraceGenerator.source out.rand.toPyRandom out.loads out.hexdigest out.uuid4 htrace
    hpacks
  have hattach : Makes src.settled
      (TraceGenerator.attach out.rand.toPyRandom out.loads out.hexdigest out.uuid4 out.lines)
      .init gen := by
    have howing := @TraceGenerator.Fresh.owing _ _ .init _ hfresh _ (hparams ▸ htrace) rfl rfl rfl
    rw [hparams] at howing
    have hmakes := src.makes howing
    change Makes src.settled (TraceGenerator.scheduleNext _ _ _ _) _ _ at hmakes
    rwa [Makes, ← hfresh.run_attach_eq] at hmakes
  have hcases := @Wiring.runClosed_cases Cursors (TraceGenerator ρ)
    (cfg.wiring policy out.streamOrder) src {} cfg.node cfg.contention.transferModel hpolicy hpools
    _ gen hattach
  rcases hcases with ⟨n, s, hl, hq, hend⟩ | ⟨hslow, n, msg, hend⟩ | hmore
  · have hpend : pending s.1 = [] := by rw [pending, hq, List.filter_nil]
    refine Or.inl ⟨n, s, hl.finished hpolicy hpools hq, hl.settled.ledger.arrivals, ?_,
      fun fuel hfuel => (hrun fuel).trans (hend fuel hfuel)⟩
    rw [Closed.arrivals, hpend, List.append_nil]
    exact (hl.settled.complete hpend).1
  · exact Or.inr ⟨hslow, n, msg, fun fuel hfuel => (hrun fuel).trans (hend fuel hfuel)⟩
  · -- there are no more requests than records
    obtain ⟨n, s, hl, -, hk⟩ := hmore (expected.length + 1)
    have hle := hl.settled.ledger.arrivals.length_le
    exact absurd (hk.trans hle) (Nat.not_succ_le_self _)

/-- A trace without hash ids, whose prefixes are drawn. -/
def drawnPrefixes : TraceSection where
  traceCfg := { TraceConfig.defaults with prefixMode := .synthesis }
  prefixSynthesis := some PrefixSynthesisModel.defaults

/-- Two records are replayed, and everything is delivered. -/
theorem runOne_trace_two :
    ∃ n, ∃ s : Closed Cursors (TraceGenerator Unit), Wiring.Finished s ∧ s.arrivals.length = 2 ∧
      ∀ fuel, n < fuel →
        runOne quietOutside (shortRun (some drawnPrefixes)) "least_loaded" fuel =
          .ok s.2.2.1.collector.summary := by
  have hrecords : quietOutside.lines.filterMap quietOutside.loads = [
      { timestamp := some 0, inputLength := some 20, outputLength := some 5, hashIds := some [7] },
      { arrivalMs := some 4, inputLength := some 0, outputLength := some 1,
        hashIds := some [] }] := by
    decide +kernel
  have htrace : TraceGenerator.OrderedTrace
      (drawnPrefixes.replayParams (shortRun (some drawnPrefixes)))
      (quietOutside.lines.filterMap quietOutside.loads) := by
    refine ⟨?_, by decide +kernel, by decide +kernel⟩
    rw [hrecords]
    exact List.forall_mem_cons.2 ⟨⟨⟨20, rfl⟩, rfl, fun _ => rfl⟩,
      List.forall_mem_cons.2 ⟨⟨⟨0, rfl⟩, rfl, fun _ => rfl⟩, fun _ h => absurd h List.not_mem_nil⟩⟩
  have hpacks : ∀ record ∈ TraceGenerator.replayed
      (drawnPrefixes.replayParams (shortRun (some drawnPrefixes)))
      (quietOutside.lines.filterMap quietOutside.loads),
      record.Packs (drawnPrefixes.replayParams (shortRun (some drawnPrefixes))) := by
    have hvocab : 32000 ≤ 2 ^ 32 ∧ 32000 ≤ 2 ^ 32 := by decide
    exact fun record _ => Or.inr hvocab
  have hsection : drawnPrefixes.Complete quietOutside := fun _ => ⟨_, _, rfl, rfl⟩
  rcases @runOne_trace Unit ℚ quietOutside (shortRun (some drawnPrefixes)) "least_loaded" _
    drawnPrefixes rfl rfl hsection htrace hpacks with
    ⟨n, s, hfin, -, hlen, hrun⟩ | ⟨hslow, -⟩
  · refine ⟨n, s, hfin, hlen.trans ?_, hrun⟩
    rw [hrecords]
    rfl
  · exact absurd hslow (by decide)

end Runs

end NanoKVRouter
