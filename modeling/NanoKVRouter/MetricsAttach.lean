/-
**The collector observes a run and does not change it.**

The collector is attached before the handlers of the simulator or after them.  In the first case it
sees an event that nothing has been done for, in the second one the state that the handler of the
simulator leaves, and a batch size that this handler has written into the payload.  Payloads belong
to their events, so the batch sizes are kept by the sequence numbers of the events.

A run with the collector is a run without it, whatever the order, and also if it raises.  The two
orders agree on the collector after every run in which no handler raises: the handler of a batch
step leaves in the payload the size of the batch that the collector reads from the node if it comes
first.  An exception of a handler keeps the handlers behind it from being called, and a node with
an empty id is not looked up.

Main definitions:

* `Metrics`, `Observed` — what is attached, and the state of a run with a collector;
* `Wiring.simulate`, `Wiring.collect` — the two handlers of an event;
* `AttachOrder`, `Wiring.observedHandlers`, `Wiring.observe` — a run with a collector;
* `Unwritten` — no event of the queue has a batch size yet.

Main results:

* `Wiring.observe_alike` — a run with a collector and one without it end alike;
* `Wiring.observe_before_eq_after` — **the two orders lead to the same state**;
* `Wiring.collector_passive` — both, from the start of a simulator.
-/

import NanoKVRouter.MetricsCollector
import NanoKVRouter.PyRelations
import NanoKVRouter.SimulatorSteps

set_option relaxedAutoImplicit false
set_option autoImplicit false

namespace NanoKVRouter

/-! ### Runs with a collector -/

/-- What is attached: the batch sizes that have been written into the payloads of events, by the
sequence numbers of these, and the collector. -/
structure Metrics where
  batchSizes : PyDict ℕ ℕ
  collector : MetricsCollector
deriving DecidableEq

/-- Nothing has been observed. -/
def Metrics.init : Metrics := ⟨.empty, .init⟩

/-- The state of a run with a collector. -/
abbrev Observed (ς : Type) : Type := SimulationEngine Payload × Cluster ς × Metrics

namespace Observed

variable {ς : Type}

/-- The simulator that is observed. -/
def simulator (s : Observed ς) : Simulator ς := (s.1, s.2.1)

/-- The state with another simulator. -/
def withSimulator (sim : Simulator ς) (s : Observed ς) : Observed ς := (sim.1, sim.2, s.2.2)

@[simp] theorem simulator_withSimulator (sim : Simulator ς) (s : Observed ς) :
    (withSimulator sim s).simulator = sim := rfl

end Observed

/-- The batch size among the steps that a handler has added to the history, if it ran one. -/
def writtenBatchSize (old new : List BatchStep) : Option ℕ :=
  (new.drop old.length).getLast?.bind fun step => step.tick.map Prod.fst

/-- The payload of an event gets a batch size. -/
def Metrics.write (m : Metrics) (seq : ℕ) : Option ℕ → Metrics
  | none => m
  | some batchSize => { m with batchSizes := m.batchSizes.set seq batchSize }

/-- The order in which the handlers are registered. -/
inductive AttachOrder
  | collectorFirst
  | collectorLast
deriving DecidableEq

namespace Wiring

variable {ς : Type}

/-- The handler of the simulator, which writes the batch size of a step into the payload. -/
def simulate (w : Wiring ς) (ev : Event Payload) : Py (Observed ς) Unit := do
  let steps := (← get).2.1.steps
  Py.onPart Observed.simulator Observed.withSimulator (w.handle ev.payload)
  modify fun s => (s.1, s.2.1, s.2.2.write ev.seq (writtenBatchSize steps s.2.1.steps))

/-- The state after the collector has seen an event. -/
def collected (ev : Event Payload) (s : Observed ς) : Observed ς :=
  (s.1, s.2.1, { s.2.2 with
    collector := s.2.2.collector.observe s.2.1.nodes (s.2.2.batchSizes.get? ev.seq) ev.time
      ev.payload })

/-- The handler of the collector. -/
def collect (ev : Event Payload) : Py (Observed ς) Unit := modify (collected ev)

/-- The handlers as registered with the engine. -/
def observedHandlers (w : Wiring ς) (order : AttachOrder) :
    SimulationEngine.Handlers Payload (Cluster ς × Metrics) := fun _ =>
  match order with
  | .collectorFirst => [collect, w.simulate]
  | .collectorLast => [w.simulate, collect]

/-- A step of a run with a collector. -/
def observedAct (w : Wiring ς) (order : AttachOrder) : Action → Py (Observed ς) Unit
  | .arrive time request =>
      Py.onPart Prod.fst (fun eng s => (eng, s.2))
        (SimulationEngine.schedule { time := time, payload := .requestArrive request })
  | .turn => SimulationEngine.turn (w.observedHandlers order)

/-- Some actions with a collector, one after another. -/
def observe (w : Wiring ς) (order : AttachOrder) (acts : List Action) : Py (Observed ς) Unit :=
  acts.forM (w.observedAct order)

/-! ### The run is the run without the collector -/

/-- An observed state and the simulator in it. -/
def SameRun (s : Observed ς) (sim : Simulator ς) : Prop := s.simulator = sim

theorem simulate_sim (w : Wiring ς) (ev : Event Payload) :
    Py.Sim SameRun Eq (w.simulate ev) (w.handle ev.payload) := by
  rintro s _ rfl
  rw [simulate, Py.run_get_bind]
  cases hrun : (w.handle ev.payload).run s.simulator with
  | ok u sim =>
      rw [Py.run_bind_ok (Py.run_onPart_ok hrun), EStateM.run_modify]
      exact .ok rfl rfl
  | error e sim =>
      rw [Py.run_bind_error (Py.run_onPart_error hrun)]
      exact .error e rfl

theorem collect_run (ev : Event Payload) (s : Observed ς) :
    (collect ev).run s = .ok () (collected ev s) := rfl

/-- The handlers of an event, one of which is the collector's. -/
theorem observedHandlers_sim (w : Wiring ς) (order : AttachOrder) (ev : Event Payload) :
    Py.Sim SameRun Eq ((w.observedHandlers order ev).forM fun handler => handler ev)
      ((w.handlers ev).forM fun handler => handler ev) := by
  intro s sim hs
  have hplain : ((w.handlers ev).forM fun handler => handler ev).run sim =
      (w.handle ev.payload >>= fun _ => pure ()).run sim := rfl
  rw [hplain]
  cases order with
  | collectorFirst =>
      have hrun : ((w.observedHandlers .collectorFirst ev).forM fun handler => handler ev).run s =
          (w.simulate ev >>= fun _ => pure ()).run (collected ev s) := rfl
      rw [hrun]
      exact (simulate_sim w ev).bind_eq (fun _ => Py.Sim.pure rfl) (collected ev s) sim hs
  | collectorLast =>
      have hrun : ((w.observedHandlers .collectorLast ev).forM fun handler => handler ev).run s =
          (w.simulate ev >>= fun _ => collect ev >>= fun _ => pure ()).run s := rfl
      rw [hrun]
      refine (simulate_sim w ev).bind_eq (fun _ => ?_) s sim hs
      exact fun s sim hs => .ok rfl hs

/-- A turn with a collector. -/
theorem turn_sim (w : Wiring ς) (order : AttachOrder) :
    Py.Sim SameRun Eq (SimulationEngine.turn (w.observedHandlers order))
      (SimulationEngine.turn w.handlers) := by
  rintro s _ rfl
  cases hq : s.1.queue.events with
  | nil =>
      rw [SimulationEngine.run_turn_nil _ hq,
        SimulationEngine.run_turn_nil _ (s := s.simulator) hq]
      exact .ok rfl rfl
  | cons ev rest =>
      rw [SimulationEngine.run_turn_cons _ hq,
        SimulationEngine.run_turn_cons _ (s := s.simulator) hq]
      exact observedHandlers_sim w order ev _ _ rfl

theorem observedAct_sim (w : Wiring ς) (order : AttachOrder) (a : Action) :
    Py.Sim SameRun Eq (w.observedAct order a) (w.act a) := by
  cases a with
  | arrive time request =>
      rintro s _ rfl
      cases hrun : (SimulationEngine.schedule
          { time := time, payload := Payload.requestArrive request }).run s.1 with
      | ok u eng =>
          rw [observedAct, Py.run_onPart_ok hrun, act, scheduleAt, onEngine,
            @Py.run_onPart_ok _ _ _ Prod.fst _ _ s.simulator _ _ hrun]
          exact .ok rfl rfl
      | error e eng =>
          rw [observedAct, Py.run_onPart_error hrun, act, scheduleAt, onEngine,
            @Py.run_onPart_error _ _ _ Prod.fst _ _ s.simulator _ _ hrun]
          exact .error e rfl
  | turn => exact turn_sim w order

/-- **A run with a collector and the run without it end alike.** -/
theorem observe_alike (w : Wiring ς) (order : AttachOrder) (acts : List Action) :
    Py.Sim SameRun Eq (w.observe order acts) (w.execute acts) :=
  Py.Sim.forM (observedAct_sim w order) acts

end Wiring

/-! ### The numbers of the events -/

/-- The events of the queue have different numbers, which have been handed out, and none of them
has a batch size yet; batch sizes have been written under numbers that have been handed out. -/
structure Unwritten (eng : SimulationEngine Payload) (batchSizes : PyDict ℕ ℕ) : Prop where
  numbered : eng.Numbered
  distinct : (eng.queue.events.map Event.seq).Nodup
  unwritten : ∀ ev ∈ eng.queue.events, ev.seq ∉ batchSizes.keys
  handedOut : ∀ seq ∈ batchSizes.keys, seq < eng.seqCounter

namespace Unwritten

variable {eng eng' : SimulationEngine Payload} {batchSizes : PyDict ℕ ℕ}

theorem init : Unwritten .init .empty where
  numbered := by simp [SimulationEngine.Numbered, SimulationEngine.init]
  distinct := List.nodup_nil
  unwritten := by simp [SimulationEngine.init]
  handedOut := by simp

/-- A new event gets a number that nothing has been written under. -/
theorem push (h : Unwritten eng batchSizes) (ev : Event Payload) (hle) :
    Unwritten (eng.push ev hle) batchSizes where
  numbered := h.numbered.push ev hle
  distinct := by
    rw [SimulationEngine.push_queue, ((EventQueue.heappush_perm _ _).map Event.seq).nodup_iff,
      List.map_cons, List.nodup_cons]
    refine ⟨?_, h.distinct⟩
    intro hmem
    obtain ⟨a, ha, heq⟩ := List.mem_map.1 hmem
    exact absurd heq (h.numbered a ha).ne
  unwritten := by
    intro a ha hkey
    rw [SimulationEngine.push_queue, EventQueue.mem_heappush] at ha
    rcases ha with rfl | ha
    · exact absurd (h.handedOut _ hkey) (lt_irrefl _)
    · exact h.unwritten a ha hkey
  handedOut := fun seq hseq => Nat.lt_succ_of_lt (h.handedOut seq hseq)

theorem pushes {out : List (Time × Payload)} (hp : Pushes eng out eng')
    (h : Unwritten eng batchSizes) : Unwritten eng' batchSizes := by
  induction hp with
  | nil => exact h
  | cons hle _ ih => exact ih (h.push _ hle)

/-- The event that is taken may get a batch size: no event that is left has its number. -/
theorem advance (h : Unwritten eng batchSizes) {ev : Event Payload} {rest : List (Event Payload)}
    (hq : eng.queue.events = ev :: rest) {batchSizes' : PyDict ℕ ℕ}
    (hkeys : ∀ seq ∈ batchSizes'.keys, seq = ev.seq ∨ seq ∈ batchSizes.keys) :
    Unwritten (eng.advance ev rest hq) batchSizes' := by
  have hmem : ∀ a ∈ rest, a ∈ eng.queue.events := fun a ha => hq ▸ List.mem_cons_of_mem _ ha
  have hd := h.distinct
  rw [hq, List.map_cons, List.nodup_cons] at hd
  refine ⟨h.numbered.advance hq, hd.2, ?_, ?_⟩
  · intro a ha hkey
    rcases hkeys _ hkey with heq | hold
    · exact hd.1 (List.mem_map.2 ⟨a, ha, heq⟩)
    · exact h.unwritten a (hmem a ha) hold
  · intro seq hseq
    rcases hkeys seq hseq with rfl | hold
    · exact h.numbered ev (hq ▸ List.mem_cons_self)
    · exact h.handedOut seq hold

end Unwritten

/-! ### The batch size -/

theorem writtenBatchSize_append (steps : List BatchStep) (step : BatchStep) :
    writtenBatchSize steps (steps ++ [step]) = step.tick.map Prod.fst := by
  simp [writtenBatchSize]

@[simp] theorem Metrics.collector_write (m : Metrics) (seq : ℕ) (o : Option ℕ) :
    (m.write seq o).collector = m.collector := by
  cases o with
  | none => rfl
  | some n => rfl

/-- The entry of a payload that had none. -/
theorem Metrics.get?_write {m : Metrics} {seq : ℕ} (h : seq ∉ m.batchSizes.keys)
    (o : Option ℕ) : (m.write seq o).batchSizes.get? seq = o := by
  cases o with
  | none => exact PyDict.get?_eq_none_iff.2 h
  | some n => exact PyDict.get?_set_self _ _ _

theorem Metrics.mem_keys_write {m : Metrics} {seq k : ℕ} {o : Option ℕ}
    (h : k ∈ (m.write seq o).batchSizes.keys) : k = seq ∨ k ∈ m.batchSizes.keys := by
  cases o with
  | none => exact Or.inr h
  | some n => exact PyDict.mem_keys_set.1 h

namespace Wiring

variable {ς : Type} {w : Wiring ς}

/-- A batch step that returns is one of a node of the pools. -/
theorem mem_of_run_onDecodeBatchStep {id : NodeId} {s s' : Simulator ς} {u : Unit}
    (h : (w.onDecodeBatchStep id).run s = .ok u s') : id ∈ w.prefillIds ++ w.decodeIds := by
  rw [onDecodeBatchStep, Py.run_get_bind] at h
  obtain ⟨n, s₁, hnode, -⟩ := Py.bind_eq_ok.1 h
  exact (run_nodeOf hnode).1

/-- **The batch size does not depend on the order**: the node before the step has the batch that
the handler of the step writes, or an idle node has the same batch before and after. -/
theorem batchSize_eq {s s' : Simulator ς} {id : NodeId} {u : Unit} (hid : id ≠ "")
    (h : (w.handle (.decodeBatchStep id)).run s = .ok u s') :
    (MetricsCollector.fallbackNode s.2.nodes id).map (fun node => node.decoding.card) =
      (writtenBatchSize s.2.steps s'.2.steps <|>
        (MetricsCollector.fallbackNode s'.2.nodes id).map fun node => node.decoding.card) := by
  obtain ⟨out, b', hh, -, hb'⟩ := handles_of_run h
  rw [MetricsCollector.fallbackNode, MetricsCollector.fallbackNode, if_pos hid, if_pos hid, hb']
  cases hh with
  | @stepIdle _ n hn hidle =>
      rw [writtenBatchSize_append, Bookkeeping.setNode, PyDict.get?_set_self, hn]
      rfl
  | @stepRun _ n n' T completed streams pf b₁ hn hwork hop hnd hmem hout hb =>
      rw [Bookkeeping.wake_steps, hb, writtenBatchSize_append, hn]
      rfl

/-- The collector sees in an event the same before and after the handler of the simulator. -/
theorem observe_eq {s s' : Simulator ς} {p : Payload} {u : Unit}
    (hne : ∀ id ∈ w.prefillIds ++ w.decodeIds, id ≠ "") (h : (w.handle p).run s = .ok u s')
    (m : MetricsCollector) (time : Time) :
    m.observe s.2.nodes none time p =
      m.observe s'.2.nodes (writtenBatchSize s.2.steps s'.2.steps) time p := by
  cases p with
  | decodeBatchStep id =>
      have hid := hne id (mem_of_run_onDecodeBatchStep h)
      rw [MetricsCollector.observe, MetricsCollector.observe, MetricsCollector.onDecodeBatchStep,
        MetricsCollector.onDecodeBatchStep, ← batchSize_eq hid h]
      rfl
  | _ => rfl

/-- The state after the handler of the simulator has led to `sim`. -/
def simulated (ev : Event Payload) (sim : Simulator ς) (s : Observed ς) : Observed ς :=
  (sim.1, sim.2, s.2.2.write ev.seq (writtenBatchSize s.2.1.steps sim.2.steps))

theorem mem_keys_simulated {ev : Event Payload} {sim : Simulator ς} {s : Observed ς} {k : ℕ}
    (h : k ∈ (simulated ev sim s).2.2.batchSizes.keys) :
    k = ev.seq ∨ k ∈ s.2.2.batchSizes.keys :=
  Metrics.mem_keys_write h

theorem run_simulate {ev : Event Payload} {s : Observed ς} {sim : Simulator ς} {u : Unit}
    (h : (w.handle ev.payload).run s.simulator = .ok u sim) :
    (w.simulate ev).run s = .ok () (simulated ev sim s) := by
  rw [simulate, Py.run_get_bind, Py.run_bind_ok (Py.run_onPart_ok h)]
  rfl

/-- The two handlers of an event commute. -/
theorem collected_simulated {ev : Event Payload} {s : Observed ς} {sim : Simulator ς} {u : Unit}
    (hne : ∀ id ∈ w.prefillIds ++ w.decodeIds, id ≠ "")
    (hseq : ev.seq ∉ s.2.2.batchSizes.keys)
    (h : (w.handle ev.payload).run s.simulator = .ok u sim) :
    simulated ev sim (collected ev s) = collected ev (simulated ev sim s) := by
  have hold : s.2.2.batchSizes.get? ev.seq = none := PyDict.get?_eq_none_iff.2 hseq
  have hobs : s.2.2.collector.observe s.2.1.nodes none ev.time ev.payload =
      s.2.2.collector.observe sim.2.nodes (writtenBatchSize s.2.1.steps sim.2.steps) ev.time
        ev.payload := observe_eq hne h s.2.2.collector ev.time
  simp only [collected, simulated, hold, Metrics.get?_write hseq, Metrics.collector_write, hobs]
  cases writtenBatchSize s.2.1.steps sim.2.steps with
  | none => rfl
  | some n => rfl

/-- A turn in which no handler raises leads to the same state in both orders. -/
theorem turn_before_eq_after {s : Observed ς} {sim : Simulator ς} {u : Unit}
    (hne : ∀ id ∈ w.prefillIds ++ w.decodeIds, id ≠ "")
    (hi : Unwritten s.1 s.2.2.batchSizes)
    (h : (SimulationEngine.turn w.handlers).run s.simulator = .ok u sim) :
    ∃ s' : Observed ς, s'.simulator = sim ∧ Unwritten s'.1 s'.2.2.batchSizes ∧
      ∀ order, (SimulationEngine.turn (w.observedHandlers order)).run s = .ok () s' := by
  cases hq : s.1.queue.events with
  | nil =>
      rw [SimulationEngine.run_turn_nil _ (s := s.simulator) hq, EStateM.Result.ok.injEq] at h
      exact ⟨s, h.2, hi, fun order => SimulationEngine.run_turn_nil _ hq⟩
  | cons ev rest =>
      rw [SimulationEngine.run_turn_cons _ (s := s.simulator) hq, handlers, Py.run_forM_cons] at h
      obtain ⟨_, sim', hhandle, hpure⟩ := Py.bind_eq_ok.1 h
      cases hpure
      have hseq : ev.seq ∉ s.2.2.batchSizes.keys := hi.unwritten ev (hq ▸ List.mem_cons_self)
      -- the state in which the handlers are called
      obtain ⟨s₀, hs₀⟩ : ∃ s₀ : Observed ς, s₀ = (s.1.advance ev rest hq, s.2) := ⟨_, rfl⟩
      have hrun : (w.handle ev.payload).run s₀.simulator = .ok () sim := by
        rw [hs₀]
        exact hhandle
      refine ⟨simulated ev sim (collected ev s₀), rfl, ?_, ?_⟩
      · obtain ⟨out, b, -, hpush, -⟩ := handles_of_run hhandle
        have hkeys : ∀ seq ∈ (simulated ev sim (collected ev s₀)).2.2.batchSizes.keys,
            seq = ev.seq ∨ seq ∈ s.2.2.batchSizes.keys := by
          intro seq hmem
          have hold := mem_keys_simulated hmem
          rw [hs₀] at hold
          exact hold
        exact (hi.advance hq hkeys).pushes hpush
      · intro order
        rw [SimulationEngine.run_turn_cons _ hq, ← hs₀]
        cases order with
        | collectorFirst =>
            have hcall : (w.simulate ev).run (collected ev s₀) =
                .ok () (simulated ev sim (collected ev s₀)) := run_simulate hrun
            exact Py.run_bind_ok hcall
        | collectorLast =>
            rw [collected_simulated hne (by rw [hs₀]; exact hseq) hrun]
            exact Py.run_bind_ok (run_simulate hrun)

/-- A step of a run in which nothing is raised leads to the same state in both orders. -/
theorem act_before_eq_after {s : Observed ς} {sim : Simulator ς} {u : Unit} {a : Action}
    (hne : ∀ id ∈ w.prefillIds ++ w.decodeIds, id ≠ "")
    (hi : Unwritten s.1 s.2.2.batchSizes) (h : (w.act a).run s.simulator = .ok u sim) :
    ∃ s' : Observed ς, s'.simulator = sim ∧ Unwritten s'.1 s'.2.2.batchSizes ∧
      ∀ order, (w.observedAct order a).run s = .ok () s' := by
  cases a with
  | turn => exact turn_before_eq_after hne hi h
  | arrive time request =>
      obtain ⟨eng, hrun, rfl⟩ := Py.run_onPart_eq_ok.1 h
      refine ⟨(eng, s.2), rfl, ?_, fun order => Py.run_onPart_ok hrun⟩
      obtain ⟨hle, rfl⟩ := SimulationEngine.run_schedule_ok_iff.1 hrun
      exact hi.push _ hle

/-- **A run in which nothing is raised leads to the same state in both orders.** -/
theorem observe_before_eq_after (hne : ∀ id ∈ w.prefillIds ++ w.decodeIds, id ≠ "") :
    ∀ {acts : List Action} {s : Observed ς} {sim : Simulator ς} {u : Unit},
      Unwritten s.1 s.2.2.batchSizes → (w.execute acts).run s.simulator = .ok u sim →
      ∃ s' : Observed ς, s'.simulator = sim ∧ ∀ order, (w.observe order acts).run s = .ok () s' := by
  intro acts
  induction acts with
  | nil =>
      intro s sim u _ h
      cases h
      exact ⟨s, rfl, fun _ => rfl⟩
  | cons a acts ih =>
      intro s sim u hi h
      rw [execute, Py.run_forM_cons] at h
      obtain ⟨_, sim₁, hact, hrest⟩ := Py.bind_eq_ok.1 h
      obtain ⟨s₁, rfl, hi₁, hobs⟩ := act_before_eq_after hne hi hact
      obtain ⟨s', hs', hobs'⟩ := ih hi₁ hrest
      refine ⟨s', hs', fun order => ?_⟩
      rw [observe, Py.run_forM_cons, Py.run_bind_ok (hobs order)]
      exact hobs' order

/-- The start of a simulator with a collector. -/
def observed (w : Wiring ς) (sched : ς) (cm : CacheManager) (tm : TransferModel) : Observed ς :=
  ((w.start sched cm tm).1, (w.start sched cm tm).2, .init)

/-- The summary of the collector after some actions from the start. -/
def summaryOf (w : Wiring ς) (order : AttachOrder) (sched : ς) (cm : CacheManager)
    (tm : TransferModel) (acts : List Action) : MetricsSummary :=
  ((w.observe order acts).run (w.observed sched cm tm)).state.2.2.collector.summary

/-- **The collector is a passive observer, and its place among the handlers does not matter.**
With a collector a run processes the events of the run without it, and it ends in the same state of
the simulator and in the same exception, if there is one.  If there is none and every node has an
id that is not empty, both orders give the same summary. -/
theorem collector_passive (w : Wiring ς) (sched : ς) (cm : CacheManager) (tm : TransferModel)
    (acts : List Action) :
    (∀ order,
      ((w.observe order acts).run (w.observed sched cm tm)).state.simulator =
          ((w.execute acts).run (w.start sched cm tm)).state ∧
        ((w.observe order acts).run (w.observed sched cm tm)).error? =
          ((w.execute acts).run (w.start sched cm tm)).error?) ∧
      ((∀ id ∈ w.prefillIds ++ w.decodeIds, id ≠ "") →
        ((w.execute acts).run (w.start sched cm tm)).isOk = true →
        ∀ order order',
          w.summaryOf order sched cm tm acts = w.summaryOf order' sched cm tm acts) := by
  constructor
  · intro order
    have halike := observe_alike w order acts (w.observed sched cm tm) (w.start sched cm tm) rfl
    exact ⟨halike.state, halike.error?_eq⟩
  · intro hne hok order order'
    cases hrun : (w.execute acts).run (w.start sched cm tm) with
    | error e sim =>
        rw [hrun] at hok
        cases hok
    | ok u sim =>
        obtain ⟨s', -, hobs⟩ := observe_before_eq_after (s := w.observed sched cm tm) hne
          Unwritten.init hrun
        rw [summaryOf, summaryOf, hobs order, hobs order']

/-! ### Small runs -/

/-- One node with one slot in both pools, whose id is empty. -/
def unnamed : Wiring Cursors where
  policy := RoundRobinPolicy.schedule ⟨unitCosts, .defaults⟩
  prefillNodes := [⟨"", unitCosts, smallNode 1 Nat.one_pos⟩]
  decodeNodes := [⟨"", unitCosts, smallNode 1 Nat.one_pos⟩]
  modelCfg := unitCosts
  bandwidthCfg := .defaults
  streamOrder := .byId
  unique := by decide +kernel

/-- The cache of a small run. -/
def emptyCache (w : Wiring Cursors) : CacheManager :=
  .init w.decodeIds unitCosts (smallNode 2 Nat.two_pos) .defaults

/-- A request for one token is prefilled, transferred and decoded. -/
def oneToken : List Action := .arrive 0 ⟨"r", [1], 1, 0, 100, 100⟩ :: List.replicate 12 .turn

/-- Two requests have the same id, and the second enters decode while the first is decoded. -/
def twiceTheSame : List Action :=
  .arrive 0 ⟨"r", [1], 5, 0, 100, 100⟩ :: .arrive 20 ⟨"r", [1, 2], 5, 20, 100, 100⟩ ::
    List.replicate 21 .turn

/-- The batch sizes of a run on two named nodes are the same in both orders. -/
theorem collector_passive_split :
    (split.summaryOf .collectorFirst {} split.emptyCache .noop oneToken).avgBatchSize =
        some (1 / 2) ∧
      split.summaryOf .collectorFirst {} split.emptyCache .noop oneToken =
        split.summaryOf .collectorLast {} split.emptyCache .noop oneToken :=
  ⟨by decide +kernel,
    (collector_passive split {} split.emptyCache .noop oneToken).2 (by decide +kernel)
      (by decide +kernel) .collectorFirst .collectorLast⟩

/-- The two orders give different summaries after a whole run on a node whose id is empty, because
a collector that comes first does not look that node up, and after a run that raises, because a
collector that comes last does not see the event whose handler raised. -/
theorem attach_orders_differ :
    (((unnamed.execute oneToken).run (unnamed.start {} unnamed.emptyCache .noop)).isOk = true ∧
        ((unnamed.execute oneToken).run
          (unnamed.start {} unnamed.emptyCache .noop)).state.1.queue.events = [] ∧
        unnamed.summaryOf .collectorFirst {} unnamed.emptyCache .noop oneToken ≠
          unnamed.summaryOf .collectorLast {} unnamed.emptyCache .noop oneToken) ∧
      ((split.execute twiceTheSame).run (split.start {} split.emptyCache .noop)).error? =
          some (.valueError "request 'r' already materialized on 'd0'") ∧
        split.summaryOf .collectorFirst {} split.emptyCache .noop twiceTheSame ≠
          split.summaryOf .collectorLast {} split.emptyCache .noop twiceTheSame := by
  refine ⟨⟨by decide +kernel, by decide +kernel, ?_⟩, by decide +kernel, ?_⟩
  · intro h
    exact absurd (congrArg MetricsSummary.avgBatchSize h) (by decide +kernel)
  · intro h
    exact absurd (congrArg MetricsSummary.kvTransferTimeAvgMs h) (by decide +kernel)

end Wiring

end NanoKVRouter
