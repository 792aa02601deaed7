/-
**The simulator with its source of arrivals.**

In a whole simulation the arrivals are not given from outside: a generator is registered behind the
simulator and the collector, and each arrival makes it schedule the next one.  What is asked of a
generator is stated once (`ArrivalSource`).

The run with a source is a run of the simulator for certain arrivals, whose ids are distinct because
they are numbered.  Between two arrivals the loop uses up energy.  So from every state it ends,
comes to a collision, or makes as many requests as one likes.

Main definitions:

* `ArrivalSource` — a source of arrivals, which has at most one of them in the queue;
* `Closed`, `Wiring.closedHandlers` — the closed system;
* `Wiring.Linked` — what holds between two turns;
* `SimulationEngine.TurnsTo` — some turns of the loop;
* `Wiring.runClosed`, `Wiring.Finished` — a whole run, and what holds at its end.

Main results:

* `Wiring.Linked.turn` — **a turn of the closed system** is a turn of the simulator, and after an
  arrival maybe another arrival;
* `Wiring.Linked.turns` — **the loop ends, collides or goes on making requests**;
* `Wiring.Linked.finished` — what holds where it ends;
* `Wiring.runClosed_cases` — whole runs.
-/

import NanoKVRouter.MetricsReconcile
import NanoKVRouter.RequestGenerator
import NanoKVRouter.SimulatorDelivery

set_option relaxedAutoImplicit false
set_option autoImplicit false

namespace NanoKVRouter

open TraceGenerator (isArrival delivered pending pending_push_arrival pending_push_other
  delivered_advance delivered_advance_other)

/-! ### Sources of arrivals -/

/-- A call that returns, having scheduled nothing or one arrival, and leaves a source settled. -/
def Makes {γ : Type} (settled : SimulationEngine Payload → γ → Prop)
    (m : Py (SimulationEngine Payload × γ) Unit) (eng : SimulationEngine Payload) (gen : γ) :
    Prop :=
  (∃ gen', m.run (eng, gen) = .ok () (eng, gen') ∧ settled eng gen') ∨
  ∃ t req gen', ∃ hle : eng.currentTime ≤ t,
    m.run (eng, gen) = .ok () (eng.push { time := t, payload := .requestArrive req } hle, gen') ∧
    settled (eng.push { time := t, payload := .requestArrive req } hle) gen'

/-- A source of arrivals: the call that it registers for them, and what holds of the engine and of
its own state.  `settled` holds between the events, and `owing` from the time an arrival is taken
until the call is made for it. -/
structure ArrivalSource (γ : Type) where
  chain : Py (SimulationEngine Payload × γ) Unit
  name : String
  settled : SimulationEngine Payload → γ → Prop
  owing : SimulationEngine Payload → γ → Prop
  settled_congr : ∀ {eng eng' gen}, settled eng gen → delivered eng' = delivered eng →
    pending eng' = pending eng → settled eng' gen
  owing_congr : ∀ {eng eng' gen}, owing eng gen → delivered eng' = delivered eng →
    pending eng' = pending eng → eng'.currentTime = eng.currentTime → owing eng' gen
  numbered : ∀ {eng gen}, settled eng gen → Numbered name (delivered eng ++ pending eng)
  pending_eq : ∀ {eng gen}, owing eng gen → pending eng = []
  take : ∀ {eng gen ev rest} (hq : eng.queue.events = ev :: rest), settled eng gen →
    isArrival ev = true → owing (eng.advance ev rest hq) gen
  makes : ∀ {eng gen}, owing eng gen → Makes settled chain eng gen

/-- The state of the closed system. -/
abbrev Closed (ς γ : Type) : Type := SimulationEngine Payload × Cluster ς × Metrics × γ

namespace Closed

variable {ς γ : Type}

/-- The simulator with its collector. -/
def observed (s : Closed ς γ) : Observed ς := (s.1, s.2.1, s.2.2.1)

/-- The state with another simulator and collector. -/
def withObserved (o : Observed ς) (s : Closed ς γ) : Closed ς γ := (o.1, o.2.1, o.2.2, s.2.2.2)

/-- The engine and the source. -/
def source (s : Closed ς γ) : SimulationEngine Payload × γ := (s.1, s.2.2.2)

/-- The state with another engine and source. -/
def withSource (p : SimulationEngine Payload × γ) (s : Closed ς γ) : Closed ς γ :=
  (p.1, s.2.1, s.2.2.1, p.2)

/-- The simulator. -/
def simulator (s : Closed ς γ) : Simulator ς := (s.1, s.2.1)

/-- The arrivals that have been made. -/
def arrivals (s : Closed ς γ) : List (Event Payload) := delivered s.1 ++ pending s.1

end Closed

/-! ### The handlers schedule no arrival -/

section Arrivals

variable {ς : Type} {w : Wiring ς}

/-- The handlers of the simulator schedule no arrival. -/
theorem Handles.not_arrival {now : Time} {u : ℤ} {b b' : Bookkeeping} {p : Payload}
    {out : List (Time × Payload)} (h : Handles w now u b p out b') {e : Time × Payload}
    (he : e ∈ out) (req : Request) : e.2 ≠ .requestArrive req := by
  have hwake : ∀ (b₁ : Bookkeeping) id t, e ∈ b₁.wakeEvents id t → e.2 ≠ .requestArrive req := by
    intro b₁ id t hmem
    rw [(Bookkeeping.mem_wakeEvents hmem).1]
    exact fun h => by cases h
  cases h with
  | startPipeline => exact hwake _ _ _ he
  | transferAccepted => exact hwake _ _ _ he
  | decodeFinished => exact hwake _ _ _ he
  | @arriveAdmitted _ x d dec mt mb v running n n' started hx hnode hv hop hstarted =>
      rcases List.mem_cons.1 he with rfl | he
      · exact fun h => by cases h
      · cases running with
        | true =>
            obtain ⟨k, rfl⟩ := hstarted
            rw [List.mem_singleton.1 he]
            exact fun h => by cases h
        | false =>
            obtain rfl := hstarted
            cases he
  | @prefillFinished r x req' a n n' pr started b₁ base₁ s₁ s₂ hx hn ha hop hpr hbase ht =>
      rcases List.mem_append.1 he with he | he
      · obtain ⟨q, req, k, rfl, -⟩ := hpr.mem_events he
        exact fun h => by cases h
      · rcases List.mem_cons.1 he with rfl | he
        · exact fun h => by cases h
        · rw [List.mem_singleton.1 he]
          exact fun h => by cases h
  | stepRun =>
      rcases List.mem_append.1 he with he | he
      · obtain ⟨q, req, -, -, rfl⟩ := mem_prefillEvents he
        exact fun h => by cases h
      rcases List.mem_append.1 he with he | he
      · obtain ⟨q, -, rfl⟩ := List.mem_map.1 he
        exact fun h => by cases h
      rcases List.mem_append.1 he with he | he
      · obtain ⟨q, -, rfl⟩ := List.mem_map.1 he
        exact fun h => by cases h
      · exact hwake _ _ _ he
  | arriveRejected | startCached | transferRejected =>
      rw [List.mem_singleton.1 he]
      exact fun h => by cases h
  | _ => cases he

theorem isArrival_eq_false {ev : Event Payload} (h : ∀ req, ev.payload ≠ .requestArrive req) :
    isArrival ev = false := by
  cases hp : ev.payload with
  | requestArrive req => exact absurd hp (h req)
  | _ => rw [isArrival, hp]

/-- Other events leave the arrivals as they are. -/
theorem Pushes.arrivals_eq {eng eng' : SimulationEngine Payload} {out : List (Time × Payload)}
    (h : Pushes eng out eng') (hout : ∀ e ∈ out, ∀ req, e.2 ≠ .requestArrive req) :
    delivered eng' = delivered eng ∧ pending eng' = pending eng ∧
      eng'.currentTime = eng.currentTime := by
  induction h with
  | nil => exact ⟨rfl, rfl, rfl⟩
  | @cons eng eng' t p out hle hp ih =>
      obtain ⟨hd, hpend, ht⟩ := ih fun e he => hout e (List.mem_cons_of_mem _ he)
      exact ⟨hd, hpend.trans (pending_push_other hle
        (isArrival_eq_false (hout (t, p) List.mem_cons_self))), ht⟩

end Arrivals

/-! ### The closed system -/

namespace Wiring

variable {ς γ : Type}

/-- The handlers as registered with the engine: those of the simulator, of the collector and of the
source. -/
def closedHandlers (w : Wiring ς) (chain : Py (SimulationEngine Payload × γ) Unit) :
    SimulationEngine.Handlers Payload (Cluster ς × Metrics × γ) := fun ev =>
  (w.observedHandlers .collectorLast ev).map (fun handler ev =>
    Py.onPart Closed.observed Closed.withObserved (handler ev)) ++
  if isArrival ev then [fun _ => Py.onPart Closed.source Closed.withSource chain] else []

/-- The closed system before its source is attached, with fresh caches. -/
def closedStart (w : Wiring ς) (sched : ς) (nodeConfig : NodeConfig) (tm : TransferModel)
    (gen : γ) : Closed ς γ :=
  ((w.fresh sched nodeConfig tm).1, (w.fresh sched nodeConfig tm).2, .init, gen)

/-- Attach the source, run the loop, and summarise the metrics. -/
def runClosed (w : Wiring ς) (attach chain : Py (SimulationEngine Payload × γ) Unit)
    (start : Closed ς γ) (fuel : ℕ) : Except PyErr MetricsSummary :=
  match (Py.onPart Closed.source Closed.withSource attach >>= fun _ =>
      SimulationEngine.runLoop (w.closedHandlers chain) fuel).run start with
  | .ok _ s => .ok s.2.2.1.collector.summary
  | .error e _ => .error e

/-- What is called after a turn of the simulator and its collector. -/
def followUp (chain : Py (SimulationEngine Payload × γ) Unit) (ev : Event Payload) :
    Py (Closed ς γ) Unit :=
  if isArrival ev then Py.onPart Closed.source Closed.withSource chain else pure ()

section Turns

variable {w : Wiring ς} {src : ArrivalSource γ} {s s' : Closed ς γ} {ev : Event Payload}
  {rest : List (Event Payload)}

/-- The handlers of an event after those of the simulator and its collector. -/
theorem run_forM_closed {o : Observed ς} :
    (((w.closedHandlers src.chain ev).drop 2).forM fun handler => handler ev).run
        (Closed.withObserved o s) =
      (followUp src.chain ev).run (Closed.withObserved o s) := by
  by_cases hev : isArrival ev = true
  · have hdrop : (w.closedHandlers src.chain ev).drop 2 =
        [fun _ => Py.onPart Closed.source Closed.withSource src.chain] := by
      rw [closedHandlers, if_pos hev]
      rfl
    rw [hdrop, followUp, if_pos hev, Py.run_forM_cons]
    exact congrArg (fun m => EStateM.run m _) (bind_pure_unit (m := Py (Closed ς γ)))
  · have hdrop : (w.closedHandlers src.chain ev).drop 2 = [] := by
      rw [closedHandlers, if_neg hev]
      rfl
    rw [hdrop, followUp, if_neg hev]
    rfl

/-- A turn of the closed system, where that of the simulator and its collector returns. -/
theorem run_turn_closed (hq : s.1.queue.events = ev :: rest) {o : Observed ς}
    (h : (SimulationEngine.turn (w.observedHandlers .collectorLast)).run s.observed = .ok () o) :
    (SimulationEngine.turn (w.closedHandlers src.chain)).run s =
      (followUp src.chain ev).run (Closed.withObserved o s) := by
  rw [SimulationEngine.run_turn_cons _ (s := s.observed) hq] at h
  obtain ⟨_, o₁, hsim, hrest⟩ := Py.bind_eq_ok.1 h
  obtain ⟨_, o₂, hcollect, hpure⟩ := Py.bind_eq_ok.1 hrest
  cases hpure
  rw [SimulationEngine.run_turn_cons _ hq]
  have hsim' : (Py.onPart Closed.observed Closed.withObserved (w.simulate ev)).run
      (s.1.advance ev rest hq, s.2) = .ok _ (Closed.withObserved o₁ s) := Py.run_onPart_ok hsim
  have hcollect' : (Py.onPart Closed.observed Closed.withObserved (collect ev)).run
      (Closed.withObserved o₁ s) = .ok _ (Closed.withObserved o s) :=
    Py.run_onPart_ok (s := Closed.withObserved o₁ s) hcollect
  exact (Py.run_bind_ok hsim').trans ((Py.run_bind_ok hcollect').trans (run_forM_closed (w := w)))

/-- A turn of the closed system, where that of the simulator and its collector raises. -/
theorem run_turn_closed_error (hq : s.1.queue.events = ev :: rest) {o : Observed ς} {e : PyErr}
    (h : (SimulationEngine.turn (w.observedHandlers .collectorLast)).run s.observed = .error e o) :
    (SimulationEngine.turn (w.closedHandlers src.chain)).run s =
      .error e (Closed.withObserved o s) := by
  rw [SimulationEngine.run_turn_cons _ (s := s.observed) hq] at h
  rw [SimulationEngine.run_turn_cons _ hq]
  -- the collector never raises
  rcases Py.bind_eq_error.1 h with hsim | ⟨_, o₁, -, hrest⟩
  · have hsim' : (Py.onPart Closed.observed Closed.withObserved (w.simulate ev)).run
        (s.1.advance ev rest hq, s.2) = .error e (Closed.withObserved o s) :=
      Py.run_onPart_error hsim
    exact Py.run_bind_error hsim'
  · cases hrest

/-! ### Between two turns -/

/-- What holds between two turns: the simulator has come from `s₀` with distinct arrivals, the
collector has observed the events, and the source is settled. -/
structure Linked (w : Wiring ς) (src : ArrivalSource γ) (s₀ : Simulator ς) (s : Closed ς γ) :
    Prop where
  reaches : w.ReachesFrom DistinctArrivals s₀ s.simulator
  collected : Collected s.2.2.1.collector s.1.processed
  settled : src.settled s.1 s.2.2.2

/-- An arrival with the next number is new. -/
theorem newId_of_numbered {eng : SimulationEngine Payload} {c : Cluster ς} {t : Time}
    {req : Request} (hle : eng.currentTime ≤ t) (hp : pending eng = [])
    (h : Numbered src.name (delivered (eng.push { time := t, payload := .requestArrive req } hle) ++
      pending (eng.push { time := t, payload := .requestArrive req } hle))) :
    NewId ((eng, c) : Simulator ς) req.requestId := by
  have hlast : isArrival ⟨t, 0, .requestArrive req⟩ = true := rfl
  rw [pending_push_arrival hle hlast hp] at h
  intro ev hev req' hreq'
  have hpay : ev.payload = .requestArrive req' := by
    cases hpay : ev.payload with
    | requestArrive req'' =>
        rw [hpay] at hreq'
        cases hreq'
        rfl
    | _ =>
        rw [hpay] at hreq'
        cases hreq'
  have harr : isArrival ev = true := by rw [isArrival, hpay]
  refine h.ne ?_ hpay rfl
  rcases List.mem_append.1 hev with hq | hproc
  · have hmem : ev ∈ pending eng := List.mem_filter.2 ⟨hq, harr⟩
    rw [hp] at hmem
    cases hmem
  · exact List.mem_filter.2 ⟨hproc, harr⟩

theorem run_act_arrive {sim : Simulator ς} {t : Time} {req : Request}
    (hle : sim.1.currentTime ≤ t) : (w.act (.arrive t req)).run sim = .ok ()
      (sim.1.push { time := t, payload := .requestArrive req } hle, sim.2) := by
  have hsched : (SimulationEngine.schedule
      { time := t, payload := Payload.requestArrive req }).run sim.1 =
        .ok () (sim.1.push { time := t, payload := .requestArrive req } hle) :=
    SimulationEngine.run_schedule_ok_iff.2 ⟨hle, rfl⟩
  exact Py.run_onPart_ok hsched

/-- Attaching a source links it. -/
theorem Linked.attach {attach : Py (SimulationEngine Payload × γ) Unit} {sched : ς}
    {nodeConfig : NodeConfig} {tm : TransferModel} {gen : γ}
    (h : Makes src.settled attach .init gen) :
    ∃ s : Closed ς γ, (Py.onPart Closed.source Closed.withSource attach).run
        (w.closedStart sched nodeConfig tm gen) = .ok () s ∧
      Linked w src (w.fresh sched nodeConfig tm) s := by
  rcases h with ⟨gen', hrun, hs⟩ | ⟨t, req, gen', hle, hrun, hs⟩
  · exact ⟨_, Py.run_onPart_ok (s := w.closedStart sched nodeConfig tm gen) hrun,
      .refl, .init, hs⟩
  · have hnew := newId_of_numbered (c := (w.fresh sched nodeConfig tm).2) hle rfl (src.numbered hs)
    exact ⟨_, Py.run_onPart_ok (s := w.closedStart sched nodeConfig tm gen) hrun,
      .step (.arrive t req) .refl hnew (run_act_arrive hle), .init, hs⟩

/-- Taking an event that is followed by other events than arrivals keeps the arrivals. -/
theorem arrivals_of_take {eng eng' : SimulationEngine Payload} {gen : γ}
    (hs : src.settled eng gen) (hq : eng.queue.events = ev :: rest)
    (hd : delivered eng' = delivered (eng.advance ev rest hq))
    (hp : pending eng' = pending (eng.advance ev rest hq)) :
    delivered eng' ++ pending eng' = delivered eng ++ pending eng := by
  rw [hd, hp]
  by_cases hev : isArrival ev = true
  · have hnone : rest.filter isArrival = [] := src.pending_eq (src.take hq hs hev)
    have hle : (pending eng).length ≤ 1 := by
      rw [pending, hq, List.filter_cons_of_pos hev, hnone]
      exact le_refl 1
    obtain ⟨hdel, hpend, -⟩ := delivered_advance hle hq hev
    rw [hdel, hpend, List.append_nil]
  · rw [Bool.not_eq_true] at hev
    obtain ⟨hdel, hpend⟩ := delivered_advance_other hq hev
    rw [hdel, hpend]

/-- **A turn of the closed system**, where that of the simulator returns: after an arrival, there
may be another one in the queue. -/
theorem Linked.turn {s₀ sim : Simulator ς} (hl : Linked w src s₀ s)
    (hq : s.1.queue.events = ev :: rest)
    (hrun : (SimulationEngine.turn w.handlers).run s.simulator = .ok () sim) :
    ∃ s' : Closed ς γ, (SimulationEngine.turn (w.closedHandlers src.chain)).run s = .ok () s' ∧
      Linked w src s₀ s' ∧ ((s'.simulator = sim ∧ s'.arrivals = s.arrivals) ∨
        s'.arrivals.length = s.arrivals.length + 1) := by
  -- the simulator with its collector
  obtain ⟨o, hobs, rfl⟩ : ∃ o : Observed ς,
      (SimulationEngine.turn (w.observedHandlers .collectorLast)).run s.observed = .ok () o ∧
        o.simulator = sim := by
    have halike := turn_sim w .collectorLast s.observed s.simulator rfl
    rw [hrun] at halike
    cases hobs : (SimulationEngine.turn (w.observedHandlers .collectorLast)).run s.observed with
    | error e o =>
        rw [hobs] at halike
        cases halike
    | ok u o =>
        rw [hobs] at halike
        exact ⟨o, rfl, halike.state⟩
  have hcollected : Collected o.2.2.collector o.1.processed :=
    collected_of_turn (s := s.observed) hl.collected hobs
  have hreach : w.ReachesFrom DistinctArrivals s₀ o.simulator := hl.reaches.step .turn trivial hrun
  obtain ⟨hd, hp, ht⟩ : delivered o.1 = delivered (s.1.advance ev rest hq) ∧
      pending o.1 = pending (s.1.advance ev rest hq) ∧
      o.1.currentTime = (s.1.advance ev rest hq).currentTime := by
    rcases turn_cases hrun with ⟨hnil, -⟩ | ⟨ev', rest', out, hturn⟩
    · cases hq.symm.trans hnil
    · cases hq.symm.trans hturn.events
      exact hturn.pushes.arrivals_eq fun e he => hturn.handles.not_arrival he
  have harr := arrivals_of_take hl.settled hq hd hp
  rw [run_turn_closed hq hobs, followUp]
  by_cases hev : isArrival ev = true
  · rw [if_pos hev]
    have howing := src.owing_congr (src.take hq hl.settled hev) hd hp ht
    rcases src.makes howing with ⟨gen', hchain, hs⟩ | ⟨t, req, gen', hle, hchain, hs⟩
    · exact ⟨_, Py.run_onPart_ok (s := Closed.withObserved o s) hchain,
        ⟨hreach, hcollected, hs⟩, Or.inl ⟨rfl, harr⟩⟩
    · have hpend := src.pending_eq howing
      have hnew := newId_of_numbered (c := o.2.1) hle hpend (src.numbered hs)
      refine ⟨_, Py.run_onPart_ok (s := Closed.withObserved o s) hchain,
        ⟨hreach.step (.arrive t req) hnew (run_act_arrive hle), hcollected, hs⟩, Or.inr ?_⟩
      change (delivered o.1 ++ pending (o.1.push _ hle)).length = _
      rw [pending_push_arrival hle rfl hpend, Closed.arrivals, ← harr, hpend, List.append_nil,
        List.length_append, List.length_singleton]
  · rw [if_neg hev]
    rw [Bool.not_eq_true] at hev
    obtain ⟨hdel, hpend⟩ := delivered_advance_other hq hev
    exact ⟨_, rfl, ⟨hreach, hcollected,
      src.settled_congr hl.settled (hd.trans hdel) (hp.trans hpend)⟩, Or.inl ⟨rfl, harr⟩⟩

end Turns

end Wiring

/-! ### Some turns of a loop -/

namespace SimulationEngine

variable {π σ : Type} {handlers : Handlers π σ} {n m : ℕ} {s s' s'' : SimulationEngine π × σ}

/-- Some turns of the loop of `run` lead from one state to another. -/
def TurnsTo (handlers : Handlers π σ) (n : ℕ) (s s' : SimulationEngine π × σ) : Prop :=
  ∀ fuel, (runLoop handlers (n + fuel)).run s = (runLoop handlers fuel).run s'

theorem TurnsTo.refl (s : SimulationEngine π × σ) : TurnsTo handlers 0 s s := fun fuel => by
  rw [Nat.zero_add]

theorem TurnsTo.trans (h : TurnsTo handlers n s s') (h' : TurnsTo handlers m s' s'') :
    TurnsTo handlers (n + m) s s'' := fun fuel => by
  rw [Nat.add_assoc, h, h']

/-- One turn. -/
theorem TurnsTo.turn (hq : s.1.queue.events ≠ []) (hstop : s.1.stopped = false)
    (hrun : (SimulationEngine.turn handlers).run s = .ok () s') : TurnsTo handlers 1 s s' :=
  fun fuel => by
    rw [Nat.add_comm, run_runLoop_succ _ fuel hq hstop, Py.run_bind_ok hrun]

/-- The loop that comes to a state without events ends there. -/
theorem TurnsTo.run_runLoop (h : TurnsTo handlers n s s') (hq : s'.1.queue.events = []) {fuel : ℕ}
    (hfuel : n < fuel) : (runLoop handlers fuel).run s = .ok () s' := by
  obtain ⟨k, rfl⟩ := Nat.exists_eq_add_of_lt hfuel
  rw [Nat.add_assoc, h, run_runLoop_nil _ k hq]

/-- The loop that comes to a state in which a handler raises raises. -/
theorem TurnsTo.run_runLoop_error (h : TurnsTo handlers n s s') (hq : s'.1.queue.events ≠ [])
    (hstop : s'.1.stopped = false) {e : PyErr}
    (hrun : (SimulationEngine.turn handlers).run s' = .error e s'') {fuel : ℕ} (hfuel : n < fuel) :
    (runLoop handlers fuel).run s = .error e s'' := by
  obtain ⟨k, rfl⟩ := Nat.exists_eq_add_of_lt hfuel
  rw [Nat.add_assoc, h, run_runLoop_succ _ k hq hstop, Py.run_bind_error hrun]

end SimulationEngine

/-! ### The loop -/

namespace Wiring

section Loop

variable {ς γ : Type} {w : Wiring ς} {src : ArrivalSource γ} {sched : ς} {nodeConfig : NodeConfig}
  {tm : TransferModel} {s s' : Closed ς γ}

open SimulationEngine (TurnsTo)

/-- Between two arrivals the loop uses up energy, so that it ends, collides or makes a request. -/
theorem Linked.next (hpolicy : w.policy.Contract)
    (hpools : ∀ id ∈ w.prefillIds, id ∉ w.decodeIds) {ids : Finset RequestId} (m : ℕ) :
    ∀ {s : Closed ς γ} {stage : RequestId → Stage},
      Linked w src (w.fresh sched nodeConfig tm) s → Staged w s.simulator stage →
      (∀ r, r ∉ ids → stage r = .absent) → s.simulator.energy ids stage = m →
      ∃ n s', Linked w src (w.fresh sched nodeConfig tm) s' ∧
        TurnsTo (w.closedHandlers src.chain) n s s' ∧
        (s'.1.queue.events = [] ∨ s'.simulator.Collides ∨
          s.arrivals.length < s'.arrivals.length) := by
  induction m using Nat.strong_induction_on with
  | _ m ih =>
      intro s stage hl hst habsent hm
      have hstop : s.1.stopped = false := (hl.reaches.reaches (.start ..)).stopped
      by_cases hq : s.1.queue.events = []
      · exact ⟨0, s, hl, .refl s, Or.inl hq⟩
      by_cases hcol : s.simulator.Collides
      · exact ⟨0, s, hl, .refl s, Or.inr (Or.inl hcol)⟩
      obtain ⟨ev, rest, hcons⟩ := List.exists_cons_of_ne_nil hq
      obtain ⟨sim, hsim⟩ := turn_returns hpolicy hpools hl.reaches hcol
      obtain ⟨s₁, hrun, hl₁, hcase⟩ := hl.turn hcons hsim
      have hturn := TurnsTo.turn hq hstop hrun
      rcases hcase with ⟨heq, harr⟩ | hmore
      · -- nothing has arrived, and less energy is left
        rcases turn_cases hsim with ⟨hnil, -⟩ | ⟨ev', rest', out, ht⟩
        · exact absurd hnil hq
        obtain ⟨stage₁, hst₁, hmoves⟩ := ht.staged hst (hst.noneQueued hpools)
        have hlt := ht.energy_lt hst hst₁ hmoves habsent
        rw [← heq] at hst₁ hlt
        obtain ⟨n, s', hl', hturns, hend⟩ := ih _ (hm ▸ hlt) hl₁ hst₁
          (fun r hr => (hmoves r).absent_iff.1 (habsent r hr)) rfl
        exact ⟨1 + n, s', hl', hturn.trans hturns, harr ▸ hend⟩
      · exact ⟨1, s₁, hl₁, hturn, Or.inr (Or.inr (by omega))⟩

/-- **The loop ends, collides or makes as many requests as one likes.** -/
theorem Linked.turns (hpolicy : w.policy.Contract)
    (hpools : ∀ id ∈ w.prefillIds, id ∉ w.decodeIds)
    (hl : Linked w src (w.fresh sched nodeConfig tm) s) (k : ℕ) :
    ∃ n s', Linked w src (w.fresh sched nodeConfig tm) s' ∧
      TurnsTo (w.closedHandlers src.chain) n s s' ∧
      (s'.1.queue.events = [] ∨ s'.simulator.Collides ∨
        s.arrivals.length + k ≤ s'.arrivals.length) := by
  induction k with
  | zero => exact ⟨0, s, hl, .refl s, Or.inr (Or.inr (le_refl _))⟩
  | succ k ih =>
      obtain ⟨n, s₁, hl₁, hturns, hend⟩ := ih
      rcases hend with hq | hcol | hmade
      · exact ⟨n, s₁, hl₁, hturns, Or.inl hq⟩
      · exact ⟨n, s₁, hl₁, hturns, Or.inr (Or.inl hcol)⟩
      · obtain ⟨stage, hst⟩ := (hl₁.reaches.reaches (.start ..)).staged_of_disjoint hpools
        obtain ⟨n', s', hl', hturns', hend⟩ := hl₁.next hpolicy hpools _ hst
          (fun r hr => hst.absent_of_notMem hr) rfl
        exact ⟨n + n', s', hl', hturns.trans hturns',
          hend.imp id (Or.imp id fun hmore => by omega)⟩

/-- The loop raises at a collision. -/
theorem Linked.collides (hpolicy : w.policy.Contract)
    (hpools : ∀ id ∈ w.prefillIds, id ∉ w.decodeIds)
    (hl : Linked w src (w.fresh sched nodeConfig tm) s) (hcol : s.simulator.Collides) :
    0 < nodeConfig.cpuBlocks + nodeConfig.diskBlocks ∧ s.1.queue.events ≠ [] ∧
      ∃ msg s', (SimulationEngine.turn (w.closedHandlers src.chain)).run s =
        .error (.runtimeError msg) s' := by
  refine ⟨?_, ?_, ?_⟩
  · by_contra hzero
    exact not_collides hpolicy (by omega) (by omega) hl.reaches hcol
  · obtain ⟨ev, hev, -⟩ := hcol
    exact fun hnil => by rw [show s.simulator.1.queue.events = [] from hnil] at hev; cases hev
  · obtain ⟨ev, hev, -⟩ := id hcol
    obtain ⟨rest, hcons⟩ := List.head?_eq_some_iff.1 hev
    obtain ⟨msg, sim, hraise⟩ := turn_raises hpolicy hpools hl.reaches hcol
    have halike := turn_sim w .collectorLast s.observed s.simulator rfl
    rw [hraise] at halike
    cases hobs : (SimulationEngine.turn (w.observedHandlers .collectorLast)).run s.observed with
    | ok u o =>
        rw [hobs] at halike
        cases halike
    | error e o =>
        rw [hobs] at halike
        cases halike
        exact ⟨msg, _, run_turn_closed_error hcons hobs⟩

/-- A run that has ended: everything is delivered, the metrics reconcile with the run, and what they
count are the requests that have been made. -/
structure Finished (s : Closed ς γ) : Prop where
  delivered : Delivered s.simulator s.simulator
  reconciled : Reconciled s.2.2.1.collector s.1.processed
  total : s.2.2.1.collector.totalArrived = s.arrivals.length

theorem length_arrivals (evs : List (Event Payload)) :
    (idsIn Payload.arrivalId? evs).length = (evs.filter isArrival).length := by
  rw [idsIn, List.length_filterMap_eq_countP, ← List.countP_eq_length_filter]
  refine List.countP_congr fun ev _ => ?_
  rw [isArrival]
  cases ev.payload <;> simp [Payload.arrivalId?, Payload.arrival?]

/-- **Where the loop has ended, the run is finished.** -/
theorem Linked.finished (hpolicy : w.policy.Contract)
    (hpools : ∀ id ∈ w.prefillIds, id ∉ w.decodeIds)
    (hl : Linked w src (w.fresh sched nodeConfig tm) s) (hq : s.1.queue.events = []) :
    Finished s := by
  have hreach := hl.reaches.reaches (.start ..)
  obtain ⟨stage, hst, hlogged⟩ := hreach.logged hpools
  have hevents : s.simulator.1.processed ++ s.simulator.1.queue.events = s.1.processed := by
    rw [show s.simulator.1.queue.events = [] from hq, List.append_nil]
    rfl
  have hrec : Reconciled s.2.2.1.collector s.1.processed := by
    refine hl.collected.reconciled (hevents ▸ hreach.consistent) fun r => ?_
    have hstory := hlogged.story r
    rw [Simulator.log, hevents] at hstory
    exact hstory.ending (hst.isGone hreach.awake hq r) (hst.valid r)
  refine ⟨hl.reaches.delivered hpolicy hpools hq, hrec, ?_⟩
  rw [hrec.totalArrived, length_arrivals, Closed.arrivals, pending, hq, List.filter_nil,
    List.append_nil]
  rfl

/-! ### Whole runs -/

/-- After attaching the source, `n` turns of the loop lead to a state. -/
def ComesTo (w : Wiring ς) (attach chain : Py (SimulationEngine Payload × γ) Unit)
    (start : Closed ς γ) (n : ℕ) (s : Closed ς γ) : Prop :=
  ∃ s₁, (Py.onPart Closed.source Closed.withSource attach).run start = .ok () s₁ ∧
    TurnsTo (w.closedHandlers chain) n s₁ s

/-- **A closed system runs to its end, collides, or goes on making requests.** -/
theorem runClosed_cases (hpolicy : w.policy.Contract)
    (hpools : ∀ id ∈ w.prefillIds, id ∉ w.decodeIds)
    {attach : Py (SimulationEngine Payload × γ) Unit} {gen : γ}
    (h : Makes src.settled attach .init gen) :
    (∃ n s, Linked w src (w.fresh sched nodeConfig tm) s ∧ s.1.queue.events = [] ∧
      ∀ fuel, n < fuel →
        w.runClosed attach src.chain (w.closedStart sched nodeConfig tm gen) fuel =
          .ok s.2.2.1.collector.summary) ∨
    (0 < nodeConfig.cpuBlocks + nodeConfig.diskBlocks ∧ ∃ n msg, ∀ fuel, n < fuel →
      w.runClosed attach src.chain (w.closedStart sched nodeConfig tm gen) fuel =
        .error (.runtimeError msg)) ∨
    ∀ k, ∃ n s, Linked w src (w.fresh sched nodeConfig tm) s ∧
      w.ComesTo attach src.chain (w.closedStart sched nodeConfig tm gen) n s ∧
      k ≤ s.arrivals.length := by
  obtain ⟨s₁, hattach, hl₁⟩ := @Linked.attach _ _ w src _ sched nodeConfig tm _ h
  by_cases hends : ∃ n s', Linked w src (w.fresh sched nodeConfig tm) s' ∧
      TurnsTo (w.closedHandlers src.chain) n s₁ s' ∧
      (s'.1.queue.events = [] ∨ s'.simulator.Collides)
  · obtain ⟨n, s', hl', hturns, hq | hcol⟩ := hends
    · refine Or.inl ⟨n, s', hl', hq, fun fuel hfuel => ?_⟩
      rw [runClosed, Py.run_bind_ok hattach, hturns.run_runLoop hq hfuel]
    · obtain ⟨hslow, hne, msg, s'', hraise⟩ := hl'.collides hpolicy hpools hcol
      refine Or.inr (Or.inl ⟨hslow, n, msg, fun fuel hfuel => ?_⟩)
      have hstop : s'.1.stopped = false := (hl'.reaches.reaches (.start ..)).stopped
      rw [runClosed, Py.run_bind_ok hattach, hturns.run_runLoop_error hne hstop hraise hfuel]
  · refine Or.inr (Or.inr fun k => ?_)
    obtain ⟨n, s', hl', hturns, hend⟩ := hl₁.turns hpolicy hpools k
    rcases hend with hq | hcol | hmade
    · exact absurd ⟨n, s', hl', hturns, Or.inl hq⟩ hends
    · exact absurd ⟨n, s', hl', hturns, Or.inr hcol⟩ hends
    · exact ⟨n, s', hl', ⟨s₁, hattach, hturns⟩, le_of_add_le_right hmade⟩

end Loop

end Wiring

end NanoKVRouter
