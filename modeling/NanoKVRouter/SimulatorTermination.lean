/-
**The simulation ends.**

Handlers schedule new events, batch steps schedule their successors, and simulated time need not
advance.  What every event does use up is the potential of the requests: a turn takes one event from
the queue, and every event that it schedules is paid for by a request that moves on.

Main definitions:

* `Simulator.energy` — what the requests and the queue can still cause.

Main results:

* `Handles.steps_paid` — a batch step is scheduled only when some request moves;
* `Wiring.TurnOf.energy_lt` — **every turn uses up energy**;
* `Wiring.run_terminates` — **with disjoint pools, the loop of `run` handles finitely many events,
  from every state that is reached**.
-/

import NanoKVRouter.SimulatorLives
import NanoKVRouter.SimulatorOverlap
import Mathlib.Algebra.BigOperators.Group.Finset.Piecewise
import Mathlib.Algebra.Order.BigOperators.Group.Finset

set_option relaxedAutoImplicit false
set_option autoImplicit false

namespace NanoKVRouter

open Finset

/-! ### Batch steps are paid for -/

/-- The events that are about no request: the batch steps. -/
def unowned (out : List (Time × Payload)) : List (Time × Payload) :=
  out.filter fun e => e.2.owner = none

section Unowned

variable {out out' : List (Time × Payload)}

theorem unowned_append : unowned (out ++ out') = unowned out ++ unowned out' :=
  List.filter_append ..

theorem unowned_eq_nil (h : ∀ e ∈ out, e.2.owner ≠ none) : unowned out = [] :=
  List.filter_eq_nil_iff.2 fun e he => by simpa using h e he

theorem length_unowned_wakeEvents (b : Bookkeeping) (id : NodeId) (t : Time) :
    (unowned (b.wakeEvents id t)).length ≤ 1 := by
  refine (List.length_filter_le _ _).trans ?_
  rcases b.wake_cases id t with ⟨hev, -⟩ | ⟨n, -, -, -, hev, -⟩
  · rw [hev]
    exact Nat.zero_le 1
  · rw [hev]
    exact le_refl 1

/-- The events are those about the requests of a set that owns them, and the batch steps. -/
theorem length_eq_sum_own {ids : Finset RequestId}
    (h : ∀ e ∈ out, ∀ r, e.2.owner = some r → r ∈ ids) :
    out.length = ∑ r ∈ ids, (own r out).length + (unowned out).length := by
  induction out with
  | nil => simp [unowned]
  | cons e out ih =>
      have hih := ih fun e' he' => h e' (List.mem_cons_of_mem _ he')
      cases ho : e.2.owner with
      | none =>
          have hun : unowned (e :: out) = e :: unowned out := by simp [unowned, ho]
          have hown : ∀ r, own r (e :: out) = own r out := fun r =>
            own_cons_of_ne (by rw [ho]; exact fun h => by cases h)
          simp only [hun, hown, List.length_cons, hih, Nat.add_assoc]
      | some q =>
          have hun : unowned (e :: out) = unowned out := by simp [unowned, ho]
          have hq : q ∈ ids := h e (List.mem_cons_self ..) q ho
          have hown : ∀ r, (own r (e :: out)).length =
              (own r out).length + if r = q then 1 else 0 := by
            intro r
            by_cases hr : r = q
            · rw [hr, own_cons_self ho, List.length_cons, if_pos rfl]
            · rw [own_cons_of_ne (by rw [ho, ne_eq, Option.some_inj]; exact fun h => hr h.symm),
                if_neg hr, Nat.add_zero]
          simp only [hown, sum_add_distrib, sum_ite_eq', if_pos hq, hun, List.length_cons, hih]
          omega

end Unowned

section Paid

variable {ς : Type} {w : Wiring ς} {now : Time} {u : ℤ} {b b' : Bookkeeping} {p : Payload}
  {out : List (Time × Payload)} {stage stage' : RequestId → Stage}

/-- The request has moved on, and has paid for its events and for one more. -/
def Paid (out : List (Time × Payload)) (r : RequestId) (st st' : Stage) : Prop :=
  st'.potential + (own r out).length < st.potential

/-- A request that is carried by the handled event has paid. -/
theorem Stage.Moves.paid_of_carries {r : RequestId} {st st' : Stage}
    (h : Stage.Moves now p out r st st') (hp : p.Carries r) : Paid out r st st' :=
  h.potential_lt.resolve_left fun h => h.2.2 hp

/-- A request that has events scheduled has paid. -/
theorem Stage.Moves.paid_of_mem {r : RequestId} {st st' : Stage} (h : Stage.Moves now p out r st st')
    {e : Time × Payload} (he : e ∈ out) (ho : e.2.owner = some r) : Paid out r st st' := by
  refine h.potential_lt.resolve_left fun h => ?_
  have hmem : e ∈ own r out := List.mem_filter.2 ⟨he, by simpa using ho⟩
  rw [h.2.1] at hmem
  cases hmem

/-- A request that is in another stage has paid. -/
theorem Stage.Moves.paid_of_ne {r : RequestId} {st st' : Stage} (h : Stage.Moves now p out r st st')
    (hne : st' ≠ st) : Paid out r st st' :=
  h.potential_lt.resolve_left fun h => hne h.1

/-- The batch step of a node with work moves some request. -/
theorem paid_stepRun {id : NodeId} {n n' : MockEngineNode} {T : Time}
    {completed streams : List RequestId} {pf : Option RequestId}
    (hn : b.nodes.get? id = some n) (hwork : n.hasWork = true)
    (hop : (MockEngineNode.tickBatchStep now).run { n with batchStepInFlight := false } =
      .ok (T, completed, pf) n')
    (hmem : ∀ r, r ∈ streams ↔ r ∈ n'.decoding ∨ r ∈ completed)
    (htok : ∀ e ∈ tokenEvents n' T streams, e ∈ out) (hn' : b'.nodeView id = n'.viewOf)
    (hkept : ∀ r, Kept b r (stage r)) (hkept' : ∀ r, Kept b' r (stage' r))
    (hmoves : ∀ r, Stage.Moves now p out r (stage r) (stage' r)) :
    ∃ r, Paid out r (stage r) (stage' r) := by
  have ht := (MockEngineNode.ticked_of_run hop).2
  rcases hasWork_eq_true_iff.1 hwork with ⟨r, hr⟩ | hpipe
  · -- a stream gets a token
    have hstream : r ∈ streams := by
      rw [hmem, ht.decoding r]
      by_cases hc : r ∈ completed
      · exact Or.inr hc
      · exact Or.inl ⟨hr, hc⟩
    have htoken : (T, Payload.tokenGenerated r (n'.outputTokens.getD r 0 - 1)) ∈ out :=
      htok _ (List.mem_map.2 ⟨r, hstream, rfl⟩)
    exact ⟨r, (hmoves r).paid_of_mem htoken rfl⟩
  · -- the oldest prefill advances, as a chunk is not empty
    obtain ⟨q, v, rest, hent, -, hif⟩ := ht.pipeline.resolve_left fun h => hpipe h.1
    refine ⟨q, (hmoves q).paid_of_ne fun hst => ?_⟩
    have hold : n.prefillRemaining.get? q = some v :=
      PyDict.get?_eq_some_iff.2 (hent ▸ List.mem_cons_self ..)
    have hview : n'.viewOf q = n.viewOf q := by
      rw [(hkept q).viewOf hn, ← hst, ← (hkept' q).node id, hn']
    have hsame : n'.prefillRemaining.get? q = some v :=
      (congrArg NodeView.pipeline hview).trans hold
    have hchunk := n.modelConfig.one_le_prefillChunkSize
    split at hif
    · rw [hif.2, PyDict.get?_erase_self] at hsame
      cases hsame
    · rw [hif.2, PyDict.get?_set_self, Option.some_inj] at hsame
      change v - (n.modelConfig.prefillChunkSize : ℤ) = v at hsame
      omega

/-- **At most one batch step is scheduled, and only when some request has moved.** -/
theorem Handles.steps_paid (h : Handles w now u b p out b') (hkept : ∀ r, Kept b r (stage r))
    (hkept' : ∀ r, Kept b' r (stage' r))
    (hmoves : ∀ r, Stage.Moves now p out r (stage r) (stage' r)) :
    unowned out = [] ∨
      ((unowned out).length ≤ 1 ∧ ∃ r, Paid out r (stage r) (stage' r)) := by
  have hcarried : ∀ r (b₁ : Bookkeeping) id, p.Carries r → out = b₁.wakeEvents id now →
      unowned out = [] ∨ ((unowned out).length ≤ 1 ∧ ∃ r, Paid out r (stage r) (stage' r)) := by
    intro r b₁ id hp hout
    rw [hout]
    exact Or.inr ⟨length_unowned_wakeEvents b₁ id now, r, hout ▸ (hmoves r).paid_of_carries hp⟩
  cases h with
  | startPipeline hp hn hu hlen hop => exact hcarried _ _ _ ⟨rfl, rfl⟩ rfl
  | transferAccepted hinfo ha hd hn hroom hadm hop hb => exact hcarried _ _ _ ⟨rfl, rfl⟩ rfl
  | decodeFinished hd hn hop hb => exact hcarried _ _ _ ⟨rfl, rfl⟩ rfl
  | @stepRun id n n' T completed streams pf b₁ hn hwork hop hnd hmem hout hb =>
      right
      constructor
      · have hpf : unowned (prefillEvents b id T pf) = [] := unowned_eq_nil fun e he => by
          obtain ⟨r, req, -, -, rfl⟩ := mem_prefillEvents he
          exact fun h => by cases h
        have htok : unowned (tokenEvents n' T streams) = [] := unowned_eq_nil fun e he => by
          obtain ⟨r, -, rfl⟩ := List.mem_map.1 he
          exact fun h => by cases h
        have hcomp : unowned (completionEvents id T completed) = [] := unowned_eq_nil fun e he => by
          obtain ⟨r, -, rfl⟩ := List.mem_map.1 he
          exact fun h => by cases h
        rw [unowned_append, unowned_append, unowned_append, hpf, htok, hcomp]
        exact length_unowned_wakeEvents b₁ id T
      · refine paid_stepRun hn hwork hop hmem (fun e he => ?_) (funext fun r => ?_) hkept hkept' hmoves
        · exact List.mem_append_right _ (List.mem_append_left _ he)
        · rw [Bookkeeping.nodeView_wake, hb]
          exact Bookkeeping.nodeView_setNode_self
  | prefillFinished hp hn ha hop hpr hbase ht =>
      left
      refine unowned_eq_nil fun e he => ?_
      rcases List.mem_append.1 he with he | he
      · obtain ⟨q, req, k, rfl, -⟩ := hpr.mem_events he
        exact fun h => by cases h
      · rcases List.mem_pair.1 he with rfl | rfl
        · exact fun h => by cases h
        · exact fun h => by cases h
  | @arriveAdmitted req pn d dec mt mb v running n n' started hp hn hv hop hstarted =>
      left
      cases running with
      | true =>
          obtain ⟨k, rfl⟩ := hstarted
          rfl
      | false =>
          obtain rfl := hstarted
          rfl
  | _ => exact Or.inl rfl

end Paid

/-! ### The energy of a state -/

/-- What the requests of a set and the queue can still cause. -/
def Simulator.energy {ς : Type} (s : Simulator ς) (ids : Finset RequestId)
    (stage : RequestId → Stage) : ℕ :=
  ∑ r ∈ ids, (stage r).potential + s.1.queue.events.length

/-- The requests that have been scheduled to arrive. -/
def Simulator.requestIds {ς : Type} (s : Simulator ς) : Finset RequestId :=
  ((s.1.queue.events ++ s.1.processed).filterMap fun ev =>
    ev.payload.arrival?.map Request.requestId).toFinset

section Energy

variable {ς : Type} {w : Wiring ς} {s s' : Simulator ς} {stage stage' : RequestId → Stage}
  {ids : Finset RequestId}

/-- Every other request is absent. -/
theorem Staged.absent_of_notMem (h : Staged w s stage) {r : RequestId} (hr : r ∉ s.requestIds) :
    stage r = .absent := by
  refine h.absent fun ev hev req hreq hid => hr ?_
  rw [Simulator.requestIds, List.mem_toFinset, List.mem_filterMap]
  exact ⟨ev, hev, by rw [hreq, Option.map_some, hid]⟩

namespace Wiring

/-- **Every turn uses up energy.** -/
theorem TurnOf.energy_lt {ev : Event Payload} {rest : List (Event Payload)}
    {out : List (Time × Payload)} (ht : TurnOf w s ev rest out s') (h : Staged w s stage)
    (h' : Staged w s' stage')
    (hmoves : ∀ r, Stage.Moves ev.time ev.payload out r (stage r) (stage' r))
    (hids : ∀ r, r ∉ ids → stage r = .absent) : s'.energy ids stage' < s.energy ids stage := by
  have hmem : ∀ r, Paid out r (stage r) (stage' r) → r ∈ ids := by
    intro r hr
    by_contra hnot
    rw [Paid, hids r hnot] at hr
    exact Nat.not_lt_zero _ hr
  have hlen := length_eq_sum_own fun e he r ho => hmem r ((hmoves r).paid_of_mem he ho)
  have hle : ∀ r ∈ ids, (stage' r).potential + (own r out).length ≤ (stage r).potential := by
    intro r _
    rcases (hmoves r).potential_lt with ⟨hst, hown, -⟩ | hlt
    · rw [hst, hown]
      exact le_refl _
    · exact hlt.le
  have hpaid : ∑ r ∈ ids, ((stage' r).potential + (own r out).length) + (unowned out).length ≤
      ∑ r ∈ ids, (stage r).potential := by
    rcases ht.handles.steps_paid h.kept h'.kept hmoves with hnil | ⟨hone, r, hr⟩
    · rw [hnil]
      exact sum_le_sum hle
    · have hlt := sum_lt_sum hle ⟨r, hmem r hr, hr⟩
      omega
  have hqueue : s.1.queue.events.length = rest.length + 1 := by rw [ht.events]; rfl
  have hqueue' := ht.pushes.length_eq
  rw [SimulationEngine.advance_events] at hqueue'
  rw [sum_add_distrib] at hpaid
  rw [Simulator.energy, Simulator.energy]
  omega

theorem Reaches.stopped {meets : Simulator ς → Action → Prop} (h : w.Reaches meets s) :
    s.1.stopped = false := by
  refine h.invariant (I := fun s => s.1.stopped = false) (fun _ _ _ => rfl) ?_ ?_
  · exact fun s s' t req _ hs _ hpush _ => hpush.stopped_eq.trans hs
  · exact fun s s' ev rest out _ hs _ ht => ht.pushes.stopped_eq.trans hs

/-- **The simulation ends**: with disjoint pools and distinct request ids, the loop of `run` handles
finitely many events from every state that is reached, whatever fuel it is given beyond that number;
then the event queue is empty, or a handler raises. -/
theorem run_terminates (hpools : ∀ id ∈ w.prefillIds, id ∉ w.decodeIds)
    (h : w.Reaches DistinctArrivals s) :
    ∃ n, SimulationEngine.EndsAfter w.handlers n s ∧ ∀ fuel, n < fuel →
      (SimulationEngine.runLoop w.handlers fuel).run s =
        (SimulationEngine.runLoop w.handlers (n + 1)).run s := by
  obtain ⟨stage, hstage⟩ := h.staged (fun _ _ _ hm => hm) fun _ _ hs _ => hs.noneQueued hpools
  -- the measure is the energy of the requests that have arrived in `s`
  let P : ℕ → Simulator ς → Prop := fun m s' => s'.1.stopped = false ∧ ∃ stage', Staged w s' stage' ∧
    (∀ r, r ∉ s.requestIds → stage' r = .absent) ∧ s'.energy s.requestIds stage' = m
  have hturn : ∀ m s₁ s₂, P m s₁ → s₁.1.queue.events ≠ [] →
      (SimulationEngine.turn w.handlers).run s₁ = .ok () s₂ → ∃ m', m' < m ∧ P m' s₂ := by
    rintro m s₁ s₂ ⟨hstop, stage₁, hstage₁, habsent, rfl⟩ hq hrun
    rcases turn_cases hrun with ⟨hnil, -⟩ | ⟨ev, rest, out, ht⟩
    · exact absurd hnil hq
    · obtain ⟨stage₂, hstage₂, hmoves⟩ := ht.staged hstage₁ (hstage₁.noneQueued hpools)
      refine ⟨_, ht.energy_lt hstage₁ hstage₂ hmoves habsent, ht.pushes.stopped_eq.trans hstop,
        stage₂, hstage₂, fun r hr => ?_, rfl⟩
      exact (hmoves r).absent_iff.1 (habsent r hr)
  obtain ⟨n, -, hends⟩ := SimulationEngine.endsAfter_of_measure (P := P) (fun _ _ hP => hP.1) hturn
    ⟨h.stopped, stage, hstage, fun r hr => hstage.absent_of_notMem hr, rfl⟩
  exact ⟨n, hends, hends.run_runLoop⟩

theorem run_terminates_twoArrivals : ∃ n, SimulationEngine.EndsAfter split.handlers n
    (split.after (twoArrivals.take 2)) := by
  have hm : split.Meets DistinctArrivals (twoArrivals.take 2) split.initial := by decide +kernel
  have hok : ((split.execute (twoArrivals.take 2)).run split.initial).isOk = true := by
    decide +kernel
  have hpools : ∀ id ∈ split.prefillIds, id ∉ split.decodeIds := by decide +kernel
  exact (run_terminates hpools (reaches_after _ hm hok)).imp fun _ h => h.1

end Wiring

end Energy

end NanoKVRouter
