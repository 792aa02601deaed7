/-
**What a run of the engine does, whatever its handlers are.**

A handler is an arbitrary program over the calls the engine offers it: it reads the clock and the
state it shares with the other handlers, writes that state, schedules events, stops the engine,
and returns or raises.  Such a program is a tree (`HandlerProgram`), so that the statements below
hold for every set of handlers, and what holds in the middle of a handler can be said at all.

The runs are those of a transition relation whose steps are the single calls.  Beside the engine
its states keep two things: who has the control, and the events whose call of `schedule` returned,
the oldest first.  One invariant, `EngineRun.Ordered`, is kept by every step; the loop of `run`
takes steps of the relation only (`run_runLoop_reaches`), so that it is kept by the loop too.

Main definitions:

* `HandlerProgram`, `HandlerProgram.run` — a handler, and the call it is;
* `EngineRun`, `EngineRun.Step` — an engine in use, and what happens next;
* `EngineRun.Ordered` — the invariant.

Main results:

* `EngineRun.Step.ordered` — every step keeps the invariant;
* `EngineRun.run_runLoop_reaches` — the loop of `run` goes through states of the relation;
* `EngineRun.engine_ordered` — **events are processed in strictly increasing order, and every
  scheduled one is processed or queued, once**.
-/

import NanoKVRouter.SimulationEngine
import Mathlib.Data.List.Nodup
import Mathlib.Logic.Relation

set_option relaxedAutoImplicit false
set_option autoImplicit false

namespace NanoKVRouter

namespace Event

variable {π : Type}

/-- The order of the processed events: by time, then by sequence number, never equal. -/
def before (a b : Event π) : Prop := a.time < b.time ∨ (a.time = b.time ∧ a.seq < b.seq)

instance : DecidableRel (before (π := π)) := fun a b =>
  inferInstanceAs (Decidable (a.time < b.time ∨ (a.time = b.time ∧ a.seq < b.seq)))

theorem before_of_notAfter {a b : Event π} (h : a.notAfter b) (hne : a.seq ≠ b.seq) :
    a.before b := by
  rcases h with h | ⟨h, hs⟩
  · exact Or.inl h
  · exact Or.inr ⟨h, lt_of_le_of_ne hs hne⟩

end Event

/-! ### Handlers -/

/-- A handler that has been called: a tree of the calls it makes, each with what it does after
it.  A call of `schedule` tells it the exception that was raised, if any. -/
inductive HandlerProgram (π σ : Type) : Type
  | done
  | raise (e : PyErr)
  | read (next : Time → σ → HandlerProgram π σ)
  | write (state : σ) (next : HandlerProgram π σ)
  | schedule (ev : Event π) (next : Option PyErr → HandlerProgram π σ)
  | stop (next : HandlerProgram π σ)

namespace HandlerProgram

variable {π σ : Type}

/-- `try: call() except …`: the exception, if the call raised one. -/
def outcome {τ : Type} (call : Py τ Unit) : Py τ (Option PyErr) := fun s =>
  match call s with
  | .ok _ t => .ok none t
  | .error e t => .ok (some e) t

theorem run_outcome_ok {τ : Type} {call : Py τ Unit} {s t : τ} {u : Unit}
    (h : call.run s = .ok u t) : (outcome call).run s = .ok none t := by
  change call s = _ at h
  simp only [outcome, EStateM.run, h]

theorem run_outcome_error {τ : Type} {call : Py τ Unit} {s t : τ} {e : PyErr}
    (h : call.run s = .error e t) : (outcome call).run s = .ok (some e) t := by
  change call s = _ at h
  simp only [outcome, EStateM.run, h]

/-- The call a handler is. -/
def run : HandlerProgram π σ → Py (SimulationEngine π × σ) Unit
  | done => pure ()
  | raise e => Py.raise e
  | read next => do
      let s ← get
      (next s.1.now s.2).run
  | write state next => do
      modify fun s => (s.1, state)
      next.run
  | schedule ev next => do
      let r ← Py.onPart Prod.fst (fun eng s => (eng, s.2)) (outcome (SimulationEngine.schedule ev))
      (next r).run
  | stop next => do
      Py.onPart Prod.fst (fun eng s => (eng, s.2)) SimulationEngine.stop
      next.run

end HandlerProgram

/-! ### Runs -/

/-- The handlers registered for an event, in registration order. -/
abbrev HandlerPrograms (π σ : Type) : Type := Event π → List (Event π → HandlerProgram π σ)

/-- The calls the registered handlers are. -/
def HandlerPrograms.calls {π σ : Type} (handlers : HandlerPrograms π σ) :
    SimulationEngine.Handlers π σ := fun ev => (handlers ev).map fun handler ev => (handler ev).run

/-- Who has the control: the user of the engine, the loop of `run`, or the first of the handlers
that the loop has still to call for the current event. -/
inductive Control (π σ : Type) : Type
  | caller
  | loop
  | handling (programs : List (HandlerProgram π σ))

/-- An engine in use.  `scheduled` is a history variable: the events whose call of `schedule`
returned, as they were pushed, the oldest first. -/
structure EngineRun (π σ : Type) where
  engine : SimulationEngine π
  state : σ
  control : Control π σ
  scheduled : List (Event π)

namespace EngineRun

variable {π σ : Type}

/-- A fresh engine in the hands of its user. -/
def init (state : σ) : EngineRun π σ := ⟨SimulationEngine.init, state, .caller, []⟩

/-- The run in which `ev` has been scheduled. -/
def push (c : EngineRun π σ) (ev : Event π) (h : c.engine.currentTime ≤ ev.time)
    (control : Control π σ) : EngineRun π σ where
  engine := c.engine.push ev h
  state := c.state
  control := control
  scheduled := c.scheduled ++ [{ ev with seq := c.engine.seqCounter }]

/-- The run in which the stop flag has been written. -/
def setStopped (c : EngineRun π σ) (stopped : Bool) (control : Control π σ) : EngineRun π σ :=
  { c with engine := { c.engine with stopped := stopped }, control := control }

/-- What happens next: the user schedules an event, writes the stop flag or calls `run`; the loop
ends or takes the first event; the handler that runs makes its next call, returns or raises. -/
inductive Step (handlers : HandlerPrograms π σ) : EngineRun π σ → EngineRun π σ → Prop
  | schedule {c : EngineRun π σ} {ev : Event π} (hc : c.control = .caller)
      (h : c.engine.currentTime ≤ ev.time) : Step handlers c (c.push ev h .caller)
  | setStopped {c : EngineRun π σ} (b : Bool) (hc : c.control = .caller) :
      Step handlers c (c.setStopped b .caller)
  | run {c : EngineRun π σ} (hc : c.control = .caller) :
      Step handlers c { c with control := .loop }
  | leave {c : EngineRun π σ} (hc : c.control = .loop)
      (h : ¬ (c.engine.queue.events ≠ [] ∧ c.engine.stopped = false)) :
      Step handlers c { c with control := .caller }
  | take {c : EngineRun π σ} {ev : Event π} {rest : List (Event π)} (hc : c.control = .loop)
      (hs : c.engine.stopped = false) (h : c.engine.queue.events = ev :: rest) :
      Step handlers c { c with
        engine := c.engine.advance ev rest h
        control := .handling ((handlers ev).map fun handler => handler ev) }
  | handled {c : EngineRun π σ} (hc : c.control = .handling []) :
      Step handlers c { c with control := .loop }
  | done {c : EngineRun π σ} {ps : List (HandlerProgram π σ)}
      (hc : c.control = .handling (.done :: ps)) :
      Step handlers c { c with control := .handling ps }
  | raise {c : EngineRun π σ} {ps : List (HandlerProgram π σ)} {e : PyErr}
      (hc : c.control = .handling (.raise e :: ps)) :
      Step handlers c { c with control := .caller }
  | read {c : EngineRun π σ} {ps : List (HandlerProgram π σ)} {next}
      (hc : c.control = .handling (.read next :: ps)) :
      Step handlers c { c with control := .handling (next c.engine.now c.state :: ps) }
  | write {c : EngineRun π σ} {ps : List (HandlerProgram π σ)} {state : σ} {next}
      (hc : c.control = .handling (.write state next :: ps)) :
      Step handlers c { c with state := state, control := .handling (next :: ps) }
  | handlerSchedule {c : EngineRun π σ} {ps : List (HandlerProgram π σ)} {ev : Event π} {next}
      (hc : c.control = .handling (.schedule ev next :: ps))
      (h : c.engine.currentTime ≤ ev.time) :
      Step handlers c (c.push ev h (.handling (next none :: ps)))
  | refused {c : EngineRun π σ} {ps : List (HandlerProgram π σ)} {ev : Event π} {next} {e : PyErr}
      (hc : c.control = .handling (.schedule ev next :: ps))
      (h : (SimulationEngine.schedule ev).run c.engine = .error e c.engine) :
      Step handlers c { c with control := .handling (next (some e) :: ps) }
  | handlerStop {c : EngineRun π σ} {ps : List (HandlerProgram π σ)} {next}
      (hc : c.control = .handling (.stop next :: ps)) :
      Step handlers c (c.setStopped true (.handling (next :: ps)))

/-- The run can come from `c` to `c'`. -/
def Reaches (handlers : HandlerPrograms π σ) : EngineRun π σ → EngineRun π σ → Prop :=
  Relation.ReflTransGen (Step handlers)

/-! ### The invariant -/

/-- The processed events and then the queued ones are in strictly increasing order, the clock is
not behind the processed ones, all of them are the scheduled events, and these were numbered as
they came. -/
structure Ordered (c : EngineRun π σ) : Prop where
  ordered : (c.engine.processed ++ c.engine.queue.events).Pairwise Event.before
  reached : ∀ ev ∈ c.engine.processed, ev.time ≤ c.engine.currentTime
  conserved : (c.engine.processed ++ c.engine.queue.events).Perm c.scheduled
  numbered : c.scheduled.map Event.seq = List.range c.scheduled.length
  counter : c.engine.seqCounter = c.scheduled.length

theorem init_ordered (state : σ) : (init state : EngineRun π σ).Ordered where
  ordered := List.Pairwise.nil
  reached := by simp [init, SimulationEngine.init]
  conserved := List.Perm.refl _
  numbered := rfl
  counter := rfl

/-- The sequence numbers handed out so far are below the counter. -/
theorem Ordered.seq_lt {c : EngineRun π σ} (hi : c.Ordered) {ev : Event π}
    (hev : ev ∈ c.engine.processed ++ c.engine.queue.events) :
    ev.seq < c.engine.seqCounter := by
  have hmem : ev.seq ∈ c.scheduled.map Event.seq :=
    List.mem_map_of_mem (hi.conserved.mem_iff.1 hev)
  rw [hi.numbered, List.mem_range] at hmem
  rw [hi.counter]
  exact hmem

/-- A step that leaves the queue, the clock, the counter and the histories as they are keeps the
invariant. -/
theorem Ordered.congr {c c' : EngineRun π σ} (hi : c.Ordered)
    (hq : c'.engine.queue = c.engine.queue) (hp : c'.engine.processed = c.engine.processed)
    (ht : c'.engine.currentTime = c.engine.currentTime)
    (hn : c'.engine.seqCounter = c.engine.seqCounter) (hs : c'.scheduled = c.scheduled) :
    c'.Ordered where
  ordered := by rw [hq, hp]; exact hi.ordered
  reached := by rw [hp, ht]; exact hi.reached
  conserved := by rw [hq, hp, hs]; exact hi.conserved
  numbered := by rw [hs]; exact hi.numbered
  counter := by rw [hn, hs]; exact hi.counter

/-- Scheduling keeps the invariant: the event comes after every processed one, because it is not
in the past, and its number is a new one. -/
theorem Ordered.push {c : EngineRun π σ} (hi : c.Ordered) (ev : Event π)
    (h : c.engine.currentTime ≤ ev.time) (control : Control π σ) :
    (c.push ev h control).Ordered where
  ordered := by
    change (c.engine.processed ++ (c.engine.queue.heappush _).events).Pairwise Event.before
    obtain ⟨hproc, -, hcross⟩ := List.pairwise_append.1 hi.ordered
    refine List.pairwise_append.2 ⟨hproc, ?_, ?_⟩
    · -- the queue is in order, and its numbers are distinct
      have hnodup : ((c.engine.queue.heappush
          { ev with seq := c.engine.seqCounter }).events.map Event.seq).Nodup := by
        rw [((EventQueue.heappush_perm _ _).map Event.seq).nodup_iff, List.map_cons,
          List.nodup_cons]
        constructor
        · intro hmem
          obtain ⟨a, ha, heq⟩ := List.mem_map.1 hmem
          have hlt := hi.seq_lt (List.mem_append_right _ ha)
          change a.seq = c.engine.seqCounter at heq
          omega
        · have hrange := List.nodup_range (n := c.scheduled.length)
          rw [← hi.numbered, ← (hi.conserved.map Event.seq).nodup_iff, List.map_append] at hrange
          exact (List.nodup_append.1 hrange).2.1
      exact ((c.engine.queue.heappush _).sorted.and (List.pairwise_map.1 hnodup)).imp
        fun hab => Event.before_of_notAfter hab.1 hab.2
    · intro a ha b hb
      rcases EventQueue.mem_heappush.1 hb with rfl | hb
      · have hlt := hi.seq_lt (List.mem_append_left _ ha)
        exact Event.before_of_notAfter
          (a := a) (b := { ev with seq := c.engine.seqCounter })
          (by
            rcases lt_or_eq_of_le ((hi.reached a ha).trans h) with hlt' | heq
            · exact Or.inl hlt'
            · exact Or.inr ⟨heq, hlt.le⟩) hlt.ne
      · exact hcross a ha b hb
  reached := hi.reached
  conserved := by
    change (c.engine.processed ++ (c.engine.queue.heappush _).events).Perm
      (c.scheduled ++ [{ ev with seq := c.engine.seqCounter }])
    refine ((EventQueue.heappush_perm _ _).append_left _).trans ?_
    refine List.perm_middle.trans ?_
    exact (List.Perm.cons _ hi.conserved).trans (List.perm_append_singleton _ _).symm
  numbered := by
    change (c.scheduled ++ [{ ev with seq := c.engine.seqCounter }]).map Event.seq =
      List.range (c.scheduled ++ [{ ev with seq := c.engine.seqCounter }]).length
    rw [List.map_append, hi.numbered, List.length_append, List.length_singleton, List.range_succ,
      ← hi.counter]
    rfl
  counter := by
    change c.engine.seqCounter + 1 =
      (c.scheduled ++ [{ ev with seq := c.engine.seqCounter }]).length
    rw [List.length_append, List.length_singleton, hi.counter]

/-- Taking the first event keeps the invariant: it moves from the head of the queue to the end of
the processed events. -/
theorem Ordered.take {c : EngineRun π σ} (hi : c.Ordered) {ev : Event π} {rest : List (Event π)}
    (h : c.engine.queue.events = ev :: rest) (control : Control π σ) :
    ({ c with engine := c.engine.advance ev rest h, control := control } :
      EngineRun π σ).Ordered := by
  have hsame : c.engine.processed ++ [ev] ++ rest =
      c.engine.processed ++ c.engine.queue.events := by
    rw [h, List.append_assoc]
    rfl
  refine ⟨?_, ?_, ?_, hi.numbered, hi.counter⟩
  · change (c.engine.processed ++ [ev] ++ rest).Pairwise Event.before
    rw [hsame]
    exact hi.ordered
  · intro a ha
    rcases List.mem_append.1 ha with ha | ha
    · exact (hi.reached a ha).trans (c.engine.timely ev (h ▸ List.mem_cons_self))
    · rw [List.mem_singleton.1 ha]
      exact le_rfl
  · change (c.engine.processed ++ [ev] ++ rest).Perm c.scheduled
    rw [hsame]
    exact hi.conserved

/-- **Every step keeps the invariant.** -/
theorem Step.ordered {handlers : HandlerPrograms π σ} {c c' : EngineRun π σ}
    (h : Step handlers c c') (hi : c.Ordered) : c'.Ordered := by
  cases h with
  | schedule _ hle => exact hi.push _ hle _
  | handlerSchedule _ hle => exact hi.push _ hle _
  | take _ _ hq => exact hi.take hq _
  | _ => exact hi.congr rfl rfl rfl rfl rfl

/-- **No step moves the clock back**, and none takes a scheduled or a processed event back. -/
theorem Step.now_le {handlers : HandlerPrograms π σ} {c c' : EngineRun π σ}
    (h : Step handlers c c') : c.engine.now ≤ c'.engine.now := by
  cases h with
  | take _ _ hq => exact c.engine.timely _ (hq ▸ List.mem_cons_self)
  | _ => exact le_rfl

theorem Step.history {handlers : HandlerPrograms π σ} {c c' : EngineRun π σ}
    (h : Step handlers c c') :
    c.scheduled <+: c'.scheduled ∧ c.engine.processed <+: c'.engine.processed := by
  cases h with
  | schedule _ _ => exact ⟨List.prefix_append _ _, List.prefix_rfl⟩
  | handlerSchedule _ _ => exact ⟨List.prefix_append _ _, List.prefix_rfl⟩
  | take _ _ _ => exact ⟨List.prefix_rfl, List.prefix_append _ _⟩
  | _ => exact ⟨List.prefix_rfl, List.prefix_rfl⟩

theorem Reaches.ordered {handlers : HandlerPrograms π σ} {c c' : EngineRun π σ}
    (h : Reaches handlers c c') (hi : c.Ordered) : c'.Ordered := by
  induction h with
  | refl => exact hi
  | tail _ hstep ih => exact hstep.ordered ih

theorem Reaches.now_le {handlers : HandlerPrograms π σ} {c c' : EngineRun π σ}
    (h : Reaches handlers c c') : c.engine.now ≤ c'.engine.now := by
  induction h with
  | refl => exact le_rfl
  | tail _ hstep ih => exact ih.trans hstep.now_le

theorem Reaches.history {handlers : HandlerPrograms π σ} {c c' : EngineRun π σ}
    (h : Reaches handlers c c') :
    c.scheduled <+: c'.scheduled ∧ c.engine.processed <+: c'.engine.processed := by
  induction h with
  | refl => exact ⟨List.prefix_rfl, List.prefix_rfl⟩
  | tail _ hstep ih =>
      exact ⟨ih.1.trans hstep.history.1, ih.2.trans hstep.history.2⟩

/-! ### The loop of `run` takes steps -/

/-- `r` is what a call left of the engine and the state of the run: on a return the control is at
`next`, and on an exception, which leaves `run`, at the user. -/
def LeftBy (c : EngineRun π σ) (next : Control π σ)
    (r : EStateM.Result PyErr (SimulationEngine π × σ) Unit) : Prop :=
  match r with
  | .ok _ s => c.engine = s.1 ∧ c.state = s.2 ∧ c.control = next
  | .error _ s => c.engine = s.1 ∧ c.state = s.2 ∧ c.control = .caller

/-- A handler that runs gets to its end, or to the exception it raises. -/
theorem program_reaches (handlers : HandlerPrograms π σ) (program : HandlerProgram π σ)
    (ps : List (HandlerProgram π σ)) :
    ∀ c : EngineRun π σ, c.control = .handling (program :: ps) →
      ∃ c', Reaches handlers c c' ∧
        c'.LeftBy (.handling ps) (program.run.run (c.engine, c.state)) := by
  induction program with
  | done => exact fun c hc => ⟨_, .single (.done hc), rfl, rfl, rfl⟩
  | raise e => exact fun c hc => ⟨_, .single (.raise hc), rfl, rfl, rfl⟩
  | read next ih =>
      intro c hc
      obtain ⟨c', hreach, hleft⟩ := ih c.engine.now c.state
        { c with control := .handling (next c.engine.now c.state :: ps) } rfl
      exact ⟨c', .head (.read hc) hreach, hleft⟩
  | write state next ih =>
      intro c hc
      obtain ⟨c', hreach, hleft⟩ := ih
        { c with state := state, control := .handling (next :: ps) } rfl
      exact ⟨c', .head (.write hc) hreach, hleft⟩
  | stop next ih =>
      intro c hc
      obtain ⟨c', hreach, hleft⟩ := ih (c.setStopped true (.handling (next :: ps))) rfl
      exact ⟨c', .head (.handlerStop hc) hreach, hleft⟩
  | schedule ev next ih =>
      intro c hc
      by_cases h : ev.time < c.engine.currentTime
      · -- the call raises, and the handler is told
        have herror := SimulationEngine.run_schedule_error h
        have hrun : (HandlerProgram.schedule ev next).run.run (c.engine, c.state) =
            (next (some _)).run.run (c.engine, c.state) :=
          Py.run_bind_ok (Py.run_onPart_ok (HandlerProgram.run_outcome_error herror))
        obtain ⟨c', hreach, hleft⟩ := ih (some _)
          { c with control := .handling (next (some _) :: ps) } rfl
        refine ⟨c', .head (.refused hc herror) hreach, ?_⟩
        rw [hrun]
        exact hleft
      · have hle := not_lt.1 h
        have hok : (SimulationEngine.schedule ev).run c.engine =
            .ok () (c.engine.push ev hle) := SimulationEngine.run_schedule_ok_iff.2 ⟨hle, rfl⟩
        have hrun : (HandlerProgram.schedule ev next).run.run (c.engine, c.state) =
            (next none).run.run (c.engine.push ev hle, c.state) :=
          Py.run_bind_ok (Py.run_onPart_ok (HandlerProgram.run_outcome_ok hok))
        obtain ⟨c', hreach, hleft⟩ := ih none (c.push ev hle (.handling (next none :: ps))) rfl
        refine ⟨c', .head (.handlerSchedule hc hle) hreach, ?_⟩
        rw [hrun]
        exact hleft

/-- The handlers of one event are called one after the other, up to the first that raises. -/
theorem forM_reaches (handlers : HandlerPrograms π σ) (ev : Event π)
    (registered : List (Event π → HandlerProgram π σ)) :
    ∀ c : EngineRun π σ, c.control = .handling (registered.map fun handler => handler ev) →
      ∃ c', Reaches handlers c c' ∧ c'.LeftBy .loop
        (((registered.map fun (handler : Event π → HandlerProgram π σ) ev => (handler ev).run).forM
          fun (handler : Event π → Py (SimulationEngine π × σ) Unit) => handler ev).run
            (c.engine, c.state)) := by
  induction registered with
  | nil => exact fun c hc => ⟨_, .single (.handled hc), rfl, rfl, rfl⟩
  | cons handler registered ih =>
      intro c hc
      obtain ⟨c₁, hreach, hleft⟩ := program_reaches handlers _ _ c hc
      rw [List.map_cons, Py.run_forM_cons]
      cases hrun : (handler ev).run.run (c.engine, c.state) with
      | error e s =>
          rw [hrun] at hleft
          rw [Py.run_bind_error hrun]
          exact ⟨c₁, hreach, hleft⟩
      | ok u s =>
          rw [hrun] at hleft
          obtain ⟨rfl, rfl⟩ : s = (c₁.engine, c₁.state) ∧ u = () :=
            ⟨Prod.ext hleft.1.symm hleft.2.1.symm, rfl⟩
          obtain ⟨c', hreach', hleft'⟩ := ih c₁ hleft.2.2
          rw [Py.run_bind_ok hrun]
          exact ⟨c', hreach.trans hreach', hleft'⟩

/-- A turn of the loop. -/
theorem turn_reaches (handlers : HandlerPrograms π σ) {c : EngineRun π σ}
    (hc : c.control = .loop) (hq : c.engine.queue.events ≠ []) (hs : c.engine.stopped = false) :
    ∃ c', Reaches handlers c c' ∧ c'.LeftBy .loop
      ((SimulationEngine.turn handlers.calls).run (c.engine, c.state)) := by
  obtain ⟨ev, rest, h⟩ := List.exists_cons_of_ne_nil hq
  obtain ⟨c', hreach, hleft⟩ := forM_reaches handlers ev (handlers ev)
    { c with
      engine := c.engine.advance ev rest h
      control := .handling ((handlers ev).map fun handler => handler ev) } rfl
  refine ⟨c', .head (.take hc hs h) hreach, ?_⟩
  rw [SimulationEngine.run_turn_cons handlers.calls (s := (c.engine, c.state)) h]
  exact hleft

/-- **The loop of `run` goes through states of the relation**: whatever it leaves, also when it is
cut off after a number of turns, ended by `stop` or by an exception, the run gets there. -/
theorem run_runLoop_reaches (handlers : HandlerPrograms π σ) (fuel : ℕ) :
    ∀ c : EngineRun π σ, c.control = .loop →
      ∃ c', Reaches handlers c c' ∧ (c'.engine, c'.state) =
        ((SimulationEngine.runLoop handlers.calls fuel).run (c.engine, c.state)).state := by
  induction fuel with
  | zero => exact fun c _ => ⟨c, .refl, rfl⟩
  | succ fuel ih =>
      intro c hc
      by_cases h : c.engine.queue.events ≠ [] ∧ c.engine.stopped = false
      · obtain ⟨c₁, hreach, hleft⟩ := turn_reaches handlers hc h.1 h.2
        rw [SimulationEngine.run_runLoop_succ handlers.calls fuel (s := (c.engine, c.state)) h.1 h.2]
        cases hrun : (SimulationEngine.turn handlers.calls).run (c.engine, c.state) with
        | error e s =>
            rw [hrun] at hleft
            rw [Py.run_bind_error hrun]
            exact ⟨c₁, hreach, Prod.ext hleft.1 hleft.2.1⟩
        | ok u s =>
            rw [hrun] at hleft
            obtain rfl : s = (c₁.engine, c₁.state) := Prod.ext hleft.1.symm hleft.2.1.symm
            obtain ⟨c', hreach', hstate⟩ := ih c₁ hleft.2.2
            rw [Py.run_bind_ok hrun]
            exact ⟨c', hreach.trans hreach', hstate⟩
      · refine ⟨_, .single (.leave hc h), ?_⟩
        rw [SimulationEngine.runLoop, Py.run_get_bind, if_neg h]
        rfl

/-! ### Order and conservation -/

/-- **The events of an engine are processed in strictly increasing order of time and sequence
number, and the scheduled ones are conserved.**  In every state of every run, whatever the
handlers do: the sequence numbers are those of the order of scheduling; every scheduled event has
been processed once or is in the queue once; from there on the clock never goes back and nothing
is taken back; and where `run` has the control, the states its loop leaves are such states. -/
theorem engine_ordered (handlers : HandlerPrograms π σ) (state : σ) {c : EngineRun π σ}
    (h : Reaches handlers (init state) c) :
    c.engine.processed.Pairwise Event.before ∧
      c.scheduled.map Event.seq = List.range c.scheduled.length ∧
      (c.engine.processed ++ c.engine.queue.events).Nodup ∧
      (c.engine.processed ++ c.engine.queue.events).Perm c.scheduled ∧
      (∀ c', Reaches handlers c c' → c.engine.now ≤ c'.engine.now ∧
        c.scheduled <+: c'.scheduled ∧ c.engine.processed <+: c'.engine.processed) ∧
      (c.control = .loop → ∀ fuel, ∃ c', Reaches handlers c c' ∧ (c'.engine, c'.state) =
        ((SimulationEngine.runLoop handlers.calls fuel).run (c.engine, c.state)).state) := by
  have hi := h.ordered (init_ordered state)
  refine ⟨(List.pairwise_append.1 hi.ordered).1, hi.numbered, ?_, hi.conserved, ?_, ?_⟩
  · exact hi.ordered.imp fun {a b} hab => by
      rintro rfl
      rcases hab with hab | ⟨-, hab⟩
      · exact lt_irrefl _ hab
      · exact lt_irrefl _ hab
  · exact fun c' hreach => ⟨hreach.now_le, hreach.history⟩
  · exact fun hc fuel => run_runLoop_reaches handlers fuel c hc

/-- Two events of one time are scheduled, both with a number of the caller's choice; the handler
of the first schedules a third at the same time and stops the engine. -/
theorem engine_ordered_tie :
    let handlers : HandlerPrograms ℕ Unit := fun ev =>
      if ev.payload = 0 then [fun ev =>
        .schedule { time := ev.time, seq := 9, payload := 2 } fun _ => .stop .done] else []
    ∃ c : EngineRun ℕ Unit, Reaches handlers (init ()) c ∧
      c.engine.processed.map Event.payload = [0] ∧
      c.engine.queue.events.map Event.payload = [1, 2] ∧
      c.scheduled.map Event.seq = [0, 1, 2] ∧ c.control = .caller ∧
      c.engine.processed.Pairwise Event.before ∧
      (c.engine.processed ++ c.engine.queue.events).Perm c.scheduled := by
  intro handlers
  have hreach : Reaches handlers (init ()) _ :=
    .head (@Step.schedule _ _ _ _ { time := 1, seq := 7, payload := 0 } rfl (by decide))
      (.head (@Step.schedule _ _ _ _ { time := 1, seq := 3, payload := 1 } rfl (by decide +kernel))
        (.head (.run rfl)
          (.head (.take rfl rfl rfl)
            (.head (.handlerSchedule rfl le_rfl)
              (.head (.handlerStop rfl)
                (.head (.done rfl)
                  (.head (.handled rfl) (.single (.leave rfl fun h => by cases h.2)))))))))
  obtain ⟨hordered, -, -, hperm, -, -⟩ := engine_ordered handlers () hreach
  exact ⟨_, hreach, by decide +kernel, by decide +kernel, by decide +kernel, rfl, hordered, hperm⟩

end EngineRun

end NanoKVRouter
