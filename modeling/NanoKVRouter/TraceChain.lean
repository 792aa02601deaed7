/-
**The chain of a replay among other handlers.**

The handlers of an event are called one after the other, and the chain is one of those of an arrival.
The others may do anything but schedule arrivals and touch the generator.  A run of the engine with
them goes call by call.

An invariant of the chain (`ChainInvariant`) says what holds of the engine and the generator between
the events, and what holds from the start of the handlers of an arrival until the chain is called
among them.  It is kept by taking an arrival and by the call of the chain; whatever else happens
leaves the generator and the arrivals as they are.  So it holds throughout a run, in the form that the
place of the chain has there (`Phase`).  A handler that raises before the chain is called loses it.

Main definitions:

* `isArrival`, `delivered`, `pending` — the arrivals of an engine;
* `Leaves` — a handler that leaves the generator alone and schedules no arrival;
* `Others`, `Others.handlers` — the other handlers, and all of them;
* `Run` — a run of the engine whose user schedules no arrival;
* `ChainInvariant`, `Phase` — an invariant of the chain, and where the chain is.

Main results:

* `Leaves.step` — a step of a handler that leaves the generator;
* `Phase.step` — every step keeps the phases;
* `Run.phase` — **an invariant of the chain holds throughout a run**.
-/

import NanoKVRouter.TraceReplay

set_option relaxedAutoImplicit false
set_option autoImplicit false

namespace NanoKVRouter

namespace TraceGenerator

/-! ### Arrivals -/

/-- The event is the arrival of a request. -/
def isArrival (ev : Event Payload) : Bool :=
  match ev.payload with
  | .requestArrive _ => true
  | _ => false

/-- The arrivals whose handlers have been called. -/
def delivered (eng : SimulationEngine Payload) : List (Event Payload) :=
  eng.processed.filter isArrival

/-- The arrivals in the queue. -/
def pending (eng : SimulationEngine Payload) : List (Event Payload) :=
  eng.queue.events.filter isArrival

section Queue

variable {eng : SimulationEngine Payload}

theorem delivered_advance_other {ev : Event Payload} {rest : List (Event Payload)}
    (hq : eng.queue.events = ev :: rest) (hev : isArrival ev = false) :
    delivered (eng.advance ev rest hq) = delivered eng ∧
      pending (eng.advance ev rest hq) = pending eng := by
  have hneg : ¬ isArrival ev = true := Bool.not_eq_true _ ▸ hev
  constructor
  · rw [delivered, SimulationEngine.advance_processed, List.filter_append,
      List.filter_cons_of_neg hneg, List.filter_nil, List.append_nil]
    rfl
  · rw [pending, pending, hq, List.filter_cons_of_neg hneg]
    rfl

/-- An arrival that is taken was the only one. -/
theorem delivered_advance {ev : Event Payload} {rest : List (Event Payload)}
    (hle : (pending eng).length ≤ 1) (hq : eng.queue.events = ev :: rest)
    (hev : isArrival ev = true) :
    delivered (eng.advance ev rest hq) = delivered eng ++ pending eng ∧
      pending (eng.advance ev rest hq) = [] ∧ pending eng = [ev] := by
  have hp : pending eng = ev :: rest.filter isArrival := by
    rw [pending, hq, List.filter_cons_of_pos hev]
  have hrest : rest.filter isArrival = [] := by
    rw [hp, List.length_cons] at hle
    exact List.eq_nil_of_length_eq_zero (by omega)
  rw [hrest] at hp
  refine ⟨?_, hrest, hp⟩
  rw [delivered, SimulationEngine.advance_processed, List.filter_append,
    List.filter_cons_of_pos hev, List.filter_nil, hp]
  rfl

theorem pending_push_other {ev : Event Payload} (h : eng.currentTime ≤ ev.time)
    (hev : isArrival ev = false) : pending (eng.push ev h) = pending eng :=
  EventQueue.filter_heappush_of_neg _ hev

/-- An arrival is pushed into a queue without arrivals. -/
theorem pending_push_arrival {ev : Event Payload} (h : eng.currentTime ≤ ev.time)
    (hev : isArrival ev = true) (hp : pending eng = []) :
    pending (eng.push ev h) = [{ ev with seq := eng.seqCounter }] := by
  have hnone : ∀ a ∈ eng.queue.events, isArrival a = true → False := by
    intro a ha harr
    have hmem : a ∈ pending eng := List.mem_filter.2 ⟨ha, harr⟩
    rw [hp] at hmem
    cases hmem
  have hpush := @EventQueue.filter_heappush_of_last _ eng.queue { ev with seq := eng.seqCounter }
    isArrival hev fun a ha harr => (hnone a ha harr).elim
  rw [pending] at hp
  rw [hp, List.nil_append] at hpush
  exact hpush

end Queue

variable {ρ τ : Type}

/-! ### The other handlers -/

/-- The handler leaves the generator as it is and schedules no arrival. -/
def Leaves (gen : TraceGenerator ρ) : HandlerProgram Payload (TraceGenerator ρ × τ) → Prop
  | .done => True
  | .raise _ => True
  | .read next => ∀ now t, Leaves gen (next now (gen, t))
  | .write s next => s.1 = gen ∧ Leaves gen next
  | .schedule ev next => isArrival ev = false ∧ ∀ r, Leaves gen (next r)
  | .stop next => Leaves gen next

/-- The handlers that are registered before the chain and after it. -/
structure Others (ρ τ : Type) where
  before : HandlerPrograms Payload (TraceGenerator ρ × τ)
  after : HandlerPrograms Payload (TraceGenerator ρ × τ)
  leaves_before : ∀ gen ev, ∀ handler ∈ before ev, Leaves gen (handler ev)
  leaves_after : ∀ gen ev, ∀ handler ∈ after ev, Leaves gen (handler ev)

section Run

variable (rand : PyRandom ρ) (loads : String → Option TraceRecord)
  (hexdigest : List UInt8 → String) (uuid4 : RequestId)

/-- All the handlers of an event. -/
def Others.handlers (others : Others ρ τ) : HandlerPrograms Payload (TraceGenerator ρ × τ) :=
  fun ev => others.before ev ++
    (if isArrival ev then [onArriveChain rand loads hexdigest uuid4] else []) ++ others.after ev

/-- The next step of the run is that a handler raises. -/
def raises (c : EngineRun Payload (TraceGenerator ρ × τ)) : Bool :=
  match c.control with
  | .handling (.raise _ :: _) => true
  | _ => false

/-- A run from `c₁` whose user schedules no arrival, and whether a handler has raised in it. -/
inductive Run (handlers : HandlerPrograms Payload (TraceGenerator ρ × τ))
    (c₁ : EngineRun Payload (TraceGenerator ρ × τ)) :
    Bool → EngineRun Payload (TraceGenerator ρ × τ) → Prop
  | start : Run handlers c₁ false c₁
  | step {raised : Bool} {c c' : EngineRun Payload (TraceGenerator ρ × τ)}
      (h : Run handlers c₁ raised c) (hstep : EngineRun.Step handlers c c')
      (hcaller : c.control = .caller → pending c'.engine = pending c.engine) :
      Run handlers c₁ (raised || raises c) c'

/-! ### Invariants of the chain -/

/-- An invariant of the chain.  `settled raised` holds between the events, where `raised` says that a
handler has raised, so that the chain may have been lost; `owing` holds after an arrival is taken
until the chain is called for it. -/
structure ChainInvariant where
  settled : Bool → SimulationEngine Payload → TraceGenerator ρ → Prop
  owing : SimulationEngine Payload → TraceGenerator ρ → Prop
  settled_congr : ∀ {raised eng eng' gen}, settled raised eng gen →
    delivered eng' = delivered eng → pending eng' = pending eng → settled raised eng' gen
  owing_congr : ∀ {eng eng' gen}, owing eng gen → delivered eng' = delivered eng →
    pending eng' = pending eng → eng'.currentTime = eng.currentTime → owing eng' gen
  weaken : ∀ {raised eng gen} (b : Bool), settled raised eng gen → settled (raised || b) eng gen
  lost : ∀ {eng gen}, owing eng gen → settled true eng gen
  take : ∀ {raised eng gen ev rest} (hq : eng.queue.events = ev :: rest), settled raised eng gen →
    isArrival ev = true → owing (eng.advance ev rest hq) gen
  closed : ∀ {eng gen}, owing eng gen → gen.file = none → settled false eng gen
  next : ∀ {eng gen lines}, owing eng gen → gen.file = some lines →
    match (nextRequest rand loads hexdigest uuid4 lines).run gen with
    | .ok none gen' => settled false eng gen'
    | .ok (some req) gen' => ∃ hle : eng.currentTime ≤ (arrivalOf req).time,
        settled false (eng.push (arrivalOf req) hle) gen'
    | .error _ gen' => settled true eng gen'

/-- The handlers still to be called leave the generator: the first, which may be under way, the
generator of now, and the others every generator. -/
def Idle (gen : TraceGenerator ρ) : List (HandlerProgram Payload (TraceGenerator ρ × τ)) → Prop
  | [] => True
  | p :: ps => Leaves gen p ∧ ∀ q ∈ ps, ∀ gen', Leaves gen' q

/-- Where the chain is: in the queue, if the file is open; owed by a handler that is still to be
called; called; about to be pushed; or given up by an exception. -/
inductive Phase (I : ChainInvariant rand loads hexdigest uuid4) (raised : Bool)
    (c : EngineRun Payload (TraceGenerator ρ × τ)) : Prop
  | settled (h : I.settled raised c.engine c.state.1)
      (hc : ∀ ps, c.control = .handling ps → Idle c.state.1 ps)
  | owing (ev : Event Payload) (qs rest : List (HandlerProgram Payload (TraceGenerator ρ × τ)))
      (h : I.owing c.engine c.state.1)
      (hc : c.control = .handling (qs ++ onArriveChain rand loads hexdigest uuid4 ev :: rest))
      (hqs : Idle c.state.1 qs) (hrest : ∀ q ∈ rest, ∀ gen, Leaves gen q)
  | called (rest : List (HandlerProgram Payload (TraceGenerator ρ × τ)))
      (h : I.owing c.engine c.state.1)
      (hc : c.control = .handling (chainCall rand loads hexdigest uuid4 c.state :: rest))
      (hrest : ∀ q ∈ rest, ∀ gen, Leaves gen q)
  | pushing (req : StampedRequest)
      (rest : List (HandlerProgram Payload (TraceGenerator ρ × τ)))
      (gen : TraceGenerator ρ) (howing : I.owing c.engine gen)
      (hle : c.engine.currentTime ≤ (arrivalOf req).time)
      (h : I.settled false (c.engine.push (arrivalOf req) hle) c.state.1)
      (hc : c.control = .handling (.schedule (arrivalOf req) orRaise :: rest))
      (hrest : ∀ q ∈ rest, ∀ gen, Leaves gen q)
  | failing (e : PyErr) (rest : List (HandlerProgram Payload (TraceGenerator ρ × τ)))
      (h : I.settled true c.engine c.state.1) (hc : c.control = .handling (.raise e :: rest))

end Run

section Steps

variable {rand : PyRandom ρ} {loads : String → Option TraceRecord}
  {hexdigest : List UInt8 → String} {uuid4 : RequestId}
  {handlers : HandlerPrograms Payload (TraceGenerator ρ × τ)}
  {c c' : EngineRun Payload (TraceGenerator ρ × τ)}

theorem idle_of_leaves {gen : TraceGenerator ρ}
    {ps : List (HandlerProgram Payload (TraceGenerator ρ × τ))}
    (h : ∀ q ∈ ps, ∀ gen, Leaves gen q) : Idle gen ps := by
  cases ps with
  | nil => trivial
  | cons p ps =>
      exact ⟨h p List.mem_cons_self gen, fun q hq => h q (List.mem_cons_of_mem _ hq)⟩

/-- A step of the user. -/
theorem step_of_caller (hc : c.control = .caller) (hstep : EngineRun.Step handlers c c') :
    c'.state = c.state ∧ delivered c'.engine = delivered c.engine ∧
      ∀ ps, c'.control ≠ .handling ps := by
  cases hstep with
  | schedule _ _ | setStopped _ _ | run _ => exact ⟨rfl, rfl, fun ps h => by cases h⟩
  | leave hc' _ | take hc' _ _ | handled hc' | done hc' | raise hc' | read hc' | write hc'
  | handlerSchedule hc' _ | refused hc' _ | handlerStop hc' =>
      cases hc.symm.trans hc'

/-- A step of the loop. -/
theorem step_of_loop (hc : c.control = .loop) (hstep : EngineRun.Step handlers c c') :
    c' = { c with control := .caller } ∨
      ∃ ev rest, ∃ h : c.engine.queue.events = ev :: rest,
        c' = { c with
          engine := c.engine.advance ev rest h
          control := .handling ((handlers ev).map fun handler => handler ev) } := by
  cases hstep with
  | leave _ _ => exact Or.inl rfl
  | @take ev rest _ _ h => exact Or.inr ⟨ev, rest, h, rfl⟩
  | schedule hc' _ | setStopped _ hc' | run hc' | handled hc' | done hc' | raise hc' | read hc'
  | write hc' | handlerSchedule hc' _ | refused hc' _ | handlerStop hc' =>
      cases hc.symm.trans hc'

/-- The loop goes on when all handlers have been called. -/
theorem step_of_handled (hc : c.control = .handling []) (hstep : EngineRun.Step handlers c c') :
    c' = { c with control := .loop } := by
  cases hstep with
  | handled _ => rfl
  | schedule hc' _ | setStopped _ hc' | run hc' | leave hc' _ | take hc' _ _ | done hc' | raise hc'
  | read hc' | write hc' | handlerSchedule hc' _ | refused hc' _ | handlerStop hc' =>
      cases hc.symm.trans hc'

/-- A handler returns. -/
theorem step_of_done {ps : List (HandlerProgram Payload (TraceGenerator ρ × τ))}
    (hc : c.control = .handling (.done :: ps)) (hstep : EngineRun.Step handlers c c') :
    c' = { c with control := .handling ps } := by
  cases hstep with
  | done hc' =>
      cases hc.symm.trans hc'
      rfl
  | schedule hc' _ | setStopped _ hc' | run hc' | leave hc' _ | take hc' _ _ | handled hc' | raise hc'
  | read hc' | write hc' | handlerSchedule hc' _ | refused hc' _ | handlerStop hc' =>
      cases hc.symm.trans hc'

/-- A handler writes the state. -/
theorem step_of_write {s : TraceGenerator ρ × τ}
    {p : HandlerProgram Payload (TraceGenerator ρ × τ)}
    {ps : List (HandlerProgram Payload (TraceGenerator ρ × τ))}
    (hc : c.control = .handling (.write s p :: ps)) (hstep : EngineRun.Step handlers c c') :
    c' = { c with state := s, control := .handling (p :: ps) } := by
  cases hstep with
  | write hc' =>
      cases hc.symm.trans hc'
      rfl
  | schedule hc' _ | setStopped _ hc' | run hc' | leave hc' _ | take hc' _ _ | handled hc' | done hc'
  | raise hc' | read hc' | handlerSchedule hc' _ | refused hc' _ | handlerStop hc' =>
      cases hc.symm.trans hc'

/-- A handler schedules an event that is not in the past. -/
theorem step_of_schedule {ev : Event Payload}
    {next : Option PyErr → HandlerProgram Payload (TraceGenerator ρ × τ)}
    {ps : List (HandlerProgram Payload (TraceGenerator ρ × τ))}
    (hc : c.control = .handling (.schedule ev next :: ps))
    (hle : c.engine.currentTime ≤ ev.time) (hstep : EngineRun.Step handlers c c') :
    c' = c.push ev hle (.handling (next none :: ps)) := by
  cases hstep with
  | handlerSchedule hc' _ =>
      cases hc.symm.trans hc'
      rfl
  | refused hc' herror =>
      cases hc.symm.trans hc'
      have hok : (SimulationEngine.schedule ev).run c.engine = .ok () (c.engine.push ev hle) :=
        SimulationEngine.run_schedule_ok_iff.2 ⟨hle, rfl⟩
      cases hok.symm.trans herror
  | schedule hc' _ | setStopped _ hc' | run hc' | leave hc' _ | take hc' _ _ | handled hc' | done hc'
  | raise hc' | read hc' | write hc' | handlerStop hc' => cases hc.symm.trans hc'

/-- What a step of a handler that leaves the generator leaves as it was. -/
structure Untouched (c c' : EngineRun Payload (TraceGenerator ρ × τ)) : Prop where
  gen : c'.state.1 = c.state.1
  delivered : delivered c'.engine = delivered c.engine
  pending : pending c'.engine = pending c.engine
  now : c'.engine.currentTime = c.engine.currentTime

/-- **A step of a handler that leaves the generator**: it returns, goes on or raises. -/
theorem Leaves.step {p : HandlerProgram Payload (TraceGenerator ρ × τ)}
    {ps : List (HandlerProgram Payload (TraceGenerator ρ × τ))}
    (hp : Leaves c.state.1 p) (hc : c.control = .handling (p :: ps))
    (hstep : EngineRun.Step handlers c c') :
    Untouched c c' ∧ ((raises c = true ∧ c'.control = .caller) ∨
      c'.control = .handling ps ∨
      ∃ q, c'.control = .handling (q :: ps) ∧ Leaves c'.state.1 q) := by
  cases hstep with
  | schedule hc' _ | setStopped _ hc' | run hc' | leave hc' _ | take hc' _ _ | handled hc' =>
      cases hc.symm.trans hc'
  | done hc' =>
      rw [hc] at hc'
      cases hc'
      exact ⟨⟨rfl, rfl, rfl, rfl⟩, Or.inr (Or.inl rfl)⟩
  | raise hc' =>
      rw [hc] at hc'
      cases hc'
      exact ⟨⟨rfl, rfl, rfl, rfl⟩, Or.inl ⟨by rw [raises, hc], rfl⟩⟩
  | read hc' =>
      rw [hc] at hc'
      cases hc'
      exact ⟨⟨rfl, rfl, rfl, rfl⟩, Or.inr (Or.inr ⟨_, rfl, hp c.engine.now c.state.2⟩)⟩
  | write hc' =>
      rw [hc] at hc'
      cases hc'
      exact ⟨⟨hp.1, rfl, rfl, rfl⟩, Or.inr (Or.inr ⟨_, rfl, hp.1 ▸ hp.2⟩)⟩
  | handlerSchedule hc' hle =>
      rw [hc] at hc'
      cases hc'
      exact ⟨⟨rfl, rfl, pending_push_other hle hp.1, rfl⟩,
        Or.inr (Or.inr ⟨_, rfl, hp.2 none⟩)⟩
  | @refused ev rest next e hc' _ =>
      rw [hc] at hc'
      cases hc'
      exact ⟨⟨rfl, rfl, rfl, rfl⟩, Or.inr (Or.inr ⟨_, rfl, hp.2 (some e)⟩)⟩
  | handlerStop hc' =>
      rw [hc] at hc'
      cases hc'
      exact ⟨⟨rfl, rfl, rfl, rfl⟩, Or.inr (Or.inr ⟨_, rfl, hp⟩)⟩

/-- A handler raises. -/
theorem step_of_raise {e : PyErr} {ps : List (HandlerProgram Payload (TraceGenerator ρ × τ))}
    (hc : c.control = .handling (.raise e :: ps)) (hstep : EngineRun.Step handlers c c') :
    c' = { c with control := .caller } := by
  cases hstep with
  | raise _ => rfl
  | schedule hc' _ | setStopped _ hc' | run hc' | leave hc' _ | take hc' _ _ | handled hc' | done hc'
  | read hc' | write hc' | handlerSchedule hc' _ | refused hc' _ | handlerStop hc' =>
      cases hc.symm.trans hc'

variable {I : ChainInvariant rand loads hexdigest uuid4} {raised : Bool} {others : Others ρ τ}

/-- The other handlers of an event leave the generator. -/
theorem Others.leaves_of_mem (others : Others ρ τ) (ev : Event Payload)
    {q : HandlerProgram Payload (TraceGenerator ρ × τ)}
    (h : q ∈ (others.before ev).map (fun handler => handler ev) ∨
      q ∈ (others.after ev).map fun handler => handler ev) (gen : TraceGenerator ρ) :
    Leaves gen q := by
  rcases h with h | h
  · obtain ⟨handler, hmem, rfl⟩ := List.mem_map.1 h
    exact others.leaves_before gen ev handler hmem
  · obtain ⟨handler, hmem, rfl⟩ := List.mem_map.1 h
    exact others.leaves_after gen ev handler hmem

theorem Untouched.settled {b : Bool} (h : Untouched c c')
    (hs : I.settled b c.engine c.state.1) : I.settled b c'.engine c'.state.1 := by
  rw [h.gen]
  exact I.settled_congr hs h.delivered h.pending

theorem Untouched.owing (h : Untouched c c') (ho : I.owing c.engine c.state.1) :
    I.owing c'.engine c'.state.1 := by
  rw [h.gen]
  exact I.owing_congr ho h.delivered h.pending h.now

/-- While the chain is in the queue, the next step takes it, or leaves it there. -/
theorem Phase.step_settled (h : I.settled raised c.engine c.state.1)
    (hidle : ∀ ps, c.control = .handling ps → Idle c.state.1 ps)
    (hstep : EngineRun.Step (others.handlers rand loads hexdigest uuid4) c c')
    (hcaller : c.control = .caller → pending c'.engine = pending c.engine) :
    Phase rand loads hexdigest uuid4 I (raised || raises c) c' := by
  cases hc : c.control with
  | caller =>
      obtain ⟨hstate, hdel, hctl⟩ := step_of_caller hc hstep
      refine .settled ?_ fun ps hps => absurd hps (hctl ps)
      rw [hstate]
      exact I.weaken _ (I.settled_congr h hdel (hcaller hc))
  | loop =>
      rcases step_of_loop hc hstep with rfl | ⟨ev, rest, hq, rfl⟩
      · exact .settled (I.weaken _ h) fun ps hps => by cases hps
      · cases hev : isArrival ev with
        | true =>
            refine .owing ev ((others.before ev).map fun handler => handler ev)
              ((others.after ev).map fun handler => handler ev) (I.take hq h hev) ?_ ?_ ?_
            · simp only [Others.handlers, hev, if_true, List.map_append, List.map_cons,
                List.append_assoc, List.singleton_append]
            · exact idle_of_leaves fun q hq gen => others.leaves_of_mem ev (Or.inl hq) gen
            · exact fun q hq gen => others.leaves_of_mem ev (Or.inr hq) gen
        | false =>
            obtain ⟨hdel, hpend⟩ := delivered_advance_other hq hev
            refine .settled (I.weaken _ (I.settled_congr h hdel hpend)) fun ps hps => ?_
            have hmap : ps = (others.before ev).map (fun handler => handler ev) ++
                (others.after ev).map fun handler => handler ev := by
              rw [← Control.handling.inj hps, ← List.map_append]
              simp only [Others.handlers, hev, Bool.false_eq_true, if_false, List.append_nil]
            rw [hmap]
            exact idle_of_leaves fun q hq gen =>
              others.leaves_of_mem ev (List.mem_append.1 hq) gen
  | handling ps =>
      cases ps with
      | nil =>
          obtain rfl := step_of_handled hc hstep
          exact .settled (I.weaken _ h) fun ps hps => by cases hps
      | cons p ps =>
          obtain ⟨hp, hrest⟩ := hidle _ hc
          obtain ⟨huntouched, hnext⟩ := hp.step hc hstep
          refine .settled (I.weaken _ (huntouched.settled h)) fun qs hqs => ?_
          rcases hnext with ⟨-, hctl⟩ | hctl | ⟨q, hctl, hq⟩
          · rw [hctl] at hqs
            cases hqs
          · rw [hctl] at hqs
            cases hqs
            exact idle_of_leaves hrest
          · rw [hctl] at hqs
            cases hqs
            exact ⟨hq, hrest⟩

/-- While the chain is owed, the next step brings its call nearer, or loses it. -/
theorem Phase.step_owing {ev : Event Payload}
    {qs rest : List (HandlerProgram Payload (TraceGenerator ρ × τ))}
    (h : I.owing c.engine c.state.1)
    (hc : c.control = .handling (qs ++ onArriveChain rand loads hexdigest uuid4 ev :: rest))
    (hqs : Idle c.state.1 qs) (hrest : ∀ q ∈ rest, ∀ gen, Leaves gen q)
    (hstep : EngineRun.Step handlers c c') :
    Phase rand loads hexdigest uuid4 I (raised || raises c) c' := by
  cases qs with
  | nil =>
      cases hstep with
      | read hc' =>
          cases hc.symm.trans hc'
          exact .called rest h rfl hrest
      | schedule hc' _ | setStopped _ hc' | run hc' | leave hc' _ | take hc' _ _ | handled hc'
      | done hc' | raise hc' | write hc' | handlerSchedule hc' _ | refused hc' _
      | handlerStop hc' => cases hc.symm.trans hc'
  | cons p qs =>
      obtain ⟨huntouched, hnext⟩ := hqs.1.step hc hstep
      rcases hnext with ⟨hraises, hctl⟩ | hctl | ⟨q, hctl, hq⟩
      · -- the chain is lost
        rw [hraises, Bool.or_true]
        refine .settled (I.lost (huntouched.owing h)) fun ps hps => ?_
        cases hctl.symm.trans hps
      · exact .owing ev qs rest (huntouched.owing h) hctl (idle_of_leaves hqs.2) hrest
      · exact .owing ev (q :: qs) rest (huntouched.owing h) hctl ⟨hq, hqs.2⟩ hrest

/-- The call of the chain: the file is closed, or the next arrival is about to be pushed, or the
call raises. -/
theorem Phase.step_called {rest : List (HandlerProgram Payload (TraceGenerator ρ × τ))}
    (h : I.owing c.engine c.state.1)
    (hc : c.control = .handling (chainCall rand loads hexdigest uuid4 c.state :: rest))
    (hrest : ∀ q ∈ rest, ∀ gen, Leaves gen q) (hstep : EngineRun.Step handlers c c') (b : Bool) :
    Phase rand loads hexdigest uuid4 I b c' := by
  rw [chainCall] at hc
  cases hfile : c.state.1.file with
  | none =>
      rw [hfile] at hc
      obtain rfl := step_of_done hc hstep
      refine .settled (I.weaken b (I.closed h hfile)) fun ps hps => ?_
      cases hps
      exact idle_of_leaves hrest
  | some lines =>
      have hnext := I.next h hfile
      simp only [hfile] at hc
      cases hrun : (nextRequest rand loads hexdigest uuid4 lines).run c.state.1 with
      | error e gen' =>
          simp only [hrun] at hc hnext
          obtain rfl := step_of_write hc hstep
          exact .failing e rest hnext rfl
      | ok next gen' =>
          cases next with
          | none =>
              simp only [hrun] at hc hnext
              obtain rfl := step_of_write hc hstep
              refine .settled (I.weaken b hnext) fun ps hps => ?_
              cases hps
              exact ⟨trivial, hrest⟩
          | some req =>
              simp only [hrun] at hc hnext
              obtain ⟨hle, hsettled⟩ := hnext
              obtain rfl := step_of_write hc hstep
              exact .pushing req rest c.state.1 h hle hsettled rfl hrest

/-- **Every step keeps the phases.** -/
theorem Phase.step (h : Phase rand loads hexdigest uuid4 I raised c)
    (hstep : EngineRun.Step (others.handlers rand loads hexdigest uuid4) c c')
    (hcaller : c.control = .caller → pending c'.engine = pending c.engine) :
    Phase rand loads hexdigest uuid4 I (raised || raises c) c' := by
  cases h with
  | settled h hc => exact .step_settled h hc hstep hcaller
  | owing ev qs rest h hc hqs hrest => exact .step_owing h hc hqs hrest hstep
  | called rest h hc hrest => exact .step_called h hc hrest hstep _
  | pushing req rest gen howing hle h hc hrest =>
      obtain rfl := step_of_schedule hc hle hstep
      refine .settled (I.weaken (raised || raises c) h) fun ps hps => ?_
      cases hps
      exact ⟨trivial, hrest⟩
  | failing e rest h hc =>
      have hraises : raises c = true := by rw [raises, hc]
      obtain rfl := step_of_raise hc hstep
      rw [hraises, Bool.or_true]
      exact .settled h fun ps hps => by cases hps

/-- **An invariant of the chain holds throughout a run.** -/
theorem Run.phase {c₁ : EngineRun Payload (TraceGenerator ρ × τ)}
    (h₁ : Phase rand loads hexdigest uuid4 I false c₁)
    (h : Run (others.handlers rand loads hexdigest uuid4) c₁ raised c) :
    Phase rand loads hexdigest uuid4 I raised c := by
  induction h with
  | start => exact h₁
  | step _ hstep hcaller ih => exact ih.step hstep hcaller

/-- The call of `schedule` for an arrival is not in the past. -/
theorem Phase.on_time (h : Phase rand loads hexdigest uuid4 I raised c) {ev : Event Payload}
    {next : Option PyErr → HandlerProgram Payload (TraceGenerator ρ × τ)}
    {ps : List (HandlerProgram Payload (TraceGenerator ρ × τ))}
    (hc : c.control = .handling (.schedule ev next :: ps)) (hev : isArrival ev = true) :
    c.engine.currentTime ≤ ev.time := by
  cases h with
  | settled _ hidle =>
      -- the other handlers schedule no arrivals
      exact absurd hev (by rw [(hidle _ hc).1.1]; exact Bool.false_ne_true)
  | owing _ qs _ _ hc' hqs _ =>
      cases qs with
      | nil => cases hc.symm.trans hc'
      | cons q qs =>
          cases hc.symm.trans hc'
          exact absurd hev (by rw [hqs.1.1]; exact Bool.false_ne_true)
  | called _ _ hc' _ =>
      rw [chainCall] at hc'
      split at hc'
      · cases hc.symm.trans hc'
      · split at hc'
        · cases hc.symm.trans hc'
        · cases hc.symm.trans hc'
        · cases hc.symm.trans hc'
  | pushing _ _ _ _ hle _ hc' _ =>
      cases hc.symm.trans hc'
      exact hle
  | failing _ _ _ hc' => cases hc.symm.trans hc'

end Steps

end TraceGenerator

end NanoKVRouter
