/-
**A replay is complete and in order.**

The ledger of a replay is an invariant of its chain, whatever the other handlers do: the arrivals
that have been scheduled are those of the first records, and one of them is pending at most.  Unless
a handler raises before the chain is called, no arrival is pending only when the file is closed.
Beside handlers that schedule nothing, the loop of `run` ends after as many events as are left.

Main definitions:

* `ledgerInvariant` — the ledger, as an invariant of the chain;
* `Silent` — a handler that schedules nothing, does not stop the engine and does not raise.

Main results:

* `Phase.arrivals`, `Phase.complete` — what the invariant says of a run;
* `Others.Silent.run_runLoop` — a loop with silent handlers ends;
* `replay_complete` — **the records are delivered in file order, one arrival pending at a time, and
  in the end all of them are delivered and the file is closed**.
-/

import NanoKVRouter.TraceLedger

set_option relaxedAutoImplicit false
set_option autoImplicit false

namespace NanoKVRouter

namespace TraceGenerator

variable {ρ τ : Type}

/-! ### The invariant of the replay -/

section Invariant

variable (rand : PyRandom ρ) {loads : String → Option TraceRecord}
  (hexdigest : List UInt8 → String) (uuid4 : RequestId)
  {P : ReplayParams} {records : List TraceRecord} {raised : Bool}

/-- The ledger of the replay, as an invariant of the chain. -/
def ledgerInvariant (htrace : OrderedTrace P records)
    (hpacks : ∀ record ∈ replayed P records, record.Packs P) :
    ChainInvariant rand loads hexdigest uuid4 where
  settled := Settled P loads records
  owing := Owing P loads records
  settled_congr := fun h hd hp => h.congr hd hp
  owing_congr := fun h hd hp ht => h.congr hd hp ht
  weaken := fun b h => h.weaken b
  lost := fun h => h.settled
  take := fun hq h hev => h.advance_arrival hq hev
  closed := fun h hfile => h.settled_of_closed hfile
  next := fun {eng gen lines} h hfile => by
    rcases @Owing.next _ _ _ _ _ _ rand hexdigest uuid4 h htrace hpacks lines hfile with
      ⟨gen', hrun, hsettled⟩ | ⟨req, gen', hrun, hle, hsettled⟩
    · rw [hrun]
      exact hsettled
    · rw [hrun]
      exact ⟨hle, hsettled⟩

variable {rand hexdigest uuid4} {htrace : OrderedTrace P records}
  {hpacks : ∀ record ∈ replayed P records, record.Packs P}
  {c : EngineRun Payload (TraceGenerator ρ × τ)}

/-- The arrivals of a phase are those of the first records, and at most one is pending. -/
theorem Phase.arrivals
    (h : Phase rand loads hexdigest uuid4 (ledgerInvariant rand hexdigest uuid4 htrace hpacks)
      raised c) :
    Arrivals P (replayed P records) (delivered c.engine ++ pending c.engine) ∧
      (pending c.engine).length ≤ 1 := by
  cases h with
  | settled h _ | failing _ _ h _ => exact ⟨h.ledger.arrivals, h.pending_le⟩
  | owing _ _ _ h _ _ _ | called _ h _ _ | pushing _ _ _ h _ _ _ _ =>
      exact ⟨h.settled.ledger.arrivals, h.settled.pending_le⟩

/-- Where no handler is being called and no arrival is pending, everything has been delivered,
unless the chain was lost. -/
theorem Phase.complete
    (h : Phase rand loads hexdigest uuid4 (ledgerInvariant rand hexdigest uuid4 htrace hpacks)
      false c)
    (hc : ∀ ps, c.control ≠ .handling ps) (hp : pending c.engine = []) :
    (delivered c.engine).length = (replayed P records).length ∧ c.state.1.file = none := by
  cases h with
  | settled h _ => exact Settled.complete h hp
  | owing _ _ _ _ hc' _ _ => exact absurd hc' (hc _)
  | called _ _ hc' _ => exact absurd hc' (hc _)
  | pushing _ _ _ _ _ _ hc' _ => exact absurd hc' (hc _)
  | failing _ _ _ hc' => exact absurd hc' (hc _)

end Invariant

/-! ### The end of a replay -/

section Silent

/-- The handler schedules nothing, does not stop the engine and does not raise. -/
def Silent : HandlerProgram Payload (TraceGenerator ρ × τ) → Prop
  | .done => True
  | .raise _ => False
  | .read next => ∀ now s, Silent (next now s)
  | .write _ next => Silent next
  | .schedule _ _ => False
  | .stop _ => False

/-- The other handlers are silent. -/
def Others.Silent (others : Others ρ τ) : Prop :=
  ∀ ev, ∀ handler ∈ others.before ev ++ others.after ev, TraceGenerator.Silent (handler ev)

/-- A silent handler changes nothing but what is its own. -/
theorem Silent.run {p : HandlerProgram Payload (TraceGenerator ρ × τ)} {gen : TraceGenerator ρ}
    (hs : Silent p) (hl : Leaves gen p) (eng : SimulationEngine Payload) (t : τ) :
    ∃ t', p.run.run (eng, (gen, t)) = .ok () (eng, (gen, t')) := by
  induction p generalizing t with
  | done => exact ⟨t, rfl⟩
  | raise e => exact hs.elim
  | read next ih => exact ih eng.now (gen, t) (hs eng.now (gen, t)) (hl eng.now t) t
  | write s next ih =>
      obtain ⟨g, u⟩ := s
      obtain ⟨rfl, hl⟩ := hl
      exact ih hs hl u
  | schedule ev next ih => exact hs.elim
  | stop next ih => exact hs.elim

/-- A loop over two lists goes on with the second. -/
theorem run_forM_append {σ α : Type} (f : α → Py σ Unit) (bs : List α) {as : List α} {s s' : σ}
    (h : (as.forM f).run s = .ok () s') : ((as ++ bs).forM f).run s = (bs.forM f).run s' := by
  induction as generalizing s with
  | nil =>
      cases h
      rfl
  | cons a as ih =>
      rw [Py.run_forM_cons] at h
      obtain ⟨u, t, ha, has⟩ := Py.bind_eq_ok.1 h
      rw [List.cons_append, Py.run_forM_cons, Py.run_bind_ok ha, ih has]

theorem run_forM_silent (ev : Event Payload) {gen : TraceGenerator ρ}
    (registered : List (Event Payload → HandlerProgram Payload (TraceGenerator ρ × τ)))
    (hs : ∀ handler ∈ registered, Silent (handler ev))
    (hl : ∀ handler ∈ registered, Leaves gen (handler ev)) (eng : SimulationEngine Payload) (t : τ) :
    ∃ t', ((registered.map fun (handler : Event Payload →
        HandlerProgram Payload (TraceGenerator ρ × τ)) ev => (handler ev).run).forM
          fun (handler : Event Payload → Py _ Unit) => handler ev).run (eng, (gen, t)) =
      .ok () (eng, (gen, t')) := by
  induction registered generalizing t with
  | nil => exact ⟨t, rfl⟩
  | cons handler registered ih =>
      obtain ⟨t₁, hrun⟩ := (hs handler List.mem_cons_self).run (hl handler List.mem_cons_self) eng t
      obtain ⟨t₂, hrest⟩ := ih (fun h hh => hs h (List.mem_cons_of_mem _ hh))
        (fun h hh => hl h (List.mem_cons_of_mem _ hh)) t₁
      exact ⟨t₂, by rw [List.map_cons, Py.run_forM_cons, Py.run_bind_ok hrun, hrest]⟩

variable {rand : PyRandom ρ} {loads : String → Option TraceRecord}
  {hexdigest : List UInt8 → String} {uuid4 : RequestId} {others : Others ρ τ}
  {P : ReplayParams} {records : List TraceRecord}

/-- **A turn with silent handlers** handles one event, and leaves one fewer. -/
theorem Others.Silent.run_turn (hsilent : others.Silent) (htrace : OrderedTrace P records)
    (hpacks : ∀ record ∈ replayed P records, record.Packs P)
    {eng : SimulationEngine Payload} {gen : TraceGenerator ρ} (t : τ)
    (h : Settled P loads records false eng gen) (hq : eng.queue.events ≠ []) :
    ∃ eng' gen' t', (SimulationEngine.turn
        (others.handlers rand loads hexdigest uuid4).calls).run (eng, (gen, t)) =
          .ok () (eng', (gen', t')) ∧
      Settled P loads records false eng' gen' ∧
      remaining P records eng' + 1 = remaining P records eng ∧ eng'.stopped = eng.stopped := by
  obtain ⟨ev, rest, hev⟩ := List.exists_cons_of_ne_nil hq
  have hrem : (rest.length + 1 : ℕ) = eng.queue.events.length := by rw [hev, List.length_cons]
  obtain ⟨t₁, hbefore⟩ := run_forM_silent ev (others.before ev)
    (fun handler hmem => hsilent ev handler (List.mem_append_left _ hmem))
    (others.leaves_before gen ev) (eng.advance ev rest hev) t
  rw [SimulationEngine.run_turn_cons _ (s := (eng, (gen, t))) hev]
  simp only [HandlerPrograms.calls, Others.handlers, List.map_append]
  cases harr : isArrival ev with
  | false =>
      obtain ⟨t₂, hafter⟩ := run_forM_silent ev (others.after ev)
        (fun handler hmem => hsilent ev handler (List.mem_append_right _ hmem))
        (others.leaves_after gen ev) (eng.advance ev rest hev) t₁
      obtain ⟨hdel, hpend⟩ := delivered_advance_other hev harr
      refine ⟨eng.advance ev rest hev, gen, t₂, ?_, h.congr hdel hpend, ?_, rfl⟩
      · simp only [Bool.false_eq_true, if_false, List.map_nil, List.append_nil]
        exact (run_forM_append _ _ hbefore).trans hafter
      · rw [remaining, remaining, hdel, hpend, ← hrem]
        change rest.length + _ + 1 = _
        omega
  | true =>
      obtain ⟨eng₁, gen₁, hchain, hsettled, hrem₁, hstop⟩ := @Owing.run_scheduleNext _ _ _ _ _ _ rand
        hexdigest uuid4 (h.advance_arrival hev harr) htrace hpacks
      have hcall : (onArriveChain rand loads hexdigest uuid4 ev).run.run
          (eng.advance ev rest hev, (gen, t₁)) = .ok () (eng₁, (gen₁, t₁)) := by
        rw [run_onArriveChain, Py.run_onPart, hchain]
      obtain ⟨t₂, hafter⟩ := run_forM_silent ev (others.after ev)
        (fun handler hmem => hsilent ev handler (List.mem_append_right _ hmem))
        (others.leaves_after gen₁ ev) eng₁ t₁
      refine ⟨eng₁, gen₁, t₂, ?_, hsettled, ?_, hstop⟩
      · simp only [if_true, List.map_cons, List.map_nil, List.append_assoc, List.singleton_append]
        refine (run_forM_append _ _ hbefore).trans ?_
        rw [Py.run_forM_cons, Py.run_bind_ok hcall, hafter]
      · obtain ⟨hdel, hpend, -⟩ := delivered_advance h.pending_le hev harr
        rw [hrem₁, remaining, remaining, hdel, hpend, List.append_nil, ← hrem]
        change rest.length + _ + 1 = _
        omega

/-- **A loop with silent handlers** ends with the queue empty. -/
theorem Others.Silent.run_runLoop (hsilent : others.Silent) (htrace : OrderedTrace P records)
    (hpacks : ∀ record ∈ replayed P records, record.Packs P) (fuel : ℕ)
    {eng : SimulationEngine Payload} {gen : TraceGenerator ρ} (t : τ)
    (h : Settled P loads records false eng gen) (hstop : eng.stopped = false)
    (hfuel : remaining P records eng < fuel) :
    ∃ eng' gen' t', (SimulationEngine.runLoop
        (others.handlers rand loads hexdigest uuid4).calls fuel).run (eng, (gen, t)) =
          .ok () (eng', (gen', t')) ∧
      Settled P loads records false eng' gen' ∧ eng'.queue.events = [] := by
  induction fuel generalizing eng gen t with
  | zero => exact absurd hfuel (Nat.not_lt_zero _)
  | succ fuel ih =>
      by_cases hq : eng.queue.events = []
      · exact ⟨eng, gen, t, SimulationEngine.run_runLoop_nil _ fuel (s := (eng, (gen, t))) hq, h, hq⟩
      · obtain ⟨eng₁, gen₁, t₁, hturn, h₁, hrem, hstop₁⟩ := @Others.Silent.run_turn _ _ rand loads
          hexdigest uuid4 _ _ _ hsilent htrace hpacks _ _ t h hq
        obtain ⟨eng₂, gen₂, t₂, hrun, h₂, hq₂⟩ := ih t₁ h₁ (hstop₁.trans hstop) (by omega)
        refine ⟨eng₂, gen₂, t₂, ?_, h₂, hq₂⟩
        rw [SimulationEngine.run_runLoop_succ _ fuel (s := (eng, (gen, t))) hq hstop,
          Py.run_bind_ok hturn, hrun]

/-- **A replay delivers its records, in file order.**  A new generator is attached, before the clock
moves, to an engine without arrivals; the records are well-formed and ordered, and the first block of
each that is replayed can be packed.  Then `attach` returns.  In every run from there, the arrivals
that have been delivered or are pending are those of the first records; at most one is pending; and
where no handler is under way and none has raised, none is pending only if all of them have been
delivered and the file is closed.  Beside silent handlers, `run` returns. -/
theorem replay_complete {gen : TraceGenerator ρ} (hfresh : gen.Fresh) {lines : List String}
    (htrace : OrderedTrace gen.paramsOf (lines.filterMap loads))
    (hpacks : ∀ record ∈ replayed gen.paramsOf (lines.filterMap loads),
      record.Packs gen.paramsOf)
    {eng : SimulationEngine Payload} (hclock : eng.currentTime = 0)
    (hnone : ∀ ev ∈ eng.processed ++ eng.queue.events, isArrival ev = false)
    (others : Others ρ τ) :
    let P := gen.paramsOf
    let expected := replayed P (lines.filterMap loads)
    let handlers := others.handlers rand loads hexdigest uuid4
    ∃ eng₁ gen₁, (attach rand loads hexdigest uuid4 lines).run (eng, gen) = .ok () (eng₁, gen₁) ∧
      (∀ c₁ : EngineRun Payload (TraceGenerator ρ × τ),
        c₁.engine = eng₁ → c₁.state.1 = gen₁ → c₁.control = .caller →
        ∀ raised c, Run handlers c₁ raised c →
          Arrivals P expected (delivered c.engine ++ pending c.engine) ∧
          (pending c.engine).length ≤ 1 ∧
          (raised = false → (∀ ps, c.control ≠ .handling ps) → pending c.engine = [] →
            (delivered c.engine).length = expected.length ∧ c.state.1.file = none)) ∧
      (others.Silent → eng.stopped = false →
        ∀ t fuel, eng.queue.events.length + expected.length < fuel →
          ∃ eng₂ gen₂ t₂, (SimulationEngine.runLoop handlers.calls fuel).run (eng₁, (gen₁, t)) =
              .ok () (eng₂, (gen₂, t₂)) ∧
            Arrivals P expected (delivered eng₂) ∧ (delivered eng₂).length = expected.length ∧
            gen₂.file = none) := by
  intro P expected handlers
  obtain ⟨eng₁, gen₁, hattach, hsettled, hrem, hstop⟩ :=
    @Fresh.run_attach _ loads _ _ rand hexdigest uuid4 hfresh lines htrace hpacks hclock hnone
  refine ⟨eng₁, gen₁, hattach, ?_, ?_⟩
  · rintro c₁ rfl rfl hcaller raised c hrun
    have hphase : Phase rand loads hexdigest uuid4
        (ledgerInvariant rand hexdigest uuid4 htrace hpacks) raised c := by
      refine hrun.phase (.settled hsettled fun ps hps => ?_)
      cases hcaller.symm.trans hps
    obtain ⟨harrivals, hle⟩ := hphase.arrivals
    refine ⟨harrivals, hle, ?_⟩
    rintro rfl hc hp
    exact hphase.complete hc hp
  · intro hsilent hrunning t fuel hfuel
    obtain ⟨eng₂, gen₂, t₂, hrun, h₂, hq₂⟩ := @Others.Silent.run_runLoop _ _ rand loads hexdigest
      uuid4 _ _ _ hsilent htrace hpacks fuel _ _ t hsettled (hstop.trans hrunning)
      (hrem.trans_lt hfuel)
    have hp₂ : pending eng₂ = [] := by rw [pending, hq₂, List.filter_nil]
    have harrivals := h₂.ledger.arrivals
    rw [hp₂, List.append_nil] at harrivals
    exact ⟨eng₂, gen₂, t₂, hrun, harrivals, h₂.complete hp₂⟩

end Silent

/-! ### Two traces -/

/-- A random generator that returns the lowest of what it is asked for. -/
def drawLow : PyRandom Unit where
  randint := fun low _ => pure low
  random := pure 0
  choices := fun _ => pure 0
  choice := fun _ => pure 0
  draws_randint := fun low _ h rng => ⟨low, rng, rfl, le_refl low, h⟩
  draws_random := fun rng => ⟨0, rng, rfl⟩
  draws_choices := fun weights h rng => by
    refine ⟨0, rng, rfl, List.length_pos_of_ne_nil ?_⟩
    rintro rfl
    exact absurd h (by decide +kernel)
  draws_choice := fun _ h rng => ⟨0, rng, rfl, h⟩

/-- A line that is not JSON between two records. -/
def twoRecords (line : String) : Option TraceRecord :=
  if line = "first" then
    some { timestamp := some 0, inputLength := some 20, outputLength := some 5, hashIds := some [7] }
  else if line = "second" then
    some { arrivalMs := some 4, inputLength := some 0, outputLength := some 1, hashIds := some [] }
  else
    none

/-- A record of one block whose hash id is too large. -/
def largeId (_line : String) : Option TraceRecord :=
  some {
    timestamp := some 0, inputLength := some 512, outputLength := some 1
    hashIds := some [8388608] }

/-- A new generator for the hash ids of a trace. -/
def ofHashIds (config : NanoKVConfig) : TraceGenerator Unit where
  config := config
  traceCfg := .defaults
  synthesisModel := none
  rng := ()
  idx := 0
  file := none
  attached := false
  hasModel := fun h => by cases h

theorem fresh_ofHashIds (config : NanoKVConfig) : (ofHashIds config).Fresh :=
  ⟨rfl, rfl, fun model h => by cases h⟩

/-- No other handlers. -/
def noOthers : Others Unit Unit where
  before := fun _ => []
  after := fun _ => []
  leaves_before := fun _ _ _ h => absurd h List.not_mem_nil
  leaves_after := fun _ _ _ h => absurd h List.not_mem_nil

theorem replay_complete_two :
    ∃ eng₁ gen₁ eng₂ gen₂ t₂,
      (attach drawLow twoRecords (fun _ => "00000000") "" ["first", "garbled", "second"]).run
        (SimulationEngine.init, ofHashIds .defaults) = .ok () (eng₁, gen₁) ∧
      (SimulationEngine.runLoop (noOthers.handlers drawLow twoRecords (fun _ => "00000000") "").calls
        3).run (eng₁, (gen₁, ())) = .ok () (eng₂, (gen₂, t₂)) ∧
      (delivered eng₂).length = 2 ∧ gen₂.file = none := by
  have hrecords : ["first", "garbled", "second"].filterMap twoRecords = [
      { timestamp := some 0, inputLength := some 20, outputLength := some 5, hashIds := some [7] },
      { arrivalMs := some 4, inputLength := some 0, outputLength := some 1, hashIds := some [] }] := by
    decide +kernel
  have htrace : OrderedTrace (ofHashIds .defaults).paramsOf
      (["first", "garbled", "second"].filterMap twoRecords) := by
    refine ⟨?_, by decide +kernel, by decide +kernel⟩
    rw [hrecords]
    exact List.forall_mem_cons.2 ⟨⟨⟨20, rfl⟩, rfl, fun _ => rfl⟩,
      List.forall_mem_cons.2 ⟨⟨⟨0, rfl⟩, rfl, fun _ => rfl⟩, fun _ h => absurd h List.not_mem_nil⟩⟩
  have hpacks : ∀ record ∈ replayed (ofHashIds .defaults).paramsOf
      (["first", "garbled", "second"].filterMap twoRecords),
        record.Packs (ofHashIds .defaults).paramsOf := by
    rw [hrecords]
    refine List.forall_mem_cons.2 ⟨?_, List.forall_mem_cons.2 ⟨?_, fun _ h =>
      absurd h List.not_mem_nil⟩⟩
    · intro hids hhids n hn
      cases hhids
      obtain rfl : n = 20 := by
        have := Option.some.inj hn
        omega
      have hfits : ((7 : ℤ) + 1) * (16 : ℕ) ≤ 2 ^ 32 := by decide
      exact ⟨hfits, by decide⟩
    · intro hids hhids n hn
      cases hhids
      obtain rfl : n = 0 := by
        have := Option.some.inj hn
        omega
      exact ⟨Or.inl rfl, by decide⟩
  obtain ⟨eng₁, gen₁, hattach, -, hend⟩ := @replay_complete _ _ drawLow twoRecords
    (fun _ => "00000000") "" _ (fresh_ofHashIds .defaults) _ htrace hpacks SimulationEngine.init rfl
    (fun ev h => absurd h List.not_mem_nil) noOthers
  obtain ⟨eng₂, gen₂, t₂, hrun, -, hlen, hfile⟩ := hend
    (fun _ _ h => absurd h List.not_mem_nil) rfl () 3 (by decide +kernel)
  exact ⟨eng₁, gen₁, eng₂, gen₂, t₂, hattach, hrun, hlen, hfile⟩

theorem replay_complete_fails :
    (ofHashIds traceBlocks).Fresh ∧
      OrderedTrace (ofHashIds traceBlocks).paramsOf (["only"].filterMap largeId) ∧
      ¬ ∃ eng₁ gen₁, (attach drawLow largeId (fun _ => "00000000") "" ["only"]).run
        (SimulationEngine.init, ofHashIds traceBlocks) = .ok () (eng₁, gen₁) := by
  refine ⟨fresh_ofHashIds _, ⟨?_, by decide +kernel, by decide +kernel⟩, ?_⟩
  · refine List.forall_mem_cons.2 ⟨?_, fun _ h => absurd h List.not_mem_nil⟩
    exact ⟨⟨512, rfl⟩, rfl, fun _ => rfl⟩
  · rintro ⟨eng₁, gen₁, hrun⟩
    have herror : ((attach drawLow largeId (fun _ => "00000000") "" ["only"]).run
        (SimulationEngine.init, ofHashIds traceBlocks)).isOk = false := by decide +kernel
    rw [hrun] at herror
    cases herror

end TraceGenerator

end NanoKVRouter
