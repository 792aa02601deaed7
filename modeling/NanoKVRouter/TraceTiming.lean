/-
**A trace in the order of its times is replayed in time.**

The generator does not look at the times of the records it reads: it passes them on to `schedule`, one
at a time, when the arrival before is handled.  Where the times of a file do not go back and do not
start before the clock, none of these calls is for a time that is past, whatever the mode, the speedup
and the other fields of the records are, and whether or not handlers raise.

The times of the records that have not been read are an invariant of the chain: they are in order,
and no pending arrival is later than one of them.

Main definitions:

* `InOrder` — times that do not start before zero and do not go back;
* `TraceGenerator.upcoming` — the times of the arrivals that are still in the file;
* `TraceGenerator.timingInvariant` — they are in order and ahead, as an invariant of the chain;
* `TraceGenerator.ReplaysInTime` — no call of `schedule` of a replay is for a time that is past.

Main results:

* `TraceGenerator.run_nextRequest_upcoming` — the next request is the first of the upcoming times;
* `TraceGenerator.replaysInTime_of_inOrder` — **a file in the order of its times is replayed in time**.
-/

import NanoKVRouter.PyRelations
import NanoKVRouter.TraceChain
import NanoKVRouter.TraceRequests

set_option relaxedAutoImplicit false
set_option autoImplicit false

namespace NanoKVRouter

/-! ### Times -/

/-- The times do not start before zero and do not go back. -/
structure InOrder (times : List ℚ) : Prop where
  nonneg : ∀ t ∈ times, 0 ≤ t
  sorted : times.Pairwise (· ≤ ·)

instance (times : List ℚ) : Decidable (InOrder times) :=
  decidable_of_iff ((∀ t ∈ times, 0 ≤ t) ∧ times.Pairwise (· ≤ ·))
    ⟨fun h => ⟨h.1, h.2⟩, fun h => ⟨h.nonneg, h.sorted⟩⟩

theorem InOrder.div {times : List ℚ} (h : InOrder times) {speedup : ℚ} (hpos : 0 < speedup) :
    InOrder (times.map (· / speedup)) := by
  refine ⟨List.forall_mem_map.2 fun t ht => div_nonneg (h.nonneg t ht) hpos.le, ?_⟩
  exact h.sorted.map _ fun a b hab => div_le_div_of_nonneg_right hab hpos.le

namespace TraceGenerator

variable {ρ τ : Type}

/-! ### The next request -/

section Next

/-- What the chain sees of the generator is this. -/
structure HasBook (file : Option (List String)) (traceCfg : TraceConfig) (gen : TraceGenerator ρ) :
    Prop where
  file : gen.file = file
  traceCfg : gen.traceCfg = traceCfg

variable {rand : PyRandom ρ} {loads : String → Option TraceRecord}
  {hexdigest : List UInt8 → String} {uuid4 : RequestId} {gen gen' : TraceGenerator ρ}
  {record : TraceRecord} {file : Option (List String)} {traceCfg : TraceConfig}

theorem keeps_onRng {α : Type} (m : Py ρ α) :
    (onRng m).Keeps (HasBook (ρ := ρ) file traceCfg) := by
  refine Py.Keeps.onPart (Q := fun _ => True) (fun _ _ => trivial) (fun _ _ => trivial) ?_
  exact fun _ _ h _ => ⟨h.file, h.traceCfg⟩

theorem keeps_require {α : Type} (field : String) (value : Option α) :
    (TraceRecord.require (σ := TraceGenerator ρ) field value).Keeps (HasBook file traceCfg) := by
  cases value with
  | none => exact Py.Keeps.raise _
  | some a => exact Py.Keeps.pure a

theorem keeps_assertLength (tokens : List Token) (inputLength : ℤ) :
    (assertLength (σ := TraceGenerator ρ) tokens inputLength).Keeps (HasBook file traceCfg) := by
  rw [assertLength]
  split
  · exact Py.Keeps.pure _
  · exact Py.Keeps.raise _

theorem keeps_structPack (toks : List Token) :
    (structPack (σ := TraceGenerator ρ) toks).Keeps (HasBook file traceCfg) := by
  induction toks with
  | nil => exact Py.Keeps.pure _
  | cons tok toks ih =>
      rw [structPack]
      split
      · exact Py.Keeps.bind (Py.Keeps.raise _) fun _ => ih.bind fun _ => Py.Keeps.pure _
      · exact ih.bind fun _ => Py.Keeps.pure _

theorem keeps_makeRequest (tokenIds : List Token) (arrivalTime : Time) (config : NanoKVConfig)
    (priority : ℤ) (expectedOutputLen : Option ℤ) :
    (makeRequest (σ := TraceGenerator ρ) hexdigest uuid4 tokenIds arrivalTime config priority
      expectedOutputLen).Keeps (HasBook file traceCfg) :=
  ((keeps_structPack _).bind fun _ => Py.Keeps.pure _).bind fun _ => Py.Keeps.pure _

theorem keeps_buildTokenIdsFromRecord (rand : PyRandom ρ) (record : TraceRecord) :
    (buildTokenIdsFromRecord rand record).Keeps (HasBook file traceCfg) := by
  refine Py.Keeps.get.bind fun gen => (keeps_require _ _).bind fun inputLength => ?_
  dsimp only
  split
  · exact (keeps_onRng _).bind fun _ => keeps_assertLength _ _
  · split
    · exact Py.Keeps.raise _
    · exact keeps_onRng _
  · refine Py.Keeps.bind (Py.Keeps.onPart (Q := fun _ => True) (fun _ _ => trivial)
      (fun _ _ => trivial) ?_) fun _ => (keeps_onRng _).bind fun _ => keeps_assertLength _ _
    exact fun _ _ h _ => ⟨h.file, h.traceCfg⟩

theorem keeps_requestOf (rand : PyRandom ρ) (record : TraceRecord) :
    (requestOf rand hexdigest uuid4 record).Keeps (HasBook file traceCfg) :=
  Py.Keeps.get.bind fun _ => (keeps_buildTokenIdsFromRecord rand record).bind fun _ =>
    (keeps_require _ _).bind fun _ => keeps_makeRequest _ _ _ _ _

/-- The request of a record arrives at the time of the record. -/
theorem arrivalTime_requestOf {req : StampedRequest}
    (h : (requestOf rand hexdigest uuid4 record).run gen = .ok req gen') :
    req.arrivalTime = record.rawArrivalMs / gen.traceCfg.speedup := by
  rw [requestOf, Py.run_get_bind] at h
  obtain ⟨tokenIds, gen₁, -, h⟩ := Py.bind_eq_ok.1 h
  obtain ⟨expectedOutputLen, gen₂, -, h⟩ := Py.bind_eq_ok.1 h
  obtain ⟨prefixHash, gen₃, -, h⟩ := Py.bind_eq_ok.1 h
  cases h
  rfl

theorem run_closing_error {α : Type} {m : Py (TraceGenerator ρ) α} {e : PyErr}
    (h : m.run gen = .error e gen') : (closing m).run gen = .error e gen'.close := by
  change m gen = _ at h
  simp only [closing, EStateM.run, h]

/-- The times of the arrivals that are still in the file. -/
def upcoming (loads : String → Option TraceRecord) (gen : TraceGenerator ρ) : List ℚ :=
  match gen.file with
  | none => []
  | some lines =>
      (lines.filterMap loads).map fun record => record.rawArrivalMs / gen.traceCfg.speedup

theorem upcoming_of_file {lines : List String} (h : gen.file = some lines) :
    upcoming loads gen =
      (lines.filterMap loads).map fun record => record.rawArrivalMs / gen.traceCfg.speedup := by
  rw [upcoming, h]

theorem HasBook.upcoming_eq (h : HasBook gen'.file gen'.traceCfg gen) :
    upcoming loads gen = upcoming loads gen' := by
  rw [upcoming, upcoming, h.file, h.traceCfg]

/-- **The next request is the first of the upcoming times**, and leaves the others; or there are no
upcoming times any more. -/
theorem run_nextRequest_upcoming (lines : List String) (hfile : gen.file = some lines) :
    match (nextRequest rand loads hexdigest uuid4 lines).run gen with
    | .ok none gen' => upcoming loads gen' = []
    | .ok (some req) gen' => upcoming loads gen = req.arrivalTime :: upcoming loads gen'
    | .error _ gen' => upcoming loads gen' = [] := by
  induction lines generalizing gen with
  | nil => rfl
  | cons line rest ih =>
      rw [nextRequest, Py.run_get_bind]
      cases gen.capped with
      | true => rfl
      | false =>
          rw [if_neg Bool.false_ne_true, Py.run_modify_bind]
          obtain ⟨gen₁, hgen₁⟩ : ∃ gen₁ : TraceGenerator ρ,
            gen₁ = { gen with file := some rest } := ⟨_, rfl⟩
          have hfile₁ : gen₁.file = some rest := by rw [hgen₁]
          have hcfg₁ : gen₁.traceCfg = gen.traceCfg := by rw [hgen₁]
          rw [← hgen₁]
          rw [upcoming_of_file hfile, ← hcfg₁]
          cases hload : loads line with
          | none =>
              rw [List.filterMap_cons_none hload, ← upcoming_of_file hfile₁]
              exact ih hfile₁
          | some record =>
              rw [List.filterMap_cons_some hload, List.map_cons, ← upcoming_of_file hfile₁]
              dsimp only
              cases hreq : (requestOf rand hexdigest uuid4 record).run gen₁ with
              | error e gen₂ =>
                  rw [Py.run_bind_error (run_closing_error hreq)]
                  rfl
              | ok req gen₂ =>
                  have hbook := @keeps_requestOf _ hexdigest uuid4 gen₁.file gen₁.traceCfg rand
                    record gen₁ ⟨rfl, rfl⟩
                  rw [hreq] at hbook
                  rw [Py.run_bind_ok (run_closing_ok hreq), Py.run_get_bind, Py.run_modify_bind,
                    ← arrivalTime_requestOf hreq, ← hbook.upcoming_eq]
                  rfl

end Next

/-! ### Upcoming arrivals are ahead -/

section Ahead

/-- The upcoming times are in order, and none is before the time. -/
structure Ahead (loads : String → Option TraceRecord) (gen : TraceGenerator ρ)
    (eng : SimulationEngine Payload) : Prop where
  sorted : (upcoming loads gen).Pairwise (· ≤ ·)
  pending_le : ∀ ev ∈ pending eng, ∀ t ∈ upcoming loads gen, ev.time ≤ t

variable {loads : String → Option TraceRecord} {gen gen' : TraceGenerator ρ}
  {eng eng' : SimulationEngine Payload}

theorem Ahead.congr (h : Ahead loads gen eng) (hp : pending eng' = pending eng) :
    Ahead loads gen eng' := ⟨h.sorted, by rw [hp]; exact h.pending_le⟩

/-- Once nothing is left in the file, nothing can be late. -/
theorem Ahead.of_upcoming (h : upcoming loads gen = []) : Ahead loads gen eng := by
  refine ⟨by rw [h]; exact List.Pairwise.nil, ?_⟩
  rw [h]
  exact fun _ _ _ ht => absurd ht List.not_mem_nil

theorem mem_pending_push {ev a : Event Payload} (hle : eng.currentTime ≤ ev.time)
    (h : a ∈ pending (eng.push ev hle)) : a = { ev with seq := eng.seqCounter } ∨ a ∈ pending eng := by
  obtain ⟨hmem, harr⟩ := List.mem_filter.1 h
  rcases EventQueue.mem_heappush.1 hmem with rfl | hmem
  · exact Or.inl rfl
  · exact Or.inr (List.mem_filter.2 ⟨hmem, harr⟩)

/-- The arrival that is taken from the queue is before the upcoming ones. -/
theorem Ahead.advance (h : Ahead loads gen eng) {ev : Event Payload} {rest : List (Event Payload)}
    (hq : eng.queue.events = ev :: rest) (hev : isArrival ev = true) :
    Ahead loads gen (eng.advance ev rest hq) ∧ ∀ t ∈ upcoming loads gen, ev.time ≤ t := by
  have hpend : pending eng = ev :: pending (eng.advance ev rest hq) := by
    rw [pending, hq, List.filter_cons_of_pos hev]
    rfl
  refine ⟨⟨h.sorted, fun a ha => h.pending_le a ?_⟩, h.pending_le ev ?_⟩
  · rw [hpend]
    exact List.mem_cons_of_mem _ ha
  · rw [hpend]
    exact List.mem_cons_self

/-- The next arrival goes from the file to the queue. -/
theorem Ahead.push (h : Ahead loads gen eng) {ev : Event Payload}
    (hnext : upcoming loads gen = ev.time :: upcoming loads gen')
    (hle : eng.currentTime ≤ ev.time) : Ahead loads gen' (eng.push ev hle) := by
  obtain ⟨hsorted, hpending⟩ := h
  rw [hnext] at hsorted hpending
  obtain ⟨hfirst, hrest⟩ := List.pairwise_cons.1 hsorted
  refine ⟨hrest, fun a ha t ht => ?_⟩
  rcases mem_pending_push hle ha with rfl | ha
  · exact hfirst t ht
  · exact hpending a ha t (List.mem_cons_of_mem _ ht)

variable (rand : PyRandom ρ) (loads) (hexdigest : List UInt8 → String) (uuid4 : RequestId)

/-- **The upcoming arrivals are ahead**, as an invariant of the chain. -/
def timingInvariant : ChainInvariant rand loads hexdigest uuid4 where
  settled := fun _ eng gen => Ahead loads gen eng
  owing := fun eng gen => Ahead loads gen eng ∧ ∀ t ∈ upcoming loads gen, eng.currentTime ≤ t
  settled_congr := fun h _ hp => h.congr hp
  owing_congr := fun h _ hp ht => ⟨h.1.congr hp, by rw [ht]; exact h.2⟩
  weaken := fun _ h => h
  lost := fun h => h.1
  take := fun hq h hev => h.advance hq hev
  closed := fun h _ => h.1
  next := fun {eng gen lines} h hfile => by
    have hnext := @run_nextRequest_upcoming _ rand loads hexdigest uuid4 gen lines hfile
    cases hrun : (nextRequest rand loads hexdigest uuid4 lines).run gen with
    | error e gen' =>
        rw [hrun] at hnext
        exact .of_upcoming hnext
    | ok next gen' =>
        rw [hrun] at hnext
        cases next with
        | none => exact .of_upcoming hnext
        | some req =>
            have hle : eng.currentTime ≤ (arrivalOf req).time :=
              h.2 _ (hnext ▸ List.mem_cons_self)
            exact ⟨hle, h.1.push hnext hle⟩

variable {rand hexdigest uuid4 loads}

/-- After `_schedule_next` the upcoming arrivals are ahead, whether it returned or raised. -/
theorem Ahead.run_scheduleNext (h : Ahead loads gen eng)
    (hnow : ∀ t ∈ upcoming loads gen, eng.currentTime ≤ t) {lines : List String}
    (hfile : gen.file = some lines) {s : SimulationEngine Payload × TraceGenerator ρ}
    (hs : s = ((scheduleNext rand loads hexdigest uuid4).run (eng, gen)).state) :
    Ahead loads s.2 s.1 := by
  have hnext := (timingInvariant loads rand hexdigest uuid4).next ⟨h, hnow⟩ hfile
  rw [scheduleNext, Py.run_get_bind] at hs
  simp only [hfile] at hs
  cases hrun : (nextRequest rand loads hexdigest uuid4 lines).run gen with
  | error e gen' =>
      rw [hrun] at hnext
      have hpart : (Py.onPart Prod.snd (fun gen s => (s.1, gen))
          (nextRequest rand loads hexdigest uuid4 lines)).run (eng, gen) =
            .error e (eng, gen') := Py.run_onPart_error hrun
      rw [Py.run_bind_error hpart] at hs
      rw [hs]
      exact hnext
  | ok next gen' =>
      rw [hrun] at hnext
      have hpart : (Py.onPart Prod.snd (fun gen s => (s.1, gen))
          (nextRequest rand loads hexdigest uuid4 lines)).run (eng, gen) =
            .ok next (eng, gen') := Py.run_onPart_ok hrun
      rw [Py.run_bind_ok hpart] at hs
      cases next with
      | none =>
          rw [hs]
          exact hnext
      | some req =>
          obtain ⟨hle, hsettled⟩ := hnext
          have hok : (SimulationEngine.schedule (arrivalOf req)).run eng =
              .ok () (eng.push (arrivalOf req) hle) :=
            SimulationEngine.run_schedule_ok_iff.2 ⟨hle, rfl⟩
          dsimp only at hs
          rw [Py.run_onPart_ok hok] at hs
          rw [hs]
          exact hsettled

end Ahead

/-! ### Replays in time -/

/-- A generator that has been opened on a file. -/
def opened (gen : TraceGenerator ρ) (lines : List String) : TraceGenerator ρ :=
  { gen with attached := true, file := some lines }

/-- **The file is replayed in time**, by every generator, in every mode and with every speedup, that
is attached to an engine without arrivals before the clock moves: the call of `schedule` of `attach`
does not raise, and neither does one for an arrival in any run from there, beside handlers and a user
that schedule no arrivals. -/
structure ReplaysInTime (loads : String → Option TraceRecord) (lines : List String) : Prop where
  attach : ∀ {ρ : Type} (rand : PyRandom ρ) (hexdigest : List UInt8 → String) (uuid4 : RequestId)
    (gen : TraceGenerator ρ) (eng : SimulationEngine Payload), gen.attached = false →
    eng.currentTime = 0 → pending eng = [] → ∀ req gen',
    (nextRequest rand loads hexdigest uuid4 lines).run (gen.opened lines) = .ok (some req) gen' →
    ∃ eng', (SimulationEngine.schedule (arrivalOf req)).run eng = .ok () eng'
  chain : ∀ {ρ τ : Type} (rand : PyRandom ρ) (hexdigest : List UInt8 → String) (uuid4 : RequestId)
    (gen : TraceGenerator ρ) (eng : SimulationEngine Payload), gen.attached = false →
    eng.currentTime = 0 → pending eng = [] → ∀ (others : Others ρ τ)
    (c₁ : EngineRun Payload (TraceGenerator ρ × τ)), c₁.control = .caller →
    (c₁.engine, c₁.state.1) =
      ((TraceGenerator.attach rand loads hexdigest uuid4 lines).run (eng, gen)).state →
    ∀ raised c, Run (others.handlers rand loads hexdigest uuid4) c₁ raised c → ∀ ev next ps,
    c.control = .handling (.schedule ev next :: ps) → isArrival ev = true →
    ∃ eng', (SimulationEngine.schedule ev).run c.engine = .ok () eng'

/-- **A file in the order of its times is replayed in time.** -/
theorem replaysInTime_of_inOrder {loads : String → Option TraceRecord} {lines : List String}
    (h : InOrder ((lines.filterMap loads).map TraceRecord.rawArrivalMs)) :
    ReplaysInTime loads lines := by
  have hahead : ∀ {ρ : Type} (gen : TraceGenerator ρ) (eng : SimulationEngine Payload),
      eng.currentTime = 0 → pending eng = [] → Ahead loads (gen.opened lines) eng ∧
        ∀ t ∈ upcoming loads (gen.opened lines), eng.currentTime ≤ t := by
    intro ρ gen eng hclock hpend
    obtain ⟨hnonneg, hsorted⟩ := h.div gen.traceCfg.speedup_pos
    rw [List.map_map] at hnonneg hsorted
    refine ⟨⟨hsorted, ?_⟩, ?_⟩
    · rw [hpend]
      exact fun ev hev => absurd hev List.not_mem_nil
    · rw [hclock]
      exact hnonneg
  constructor
  · intro ρ rand hexdigest uuid4 gen eng _ hclock hpend req gen' hrun
    obtain ⟨-, hnow⟩ := hahead gen eng hclock hpend
    have hnext := @run_nextRequest_upcoming _ rand loads hexdigest uuid4 (gen.opened lines) lines rfl
    rw [hrun] at hnext
    have hle : eng.currentTime ≤ (arrivalOf req).time := hnow _ (hnext ▸ List.mem_cons_self)
    exact ⟨_, SimulationEngine.run_schedule_ok_iff.2 ⟨hle, rfl⟩⟩
  · intro ρ τ rand hexdigest uuid4 gen eng hattached hclock hpend others c₁ hcaller hc₁ raised c hrun
      ev next ps hc hev
    obtain ⟨hopened, hnow⟩ := hahead gen eng hclock hpend
    rw [TraceGenerator.attach, Py.run_get_bind, hattached, if_neg Bool.false_ne_true,
      Py.run_modify_bind] at hc₁
    have hsettled : Ahead loads c₁.state.1 c₁.engine :=
      Ahead.run_scheduleNext hopened hnow rfl hc₁
    have hphase : Phase rand loads hexdigest uuid4
        (timingInvariant loads rand hexdigest uuid4) raised c := by
      refine hrun.phase (.settled hsettled fun ps hps => ?_)
      cases hcaller.symm.trans hps
    have hle := hphase.on_time hc hev
    exact ⟨_, SimulationEngine.run_schedule_ok_iff.2 ⟨hle, rfl⟩⟩

end TraceGenerator

end NanoKVRouter
