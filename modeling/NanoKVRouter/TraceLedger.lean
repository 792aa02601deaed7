/-
**The state of a replay between two calls.**

The replay is a chain through the queue of the engine: every arrival schedules the next.  So at most
one arrival is in the queue, and it is that of the next record; when none is left, the file is closed.

What is said of the engine and the generator is one invariant (`Settled`), with a second for the time
between the start of the handlers of an arrival and the call of the chain among them (`Owing`).

Main definitions:

* `OrderedTrace`, `replayed` — the records, and those that are replayed;
* `Arrivals` — events that are the arrivals of the first records, in order;
* `Ledger`, `Settled`, `Owing` — the arrivals, the file and the queue.

Main results:

* `Settled.advance_arrival` — an arrival that is taken was the only one;
* `Owing.run_scheduleNext` — `_schedule_next` puts the chain back into the queue, or closes the file;
* `Fresh.run_attach` — **attaching schedules the first arrival**.
-/

import NanoKVRouter.TraceChain
import NanoKVRouter.TraceRequests

set_option relaxedAutoImplicit false
set_option autoImplicit false

namespace NanoKVRouter

namespace TraceGenerator

/-! ### Arrivals -/

/-- The records that are replayed: all of them, or the first `max_requests`. -/
def replayed (P : ReplayParams) (records : List TraceRecord) : List TraceRecord :=
  match P.traceCfg.maxRequests with
  | none => records
  | some m => records.take m

/-- The records have the fields of their mode, and their times are not negative and do not go
back. -/
structure OrderedTrace (P : ReplayParams) (records : List TraceRecord) : Prop where
  wellFormed : ∀ record ∈ records, record.WellFormed P.traceCfg.prefixMode
  nonneg : ∀ record ∈ records, 0 ≤ record.rawArrivalMs
  sorted : records.Pairwise fun a b => a.rawArrivalMs ≤ b.rawArrivalMs

/-- The event is the arrival of the `i`-th record. -/
def ArrivalOf (P : ReplayParams) (i : ℕ) (record : TraceRecord) (ev : Event Payload) : Prop :=
  ev.time = record.rawArrivalMs / P.traceCfg.speedup ∧
    ∃ req, ev.payload = .requestArrive req ∧ MadeFrom P record req ∧ req.requestId = s!"trace-{i}"

/-- The events are the arrivals of the first records, in order. -/
structure Arrivals (P : ReplayParams) (records : List TraceRecord) (evs : List (Event Payload)) :
    Prop where
  length_le : evs.length ≤ records.length
  arrival : ∀ i record ev, records[i]? = some record → evs[i]? = some ev → ArrivalOf P i record ev

section Lists

variable {P : ReplayParams} {records : List TraceRecord} {evs : List (Event Payload)}

theorem Arrivals.nil : Arrivals P records [] :=
  ⟨Nat.zero_le _, fun i record ev _ hev => by simp at hev⟩

/-- The arrival of the next record follows the others. -/
theorem Arrivals.append (h : Arrivals P records evs) {record : TraceRecord}
    (hrecord : records[evs.length]? = some record) {ev : Event Payload}
    (hev : ArrivalOf P evs.length record ev) : Arrivals P records (evs ++ [ev]) := by
  obtain ⟨hlt, -⟩ := List.getElem?_eq_some_iff.1 hrecord
  refine ⟨by rw [List.length_append, List.length_singleton]; exact hlt, ?_⟩
  intro i record' ev' hrecord' hev'
  rcases lt_trichotomy i evs.length with hi | rfl | hi
  · rw [List.getElem?_append_left hi] at hev'
    exact h.arrival i record' ev' hrecord' hev'
  · rw [List.getElem?_concat_length] at hev'
    rw [hrecord] at hrecord'
    cases hev'
    cases hrecord'
    exact hev
  · rw [List.getElem?_eq_none (by rw [List.length_append, List.length_singleton]; omega)] at hev'
    cases hev'

theorem length_replayed_le : (replayed P records).length ≤ records.length := by
  rw [replayed]
  split
  · exact le_refl _
  · exact List.length_take_le' _ _

end Lists

/-! ### The state of a replay between the calls -/

section State

variable {ρ : Type}

/-- The arrivals that have been scheduled, and what is left of the file. -/
structure Ledger (P : ReplayParams) (loads : String → Option TraceRecord)
    (records : List TraceRecord) (gen : TraceGenerator ρ) (evs : List (Event Payload)) : Prop where
  plays : gen.Plays P
  idx : gen.idx = evs.length
  arrivals : Arrivals P (replayed P records) evs
  opened : ∀ lines, gen.file = some lines → lines.filterMap loads = records.drop evs.length
  closed : gen.file = none → evs.length = (replayed P records).length

/-- The next record, if there is one, arrives no earlier. -/
def Due (P : ReplayParams) (records : List TraceRecord) (n : ℕ) (t : Time) : Prop :=
  ∀ record ∈ (records.drop n).head?, t ≤ record.rawArrivalMs / P.traceCfg.speedup

/-- The chain is in the queue, or the file is closed.  `raised` says that a handler has raised, so
that the chain may have been lost. -/
structure Settled (P : ReplayParams) (loads : String → Option TraceRecord)
    (records : List TraceRecord) (raised : Bool) (eng : SimulationEngine Payload)
    (gen : TraceGenerator ρ) : Prop where
  ledger : Ledger P loads records gen (delivered eng ++ pending eng)
  pending_le : (pending eng).length ≤ 1
  pending_ne : raised = false → gen.file ≠ none → pending eng ≠ []
  due : ∀ ev ∈ pending eng, Due P records (delivered eng ++ pending eng).length ev.time

/-- An arrival has been taken from the queue, and the chain has not been called for it. -/
structure Owing (P : ReplayParams) (loads : String → Option TraceRecord)
    (records : List TraceRecord) (eng : SimulationEngine Payload) (gen : TraceGenerator ρ) :
    Prop where
  ledger : Ledger P loads records gen (delivered eng)
  pending_eq : pending eng = []
  due : Due P records (delivered eng).length eng.currentTime

variable {P : ReplayParams} {loads : String → Option TraceRecord} {records : List TraceRecord}
  {raised : Bool} {eng eng' : SimulationEngine Payload} {gen gen' : TraceGenerator ρ}

theorem Settled.congr (h : Settled P loads records raised eng gen)
    (hd : delivered eng' = delivered eng) (hp : pending eng' = pending eng) :
    Settled P loads records raised eng' gen := by
  obtain ⟨h₁, h₂, h₃, h₄⟩ := h
  rw [← hd, ← hp] at h₁ h₄
  rw [← hp] at h₂ h₃
  exact ⟨h₁, h₂, h₃, h₄⟩

theorem Owing.congr (h : Owing P loads records eng gen) (hd : delivered eng' = delivered eng)
    (hp : pending eng' = pending eng) (ht : eng'.currentTime = eng.currentTime) :
    Owing P loads records eng' gen := by
  obtain ⟨h₁, h₂, h₃⟩ := h
  rw [← hd] at h₁ h₃
  rw [← hp] at h₂
  rw [← ht] at h₃
  exact ⟨h₁, h₂, h₃⟩

/-- Where no arrival is pending, everything has been delivered and the file is closed. -/
theorem Settled.complete (h : Settled P loads records false eng gen) (hp : pending eng = []) :
    (delivered eng).length = (replayed P records).length ∧ gen.file = none := by
  have hclosed : gen.file = none := by
    by_contra hopen
    exact h.pending_ne rfl hopen hp
  have hlen := h.ledger.closed hclosed
  rw [hp, List.append_nil] at hlen
  exact ⟨hlen, hclosed⟩

theorem Settled.weaken (h : Settled P loads records raised eng gen) (b : Bool) :
    Settled P loads records (raised || b) eng gen :=
  ⟨h.ledger, h.pending_le, fun hr => h.pending_ne (Bool.or_eq_false_iff.1 hr).1, h.due⟩

/-- Where the chain is lost, the arrivals are still those of the first records. -/
theorem Owing.settled (h : Owing P loads records eng gen) : Settled P loads records true eng gen := by
  obtain ⟨h₁, h₂, -⟩ := h
  refine ⟨by rw [h₂, List.append_nil]; exact h₁, by rw [h₂]; exact Nat.zero_le _, ?_, ?_⟩
  · exact fun hr => absurd hr.symm Bool.false_ne_true
  · rw [h₂]
    exact fun ev hev => absurd hev List.not_mem_nil

/-- Once an arrival is taken, the chain is owed. -/
theorem Settled.advance_arrival (h : Settled P loads records raised eng gen) {ev : Event Payload}
    {rest : List (Event Payload)} (hq : eng.queue.events = ev :: rest)
    (hev : isArrival ev = true) : Owing P loads records (eng.advance ev rest hq) gen := by
  obtain ⟨hdel, hpend, honly⟩ := delivered_advance h.pending_le hq hev
  refine ⟨by rw [hdel]; exact h.ledger, hpend, ?_⟩
  rw [hdel]
  exact h.due ev (honly ▸ List.mem_singleton_self ev)

/-- The records that are still asked for are replayed. -/
theorem getElem?_replayed (hplays : gen.Plays P) (hcap : gen.capped = false) :
    (replayed P records)[gen.idx]? = records[gen.idx]? := by
  rw [capped, hplays.traceCfg] at hcap
  rw [replayed]
  cases hmax : P.traceCfg.maxRequests with
  | none => rfl
  | some m =>
      rw [hmax] at hcap
      exact List.getElem?_take_of_lt (not_le.1 (of_decide_eq_false hcap))

/-- Where no more is asked for or nothing is left, every record has been replayed. -/
theorem Ledger.length_eq {evs : List (Event Payload)} (h : Ledger P loads records gen evs)
    (hend : gen.capped = true ∨ records.drop evs.length = []) :
    evs.length = (replayed P records).length := by
  refine le_antisymm h.arrivals.length_le ?_
  rcases hend with hcap | hdrop
  · rw [capped, h.plays.traceCfg, h.idx] at hcap
    rw [replayed]
    cases hmax : P.traceCfg.maxRequests with
    | none =>
        rw [hmax] at hcap
        cases hcap
    | some m =>
        rw [hmax] at hcap
        exact (List.length_take_le _ _).trans (of_decide_eq_true hcap)
  · exact length_replayed_le.trans (List.drop_eq_nil_iff.1 hdrop)

section Chain

variable {rand : PyRandom ρ} {hexdigest : List UInt8 → String} {uuid4 : RequestId}

/-- **The next record of the file** is the one after those that have been scheduled, and it makes
the next arrival; or every record has been scheduled, and the file is closed. -/
theorem Ledger.next {evs : List (Event Payload)} (h : Ledger P loads records gen evs)
    (htrace : OrderedTrace P records) (hpacks : ∀ record ∈ replayed P records, record.Packs P)
    {lines : List String} (hfile : gen.file = some lines) :
    (∃ gen', (nextRequest rand loads hexdigest uuid4 lines).run gen = .ok none gen' ∧
      gen'.file = none ∧ Ledger P loads records gen' evs) ∨
    ∃ record req gen', records[evs.length]? = some record ∧
      (nextRequest rand loads hexdigest uuid4 lines).run gen = .ok (some req) gen' ∧
      req.arrivalTime = record.rawArrivalMs / P.traceCfg.speedup ∧
      ∀ seq, Ledger P loads records gen' (evs ++ [{ arrivalOf req with seq }]) := by
  have hopened := h.opened lines hfile
  have hwf : ∀ record ∈ lines.filterMap loads, record.WellFormed P.traceCfg.prefixMode := by
    intro record hmem
    rw [hopened] at hmem
    exact htrace.wellFormed record (List.mem_of_mem_drop hmem)
  have hpack : gen.capped = false → ∀ record ∈ (lines.filterMap loads).head?, record.Packs P := by
    intro hcap record hhead
    rw [hopened, List.head?_drop, ← h.idx, ← getElem?_replayed h.plays hcap] at hhead
    exact hpacks record (List.mem_of_getElem? hhead)
  rcases @run_nextRequest _ _ _ rand loads hexdigest uuid4 lines h.plays hwf hpack with
    ⟨hend, gen', hrun, hplays, hidx, hfile'⟩ |
    ⟨hcap, record, rest, req, gen', hcons, hrun, hplays, hidx, hfile', hmade, hid⟩
  · -- the file is closed
    rw [hopened] at hend
    refine Or.inl ⟨gen', hrun, hfile', hplays, hidx.trans h.idx, h.arrivals, ?_, ?_⟩
    · intro lines' hlines'
      rw [hfile'] at hlines'
      cases hlines'
    · exact fun _ => h.length_eq hend
  · -- the next arrival
    rw [hopened] at hcons
    have hrecord : records[evs.length]? = some record := by
      rw [← List.head?_drop, hcons, List.head?_cons]
    have hrest : rest.filterMap loads = records.drop (evs.length + 1) := by
      rw [← List.tail_drop, hcons, List.tail_cons]
    refine Or.inr ⟨record, req, gen', hrecord, hrun, hmade.arrivalTime, fun seq =>
      ⟨hplays, ?_, h.arrivals.append ?_ ⟨hmade.arrivalTime, req.toRequest, rfl, hmade, ?_⟩, ?_, ?_⟩⟩
    · rw [hidx, h.idx, List.length_append, List.length_singleton]
    · rw [← h.idx, getElem?_replayed h.plays hcap, h.idx, hrecord]
    · rw [hid, h.idx]
    · intro lines' hlines'
      rw [hfile'] at hlines'
      cases hlines'
      rw [hrest, List.length_append, List.length_singleton]
    · intro hnone
      rw [hfile'] at hnone
      cases hnone

/-- Each record arrives no earlier than the one before it. -/
theorem OrderedTrace.due (htrace : OrderedTrace P records) {n : ℕ} {record : TraceRecord}
    (hrecord : records[n]? = some record) :
    Due P records (n + 1) (record.rawArrivalMs / P.traceCfg.speedup) := by
  intro later hlater
  rw [List.head?_drop] at hlater
  obtain ⟨hlt, rfl⟩ := List.getElem?_eq_some_iff.1 hrecord
  obtain ⟨hlt', rfl⟩ := List.getElem?_eq_some_iff.1 hlater
  exact div_le_div_of_nonneg_right
    (List.pairwise_iff_getElem.1 htrace.sorted n (n + 1) hlt hlt' (Nat.lt_succ_self n))
    P.traceCfg.speedup_pos.le

/-- An open file has its next record scheduled, or it is closed. -/
theorem Owing.next (h : Owing P loads records eng gen) (htrace : OrderedTrace P records)
    (hpacks : ∀ record ∈ replayed P records, record.Packs P) {lines : List String}
    (hfile : gen.file = some lines) :
    (∃ gen', (nextRequest rand loads hexdigest uuid4 lines).run gen = .ok none gen' ∧
      Settled P loads records false eng gen') ∨
    ∃ req gen', (nextRequest rand loads hexdigest uuid4 lines).run gen = .ok (some req) gen' ∧
      ∃ hle : eng.currentTime ≤ (arrivalOf req).time,
        Settled P loads records false (eng.push (arrivalOf req) hle) gen' := by
  rcases @Ledger.next _ _ _ _ _ rand hexdigest uuid4 _ h.ledger htrace hpacks lines hfile with
    ⟨gen', hrun, hclosed, hledger⟩ | ⟨record, req, gen', hrecord, hrun, htime, hledger⟩
  · refine Or.inl ⟨gen', hrun, ?_, ?_, ?_, ?_⟩
    · rw [h.pending_eq, List.append_nil]
      exact hledger
    · rw [h.pending_eq]
      exact Nat.zero_le _
    · exact fun _ hopen => absurd hclosed hopen
    · rw [h.pending_eq]
      exact fun ev hev => absurd hev List.not_mem_nil
  · have hle : eng.currentTime ≤ (arrivalOf req).time := by
      change _ ≤ req.arrivalTime
      rw [htime]
      exact h.due record (by rw [List.head?_drop, hrecord]; rfl)
    have hpend := pending_push_arrival hle rfl h.pending_eq
    have hdel : delivered (eng.push (arrivalOf req) hle) = delivered eng := rfl
    refine Or.inr ⟨req, gen', hrun, hle, ?_, ?_, ?_, ?_⟩
    · rw [hpend, hdel]
      exact hledger _
    · rw [hpend]
      exact le_refl 1
    · rw [hpend]
      exact fun _ _ => List.cons_ne_nil _ _
    · rw [hpend, hdel]
      intro ev hev
      obtain rfl := List.mem_singleton.1 hev
      change Due P records _ req.arrivalTime
      rw [htime, List.length_append, List.length_singleton]
      exact htrace.due hrecord

/-- Once the file is closed, nothing is owed. -/
theorem Owing.settled_of_closed (h : Owing P loads records eng gen) (hfile : gen.file = none) :
    Settled P loads records false eng gen :=
  ⟨h.settled.ledger, h.settled.pending_le, fun _ hopen => absurd hfile hopen, h.settled.due⟩

/-- The events that are still to be handled, if no other is scheduled: those of the queue, and the
arrivals of the records that have not been scheduled. -/
def remaining (P : ReplayParams) (records : List TraceRecord) (eng : SimulationEngine Payload) : ℕ :=
  eng.queue.events.length + ((replayed P records).length - (delivered eng ++ pending eng).length)

/-- Pushing the next arrival leaves as much to be handled as before. -/
theorem remaining_push (hp : pending eng = []) {ev : Event Payload}
    (hle : eng.currentTime ≤ ev.time) (hev : isArrival ev = true)
    (hs : Settled P loads records raised (eng.push ev hle) gen) :
    remaining P records (eng.push ev hle) = remaining P records eng := by
  have hpend := pending_push_arrival hle hev hp
  have hdel : delivered (eng.push ev hle) = delivered eng := rfl
  have hlen := hs.ledger.arrivals.length_le
  have hqueue : (eng.push ev hle).queue.events.length = eng.queue.events.length + 1 :=
    (eng.queue.heappush_perm _).length_eq
  rw [hpend, hdel, List.length_append, List.length_singleton] at hlen
  rw [remaining, remaining, hpend, hdel, hp, hqueue, List.length_append, List.length_append,
    List.length_singleton, List.length_nil]
  omega

/-- `_schedule_next` returns, having scheduled the next arrival or nothing. -/
theorem Owing.scheduleNext_cases (h : Owing P loads records eng gen)
    (htrace : OrderedTrace P records) (hpacks : ∀ record ∈ replayed P records, record.Packs P) :
    (∃ gen', (scheduleNext rand loads hexdigest uuid4).run (eng, gen) = .ok () (eng, gen') ∧
      Settled P loads records false eng gen') ∨
    ∃ req gen', ∃ hle : eng.currentTime ≤ (arrivalOf req).time,
      (scheduleNext rand loads hexdigest uuid4).run (eng, gen) =
        .ok () (eng.push (arrivalOf req) hle, gen') ∧
      Settled P loads records false (eng.push (arrivalOf req) hle) gen' := by
  rw [scheduleNext, Py.run_get_bind]
  dsimp only
  cases hfile : gen.file with
  | none => exact Or.inl ⟨gen, rfl, h.settled_of_closed hfile⟩
  | some lines =>
      dsimp only
      rcases @Owing.next _ _ _ _ _ _ rand hexdigest uuid4 h htrace hpacks lines hfile with
        ⟨gen', hrun, hsettled⟩ | ⟨req, gen', hrun, hle, hsettled⟩
      · have hpart : (Py.onPart Prod.snd (fun gen s => (s.1, gen))
            (nextRequest rand loads hexdigest uuid4 lines)).run (eng, gen) =
              .ok none (eng, gen') := Py.run_onPart_ok hrun
        rw [Py.run_bind_ok hpart]
        exact Or.inl ⟨gen', rfl, hsettled⟩
      · have hpart : (Py.onPart Prod.snd (fun gen s => (s.1, gen))
            (nextRequest rand loads hexdigest uuid4 lines)).run (eng, gen) =
              .ok (some req) (eng, gen') := Py.run_onPart_ok hrun
        have hok : (SimulationEngine.schedule (arrivalOf req)).run eng =
            .ok () (eng.push (arrivalOf req) hle) :=
          SimulationEngine.run_schedule_ok_iff.2 ⟨hle, rfl⟩
        rw [Py.run_bind_ok hpart]
        exact Or.inr ⟨req, gen', hle, Py.run_onPart_ok hok, hsettled⟩

/-- `_schedule_next` returns, and the chain is in the queue or the file is closed. -/
theorem Owing.run_scheduleNext (h : Owing P loads records eng gen)
    (htrace : OrderedTrace P records) (hpacks : ∀ record ∈ replayed P records, record.Packs P) :
    ∃ eng' gen', (scheduleNext rand loads hexdigest uuid4).run (eng, gen) =
      .ok () (eng', gen') ∧ Settled P loads records false eng' gen' ∧
      remaining P records eng' = remaining P records eng ∧ eng'.stopped = eng.stopped := by
  rcases @Owing.scheduleNext_cases _ _ _ _ _ _ rand hexdigest uuid4 h htrace hpacks with
    ⟨gen', hrun, hsettled⟩ | ⟨req, gen', hle, hrun, hsettled⟩
  · exact ⟨eng, gen', hrun, hsettled, rfl, rfl⟩
  · exact ⟨_, gen', hrun, hsettled, remaining_push h.pending_eq hle rfl hsettled, rfl⟩

/-- The parameters of the replay of a new generator. -/
def paramsOf (gen : TraceGenerator ρ) : ReplayParams where
  config := gen.config
  traceCfg := gen.traceCfg
  synthesisVocab := (gen.synthesisModel.map PrefixSynthesisModel.vocabSize).getD 0

/-- A generator that has not been attached. -/
structure Fresh (gen : TraceGenerator ρ) : Prop where
  idx : gen.idx = 0
  attached : gen.attached = false
  model : ∀ model ∈ gen.synthesisModel, model.Valid

theorem fresh_make {config : NanoKVConfig} {traceCfg : TraceConfig}
    {synthesisModel : Option (PrefixSynthesisModel ρ)} {rng : ρ}
    (hmodel : ∀ model ∈ synthesisModel, model.Valid)
    (h : make config traceCfg synthesisModel rng = .ok gen) : gen.Fresh := by
  rw [make] at h
  split at h
  · cases h
  · cases h
    exact ⟨rfl, rfl, hmodel⟩

/-- Once the file of a new generator is opened, the first arrival is owed. -/
theorem Fresh.owing (hfresh : gen.Fresh) {lines : List String}
    (htrace : OrderedTrace gen.paramsOf (lines.filterMap loads)) (hclock : eng.currentTime = 0)
    (hdel : delivered eng = []) (hpend : pending eng = []) :
    Owing gen.paramsOf loads (lines.filterMap loads) eng
      { gen with attached := true, file := some lines } := by
  refine ⟨⟨⟨rfl, rfl, fun model hmodel => ⟨hfresh.model model hmodel, ?_⟩⟩, ?_, ?_, ?_, ?_⟩,
    hpend, ?_⟩
  · change gen.synthesisModel = some model at hmodel
    rw [paramsOf, hmodel]
    rfl
  · rw [hdel]
    exact hfresh.idx
  · rw [hdel]
    exact .nil
  · intro lines' hlines'
    cases hlines'
    rw [hdel]
    rfl
  · intro hclosed
    cases hclosed
  · intro record hrecord
    rw [hdel] at hrecord
    rw [hclock]
    exact div_nonneg (htrace.nonneg record (List.mem_of_mem_head? hrecord))
      gen.paramsOf.traceCfg.speedup_pos.le

/-- Attaching opens the file and is a call of `_schedule_next`. -/
theorem Fresh.run_attach_eq (hfresh : gen.Fresh) (lines : List String) :
    (attach rand loads hexdigest uuid4 lines).run (eng, gen) =
      (scheduleNext rand loads hexdigest uuid4).run
        (eng, { gen with attached := true, file := some lines }) := by
  rw [attach, Py.run_get_bind, hfresh.attached, if_neg Bool.false_ne_true, Py.run_modify_bind]

/-- **Attaching schedules the first arrival.** -/
theorem Fresh.run_attach (hfresh : gen.Fresh) {lines : List String}
    (htrace : OrderedTrace gen.paramsOf (lines.filterMap loads))
    (hpacks : ∀ record ∈ replayed gen.paramsOf (lines.filterMap loads),
      record.Packs gen.paramsOf)
    (hclock : eng.currentTime = 0)
    (hnone : ∀ ev ∈ eng.processed ++ eng.queue.events, isArrival ev = false) :
    ∃ eng' gen', (attach rand loads hexdigest uuid4 lines).run (eng, gen) = .ok () (eng', gen') ∧
      Settled gen.paramsOf loads (lines.filterMap loads) false eng' gen' ∧
      remaining gen.paramsOf (lines.filterMap loads) eng' =
        eng.queue.events.length + (replayed gen.paramsOf (lines.filterMap loads)).length ∧
      eng'.stopped = eng.stopped := by
  have hdel : delivered eng = [] := List.filter_eq_nil_iff.2 fun ev hev => by
    rw [hnone ev (List.mem_append_left _ hev)]
    exact Bool.false_ne_true
  have hpend : pending eng = [] := List.filter_eq_nil_iff.2 fun ev hev => by
    rw [hnone ev (List.mem_append_right _ hev)]
    exact Bool.false_ne_true
  obtain ⟨eng', gen', hrun, hsettled, hrem, hstop⟩ :=
    @Owing.run_scheduleNext _ _ _ _ _ _ rand hexdigest uuid4
      (hfresh.owing htrace hclock hdel hpend) htrace hpacks
  refine ⟨eng', gen', (hfresh.run_attach_eq lines).trans hrun, hsettled, ?_, hstop⟩
  rw [hrem, remaining, hdel, hpend]
  rfl

end Chain

end State

end TraceGenerator

end NanoKVRouter
