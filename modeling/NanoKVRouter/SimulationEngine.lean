/-
**The discrete-event engine.**

The engine keeps the scheduled events in a priority queue ordered by time and, among events of one
time, by the sequence number it hands out at scheduling; its loop takes the least event, moves the
clock to it and calls the handlers registered for it.  The heap of the source is represented by
the one list a correct priority queue stands for: the scheduled events in order.

The engine does not look into the payload of an event, so this module is generic in it, and in the
state the handlers work on beside the engine.

Main definitions:

* `Event`, `EventQueue` — a time-stamped event, and the events in order;
* `SimulationEngine` — the queue, the clock and the counter; no event of the queue is in the past;
* `SimulationEngine.schedule`, `SimulationEngine.stop` — the calls a handler makes;
* `SimulationEngine.turn`, `SimulationEngine.runLoop` — the loop of `run`;
* `SimulationEngine.EndsAfter` — the loop ends after a number of events.

Main results:

* `EventQueue.heappush_perm` — pushing adds one event and changes no other;
* `SimulationEngine.run_schedule_ok_iff` — what a call of `schedule` that returned did;
* `SimulationEngine.run_turn_cons` — a turn handles the first event, at its own time;
* `SimulationEngine.endsAfter_of_measure` — a loop whose turns decrease a measure ends.
-/

import NanoKVRouter.Config
import NanoKVRouter.PyState
import Mathlib.Data.List.Sort

set_option relaxedAutoImplicit false
set_option autoImplicit false

namespace NanoKVRouter

/-- A single time-stamped event. -/
structure Event (π : Type) where
  time : Time
  seq : ℕ := 0
  payload : π
deriving DecidableEq

namespace Event

variable {π : Type}

/-- The order of the queue: by time, then by sequence number. -/
def notAfter (a b : Event π) : Prop := a.time < b.time ∨ (a.time = b.time ∧ a.seq ≤ b.seq)

instance : DecidableRel (notAfter (π := π)) := fun a b =>
  inferInstanceAs (Decidable (a.time < b.time ∨ (a.time = b.time ∧ a.seq ≤ b.seq)))

theorem notAfter.time_le {a b : Event π} (h : a.notAfter b) : a.time ≤ b.time := by
  rcases h with h | ⟨h, -⟩
  · exact h.le
  · exact h.le

instance : IsTrans (Event π) notAfter where
  trans a b c hab hbc := by
    rcases hab with hab | ⟨hab, hs⟩ <;> rcases hbc with hbc | ⟨hbc, hs'⟩
    · exact Or.inl (hab.trans hbc)
    · exact Or.inl (hbc ▸ hab)
    · exact Or.inl (hab ▸ hbc)
    · exact Or.inr ⟨hab.trans hbc, hs.trans hs'⟩

instance : Std.Total (notAfter (π := π)) where
  total a b := by
    rcases lt_trichotomy a.time b.time with h | h | h
    · exact Or.inl (Or.inl h)
    · rcases le_total a.seq b.seq with hs | hs
      · exact Or.inl (Or.inr ⟨h, hs⟩)
      · exact Or.inr (Or.inr ⟨h.symm, hs⟩)
    · exact Or.inr (Or.inl h)

end Event

/-! ### The queue -/

/-- The scheduled events, in the order in which they are taken. -/
structure EventQueue (π : Type) where
  events : List (Event π)
  sorted : events.Pairwise Event.notAfter

namespace EventQueue

variable {π : Type}

/-- The empty queue. -/
def empty : EventQueue π := ⟨[], List.Pairwise.nil⟩

@[simp] theorem events_empty : (empty : EventQueue π).events = [] := rfl

/-- `heapq.heappush`. -/
def heappush (q : EventQueue π) (ev : Event π) : EventQueue π where
  events := q.events.orderedInsert Event.notAfter ev
  sorted := q.sorted.orderedInsert ev q.events

/-- Pushing adds one event and changes no other. -/
theorem heappush_perm (q : EventQueue π) (ev : Event π) :
    (q.heappush ev).events.Perm (ev :: q.events) :=
  List.perm_orderedInsert _ ev q.events

@[simp] theorem mem_heappush {q : EventQueue π} {ev a : Event π} :
    a ∈ (q.heappush ev).events ↔ a = ev ∨ a ∈ q.events :=
  List.mem_orderedInsert _

/-- Counting the events of a queue that has one more. -/
theorem countP_heappush (q : EventQueue π) (ev : Event π) (p : Event π → Bool) :
    (q.heappush ev).events.countP p = q.events.countP p + if p ev then 1 else 0 := by
  rw [(q.heappush_perm ev).countP_eq, List.countP_cons]

/-- Pushing another event leaves the events of a kind as they are. -/
theorem filter_heappush_of_neg (q : EventQueue π) {ev : Event π} {p : Event π → Bool}
    (h : p ev = false) : (q.heappush ev).events.filter p = q.events.filter p := by
  obtain ⟨events, hs⟩ := q
  change (events.orderedInsert Event.notAfter ev).filter p = events.filter p
  clear hs
  induction events with
  | nil => simp [h]
  | cons a events ih =>
      rw [List.orderedInsert_cons]
      split
      · rw [List.filter_cons_of_neg (by simp [h])]
      · rw [List.filter_cons, List.filter_cons, ih]

/-- An event that comes after the others of its kind is pushed behind them. -/
theorem filter_heappush_of_last (q : EventQueue π) {ev : Event π} {p : Event π → Bool}
    (hp : p ev = true) (h : ∀ a ∈ q.events, p a = true → ¬ ev.notAfter a) :
    (q.heappush ev).events.filter p = q.events.filter p ++ [ev] := by
  obtain ⟨events, hs⟩ := q
  change (events.orderedInsert Event.notAfter ev).filter p = events.filter p ++ [ev]
  change ∀ a ∈ events, p a = true → ¬ ev.notAfter a at h
  induction events with
  | nil => simp [hp]
  | cons a events ih =>
      rw [List.orderedInsert_cons]
      split
      · -- everything from here on comes after the event
        rename_i hle
        have hnone : (a :: events).filter p = [] := by
          rw [List.filter_eq_nil_iff]
          intro b hb hpb
          refine h b hb hpb ?_
          rcases List.mem_cons.1 hb with rfl | hb
          · exact hle
          · exact IsTrans.trans _ _ _ hle ((List.pairwise_cons.1 hs).1 b hb)
        rw [List.filter_cons_of_pos hp, hnone]
        rfl
      · have hih := ih (List.pairwise_cons.1 hs).2 fun b hb => h b (List.mem_cons_of_mem _ hb)
        rw [List.filter_cons, List.filter_cons, hih]
        split <;> rfl

end EventQueue

/-! ### The engine -/

/-- The engine.  `processed` is a history variable, which nothing reads: the events taken from the
queue so far, the oldest first.  `timely` says that no scheduled event is in the past. -/
structure SimulationEngine (π : Type) where
  queue : EventQueue π
  currentTime : Time
  seqCounter : ℕ
  stopped : Bool
  processed : List (Event π)
  timely : ∀ ev ∈ queue.events, currentTime ≤ ev.time

namespace SimulationEngine

variable {π σ : Type}

/-- A fresh engine. -/
def init : SimulationEngine π where
  queue := EventQueue.empty
  currentTime := 0
  seqCounter := 0
  stopped := false
  processed := []
  timely := by simp

/-- Current simulated time. -/
def now (eng : SimulationEngine π) : Time := eng.currentTime

/-- The engine with `ev` in the queue, under the sequence number of the engine. -/
def push (eng : SimulationEngine π) (ev : Event π) (h : eng.currentTime ≤ ev.time) :
    SimulationEngine π :=
  { eng with
    queue := eng.queue.heappush { ev with seq := eng.seqCounter }
    seqCounter := eng.seqCounter + 1
    timely := by
      intro a ha
      rcases EventQueue.mem_heappush.1 ha with rfl | ha
      · exact h
      · exact eng.timely a ha }

/-- Add an event to the queue.  Whatever `seq` the caller set is overwritten. -/
def schedule (ev : Event π) : Py (SimulationEngine π) Unit := do
  let eng ← get
  if h : ev.time < eng.currentTime then
    Py.raise (.valueError
      s!"cannot schedule event at past time {ev.time} < now {eng.currentTime}")
  else
    set (eng.push ev (not_lt.1 h))

/-- Signal the engine to exit after the current event's handlers finish. -/
def stop : Py (SimulationEngine π) Unit :=
  modify fun eng => { eng with stopped := true }

/-- The engine that has taken the first event of its queue, at the time of that event. -/
def advance (eng : SimulationEngine π) (ev : Event π) (rest : List (Event π))
    (h : eng.queue.events = ev :: rest) : SimulationEngine π :=
  have hsorted : (ev :: rest).Pairwise Event.notAfter := h ▸ eng.queue.sorted
  { eng with
    queue := ⟨rest, (List.pairwise_cons.1 hsorted).2⟩
    currentTime := ev.time
    processed := eng.processed ++ [ev]
    timely := fun a ha => ((List.pairwise_cons.1 hsorted).1 a ha).time_le }

/-- Take the first event of the queue, if there is one, and move the clock to it. -/
def take (eng : SimulationEngine π) : Option (Event π × SimulationEngine π) :=
  match h : eng.queue.events with
  | [] => none
  | ev :: rest => some (ev, eng.advance ev rest h)

/-- The handlers registered for an event, in registration order. -/
abbrev Handlers (π σ : Type) : Type :=
  Event π → List (Event π → Py (SimulationEngine π × σ) Unit)

/-- One turn of the loop of `run`: take the first event and call its handlers. -/
def turn (handlers : Handlers π σ) : Py (SimulationEngine π × σ) Unit := do
  let s ← get
  match s.1.take with
  | none => pure ()
  | some (ev, eng) =>
      set (eng, s.2)
      (handlers ev).forM fun handler => handler ev

/-- `run`: turns until the queue is empty or the engine is stopped. -/
def runLoop (handlers : Handlers π σ) : ℕ → Py (SimulationEngine π × σ) Unit
  | 0 => Py.raise .outOfFuel
  | fuel + 1 => do
      let s ← get
      if s.1.queue.events ≠ [] ∧ s.1.stopped = false then
        turn handlers
        runLoop handlers fuel
      else
        pure ()

/-! ### What the calls do -/

@[simp] theorem push_queue (eng : SimulationEngine π) (ev : Event π) (h) :
    (eng.push ev h).queue = eng.queue.heappush { ev with seq := eng.seqCounter } := rfl

@[simp] theorem push_processed (eng : SimulationEngine π) (ev : Event π) (h) :
    (eng.push ev h).processed = eng.processed := rfl

@[simp] theorem push_stopped (eng : SimulationEngine π) (ev : Event π) (h) :
    (eng.push ev h).stopped = eng.stopped := rfl

@[simp] theorem push_currentTime (eng : SimulationEngine π) (ev : Event π) (h) :
    (eng.push ev h).currentTime = eng.currentTime := rfl

@[simp] theorem advance_events (eng : SimulationEngine π) (ev : Event π) (rest) (h) :
    (eng.advance ev rest h).queue.events = rest := rfl

@[simp] theorem advance_processed (eng : SimulationEngine π) (ev : Event π) (rest) (h) :
    (eng.advance ev rest h).processed = eng.processed ++ [ev] := rfl

@[simp] theorem advance_stopped (eng : SimulationEngine π) (ev : Event π) (rest) (h) :
    (eng.advance ev rest h).stopped = eng.stopped := rfl

@[simp] theorem advance_currentTime (eng : SimulationEngine π) (ev : Event π) (rest) (h) :
    (eng.advance ev rest h).currentTime = ev.time := rfl

/-- The sequence numbers of the queue have been handed out. -/
def Numbered (eng : SimulationEngine π) : Prop := ∀ ev ∈ eng.queue.events, ev.seq < eng.seqCounter

theorem Numbered.push {eng : SimulationEngine π} (hn : eng.Numbered) (ev : Event π) (h) :
    (eng.push ev h).Numbered := by
  intro a ha
  rw [push_queue, EventQueue.mem_heappush] at ha
  rcases ha with rfl | ha
  · exact Nat.lt_succ_self _
  · exact Nat.lt_succ_of_lt (hn a ha)

theorem Numbered.advance {eng : SimulationEngine π} (hn : eng.Numbered) {ev : Event π}
    {rest : List (Event π)} (h : eng.queue.events = ev :: rest) :
    (eng.advance ev rest h).Numbered := fun a ha => hn a (h ▸ List.mem_cons_of_mem _ ha)

/-- A call of `schedule` with a time in the past raises. -/
theorem run_schedule_error {ev : Event π} {eng : SimulationEngine π}
    (h : ev.time < eng.currentTime) : (schedule ev).run eng = .error (.valueError
      s!"cannot schedule event at past time {ev.time} < now {eng.currentTime}") eng := by
  rw [schedule, Py.run_get_bind, dif_pos h]
  rfl

/-- A call of `schedule` that returned pushed its event, which was not in the past. -/
theorem run_schedule_ok_iff {ev : Event π} {eng eng' : SimulationEngine π} {u : Unit} :
    (schedule ev).run eng = .ok u eng' ↔
      ∃ h : eng.currentTime ≤ ev.time, eng' = eng.push ev h := by
  by_cases h : ev.time < eng.currentTime
  · have hrun := run_schedule_error h
    rw [hrun]
    constructor
    · intro hc
      cases hc
    · rintro ⟨hle, -⟩
      exact absurd hle (not_le.2 h)
  · have hrun : (schedule ev).run eng = .ok () (eng.push ev (not_lt.1 h)) := by
      rw [schedule, Py.run_get_bind, dif_neg h]
      rfl
    rw [hrun]
    constructor
    · intro hc
      cases hc
      exact ⟨not_lt.1 h, rfl⟩
    · rintro ⟨-, rfl⟩
      rfl

theorem take_nil {eng : SimulationEngine π} (h : eng.queue.events = []) : eng.take = none := by
  unfold take
  split
  · rfl
  · rename_i ev rest hcons
    rw [h] at hcons
    cases hcons

theorem take_cons {eng : SimulationEngine π} {ev : Event π} {rest : List (Event π)}
    (h : eng.queue.events = ev :: rest) : eng.take = some (ev, eng.advance ev rest h) := by
  unfold take
  split
  · rename_i hnil
    rw [h] at hnil
    cases hnil
  · rename_i ev' rest' hcons
    have heq : ev :: rest = ev' :: rest' := h.symm.trans hcons
    cases heq
    rfl

/-- A turn on an empty queue does nothing. -/
theorem run_turn_nil (handlers : Handlers π σ) {s : SimulationEngine π × σ}
    (h : s.1.queue.events = []) : (turn handlers).run s = .ok () s := by
  rw [turn, Py.run_get_bind, take_nil h]
  rfl

/-- A turn handles the first event, at its own time. -/
theorem run_turn_cons (handlers : Handlers π σ) {s : SimulationEngine π × σ} {ev : Event π}
    {rest : List (Event π)} (h : s.1.queue.events = ev :: rest) :
    (turn handlers).run s =
      ((handlers ev).forM fun handler => handler ev).run (s.1.advance ev rest h, s.2) := by
  rw [turn, Py.run_get_bind, take_cons h]
  rfl

/-! ### The end of the loop -/

/-- The loop of `run` handles `n` events from the state: then the queue is empty, or handling one
more event raises. -/
inductive EndsAfter (handlers : Handlers π σ) : ℕ → SimulationEngine π × σ → Prop
  | drained {s : SimulationEngine π × σ} (hq : s.1.queue.events = []) : EndsAfter handlers 0 s
  | raised {s s' : SimulationEngine π × σ} {e : PyErr} (hq : s.1.queue.events ≠ [])
      (hs : s.1.stopped = false) (hrun : (turn handlers).run s = .error e s') :
      EndsAfter handlers 0 s
  | turn {n : ℕ} {s s' : SimulationEngine π × σ} (hq : s.1.queue.events ≠ [])
      (hs : s.1.stopped = false) (hrun : (turn handlers).run s = .ok () s')
      (hrest : EndsAfter handlers n s') : EndsAfter handlers (n + 1) s

theorem run_runLoop_succ (handlers : Handlers π σ) (fuel : ℕ) {s : SimulationEngine π × σ}
    (hq : s.1.queue.events ≠ []) (hs : s.1.stopped = false) :
    (runLoop handlers (fuel + 1)).run s =
      (turn handlers >>= fun _ => runLoop handlers fuel).run s := by
  rw [runLoop, Py.run_get_bind, if_pos ⟨hq, hs⟩]

theorem run_runLoop_nil (handlers : Handlers π σ) (fuel : ℕ) {s : SimulationEngine π × σ}
    (hq : s.1.queue.events = []) : (runLoop handlers (fuel + 1)).run s = .ok () s := by
  rw [runLoop, Py.run_get_bind, if_neg fun h => h.1 hq]
  rfl

/-- A loop that ends after `n` events has the same result under every fuel above `n`. -/
theorem EndsAfter.run_runLoop {handlers : Handlers π σ} {n : ℕ} {s : SimulationEngine π × σ}
    (h : EndsAfter handlers n s) :
    ∀ fuel, n < fuel → (runLoop handlers fuel).run s = (runLoop handlers (n + 1)).run s := by
  induction h with
  | drained hq =>
      intro fuel hfuel
      obtain ⟨k, rfl⟩ := Nat.exists_eq_add_one.2 hfuel
      rw [run_runLoop_nil handlers k hq, run_runLoop_nil handlers 0 hq]
  | raised hq hs hrun =>
      intro fuel hfuel
      obtain ⟨k, rfl⟩ := Nat.exists_eq_add_one.2 hfuel
      rw [run_runLoop_succ handlers k hq hs, run_runLoop_succ handlers 0 hq hs,
        Py.run_bind_error hrun, Py.run_bind_error hrun]
  | @turn n s s' hq hs hrun _ ih =>
      intro fuel hfuel
      obtain ⟨k, rfl⟩ := Nat.exists_eq_add_one.2 (Nat.zero_lt_of_lt hfuel)
      rw [run_runLoop_succ handlers k hq hs, run_runLoop_succ handlers (n + 1) hq hs,
        Py.run_bind_ok hrun, Py.run_bind_ok hrun]
      exact ih k (by omega)

/-- **A loop whose turns decrease a measure ends**, after at most as many events as the measure
says. -/
theorem endsAfter_of_measure {handlers : Handlers π σ} {P : ℕ → SimulationEngine π × σ → Prop}
    (hstop : ∀ m s, P m s → s.1.stopped = false)
    (hturn : ∀ m s s', P m s → s.1.queue.events ≠ [] → (turn handlers).run s = .ok () s' →
      ∃ m', m' < m ∧ P m' s') {m : ℕ} {s : SimulationEngine π × σ} (h : P m s) :
    ∃ n, n ≤ m ∧ EndsAfter handlers n s := by
  induction m using Nat.strong_induction_on generalizing s with
  | _ m ih =>
      by_cases hq : s.1.queue.events = []
      · exact ⟨0, Nat.zero_le m, .drained hq⟩
      cases hrun : (turn handlers).run s with
      | error e s' => exact ⟨0, Nat.zero_le m, .raised hq (hstop m s h) hrun⟩
      | ok u s' =>
          obtain ⟨m', hlt, hP⟩ := hturn m s s' h hq hrun
          obtain ⟨n, hn, hends⟩ := ih m' hlt hP
          exact ⟨n + 1, by omega, .turn hq (hstop m s h) hrun hends⟩

end SimulationEngine

end NanoKVRouter
