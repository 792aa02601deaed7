/-
**The chunks that a prefill reports.**

The number of chunks that PREFILL_START reports comes from a cache lookup when the event is
scheduled.  What is executed comes from a second lookup when it is handled.  The report is right
when it is made: it gives the chunks that the cache of the decode node leaves in the state in which
the handler returns.  Events of the same time may admit or demote the prefix before the prefill is
started, so the executed chunks are the reported ones exactly in the runs in which every
PREFILL_START finds as many chunks left as there were when it was scheduled.

Main definitions:

* `NodeCache.presentTokens` — the tokens of a prompt that a cache counts as present;
* `Simulator.chunksLeft` — the chunks that the cache of the decode node leaves of a request;
* `Wiring.scheduledStarts`, `Wiring.handledStarts` — the PREFILL_STARTs that a run schedules and
  handles, with the chunks that are left then;
* `Wiring.StartsUnchanged` — the two numbers agree.

Main results:

* `Wiring.reports_of_run` — a handler reports the chunks that are left when it returns;
* `Wiring.exists_scheduledStart` — what is handled has been scheduled;
* `Wiring.reported_chunks_executed_iff` — **a run that drains the event queue has executed the
  chunks that it reported if and only if no chunks appear or disappear in between**;
* `Wiring.reported_chunks_not_executed` — a run in which the prefix is admitted in between.
-/

import NanoKVRouter.CacheQueries
import NanoKVRouter.SimulatorCache
import NanoKVRouter.SimulatorChunks

set_option relaxedAutoImplicit false
set_option autoImplicit false

namespace NanoKVRouter

/-! ### The tokens that count as present -/

namespace NodeCache

variable {c c' : NodeCache}

/-- The tokens of a prompt that count as present: those of the allocated blocks among the full
blocks along it. -/
def presentTokens (bs : ℕ) (c : NodeCache) (T : List Token) : ℕ :=
  ((c.walk T).2.take ((c.walk T).1 / bs)).countP c.pool.live * bs

theorem SameShape.presentTokens_eq (h : SameShape c c') (bs : ℕ) (T : List Token) :
    c'.presentTokens bs T = c.presentTokens bs T := by
  rw [presentTokens, presentTokens, walk, walk, h.pool_eq, h.trees.matchPrefixPath_eq 0 0 T]

end NodeCache

namespace CacheManager

/-- The tokens of a prompt that count as present on a node. -/
def presentTokens (cm : CacheManager) (n : NodeId) (T : List Token) : ℕ :=
  (cm.caches.get? n).elim 0 fun c => c.presentTokens cm.model.blockSize T

theorem SameShape.presentTokens_eq {cm cm' : CacheManager} (h : SameShape cm cm') (n : NodeId)
    (T : List Token) : cm'.presentTokens n T = cm.presentTokens n T := by
  rw [presentTokens, presentTokens, h.model_eq]
  cases hn : cm.caches.get? n with
  | none => rw [h.get?_eq_none hn]
  | some c =>
      obtain ⟨c', hc', hcc'⟩ := h.exists_cache hn
      rw [hc']
      exact hcc'.presentTokens_eq _ T

/-- A lookup reports the tokens that count as present, or raises on a node that is not there. -/
theorem lookup_present (cm : CacheManager) (now : Time) (req : Request) (n : NodeId) :
    (∃ r cm', (lookup now req n).run cm = .ok r cm' ∧
        r.matchedTokens = cm.presentTokens n req.tokenIds) ∨
      (lookup now req n).run cm = .error (.keyError n) cm ∧
        cm.presentTokens n req.tokenIds = 0 := by
  rw [lookup, Py.run_get_bind, onNode, Py.run_get_bind, presentTokens]
  cases hn : cm.caches.get? n with
  | none => exact Or.inr ⟨rfl, rfl⟩
  | some c =>
      obtain ⟨r, hr, hmatched⟩ := NodeCache.run_lookup_of_walk
        (NodeCache.run_matchPrefixPath_walk c now req.tokenIds) cm.bandwidth
      exact Or.inl ⟨r, _, Py.run_onPart_ok hr, hmatched⟩

end CacheManager

/-! ### The chunks that are left -/

section Left

variable {ς : Type} {s s' : Simulator ς}

/-- The tokens of a prompt that the cache of a node leaves. -/
def Simulator.tokensLeft (s : Simulator ς) (d : NodeId) (req : Request) : ℤ :=
  max 0 (req.tokenIds.length - s.2.cm.presentTokens d req.tokenIds)

/-- The chunks of a request that the cache of its decode node leaves to the prefill node. -/
def Simulator.chunksLeft (s : Simulator ς) (r : RequestId) (x : NodeId) (req : Request) : ℤ :=
  chunks (s.2.toBookkeeping.chunkSize x)
    (s.tokensLeft ((s.2.decisions.get? r).elim x Assignment.decodeNode) req)

theorem Simulator.tokensLeft_eq (hcm : s.2.cm.SameShape s'.2.cm) (d : NodeId) (req : Request) :
    s'.tokensLeft d req = s.tokensLeft d req := by
  rw [tokensLeft, tokensLeft, hcm.presentTokens_eq]

/-- The chunks that are left do not depend on access times. -/
theorem Simulator.chunksLeft_eq (hcm : s.2.cm.SameShape s'.2.cm) (hnodes : s'.2.nodes = s.2.nodes)
    (hdec : s'.2.decisions = s.2.decisions) (r : RequestId) (x : NodeId) (req : Request) :
    s'.chunksLeft r x req = s.chunksLeft r x req := by
  rw [chunksLeft, chunksLeft, hdec, tokensLeft_eq hcm, Bookkeeping.chunkSize,
    Bookkeeping.chunkSize, hnodes]

/-- The uncached tokens are those that are left. -/
theorem run_computeUncachedTokens_left (s : Simulator ς) (req : Request) (d : NodeId) :
    ∃ s', (computeUncachedTokens req d).run s = .ok (s.tokensLeft d req) s' := by
  obtain ⟨s', hmatched⟩ : ∃ s', (Py.onExcept PyErr.isKeyError
      (onCm do pure (← CacheManager.lookup s.1.now req d).matchedTokens) (pure 0)).run s =
        .ok (s.2.cm.presentTokens d req.tokenIds) s' := by
    rcases s.2.cm.lookup_present s.1.now req d with ⟨l, cm', hl, hpresent⟩ | ⟨hl, hpresent⟩
    · have hrun : (do pure (← CacheManager.lookup s.1.now req d).matchedTokens).run s.2.cm =
          .ok l.matchedTokens cm' := by
        rw [Py.run_bind_ok hl]
        rfl
      rw [← hpresent]
      exact ⟨_, Py.run_onExcept_eq_ok.2 (Or.inl (Py.run_onPart_ok hrun))⟩
    · have hcm : (onCm do pure (← CacheManager.lookup s.1.now req d).matchedTokens).run s =
          .error (.keyError d) s := by
        rw [onCm, Py.run_onPart, EStateM.run_bind, hl]
      rw [hpresent]
      exact ⟨s, Py.run_onExcept_eq_ok.2 (Or.inr ⟨_, _, hcm, rfl, rfl⟩)⟩
  refine ⟨s', ?_⟩
  rw [computeUncachedTokens, Py.run_get_bind, Py.run_bind_ok hmatched]
  rfl

theorem uncachedAt_prefillStart (s : Simulator ς) (r : RequestId) (x : NodeId) (req : Request)
    (k : ℤ) : s.uncachedAt (.prefillStart r x req k) =
      s.tokensLeft ((s.2.decisions.get? r).elim x Assignment.decodeNode) req := by
  obtain ⟨s', hrun⟩ := run_computeUncachedTokens_left s req
    ((s.2.decisions.get? r).elim x Assignment.decodeNode)
  have hvalue := congrArg (fun res => res.value?.getD 0) hrun
  rw [Simulator.uncachedAt]
  cases hd : s.2.decisions.get? r <;> rw [hd] at hvalue <;> exact hvalue

end Left

/-! ### Reports are right when they are made -/

section Reports

variable {ς : Type} {w : Wiring ς} {s s' s'' : Simulator ς} {u : Unit} {r : RequestId} {x d : NodeId}
  {req : Request}

/-- What has been scheduled since `s` reports the chunks that are left in `s'`. -/
def Reports (s s' : Simulator ς) : Prop := ∃ out, Pushes s.1 out s'.1 ∧
  ∀ e ∈ out, ∀ r x req k, e.2 = .prefillStart r x req k → k = s'.chunksLeft r x req

theorem ne_start {p : Payload} {k : ℤ} (hp : p.isStart = false) (hk : p = .prefillStart r x req k) :
    False := by
  rw [hk] at hp
  cases hp

/-- Nothing has been scheduled that reports. -/
theorem Reports.of_pushes {out : List (Time × Payload)} (h : Pushes s.1 out s'.1)
    (hout : ∀ e ∈ out, e.2.isStart = false) : Reports s s' :=
  ⟨out, h, fun e he _ _ _ _ hp => (ne_start (hout e he) hp).elim⟩

/-- Scheduling before that reports nothing. -/
theorem Reports.after {out : List (Time × Payload)} (h : Reports s' s'') (hpush : Pushes s.1 out s'.1)
    (hout : ∀ e ∈ out, e.2.isStart = false) : Reports s s'' := by
  obtain ⟨out', hpush', hreports⟩ := h
  refine ⟨out ++ out', hpush.append hpush', fun e he r x req k hp => ?_⟩
  rcases List.mem_append.1 he with he | he
  · exact (ne_start (hout e he) hp).elim
  · exact hreports e he r x req k hp

/-- Nor does scheduling after that, if it leaves what is read alone. -/
theorem Reports.before {out : List (Time × Payload)} (h : Reports s s') (hpush : Pushes s'.1 out s''.1)
    (hout : ∀ e ∈ out, e.2.isStart = false)
    (hleft : ∀ r x req, s''.chunksLeft r x req = s'.chunksLeft r x req) : Reports s s'' := by
  obtain ⟨out', hpush', hreports⟩ := h
  refine ⟨out' ++ out, hpush'.append hpush, fun e he r x req k hp => ?_⟩
  rcases List.mem_append.1 he with he | he
  · rw [hleft]
    exact hreports e he r x req k hp
  · exact (ne_start (hout e he) hp).elim

theorem keeps_sameShape_lookup (cm : CacheManager) (now : Time) (req : Request) (n : NodeId) :
    Py.Keeps (OfCache (ς := ς) cm.SameShape) (onCm (CacheManager.lookup now req n)) :=
  keeps_onCm (CacheManager.keeps_lookup cm now req n)

namespace Wiring

/-- The start of a prefill reports the chunks that are left. -/
theorem reports_startPrefill {a : Assignment} {n : MockEngineNode}
    (h : (startPrefill req r x a.decodeNode n.modelConfig.prefillChunkSize).run s = .ok u s')
    (ha : s.2.decisions.get? r = some a) (hn : s.2.nodes.get? x = some n) : Reports s s' := by
  have hcm : s.2.cm.SameShape s'.2.cm := cm_of_keeps ((framed_ofCache _).keeps_startPrefill
    (keeps_sameShape_lookup s.2.cm) _ _ _ _ _) (.refl _) h
  obtain ⟨k, s₁, hchunks, hsched⟩ := Py.bind_eq_ok.1 h
  have h₁ := run_computeNChunks hchunks
  rw [Py.run_get_bind] at hsched
  have h₂ := run_scheduleAt hsched
  have hb : s'.2.toBookkeeping = s.2.toBookkeeping := h₂.2.trans h₁.2
  -- the tokens that are left are those of the lookup
  obtain ⟨t, hleft⟩ := run_computeUncachedTokens_left s req a.decodeNode
  rw [computeNChunks, Py.run_bind_ok hleft, EStateM.run_pure, EStateM.Result.ok.injEq] at hchunks
  have hchunk : s.2.toBookkeeping.chunkSize x = n.modelConfig.prefillChunkSize :=
    Bookkeeping.chunkSize_of_get? hn
  have hk : k = s'.chunksLeft r x req := by
    rw [Simulator.chunksLeft_eq hcm (congrArg Bookkeeping.nodes hb)
      (congrArg Bookkeeping.decisions hb), Simulator.chunksLeft, ha, hchunk, ← hchunks.1]
    change _ = chunks _ (s.tokensLeft a.decodeNode req)
    split
    · rfl
    · rename_i hpos
      have hzero : s.tokensLeft a.decodeNode req = 0 :=
        le_antisymm (not_lt.1 hpos) (le_max_left _ _)
      rw [hzero, chunks_zero (by positivity)]
  refine ⟨_, h₁.1.append h₂.1, fun e he r' x' req' k' hp => ?_⟩
  rw [List.nil_append, List.mem_singleton] at he
  rw [he] at hp
  cases hp
  exact hk

theorem reports_onArrive (h : (w.onArrive req).run s = .ok u s') : Reports s s' := by
  obtain ⟨dec, s₁, hsched, h⟩ := Py.bind_eq_ok.1 h
  have h₁ := run_schedule hsched
  refine Reports.after ?_ h₁.1 (fun _ he => absurd he List.not_mem_nil)
  cases hp : dec.prefillNode with
  | none =>
      simp only [hp] at h
      rw [Py.run_get_bind] at h
      refine .of_pushes (run_scheduleAt h).1 fun e he => ?_
      rw [List.mem_singleton.1 he]
      rfl
  | some p =>
      simp only [hp] at h
      obtain ⟨d, lk, running, n, n', s₂, -, -, hn, hop, ⟨mb, h₂⟩, hstart⟩ := run_acceptArrival h
      have hother : ∀ e ∈ [(s₁.1.now, Payload.scheduled req.requestId dec lk mb)],
          e.2.isStart = false := by
        intro e he
        rw [List.mem_singleton.1 he]
        rfl
      rcases hstart with ⟨-, hstart⟩ | ⟨-, rfl⟩
      · have hsize : n'.modelConfig = n.modelConfig :=
          (MockEngineNode.run_admitRequest hop).2.modelConfig.trans
            (MockEngineNode.admitted_modelConfig _)
        have ha : s₂.2.decisions.get? req.requestId = some ⟨p, d⟩ :=
          (congrArg (fun b : Bookkeeping => b.decisions.get? req.requestId) h₂.2).trans
            (PyDict.get?_set_self ..)
        have hn' : s₂.2.nodes.get? p = some n' :=
          (congrArg (fun b : Bookkeeping => b.nodes.get? p) h₂.2).trans (PyDict.get?_set_self ..)
        rw [← hsize] at hstart
        exact (reports_startPrefill (a := ⟨p, d⟩) hstart ha hn').after h₂.1 hother
      · exact .of_pushes h₂.1 hother

theorem reports_startPromoted {n : MockEngineNode} {q : RequestId}
    (h : (startPromoted x q n.modelConfig.prefillChunkSize).run s = .ok u s')
    (hn : s.2.nodes.get? x = some n) : Reports s s' := by
  have hquiet : ∀ s : Simulator ς, Reports s s := fun s =>
    .of_pushes (.nil _) fun _ he => absurd he List.not_mem_nil
  rw [startPromoted, Py.run_get_bind] at h
  cases hreq : s.2.requests.get? q with
  | none =>
      simp only [hreq, EStateM.run_pure, EStateM.Result.ok.injEq, true_and] at h
      exact h ▸ hquiet s
  | some req =>
      cases ha : s.2.decisions.get? q with
      | none =>
          simp only [hreq, ha, EStateM.run_pure, EStateM.Result.ok.injEq, true_and] at h
          exact h ▸ hquiet s
      | some a =>
          simp only [hreq, ha] at h
          obtain ⟨k, s₁, hunc, h⟩ := Py.bind_eq_ok.1 h
          obtain ⟨_, s₂, hinit, h⟩ := Py.bind_eq_ok.1 h
          have h₁ := (run_computeUncachedTokens hunc).1
          obtain ⟨m, n', hm, hop, heng, hb⟩ := run_onNode hinit
          have hm' : s₁.2.toBookkeeping.nodes.get? x = some m := hm
          rw [h₁.2] at hm' hb
          obtain rfl := Option.some_inj.1 (hn.symm.trans hm')
          rw [← (MockEngineNode.run_initPromoted hop).2.modelConfig] at h
          have ha' : s₂.2.decisions.get? q = some a :=
            (congrArg (fun b : Bookkeeping => b.decisions.get? q) hb).trans ha
          have hn' : s₂.2.nodes.get? x = some n' :=
            (congrArg (fun b : Bookkeeping => b.nodes.get? x) hb).trans (PyDict.get?_set_self ..)
          exact (reports_startPrefill h ha' hn').after (heng ▸ h₁.1)
            fun _ he => absurd he List.not_mem_nil

theorem reports_onPrefillComplete (h : (w.onPrefillComplete r x req).run s = .ok u s') :
    Reports s s' := by
  obtain ⟨n, -, hn, ⟨-, rfl⟩ | ⟨a, pr, s₁, s₂, -, hcomp, hstart, htransfer⟩⟩ := run_onPrefillComplete h
  · exact .of_pushes (.nil _) fun _ he => absurd he List.not_mem_nil
  · obtain ⟨m, n', hm, hc, h₁⟩ := run_completeOn hcomp
    obtain rfl := Option.some_inj.1 (hn.symm.trans hm)
    obtain ⟨base, t₁, t₂, -, -, -, -, h₃⟩ := run_startTransfer htransfer
    have hreports : Reports s₁ s₂ := by
      rcases hstart with ⟨-, rfl⟩ | ⟨q, -, hstart⟩
      · exact .of_pushes (.nil _) fun _ he => absurd he List.not_mem_nil
      · rw [← hc.modelConfig] at hstart
        refine reports_startPromoted hstart ?_
        exact (congrArg (fun b : Bookkeeping => b.nodes.get? x) h₁.2).trans (PyDict.get?_set_self ..)
    have hcm : s'.2.cm = s₂.2.cm := cm_eq_of_keeps (fun P =>
      (framed_ofCache P).keeps_startTransfer (fun _ _ hs => hs) w r req a) htransfer
    have hnodes : s'.2.nodes = s₂.2.nodes := (congrArg Bookkeeping.nodes h₃.2 :)
    have hdec : s'.2.decisions = s₂.2.decisions := (congrArg Bookkeeping.decisions h₃.2 :)
    refine (hreports.before h₃.1 (fun e he => ?_) fun r x req => ?_).after h₁.1
      fun _ he => absurd he List.not_mem_nil
    · rcases List.mem_pair.1 he with rfl | rfl
      · rfl
      · rfl
    · exact Simulator.chunksLeft_eq (hcm ▸ .refl _) hnodes hdec r x req

/-- A handler reports the chunks that are left when it returns. -/
theorem reports_of_run {p : Payload} (h : (w.handle p).run s = .ok u s') : Reports s s' := by
  by_cases hp : (∃ req, p = .requestArrive req) ∨ ∃ r x req, p = .prefillComplete r x req
  · rcases hp with ⟨req, rfl⟩ | ⟨r, x, req, rfl⟩
    · exact reports_onArrive h
    · exact reports_onPrefillComplete h
  · rw [not_or] at hp
    obtain ⟨out, b, hh, hem⟩ := handles_of_run h
    refine .of_pushes hem.1 fun e he => ?_
    exact (hh.routine (fun r x req heq => hp.2 ⟨r, x, req, heq⟩) e he).2
      fun req heq => hp.1 ⟨req, heq⟩


end Wiring

end Reports

/-! ### The starts of a run -/

/-- The chunks that are left for the prefill that an event starts. -/
def Simulator.startLeft {ς : Type} (s : Simulator ς) : Payload → Option ℤ
  | .prefillStart requestId nodeId req _ => some (s.chunksLeft requestId nodeId req)
  | _ => none

namespace Wiring

variable {ς : Type}

/-- The starts that are scheduled between two states, with the chunks left in the second. -/
def scheduledBetween (s s' : Simulator ς) : List (Event Payload × ℤ) :=
  (s'.1.queue.events.filter fun ev => ev ∉ s.1.queue.events).filterMap fun ev =>
    (s'.startLeft ev.payload).map (ev, ·)

/-- The start that a step handles, with the chunks left before the step. -/
def handledBy (s : Simulator ς) : Action → List (Event Payload × ℤ)
  | .arrive _ _ => []
  | .turn => s.1.queue.events.head?.toList.filterMap fun ev =>
      (s.startLeft ev.payload).map (ev, ·)

/-- The starts that a run schedules, with the chunks left when the step that schedules them is
over. -/
def scheduledStarts (w : Wiring ς) : List Action → Simulator ς → List (Event Payload × ℤ)
  | [], _ => []
  | a :: acts, s => scheduledBetween s ((w.act a).run s).state ++
      scheduledStarts w acts ((w.act a).run s).state

/-- The starts that a run handles, with the chunks left before the step that handles them. -/
def handledStarts (w : Wiring ς) : List Action → Simulator ς → List (Event Payload × ℤ)
  | [], _ => []
  | a :: acts, s => handledBy s a ++ handledStarts w acts ((w.act a).run s).state

/-- What happens between the scheduling and the handling of a start leaves the number of chunks as
it was. -/
def StartsUnchanged (w : Wiring ς) (acts : List Action) (s : Simulator ς) : Prop :=
  ∀ e ∈ w.scheduledStarts acts s, ∀ e' ∈ w.handledStarts acts s, e.1 = e'.1 → e.2 = e'.2

instance (w : Wiring ς) (acts : List Action) (s : Simulator ς) :
    Decidable (w.StartsUnchanged acts s) :=
  inferInstanceAs (Decidable (∀ e ∈ w.scheduledStarts acts s, ∀ e' ∈ w.handledStarts acts s,
    e.1 = e'.1 → e.2 = e'.2))

section Starts

variable {w : Wiring ς} {s s' : Simulator ς} {u : Unit} {a : Action} {e : Event Payload × ℤ}

theorem mem_scheduledBetween : e ∈ scheduledBetween s s' ↔ e.1 ∈ s'.1.queue.events ∧
    e.1 ∉ s.1.queue.events ∧ s'.startLeft e.1.payload = some e.2 := by
  obtain ⟨ev, m⟩ := e
  simp only [scheduledBetween, List.mem_filterMap, List.mem_filter, decide_eq_true_eq,
    Option.map_eq_some_iff, Prod.mk.injEq]
  constructor
  · rintro ⟨ev', ⟨hin, hnew⟩, m', hleft, rfl, rfl⟩
    exact ⟨hin, hnew, hleft⟩
  · rintro ⟨hin, hnew, hleft⟩
    exact ⟨ev, ⟨hin, hnew⟩, m, hleft, rfl, rfl⟩

theorem mem_handledBy (h : e ∈ handledBy s a) :
    a = .turn ∧ e.1 ∈ s.1.queue.events ∧ s.startLeft e.1.payload = some e.2 := by
  cases a with
  | arrive t req => exact absurd h List.not_mem_nil
  | turn =>
      obtain ⟨ev, hev, hmap⟩ := List.mem_filterMap.1 h
      obtain ⟨m, hleft, rfl⟩ := Option.map_eq_some_iff.1 hmap
      exact ⟨rfl, List.mem_of_mem_head? (Option.mem_toList.1 hev), hleft⟩

theorem startLeft_eq_some {p : Payload} {m : ℤ} (h : s.startLeft p = some m) :
    ∃ r x req k, p = .prefillStart r x req k ∧ m = s.chunksLeft r x req := by
  cases p with
  | prefillStart r x req k => exact ⟨r, x, req, k, rfl, (Option.some_inj.1 h).symm⟩
  | _ => cases h

/-- A step reports the chunks that are left after it. -/
theorem reported_of_scheduled (hrun : (w.act a).run s = .ok u s') (he : e ∈ scheduledBetween s s') :
    ∃ r x req, e.1.payload = .prefillStart r x req e.2 := by
  obtain ⟨hin, hnew, hleft⟩ := mem_scheduledBetween.1 he
  obtain ⟨r, x, req, k, hp, hm⟩ := startLeft_eq_some hleft
  refine ⟨r, x, req, hp.trans ?_⟩
  have hk : k = e.2 := by
    rw [hm]
    cases a with
    | arrive t arriving =>
        rcases (run_arrive hrun).1.mem hin with hold | hmem
        · exact absurd hold hnew
        · rw [List.mem_singleton, Prod.mk.injEq] at hmem
          rw [hmem.2] at hp
          cases hp
    | turn =>
        cases hq : s.1.queue.events with
        | nil =>
            rw [act, SimulationEngine.run_turn_nil _ hq, EStateM.Result.ok.injEq] at hrun
            exact absurd (hrun.2 ▸ hin) hnew
        | cons ev rest =>
            rw [act, SimulationEngine.run_turn_cons _ hq, handlers, Py.run_forM_cons] at hrun
            obtain ⟨_, s₁, hhandle, hpure⟩ := Py.bind_eq_ok.1 hrun
            cases hpure
            obtain ⟨out, hpush, hreports⟩ := reports_of_run hhandle
            rcases hpush.mem hin with hold | hmem
            · exact absurd (hq ▸ List.mem_cons_of_mem _ hold) hnew
            · exact hreports _ hmem r x req k hp
  rw [hk]

/-- **A run reports the chunks that are left.** -/
theorem reported_of_scheduledStarts : ∀ {acts : List Action} {s s' : Simulator ς},
    (w.execute acts).run s = .ok () s' → ∀ e ∈ w.scheduledStarts acts s,
      ∃ r x req, e.1.payload = .prefillStart r x req e.2 := by
  intro acts
  induction acts with
  | nil => exact fun _ e he => absurd he List.not_mem_nil
  | cons a acts ih =>
      intro s s' hrun e he
      obtain ⟨_, s₁, hact, hrest⟩ := Py.bind_eq_ok.1 hrun
      rw [scheduledStarts, hact] at he
      rcases List.mem_append.1 he with he | he
      · exact reported_of_scheduled hact he
      · exact ih hrest e he

theorem exists_payload_of_handled : ∀ {acts : List Action} {s : Simulator ς},
    e ∈ w.handledStarts acts s → ∃ r x req k, e.1.payload = .prefillStart r x req k := by
  intro acts
  induction acts with
  | nil => exact fun he => absurd he List.not_mem_nil
  | cons a acts ih =>
      intro s he
      rcases List.mem_append.1 he with he | he
      · obtain ⟨r, x, req, k, hp, -⟩ := startLeft_eq_some (mem_handledBy he).2.2
        exact ⟨r, x, req, k, hp⟩
      · exact ih he

/-- **What is handled has been scheduled**, unless it was in the queue before. -/
theorem exists_scheduledStart : ∀ {acts : List Action} {s s' : Simulator ς},
    (w.execute acts).run s = .ok () s' → ∀ e ∈ w.handledStarts acts s,
      e.1 ∈ s.1.queue.events ∨ ∃ m, (e.1, m) ∈ w.scheduledStarts acts s := by
  intro acts
  induction acts with
  | nil => exact fun _ e he => absurd he List.not_mem_nil
  | cons a acts ih =>
      intro s s' hrun e he
      obtain ⟨_, s₁, hact, hrest⟩ := Py.bind_eq_ok.1 hrun
      rw [handledStarts, hact] at he
      rw [scheduledStarts, hact]
      rcases List.mem_append.1 he with he | he
      · exact Or.inl (mem_handledBy he).2.1
      · by_cases hold : e.1 ∈ s.1.queue.events
        · exact Or.inl hold
        · right
          rcases ih hrest e he with hin | ⟨m, hm⟩
          · -- the step schedules it
            obtain ⟨r, x, req, k, hp⟩ : ∃ r x req k, e.1.payload = .prefillStart r x req k :=
              exists_payload_of_handled he
            refine ⟨s₁.chunksLeft r x req, List.mem_append_left _ (mem_scheduledBetween.2 ?_)⟩
            exact ⟨hin, hold, by rw [hp]; rfl⟩
          · exact ⟨m, List.mem_append_right _ hm⟩

/-- What a handled start reports is compared with the chunks left before the step. -/
theorem reportsLeft_iff_handledBy : ReportsLeft s a ↔
    ∀ e ∈ handledBy s a, ∀ r x req k, e.1.payload = .prefillStart r x req k → k = e.2 := by
  cases a with
  | arrive t req =>
      exact ⟨fun _ _ he => absurd he List.not_mem_nil, fun _ _ he => absurd he List.not_mem_nil⟩
  | turn =>
      cases hq : s.1.queue.events with
      | nil => simp [ReportsLeft, tellsOf, handledBy, SimulationEngine.take_nil hq, hq]
      | cons ev rest =>
          have htells : tellsOf s .turn =
              Simulator.tells (s.1.advance ev rest hq, s.2) ev.payload := by
            rw [tellsOf, SimulationEngine.take_cons hq]
            exact List.append_nil _
          rw [ReportsLeft, htells, handledBy, hq, List.head?_cons, Option.toList_some]
          cases hp : ev.payload with
          | prefillStart r x req k =>
              have hleft : chunks (s.2.toBookkeeping.chunkSize x)
                  (Simulator.uncachedAt (s.1.advance ev rest hq, s.2) (.prefillStart r x req k)) =
                    s.chunksLeft r x req :=
                congrArg (chunks _) (uncachedAt_prefillStart (s.1.advance ev rest hq, s.2) r x req k)
              simp only [Simulator.tells, hleft, List.mem_singleton, forall_eq,
                ChunkEvent.UpToDate, List.filterMap_cons, List.filterMap_nil, hp,
                Simulator.startLeft, Option.map_some, Payload.prefillStart.injEq]
              constructor
              · rintro h _ _ _ _ ⟨-, -, -, rfl⟩
                exact h
              · exact fun h => h r x req k ⟨rfl, rfl, rfl, rfl⟩
          | decodeBatchStep x =>
              simp [Simulator.tells, ChunkEvent.UpToDate, hp, Simulator.startLeft]
          | _ => simp [Simulator.tells, hp, Simulator.startLeft]

theorem meets_reportsLeft_iff_handledStarts : ∀ {acts : List Action} {s : Simulator ς},
    w.Meets ReportsLeft acts s ↔ ∀ e ∈ w.handledStarts acts s, ∀ r x req k,
      e.1.payload = .prefillStart r x req k → k = e.2 := by
  intro acts
  induction acts with
  | nil => exact fun {_} => ⟨fun _ _ he => absurd he List.not_mem_nil, fun _ => trivial⟩
  | cons a acts ih =>
      intro s
      rw [Meets, handledStarts, List.forall_mem_append, ih, reportsLeft_iff_handledBy]

end Starts

/-- **The reported chunks are executed exactly if none appear or disappear in between**: with
disjoint pools and distinct request ids, a run that drains the event queue has executed as many
chunks of every request as its PREFILL_START reported if and only if the chunks that are left when a
PREFILL_START is handled are as many as when it was scheduled. -/
theorem reported_chunks_executed_iff {w : Wiring ς}
    (hpools : ∀ id ∈ w.prefillIds, id ∉ w.decodeIds) (sched : ς) (cm : CacheManager)
    (tm : TransferModel) {acts : List Action} {s : Simulator ς}
    (hids : w.Meets DistinctArrivals acts (w.start sched cm tm))
    (hrun : (w.execute acts).run (w.start sched cm tm) = .ok () s) (hq : s.1.queue.events = []) :
    (∀ ev ∈ s.1.processed, ∀ r x req k, ev.payload = .prefillStart r x req k →
        k = w.executedChunks acts (w.start sched cm tm) r) ↔
      w.StartsUnchanged acts (w.start sched cm tm) := by
  rw [executed_iff_reportsLeft hpools sched cm tm hids hrun hq,
    meets_reportsLeft_iff_handledStarts]
  constructor
  · intro hleft e he e' he' heq
    obtain ⟨r, x, req, hp⟩ := reported_of_scheduledStarts hrun e he
    exact hleft e' he' r x req e.2 (heq ▸ hp)
  · intro hsame e he r x req k hp
    rcases exists_scheduledStart hrun e he with hold | ⟨m, hm⟩
    · exact absurd hold List.not_mem_nil
    · obtain ⟨r', x', req', hp'⟩ := reported_of_scheduledStarts hrun _ hm
      obtain ⟨-, -, -, rfl⟩ := Payload.prefillStart.inj (hp.symm.trans hp')
      exact hsame _ hm e he rfl

theorem reported_chunks_executed_twoArrivals :
    (split.after twoArrivals).1.queue.events = [] ∧
      (split.handledStarts twoArrivals split.initial).length = 2 ∧
      ∀ ev ∈ (split.after twoArrivals).1.processed, ∀ r x req k,
        ev.payload = .prefillStart r x req k →
          k = split.executedChunks twoArrivals split.initial r := by
  have hpools : ∀ id ∈ split.prefillIds, id ∉ split.decodeIds := by decide +kernel
  have hids : split.Meets DistinctArrivals twoArrivals split.initial := by decide +kernel
  have hok : ((split.execute twoArrivals).run split.initial).isOk = true := by decide +kernel
  have hq : (split.after twoArrivals).1.queue.events = [] := by decide +kernel
  have hsame : split.StartsUnchanged twoArrivals split.initial := by decide +kernel
  have hrun : (split.execute twoArrivals).run split.initial = .ok () (split.after twoArrivals) := by
    obtain ⟨_, hrun⟩ := EStateM.Result.exists_eq_ok hok
    exact hrun
  have hiff := reported_chunks_executed_iff hpools _ _ _ hids hrun hq
  exact ⟨hq, by decide +kernel, hiff.2 hsame⟩

theorem thousand_pos : (0 : ℚ) < 1000 := by decide +kernel

/-- A bandwidth of one token in a millisecond. -/
def slowLinks : BandwidthConfig :=
  { BandwidthConfig.defaults with gpuToGpu := 1000, gpuToGpu_pos := thousand_pos }

/-- One prefill node and one decode node, with slow links. -/
def slowSplit : Wiring Cursors := { split with bandwidthCfg := slowLinks }

/-- Two requests with the same prompt; the second one arrives when the first one has been
transferred. -/
def samePrompt : List Action :=
  [.arrive 0 ⟨"a", [1], 1, 0, 1000, 1000⟩, .arrive 2 ⟨"b", [1], 1, 0, 1000, 1000⟩] ++
    List.replicate 30 .turn

/-- The prompt is admitted between the report of the second request and its start, so that no chunk
of it is executed. -/
theorem reported_chunks_not_executed :
    (∀ id ∈ slowSplit.prefillIds, id ∉ slowSplit.decodeIds) ∧
      slowSplit.Meets DistinctArrivals samePrompt slowSplit.initial ∧
      ((slowSplit.execute samePrompt).run slowSplit.initial).isOk = true ∧
      (slowSplit.after samePrompt).1.queue.events = [] ∧
      (∃ ev ∈ (slowSplit.after samePrompt).1.processed,
        ev.payload = .prefillStart "b" "p0" ⟨"b", [1], 1, 0, 1000, 1000⟩ 1) ∧
      slowSplit.executedChunks samePrompt slowSplit.initial "b" = 0 :=
  ⟨by decide +kernel, by decide +kernel, by decide +kernel, by decide +kernel, by decide +kernel,
    by decide +kernel⟩

end Wiring

end NanoKVRouter
