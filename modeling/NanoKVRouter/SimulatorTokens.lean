/-
**Token streams.**

A batch step counts the tokens of its streams when it starts and announces them at its end; a stream
that is complete leaves the batch at once, and its completion is announced together with its last
token.  The announcements of one request come in order: the next step of a node starts when the one
before it has ended, as long as a stream is left.

Main definitions:

* `Payload.stream?`, `streamIn` — the announcements of a request among some events;
* `tokensAt` — the tokens of a request, one at each of some times;
* `Stage.Announced` — what has been announced of a request, in each of its stages.

Main results:

* `Stage.Moves.announced` — a move announces what belongs to the next stage;
* `Wiring.TurnOf.told` — so does a turn, for every request;
* `Wiring.Reaches.batchSizes` — the tokens that have been announced are counted by the batch sizes;
* `Wiring.token_streams` — **with disjoint pools, in a run that drains the event queue every request
  that entered decode has its tokens in order, and then its completion**.
-/

import NanoKVRouter.SimulatorConservation

set_option relaxedAutoImplicit false
set_option autoImplicit false

namespace NanoKVRouter

/-! ### Announcements -/

/-- The request that an event announces a token or the completion of. -/
def Payload.stream? : Payload → Option RequestId
  | .tokenGenerated r _ => some r
  | .decodeComplete r _ => some r
  | _ => none

/-- The event announces a token. -/
def Payload.isToken : Payload → Bool
  | .tokenGenerated _ _ => true
  | _ => false

/-- The announcements of a request among some events. -/
def streamIn (r : RequestId) (evs : List (Event Payload)) : List (Time × Payload) :=
  (evs.filter fun ev => ev.payload.stream? = some r).map fun ev => (ev.time, ev.payload)

/-- The announcements of a request among events that are scheduled. -/
def streamOut (r : RequestId) (out : List (Time × Payload)) : List (Time × Payload) :=
  out.filter fun e => e.2.stream? = some r

/-- The announcements of a request, those to come included. -/
def Simulator.stream {ς : Type} (s : Simulator ς) (r : RequestId) : List (Time × Payload) :=
  streamIn r (s.1.processed ++ s.1.queue.events)

/-- The tokens of a request, one at each of the times. -/
def tokensAt (r : RequestId) (ts : List Time) : List (Time × Payload) :=
  ts.mapIdx fun i t => (t, .tokenGenerated r i)

section Streams

variable {r : RequestId} {out : List (Time × Payload)} {evs evs' : List (Event Payload)}

theorem streamIn_append : streamIn r (evs ++ evs') = streamIn r evs ++ streamIn r evs' := by
  rw [streamIn, List.filter_append, List.map_append, streamIn, streamIn]

theorem streamOut_eq_nil (h : ∀ e ∈ out, e.2.stream? = none) : streamOut r out = [] := by
  refine List.filter_eq_nil_iff.2 fun e he => ?_
  rw [h e he]
  simp

/-- The announcements of a request are about it. -/
theorem streamOut_own : streamOut r (own r out) = streamOut r out := by
  rw [streamOut, own, List.filter_filter, streamOut]
  refine List.filter_congr fun e _ => ?_
  cases he : e.2 <;> simp [Payload.stream?, Payload.owner]

theorem tokensAt_append (ts : List Time) (t : Time) :
    tokensAt r (ts ++ [t]) = tokensAt r ts ++ [(t, .tokenGenerated r ts.length)] :=
  List.mapIdx_concat

end Streams

/-- What has been announced of the request `r`, in each of its stages: the tokens it has got, at
increasing times, and its completion at the time of the last one. -/
def Stage.Announced (r : RequestId) (told : List (Time × Payload)) : Stage → Prop
  | decoding _ _ g => ∃ ts, ts.length = g ∧ ts.Pairwise (· < ·) ∧ told = tokensAt r ts
  | decoded _ a g => ∃ ts t, ts.length + 1 = g ∧ (ts ++ [t]).Pairwise (· < ·) ∧
      told = tokensAt r (ts ++ [t]) ++ [(t, .decodeComplete r a.decodeNode)]
  | finished _ d g => ∃ ts t, ts.length + 1 = g ∧ (ts ++ [t]).Pairwise (· < ·) ∧
      told = tokensAt r (ts ++ [t]) ++ [(t, .decodeComplete r d)]
  | _ => told = []

/-! ### Moves and announcements -/

section Moves

variable {now : Time} {p : Payload} {out told : List (Time × Payload)} {r : RequestId}
  {st st' : Stage}

/-- The tokens of a stream come at the times of its announcements. -/
theorem time_of_tokensAt {ts : List Time} {t : Time} (ht : t ∈ ts) :
    ∃ e ∈ tokensAt r ts, e.1 = t := by
  obtain ⟨i, hi, rfl⟩ := List.mem_iff_getElem.1 ht
  exact ⟨_, List.mem_mapIdx.2 ⟨i, hi, rfl⟩, rfl⟩

/-- A token that comes after the others. -/
theorem pairwise_tokensAt {ts : List Time} {t : Time} (hts : ts.Pairwise (· < ·))
    (hlast : ∀ e ∈ tokensAt r ts, e.1 < t) : (ts ++ [t]).Pairwise (· < ·) := by
  refine List.pairwise_append.2 ⟨hts, List.pairwise_singleton _ _, fun t' ht' t'' ht'' => ?_⟩
  obtain ⟨e, he, rfl⟩ := time_of_tokensAt (r := r) ht'
  rw [List.mem_singleton.1 ht'']
  exact hlast e he

/-- Only a batch step announces something, and then for the streams of its batch. -/
theorem Stage.Moves.stream_cases (h : Stage.Moves now p out r st st')
    (hstep : (∀ id, p ≠ .decodeBatchStep id) → streamOut r out = []) :
    streamOut r out = [] ∨ ∃ req a g t, st = .decoding req a g ∧
      p = .decodeBatchStep a.decodeNode ∧ now < t ∧ ∀ e ∈ streamOut r out, e.1 = t := by
  cases h with
  | stay st hp hout =>
      left
      rw [← streamOut_own, hout]
      rfl
  | promote hp hout =>
      left
      rw [← streamOut_own, hout]
      rfl
  | chunk hp hout hpos hlt =>
      left
      rw [← streamOut_own, hout]
      rfl
  | drain hp hout hpos =>
      left
      rw [← streamOut_own, hout]
      rfl
  | @token req a g t hp hout ht hg =>
      refine Or.inr ⟨req, a, g, t, rfl, hp, ht, fun e he => ?_⟩
      rw [← streamOut_own, hout] at he
      have hmem := List.mem_of_mem_filter he
      rw [List.mem_singleton] at hmem
      rw [hmem]
  | @last req a g t hp hout ht hg =>
      refine Or.inr ⟨req, a, g, t, rfl, hp, ht, fun e he => ?_⟩
      rw [← streamOut_own, hout] at he
      have hmem := List.mem_of_mem_filter he
      rcases List.mem_pair.1 hmem with rfl | rfl
      · rfl
      · rfl
  | _ =>
      left
      refine hstep fun id => ?_
      simp_all

/-- **A move announces what belongs to the next stage**, if the announcements so far lie in the
past. -/
theorem Stage.Moves.announced (h : Stage.Moves now p out r st st')
    (hstep : (∀ id, p ≠ .decodeBatchStep id) → streamOut r out = [])
    (htold : st.Announced r told) (hpast : streamOut r out ≠ [] → ∀ e ∈ told, e.1 ≤ now) :
    st'.Announced r (told ++ streamOut r out) := by
  -- the moves that announce nothing
  have hsame : streamOut r out = [] → st'.Announced r told →
      st'.Announced r (told ++ streamOut r out) := by
    intro hnil ht
    rwa [hnil, List.append_nil]
  have hown : ∀ {l : List (Time × Payload)}, own r out = l → streamOut r l = streamOut r out := by
    intro l hl
    rw [← hl, streamOut_own]
  cases h with
  | stay st hp hout => exact hsame (hown hout).symm htold
  | promote hp hout => exact hsame (hown hout).symm htold
  | chunk hp hout hpos hlt => exact hsame (hown hout).symm htold
  | drain hp hout hpos => exact hsame (hown hout).symm htold
  | enter hp hout => exact hsame (hown hout).symm ⟨[], rfl, .nil, htold⟩
  | @token req a g t hp hout ht hg =>
      obtain ⟨ts, hlen, hts, rfl⟩ := htold
      have hnew : streamOut r out = [(t, .tokenGenerated r g)] := by
        rw [← hown hout]
        simp [streamOut, Payload.stream?]
      have hlast : ∀ e ∈ tokensAt r ts, e.1 < t := fun e he =>
        (hpast (by rw [hnew]; simp) e he).trans_lt ht
      refine ⟨ts ++ [t], by simp [hlen], pairwise_tokensAt hts hlast, ?_⟩
      rw [hnew, tokensAt_append, hlen]
  | @last req a g t hp hout ht hg =>
      obtain ⟨ts, hlen, hts, rfl⟩ := htold
      have hnew : streamOut r out =
          [(t, .tokenGenerated r g), (t, .decodeComplete r a.decodeNode)] := by
        rw [← hown hout]
        simp [streamOut, Payload.stream?]
      have hlast : ∀ e ∈ tokensAt r ts, e.1 < t := fun e he =>
        (hpast (by rw [hnew]; simp) e he).trans_lt ht
      refine ⟨ts, t, by rw [hlen], pairwise_tokensAt hts hlast, ?_⟩
      rw [hnew, tokensAt_append, hlen, List.append_assoc]
      rfl
  | finish hp hout => exact hsame (hown hout).symm htold
  | _ => exact hsame (hstep fun id => by simp_all) htold

end Moves

/-! ### What the handlers announce -/

section Handlers

variable {ς : Type} {w : Wiring ς} {now : Time} {u : ℤ} {b b' : Bookkeeping} {p : Payload}
  {out : List (Time × Payload)}

/-- Only a batch step announces something. -/
theorem Handles.stream_eq_none (h : Handles w now u b p out b')
    (hp : ∀ id, p ≠ .decodeBatchStep id) : ∀ e ∈ out, e.2.stream? = none := by
  have hwake : ∀ (b₁ : Bookkeeping) id t, ∀ e ∈ b₁.wakeEvents id t, e.2.stream? = none := by
    intro b₁ id t e he
    rw [(Bookkeeping.mem_wakeEvents he).1]
    rfl
  cases h with
  | @arriveAdmitted req x d dec mt mb v running n n' started hx hn hv hop hstarted =>
      intro e he
      rcases List.mem_cons.1 he with rfl | he
      · rfl
      · cases running with
        | true =>
            obtain ⟨k, rfl⟩ := hstarted
            rw [List.mem_singleton.1 he]
            rfl
        | false =>
            obtain rfl := hstarted
            cases he
  | startPipeline hx hn hu hlen hop => exact hwake _ _ _
  | prefillFinished hx hn ha hop hpr hbase ht =>
      intro e he
      rcases List.mem_append.1 he with he | he
      · obtain ⟨q, req, k, rfl, -⟩ := hpr.mem_events he
        rfl
      · rcases List.mem_pair.1 he with rfl | rfl
        · rfl
        · rfl
  | transferAccepted hinfo ha hd hn hroom hadm hop hb => exact hwake _ _ _
  | decodeFinished hd hn hop hb => exact hwake _ _ _
  | stepIdle => exact absurd rfl (hp _)
  | stepRun => exact absurd rfl (hp _)
  | _ => simp [Payload.stream?]

/-- What a batch step announces, it announces no later than the start of the next step. -/
theorem Handles.stream_le_step {id : NodeId} (h : Handles w now u b (.decodeBatchStep id) out b')
    {e : Time × Payload} {t : Time} {x : NodeId} (he : e ∈ out)
    (hx : (t, .decodeBatchStep x) ∈ out) : e.1 ≤ t := by
  cases h with
  | stepIdle => cases he
  | @stepRun _ n n' T completed streams pf b₁ hn hwork hop hnd hmem hout hb =>
      have hall : ∀ e ∈ prefillEvents b id T pf ++ (tokenEvents n' T streams ++
          (completionEvents id T completed ++ b₁.wakeEvents id T)), e.1 = T := by
        intro e he
        rcases List.mem_append.1 he with he | he
        · obtain ⟨q, req, -, -, rfl⟩ := mem_prefillEvents he
          rfl
        rcases List.mem_append.1 he with he | he
        · obtain ⟨q, -, rfl⟩ := List.mem_map.1 he
          rfl
        rcases List.mem_append.1 he with he | he
        · obtain ⟨q, -, rfl⟩ := List.mem_map.1 he
          rfl
        · rw [(Bookkeeping.mem_wakeEvents he).1]
      rw [hall e he, ← hall _ hx]

end Handlers

/-! ### Turns -/

/-- The announcements so far belong to the stages, and the next step of a node comes after those for
the streams of its batch. -/
structure Told {ς : Type} (s : Simulator ς) (stage : RequestId → Stage) : Prop where
  announced : ∀ r, (stage r).Announced r (s.stream r)
  due : ∀ r req a g, stage r = .decoding req a g → ∀ ev ∈ s.1.queue.events,
    ev.payload = .decodeBatchStep a.decodeNode → ∀ e ∈ s.stream r, e.1 ≤ ev.time

namespace Wiring

variable {ς : Type} {w : Wiring ς} {s s' : Simulator ς} {stage stage' : RequestId → Stage}
  {ev : Event Payload} {rest : List (Event Payload)} {out : List (Time × Payload)}

/-- The announcements before a turn, by what the turn finds. -/
theorem TurnOf.stream_before (ht : TurnOf w s ev rest out s') (r : RequestId) :
    s.stream r = streamIn r (s.1.processed ++ [ev]) ++ streamIn r rest := by
  rw [Simulator.stream, ht.events, ← streamIn_append, List.append_assoc, List.singleton_append]

/-- A turn adds its own announcements behind those that were there. -/
theorem TurnOf.stream_eq (ht : TurnOf w s ev rest out s') (hn : s.1.Numbered) (r : RequestId)
    (hpast : ∀ e ∈ s.stream r, ∀ e' ∈ streamOut r out, e.1 ≤ e'.1)
    (hmono : (streamOut r out).Pairwise fun e e' => e.1 ≤ e'.1) :
    s'.stream r = s.stream r ++ streamOut r out := by
  have hqueue : streamIn r s'.1.queue.events = streamIn r rest ++ streamOut r out := by
    refine ht.pushes.filter_eq (hn.advance ht.events) (fun p => decide (p.stream? = some r))
      (fun ev' hev' hs e he hs' => ?_) hmono
    refine hpast (ev'.time, ev'.payload) ?_ e (List.mem_filter.2 ⟨he, hs'⟩)
    rw [ht.stream_before]
    exact List.mem_append_right _ (List.mem_map.2 ⟨ev', List.mem_filter.2 ⟨hev', hs⟩, rfl⟩)
  rw [ht.stream_before, Simulator.stream, streamIn_append, ht.pushes.processed_eq,
    SimulationEngine.advance_processed, hqueue, List.append_assoc]

/-- A stream that a turn announces something of has its announcements so far in the past. -/
theorem TurnOf.stream_past (ht : TurnOf w s ev rest out s') (hs : Told s stage) {r : RequestId}
    (hm : Stage.Moves ev.time ev.payload out r (stage r) (stage' r)) :
    streamOut r out = [] ∨ ∃ t, ev.time < t ∧ (∀ e ∈ s.stream r, e.1 ≤ ev.time) ∧
      ∀ e ∈ streamOut r out, e.1 = t := by
  have hstep : (∀ id, ev.payload ≠ .decodeBatchStep id) → streamOut r out = [] := fun hp =>
    streamOut_eq_nil (ht.handles.stream_eq_none hp)
  refine (hm.stream_cases hstep).imp_right ?_
  rintro ⟨req, a, g, t, hst, hp, hlt, hall⟩
  exact ⟨t, hlt, hs.due r req a g hst ev (ht.events ▸ List.mem_cons_self ..) hp, hall⟩

/-- **A turn announces what belongs to the stages of the requests.** -/
theorem TurnOf.told (ht : TurnOf w s ev rest out s') (hs : Told s stage) (hst : Staged w s stage)
    (ha : Awake s.stepCount s.2.nodes) (hn : s.1.Numbered)
    (hmoves : ∀ r, Stage.Moves ev.time ev.payload out r (stage r) (stage' r)) :
    Told s' stage' := by
  have hpast := fun r => ht.stream_past hs (hmoves r)
  have hstream : ∀ r, s'.stream r = s.stream r ++ streamOut r out := by
    intro r
    rcases hpast r with hnil | ⟨t, hlt, hbefore, hall⟩
    · refine ht.stream_eq hn r ?_ ?_ <;> rw [hnil]
      · exact fun _ _ _ he => absurd he List.not_mem_nil
      · exact .nil
    · refine ht.stream_eq hn r (fun e he e' he' => ?_) ?_
      · rw [hall e' he']
        exact (hbefore e he).trans hlt.le
      · refine List.pairwise_iff_forall_sublist.2 fun {e e'} hsub => ?_
        rw [hall e (hsub.subset (by simp)), hall e' (hsub.subset (by simp))]
  refine ⟨fun r => ?_, fun r req a g hr ev' hev' hp e he => ?_⟩
  · rw [hstream r]
    refine (hmoves r).announced (fun hp => streamOut_eq_nil (ht.handles.stream_eq_none hp))
      (hs.announced r) fun hne => ?_
    obtain ⟨t, -, hbefore, -⟩ := (hpast r).resolve_left hne
    exact hbefore
  · -- the stream was there before, or it has no announcement yet
    have hbefore : s.stream r = [] ∨ ∃ g', stage r = .decoding req a g' := by
      have hm := hmoves r
      rw [hr] at hm
      generalize hst' : stage r = st at hm
      have htold := hs.announced r
      rw [hst'] at htold
      cases hm with
      | stay => exact Or.inr ⟨g, rfl⟩
      | enter => exact Or.inl htold
      | token => exact Or.inr ⟨_, rfl⟩
    have hfirst : ev ∈ s.1.queue.events := ht.events ▸ List.mem_cons_self ..
    rw [hstream r] at he
    rcases ht.pushes.mem hev' with hold | hnew
    · -- a step that was scheduled before
      rcases List.mem_append.1 he with he | he
      · rcases hbefore with hnil | ⟨g', hst'⟩
        · rw [hnil] at he
          cases he
        · exact hs.due r req a g' hst' ev' (ht.events ▸ List.mem_cons_of_mem _ hold) hp e he
      · -- the node has no other step than the one that is handled
        have hne : streamOut r out ≠ [] := List.ne_nil_of_mem he
        have hstep : (∀ id, ev.payload ≠ .decodeBatchStep id) → streamOut r out = [] := fun hp =>
          streamOut_eq_nil (ht.handles.stream_eq_none hp)
        obtain ⟨req', a', g', t, hst', hev, -⟩ := ((hmoves r).stream_cases hstep).resolve_left hne
        rcases hbefore with hnil | ⟨g'', hst''⟩
        · have hm := hmoves r
          rw [hst', hr] at hm
          cases hm with
          | stay _ _ hout =>
              rw [← streamOut_own, hout] at hne
              exact absurd rfl hne
          | token => exact absurd hp (notMem_rest_of_step ha ht.events hev ev' hold)
        · rw [hst''] at hst'
          cases hst'
          exact absurd hp (notMem_rest_of_step ha ht.events hev ev' hold)
    · -- a step that the turn schedules
      rw [hp] at hnew
      by_cases hstep : ∃ id, ev.payload = .decodeBatchStep id
      · obtain ⟨id, hid⟩ := hstep
        have hh := ht.handles
        rcases List.mem_append.1 he with he | he
        · rcases ht.handles.steps_cases ha.armed with ⟨x, hx, -, -, hout⟩ | ⟨hno, -, -⟩
          · rcases hbefore with hnil | ⟨g', hst'⟩
            · rw [hnil] at he
              cases he
            · rw [← (hout _ _ hnew).1] at hx
              exact (hs.due r req a g' hst' ev hfirst hx e he).trans (ht.pushes.now_le _ hnew)
          · exact absurd hid (hno id)
        · rw [hid] at hh
          exact hh.stream_le_step (List.mem_of_mem_filter he) hnew
      · have hno : ∀ id, ev.payload ≠ .decodeBatchStep id := fun id hid => hstep ⟨id, hid⟩
        rw [streamOut_eq_nil (ht.handles.stream_eq_none hno), List.append_nil] at he
        rcases hbefore with hnil | ⟨g', hst'⟩
        · rw [hnil] at he
          cases he
        · -- the node has work, so that it has a step scheduled already
          rcases ht.handles.steps_cases ha.armed with ⟨x, hx, -⟩ | ⟨-, -, hout⟩
          · exact absurd hx (hno _)
          · obtain ⟨-, -, n, hn', hflag⟩ := hout _ _ hnew
            have hview := (hst.kept r).viewOf hn'
            rw [hst'] at hview
            have hdec : r ∈ n.decoding := by
              have hmem := congrArg NodeView.decoding hview
              rw [Stage.node, only_self] at hmem
              exact of_decide_eq_true hmem
            rw [ha.armed _ n hn' (hasWork_eq_true_iff.2 (Or.inl ⟨r, hdec⟩))] at hflag
            cases hflag

/-- The arrival of a request announces nothing. -/
theorem Told.arrive {s s' : Simulator ς} (hs : Told s stage) {t : Time} {req : Request}
    (habsent : stage req.requestId = .absent) (hn : s.1.Numbered)
    (hpush : Pushes s.1 [(t, .requestArrive req)] s'.1) :
    Told s' fun r => if r = req.requestId then .arriving req else stage r := by
  have hstream : ∀ r, s'.stream r = s.stream r := by
    intro r
    have hqueue : streamIn r s'.1.queue.events = streamIn r s.1.queue.events ++ [] := by
      refine hpush.filter_eq hn (fun p => decide (p.stream? = some r)) ?_ .nil
      intro ev _ _ e he hf
      rw [List.mem_singleton.1 he] at hf
      exact absurd hf (by simp [Payload.stream?])
    rw [Simulator.stream, streamIn_append, hqueue, hpush.processed_eq, List.append_nil,
      ← streamIn_append, Simulator.stream]
  refine ⟨fun r => ?_, fun r req' a g hr ev hev hp e he => ?_⟩
  · rw [hstream r]
    by_cases hreq : r = req.requestId
    · have htold := hs.announced r
      rw [hreq, habsent] at htold
      rw [if_pos hreq, hreq]
      exact htold
    · rw [if_neg hreq]
      exact hs.announced r
  · rw [hstream r] at he
    have hst : stage r = .decoding req' a g := by
      by_cases hreq : r = req.requestId
      · rw [if_pos hreq] at hr
        cases hr
      · rwa [if_neg hreq] at hr
    rcases hpush.mem hev with hold | hnew
    · exact hs.due r req' a g hst ev hold hp e he
    · rw [hp, List.mem_singleton] at hnew
      cases hnew

/-- **In every state that is reached, the announcements belong to the stages of the requests.** -/
theorem Reaches.told (hpools : ∀ id ∈ w.prefillIds, id ∉ w.decodeIds)
    (h : w.Reaches DistinctArrivals s) : ∃ stage, Staged w s stage ∧ Told s stage := by
  have hboth := h.staged_and (fun _ _ _ hm => hm) (fun _ _ hs _ => hs.noneQueued hpools)
    (J := fun s stage => s.1.Numbered ∧ Told s stage) ?_ ?_ ?_
  · exact hboth.imp fun stage hs => ⟨hs.1, hs.2.2⟩
  · exact fun _ _ _ => ⟨fun _ hev => absurd hev List.not_mem_nil, fun _ => rfl, fun _ _ _ _ h => by
      cases h⟩
  · exact fun s s' stage t req hst hs hnew hpush _ =>
      ⟨hpush.numbered hs.1, Told.arrive hs.2 (hst.absent hnew) hs.1 hpush⟩
  · exact fun s s' stage stage' ev rest out h hst hs ht hmoves =>
      ⟨ht.pushes.numbered (hs.1.advance ht.events), ht.told hs.2 hst h.awake hs.1 hmoves⟩

end Wiring

/-! ### Batch sizes -/

/-- The size of the batch of a handled step. -/
def BatchStep.batchSize (x : BatchStep) : ℕ := (x.tick.map Prod.fst).getD 0

/-- The tokens among some events. -/
def tokensIn (evs : List (Event Payload)) : ℕ := evs.countP fun ev => ev.payload.isToken

section BatchSizes

variable {ς : Type} {w : Wiring ς}

/-- The batch size of a step counts the tokens that it announces. -/
theorem Handles.batchSizes {now : Time} {u : ℤ} {b b' : Bookkeeping} {p : Payload}
    {out : List (Time × Payload)} (h : Handles w now u b p out b') :
    (b'.steps.map BatchStep.batchSize).sum =
      (b.steps.map BatchStep.batchSize).sum + out.countP fun e => e.2.isToken := by
  have hnone : (∀ id, p ≠ .decodeBatchStep id) → out.countP (fun e => e.2.isToken) = 0 := by
    intro hp
    refine List.countP_eq_zero.2 fun e he => ?_
    have hstream := h.stream_eq_none hp e he
    cases hpe : e.2 with
    | tokenGenerated r i =>
        rw [hpe] at hstream
        cases hstream
    | _ => exact Bool.false_ne_true
  have hsame : (∀ id, p ≠ .decodeBatchStep id) → b'.steps = b.steps →
      (b'.steps.map BatchStep.batchSize).sum =
        (b.steps.map BatchStep.batchSize).sum + out.countP fun e => e.2.isToken := by
    intro hp hsteps
    rw [hsteps, hnone hp, Nat.add_zero]
  cases h with
  | stepIdle hn hidle => simp [BatchStep.batchSize]
  | @stepRun id n n' T completed streams pf b₁ hn hwork hop hnd hmem hout hb =>
      have ht := (MockEngineNode.ticked_of_run hop).2
      have hcard : streams.length = n.decoding.card := by
        have hfin : streams.toFinset = n.decoding := by
          ext r
          rw [List.mem_toFinset, hmem, ht.decoding]
          constructor
          · rintro (⟨hr, -⟩ | hr)
            · exact hr
            · exact ht.completed_sub r hr
          · intro hr
            by_cases hc : r ∈ completed
            · exact Or.inr hc
            · exact Or.inl ⟨hr, hc⟩
        rw [← hfin, List.toFinset_card_of_nodup hnd]
      have hpf : (prefillEvents b id T pf).countP (fun e => e.2.isToken) = 0 := by
        refine List.countP_eq_zero.2 fun e he => ?_
        obtain ⟨q, req, -, -, rfl⟩ := mem_prefillEvents he
        exact Bool.false_ne_true
      have htok : (tokenEvents n' T streams).countP (fun e => e.2.isToken) = streams.length := by
        rw [tokenEvents, List.countP_map]
        exact List.countP_eq_length.2 fun _ _ => rfl
      have hcomp : (completionEvents id T completed).countP (fun e => e.2.isToken) = 0 := by
        refine List.countP_eq_zero.2 fun e he => ?_
        obtain ⟨q, -, rfl⟩ := List.mem_map.1 he
        exact Bool.false_ne_true
      have hwake : (b₁.wakeEvents id T).countP (fun e => e.2.isToken) = 0 := by
        refine List.countP_eq_zero.2 fun e he => ?_
        rw [(Bookkeeping.mem_wakeEvents he).1]
        exact Bool.false_ne_true
      rw [Bookkeeping.wake_steps, hb] at *
      simp only [List.countP_append, hpf, htok, hcomp, hwake, hcard, List.map_append,
        List.sum_append, List.map_cons, List.map_nil, List.sum_singleton, BatchStep.batchSize,
        Option.map_some, Option.getD_some, Nat.zero_add, Nat.add_zero]
  | startPipeline hx hn hu hlen hop =>
      exact hsame (fun _ h => by cases h) (by rw [Bookkeeping.wake_steps]; rfl)
  | transferAccepted hinfo ha hd hn hroom hadm hop hb =>
      exact hsame (fun _ h => by cases h) (by rw [Bookkeeping.wake_steps, hb]; rfl)
  | decodeFinished hd hn hop hb =>
      exact hsame (fun _ h => by cases h) (by rw [Bookkeeping.wake_steps, hb]; rfl)
  | prefillFinished hp hn ha hop hpr hbase ht =>
      obtain ⟨nodes, hb₁⟩ := hpr.eq_nodes
      exact hsame (fun _ h => by cases h) (by rw [hb₁]; rfl)
  | _ => exact hsame (fun _ h => by cases h) rfl

/-- **The batch sizes of the handled steps count the tokens**, those that are still to be announced
included. -/
theorem Wiring.Reaches.batchSizes {meets : Simulator ς → Action → Prop} {s : Simulator ς}
    (h : w.Reaches meets s) :
    (s.2.steps.map BatchStep.batchSize).sum = tokensIn (s.1.processed ++ s.1.queue.events) := by
  refine h.invariant (I := fun s => (s.2.steps.map BatchStep.batchSize).sum =
    tokensIn (s.1.processed ++ s.1.queue.events)) (fun _ _ _ => rfl) ?_ ?_
  · intro s s' t req _ hs _ hpush hc
    have hcount := hpush.countP_eq Payload.isToken
    rw [hc, hs, tokensIn, tokensIn, List.countP_append, List.countP_append, hpush.processed_eq,
      hcount]
    rfl
  · intro s s' ev rest out _ hs _ ht
    have hcount := ht.pushes.countP_eq Payload.isToken
    rw [ht.handles.batchSizes, hs, tokensIn, tokensIn, ht.events, ht.pushes.processed_eq,
      SimulationEngine.advance_processed, List.countP_append, List.countP_append, hcount,
      SimulationEngine.advance_events, List.countP_append, List.countP_cons, List.countP_cons,
      List.countP_nil]
    omega

end BatchSizes

/-! ### Drained runs -/

namespace Wiring

variable {ς : Type} {w : Wiring ς} {s : Simulator ς}

/-- **Token streams**: with disjoint pools and distinct request ids, in a state that is reached and
has no event left, a request that has entered decode and asks for `n` tokens has been announced
`max 1 n` tokens, numbered from zero and at increasing times, and then its completion at the time of
the last one; no token has been announced for a rejected request; and the batch sizes of the handled
steps add up to the number of tokens. -/
theorem token_streams (hpools : ∀ id ∈ w.prefillIds, id ∉ w.decodeIds)
    (h : w.Reaches DistinctArrivals s) (hq : s.1.queue.events = []) :
    (∀ ev ∈ s.1.processed, ∀ req, ev.payload = .requestArrive req →
      req.requestId ∈ s.2.entered →
        ∃ d ts t, (ts ++ [t]).length = max 1 req.expectedOutputLen.toNat ∧
          (ts ++ [t]).Pairwise (· < ·) ∧ streamIn req.requestId s.1.processed =
            tokensAt req.requestId (ts ++ [t]) ++ [(t, .decodeComplete req.requestId d)]) ∧
      (∀ ev ∈ s.1.processed, ∀ r reason, ev.payload = .requestRejected r reason →
        streamIn r s.1.processed = []) ∧
      (s.2.steps.map BatchStep.batchSize).sum = tokensIn s.1.processed := by
  obtain ⟨stage, hst, hs⟩ := h.told hpools
  have hstream : ∀ r, (stage r).Announced r (streamIn r s.1.processed) := by
    intro r
    have htold := hs.announced r
    rwa [Simulator.stream, hq, List.append_nil] at htold
  refine ⟨fun ev hev req hreq hent => ?_, fun ev hev r reason hrej => ?_, ?_⟩
  · have htold := hstream req.requestId
    have hgone := hst.isGone h.awake hq req.requestId
    have hentered := (hst.kept req.requestId).entered
    have hpos : 0 < s.2.entered.count req.requestId := List.count_pos_iff.2 hent
    have harrived := (hst.known req.requestId).arrived
    have hmem : req ∈ (s.1.processed.filterMap fun ev => ev.payload.arrival?).filter
        fun req' => req'.requestId = req.requestId :=
      List.mem_filter.2 ⟨List.mem_filterMap.2 ⟨ev, hev, by rw [hreq]; rfl⟩, by simp⟩
    cases hstage : stage req.requestId with
    | finished req' d g =>
        rw [hstage] at htold harrived
        rw [harrived] at hmem
        obtain rfl := List.mem_singleton.1 hmem
        obtain ⟨ts, t, hlen, hts, hall⟩ := htold
        have hv := hst.valid req.requestId
        rw [hstage] at hv
        refine ⟨d, ts, t, ?_, hts, hall⟩
        rw [List.length_append, List.length_singleton, hlen, hv.2.2, Stage.goal]
    | absent | dismissed _ _ =>
        rw [hstage] at hentered
        exact absurd hentered hpos.ne'
    | _ =>
        rw [hstage] at hgone
        exact hgone.elim
  · have htold := hstream r
    have hended := (hst.known r).ended
    have hmem : ev.payload ∈ (s.1.processed.map Event.payload).filter fun p => p.Ends r :=
      List.mem_filter.2 ⟨List.mem_map_of_mem hev, by simp [hrej, Payload.Ends, Payload.terminal?]⟩
    rw [hended, hrej] at hmem
    cases hstage : stage r with
    | dismissed _ _ =>
        rw [hstage] at htold
        exact htold
    | finished req d g =>
        rw [hstage] at hmem
        cases List.mem_singleton.1 hmem
    | _ =>
        rw [hstage] at hmem
        cases hmem
  · rw [h.batchSizes, hq, List.append_nil]

theorem token_streams_oneRequest :
    ∃ d ts t, (ts ++ [t]).length = 2 ∧ (ts ++ [t]).Pairwise (· < ·) ∧
      streamIn "a" (split.after oneRequest).1.processed =
        tokensAt "a" (ts ++ [t]) ++ [(t, .decodeComplete "a" d)] := by
  have hm : split.Meets DistinctArrivals oneRequest split.initial := by decide +kernel
  have hok : ((split.execute oneRequest).run split.initial).isOk = true := by decide +kernel
  have hq : (split.after oneRequest).1.queue.events = [] := by decide +kernel
  have ha : (⟨0, 0, .requestArrive ⟨"a", [1], 2, 0, 1000, 1000⟩⟩ : Event Payload) ∈
      (split.after oneRequest).1.processed := by decide +kernel
  have hent : "a" ∈ (split.after oneRequest).2.entered := by decide +kernel
  have hpools : ∀ id ∈ split.prefillIds, id ∉ split.decodeIds := by decide +kernel
  exact (token_streams hpools (reaches_after _ hm hok) hq).1 _ ha ⟨"a", [1], 2, 0, 1000, 1000⟩
    rfl hent

end Wiring

end NanoKVRouter
