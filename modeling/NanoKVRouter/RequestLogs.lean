/-
**The log of a request.**

The events about one request, the handled ones and then those that are still scheduled, tell its
life in order: it arrives, and it is rejected, or it is admitted, prefilled, transferred and
decoded token by token or refused by the decode node.  The order of the queue agrees with this
order, because what is scheduled for a request never comes before what has been scheduled for it:
the event that carries it on is the last one, and in the stages that have no such event everything
but its tokens lies in the past.

Main definitions:

* `logIn`, `Simulator.log` — the events about a request;
* `Course`, `Stage.Story` — what has been logged of a request, in each of its stages;
* `Logged` — the invariant of a run;
* `Payload.Consistent` — what the events of a transfer carry.

Main results:

* `Stage.Moves.story` — a move logs what belongs to the next stage;
* `Wiring.TurnOf.logged` — so does a turn, for every request;
* `Wiring.Reaches.logged` — **in every state that is reached, the logs tell the stages of the
  requests**;
* `Wiring.Reaches.consistent` — and the events of every transfer are consistent.
-/

import NanoKVRouter.SimulatorTokens

set_option relaxedAutoImplicit false
set_option autoImplicit false

namespace NanoKVRouter

/-! ### Logs -/

/-- The events about a request among some events. -/
def logIn (r : RequestId) (evs : List (Event Payload)) : List (Time × Payload) :=
  (evs.filter fun ev => ev.payload.owner = some r).map fun ev => (ev.time, ev.payload)

/-- The events about a request, those to come included. -/
def Simulator.log {ς : Type} (s : Simulator ς) (r : RequestId) : List (Time × Payload) :=
  logIn r (s.1.processed ++ s.1.queue.events)

section Logs

variable {r : RequestId} {evs evs' : List (Event Payload)} {e : Time × Payload}

theorem logIn_append : logIn r (evs ++ evs') = logIn r evs ++ logIn r evs' := by
  rw [logIn, List.filter_append, List.map_append, logIn, logIn]

theorem mem_logIn : e ∈ logIn r evs ↔
    ∃ ev ∈ evs, ev.payload.owner = some r ∧ e = (ev.time, ev.payload) := by
  rw [logIn, List.mem_map]
  constructor
  · rintro ⟨ev, hev, rfl⟩
    exact ⟨ev, (List.mem_filter.1 hev).1, of_decide_eq_true (List.mem_filter.1 hev).2, rfl⟩
  · rintro ⟨ev, hev, howner, rfl⟩
    exact ⟨ev, List.mem_filter.2 ⟨hev, decide_eq_true howner⟩, rfl⟩

/-- What is logged of a request and announces something is in its stream. -/
theorem mem_streamIn_of_mem_logIn (he : e ∈ logIn r evs) (hs : e.2.stream? ≠ none) :
    e ∈ streamIn r evs := by
  obtain ⟨ev, hev, howner, rfl⟩ := mem_logIn.1 he
  have hstream : ev.payload.stream? = some r := by
    change ev.payload.stream? ≠ none at hs
    cases hp : ev.payload with
    | tokenGenerated r' i =>
        rw [hp] at howner
        exact howner
    | decodeComplete r' d =>
        rw [hp] at howner
        exact howner
    | _ =>
        rw [hp] at hs
        exact absurd rfl hs
  exact List.mem_map.2 ⟨ev, List.mem_filter.2 ⟨hev, decide_eq_true hstream⟩, rfl⟩

/-- Events that come after the logged ones are logged behind them. -/
theorem Pushes.logIn_eq {eng eng' : SimulationEngine Payload} {out : List (Time × Payload)}
    (hp : Pushes eng out eng') (hn : eng.Numbered)
    (hpast : own r out ≠ [] → ∀ e ∈ logIn r (eng.processed ++ eng.queue.events),
      ∀ e' ∈ own r out, e.1 ≤ e'.1)
    (hmono : (own r out).Pairwise fun e e' => e.1 ≤ e'.1) :
    logIn r (eng'.processed ++ eng'.queue.events) =
      logIn r (eng.processed ++ eng.queue.events) ++ own r out := by
  have hqueue : logIn r eng'.queue.events = logIn r eng.queue.events ++ own r out := by
    refine hp.filter_eq hn (fun p => decide (p.owner = some r)) (fun ev hev ho e he ho' => ?_) hmono
    have hown : e ∈ own r out := List.mem_filter.2 ⟨he, ho'⟩
    refine hpast (List.ne_nil_of_mem hown) (ev.time, ev.payload) ?_ e hown
    exact mem_logIn.2 ⟨ev, List.mem_append_right _ hev, of_decide_eq_true ho, rfl⟩
  rw [logIn_append, hp.processed_eq, hqueue, logIn_append, List.append_assoc]

end Logs

/-! ### Stories -/

/-- What is particular to the life of an accepted request. -/
structure Course where
  request : Request
  assignment : Assignment
  decision : SchedulingDecision
  matchedTokens : ℕ
  matchedBlocksByTier : PyDict Tier ℕ
  nChunks : ℤ
  base : TransferPayload

namespace Course

/-- A request that has not been transferred. -/
def fresh (r : RequestId) (req : Request) (a : Assignment) (dec : SchedulingDecision) (mt : ℕ)
    (mb : PyDict Tier ℕ) : Course :=
  ⟨req, a, dec, mt, mb, 0, ⟨r, "", "", "", 0, 0, 0⟩⟩

variable (c : Course) (r : RequestId)

/-- The request has been admitted. -/
def admitted : List Payload :=
  [.requestArrive c.request, .scheduled r c.decision c.matchedTokens c.matchedBlocksByTier]

/-- Its prefill has been started. -/
def started : List Payload :=
  c.admitted r ++ [.prefillStart r c.assignment.prefillNode c.request c.nChunks]

/-- Its prefill has been completed. -/
def prefilled : List Payload :=
  c.started r ++ [.prefillComplete r c.assignment.prefillNode c.request]

/-- It has been transferred. -/
def transferred : List Payload :=
  c.prefilled r ++ [.kvTransferStart c.base, .kvTransferComplete c.base c.request]

/-- It has got `g` tokens. -/
def decoding (g : ℕ) : List Payload :=
  c.transferred r ++ (List.range g).map fun i => .tokenGenerated r i

/-- It has got its tokens and has been completed. -/
def decoded (g : ℕ) : List Payload :=
  c.decoding r g ++ [.decodeComplete r c.assignment.decodeNode]

theorem decoding_zero : c.decoding r 0 = c.transferred r := List.append_nil _

theorem decoding_succ (g : ℕ) : c.decoding r (g + 1) = c.decoding r g ++ [.tokenGenerated r g] := by
  rw [decoding, List.range_succ, List.map_append, ← List.append_assoc]
  rfl

theorem decoded_succ (g : ℕ) : c.decoded r (g + 1) =
    c.decoding r g ++ [.tokenGenerated r g, .decodeComplete r c.assignment.decodeNode] := by
  rw [decoded, decoding_succ, List.append_assoc]
  rfl

end Course

/-- What has been logged of the request `r`, in each of its stages. -/
inductive Stage.Story (r : RequestId) : Stage → List Payload → Prop
  | absent : Story r absent []
  | arriving (req : Request) : Story r (arriving req) [.requestArrive req]
  | rejected (req : Request) (reason : Option String) :
      Story r (rejected req reason) [.requestArrive req, .requestRejected r reason]
  | refused (c : Course) (reason : Option String) :
      Story r (rejected c.request reason) (c.transferred r ++ [.requestRejected r reason])
  | waiting (c : Course) : Story r (waiting c.request c.assignment) (c.admitted r)
  | starting (c : Course) : Story r (starting c.request c.assignment c.nChunks) (c.started r)
  | prefilling (c : Course) (u : ℤ) : Story r (prefilling c.request c.assignment u) (c.started r)
  | prefilled (c : Course) : Story r (prefilled c.request c.assignment) (c.prefilled r)
  | transferring (c : Course) :
      Story r (transferring c.request c.assignment c.base) (c.transferred r)
  | decoding (c : Course) (g : ℕ) : Story r (decoding c.request c.assignment g) (c.decoding r g)
  | decoded (c : Course) (g : ℕ) : Story r (decoded c.request c.assignment g) (c.decoded r g)
  | finished (c : Course) (g : ℕ) :
      Story r (finished c.request c.assignment.decodeNode g) (c.decoded r g)
  | dismissed (req : Request) (reason : Option String) :
      Story r (dismissed req reason) [.requestArrive req, .requestRejected r reason]
  | dismissedLate (c : Course) (reason : Option String) :
      Story r (dismissed c.request reason) (c.transferred r ++ [.requestRejected r reason])

namespace Stage.Moves

variable {now : Time} {p : Payload} {out : List (Time × Payload)} {r : RequestId} {st st' : Stage}

/-- **A move logs what belongs to the next stage**, if what an arrival announces is a schedule. -/
theorem story (h : Stage.Moves now p out r st st') {l : List Payload} (hl : st.Story r l)
    (hsched : ∀ req, p = .requestArrive req → ∀ e ∈ out, e.2.isNotice = true →
      ∃ dec mt mb, e.2 = .scheduled req.requestId dec mt mb) :
    st'.Story r (l ++ (own r out).map Prod.snd) := by
  -- the notice of an arrival
  have hnotice : ∀ {req : Request} {t : Time} {q : Payload}, p = .requestArrive req →
      (t, q) ∈ own r out → q.isNotice = true → ∃ dec mt mb, q = .scheduled r dec mt mb := by
    intro req t q hp hmem hq
    obtain ⟨dec, mt, mb, hs⟩ := hsched req hp (t, q) (List.mem_of_mem_filter hmem) hq
    have howner := owner_of_mem_own hmem
    change q = _ at hs
    change q.owner = some r at howner
    rw [hs] at howner
    rw [Option.some_inj.1 howner] at hs
    exact ⟨dec, mt, mb, hs⟩
  cases h with
  | stay _ _ hout =>
      rw [hout, List.map_nil, List.append_nil]
      exact hl
  | reject hp hout =>
      rw [hout]
      cases hl
      exact .rejected _ _
  | queue hp hout hq =>
      obtain ⟨dec, mt, mb, rfl⟩ := hnotice hp (hout ▸ List.mem_singleton_self _) hq
      rw [hout]
      cases hl
      exact .waiting (.fresh r _ _ dec mt mb)
  | start hp hout hq =>
      obtain ⟨dec, mt, mb, rfl⟩ := hnotice hp (hout ▸ List.mem_cons_self) hq
      rw [hout]
      cases hl
      exact .starting { Course.fresh r _ _ dec mt mb with nChunks := _ }
  | @promote req a k _ hout =>
      rw [hout]
      cases hl with
      | waiting c => exact .starting { c with nChunks := k }
  | skip _ hout =>
      rw [hout]
      cases hl
      exact .prefilled _
  | pipeline _ hout =>
      rw [hout, List.map_nil, List.append_nil]
      cases hl
      exact .prefilling _ _
  | chunk _ hout =>
      rw [hout, List.map_nil, List.append_nil]
      cases hl
      exact .prefilling _ _
  | drain _ hout =>
      rw [hout]
      cases hl
      exact .prefilled _
  | @transfer req a base t₁ t₂ _ hout =>
      rw [hout]
      cases hl with
      | prefilled c => exact .transferring { c with base := base }
  | refuse _ hout =>
      rw [hout]
      cases hl
      exact .refused _ _
  | enter _ hout =>
      rw [hout, List.map_nil, List.append_nil]
      cases hl
      rw [← Course.decoding_zero]
      exact .decoding _ 0
  | token _ hout =>
      rw [hout]
      cases hl
      rw [List.map_cons, List.map_nil, ← Course.decoding_succ]
      exact .decoding _ _
  | last _ hout =>
      rw [hout]
      cases hl
      rw [List.map_cons, List.map_cons, List.map_nil, ← Course.decoded_succ]
      exact .decoded _ _
  | finish _ hout =>
      rw [hout, List.map_nil, List.append_nil]
      cases hl
      exact .finished _ _
  | dismiss _ hout =>
      rw [hout, List.map_nil, List.append_nil]
      cases hl with
      | rejected => exact .dismissed _ _
      | refused => exact .dismissedLate _ _

/-- What is scheduled for a request comes in order, if the end of a transfer does not come before
its start. -/
theorem own_mono (h : Stage.Moves now p out r st st')
    (htransfer : ∀ base t₁, (t₁, .kvTransferStart base) ∈ out →
      ∀ req t₂, (t₂, .kvTransferComplete base req) ∈ out → t₁ ≤ t₂) :
    (own r out).Pairwise fun e e' => e.1 ≤ e'.1 := by
  have hpair : ∀ {e e' : Time × Payload}, e.1 ≤ e'.1 →
      [e, e'].Pairwise fun e e' => e.1 ≤ e'.1 := fun hle => by simp [hle]
  cases h with
  | start _ hout => exact hout ▸ hpair le_rfl
  | last _ hout => exact hout ▸ hpair le_rfl
  | transfer _ hout =>
      have hmem : ∀ e ∈ own r out, e ∈ out := fun e he => List.mem_of_mem_filter he
      rw [hout] at hmem ⊢
      exact hpair (htransfer _ _ (hmem _ List.mem_cons_self) _ _
        (hmem _ (List.mem_cons_of_mem _ List.mem_cons_self)))
  | stay _ _ hout | pipeline _ hout | chunk _ hout | enter _ hout | finish _ hout
  | dismiss _ hout =>
      exact hout ▸ .nil
  | reject _ hout | queue _ hout | promote _ hout | skip _ hout | drain _ hout | refuse _ hout
  | token _ hout =>
      exact hout ▸ List.pairwise_singleton _ _

/-- The event that carries the request on is the last one that is scheduled for it. -/
theorem le_carrier (h : Stage.Moves now p out r st st')
    (hmono : (own r out).Pairwise fun e e' => e.1 ≤ e'.1) {e c : Time × Payload}
    (he : e ∈ own r out) (hc : c ∈ own r out) (hcarries : c.2.Carries r) : e.1 ≤ c.1 := by
  have hone : ∀ {x : Time × Payload}, own r out = [x] → e.1 ≤ c.1 := by
    intro x hout
    rw [hout, List.mem_singleton] at he hc
    rw [he, hc]
  have hsame : ∀ {t : Time} {q q' : Payload}, own r out = [(t, q), (t, q')] → e.1 ≤ c.1 := by
    intro t q q' hout
    rw [hout, List.mem_pair] at he hc
    rcases he with rfl | rfl <;> rcases hc with rfl | rfl <;> exact le_rfl
  cases h with
  | start _ hout => exact hsame hout
  | last _ hout => exact hsame hout
  | transfer _ hout =>
      rw [hout] at hmono
      rw [hout, List.mem_pair] at he hc
      rcases hc with rfl | rfl
      · cases hcarries.2
      · rcases he with rfl | rfl
        · exact (List.pairwise_cons.1 hmono).1 _ (List.mem_singleton_self _)
        · exact le_rfl
  | stay _ _ hout | pipeline _ hout | chunk _ hout | enter _ hout | finish _ hout
  | dismiss _ hout =>
      rw [hout] at he
      cases he
  | reject _ hout | queue _ hout | promote _ hout | skip _ hout | drain _ hout | refuse _ hout
  | token _ hout =>
      exact hone hout

/-- A request moves by the event that carries it on, or it has no such event, or it stays. -/
theorem cases_carried {prefillIds decodeIds : List NodeId} (h : Stage.Moves now p out r st st')
    (hv : st.Valid prefillIds decodeIds r) :
    p.Carries r ∨ st.pending r = 0 ∨ (st' = st ∧ own r out = []) := by
  cases h with
  | stay _ _ hout => exact Or.inr (Or.inr ⟨rfl, hout⟩)
  | promote | chunk | drain | token | last => exact Or.inr (Or.inl rfl)
  | reject hp | queue hp | start hp => exact Or.inl (hp ▸ ⟨congrArg some hv, rfl⟩)
  | refuse hp | enter hp => exact Or.inl (hp ▸ ⟨congrArg some hv.2.1, rfl⟩)
  | skip hp | pipeline hp | transfer hp | finish hp | dismiss hp => exact Or.inl (hp ▸ ⟨rfl, rfl⟩)

/-- A request that something is scheduled for without an event that carries it on has announced
nothing so far, or is in the batch of the step that is handled. -/
theorem announced_cases (h : Stage.Moves now p out r st st') (hp : st.pending r = 0)
    (hout : own r out ≠ []) {told : List (Time × Payload)} (ht : st.Announced r told) :
    told = [] ∨ ∃ req a g, st = .decoding req a g ∧ p = .decodeBatchStep a.decodeNode := by
  cases h with
  | stay _ _ h | pipeline _ h | chunk _ h | enter _ h | finish _ h | dismiss _ h =>
      exact absurd h hout
  | promote | drain => exact Or.inl ht
  | token hstep | last hstep => exact Or.inr ⟨_, _, _, rfl, hstep⟩
  | reject | queue | start | skip | transfer | refuse =>
      exact absurd hp (Multiset.singleton_ne_zero _)

/-- What is scheduled for a request that then has no event to carry it on is a token, or is
scheduled for the present. -/
theorem le_of_settled (h : Stage.Moves now p out r st st') (hst : st'.pending r = 0)
    {e : Time × Payload} (he : e ∈ own r out) (hs : e.2.stream? = none) : e.1 ≤ now := by
  cases h with
  | stay _ _ hout | pipeline _ hout | chunk _ hout | enter _ hout | finish _ hout
  | dismiss _ hout =>
      rw [hout] at he
      cases he
  | queue _ hout =>
      rw [hout, List.mem_singleton] at he
      rw [he]
  | token _ hout =>
      rw [hout, List.mem_singleton] at he
      rw [he] at hs
      cases hs
  | reject | start | promote | skip | drain | transfer | refuse | last =>
      exact absurd hst (Multiset.singleton_ne_zero _)

end Stage.Moves

/-! ### What the handlers schedule -/

section Handlers

variable {ς : Type} {w : Wiring ς} {now : Time} {u : ℤ} {b b' : Bookkeeping} {p : Payload}
  {out : List (Time × Payload)}

/-- An arrival announces nothing but its schedule. -/
theorem Handles.notice_of_arrival {req : Request} (h : Handles w now u b (.requestArrive req) out b')
    {e : Time × Payload} (he : e ∈ out) (hn : e.2.isNotice = true) :
    ∃ dec mt mb, e.2 = .scheduled req.requestId dec mt mb := by
  cases h with
  | arriveRejected =>
      rw [List.mem_singleton] at he
      rw [he] at hn
      cases hn
  | @arriveAdmitted _ x d dec mt mb v running n n' started hx hnode hv hop hstarted =>
      rcases List.mem_cons.1 he with rfl | he
      · exact ⟨dec, mt, mb, rfl⟩
      · cases running with
        | true =>
            obtain ⟨k, rfl⟩ := hstarted
            rw [List.mem_singleton] at he
            rw [he] at hn
            cases hn
        | false =>
            obtain rfl := hstarted
            cases he

theorem transferServiceMs_nonneg (promptLen kvBytesPerToken : ℕ) {bandwidth : ℚ}
    (h : 0 < bandwidth) : 0 ≤ transferServiceMs promptLen kvBytesPerToken bandwidth := by
  rw [transferServiceMs]
  exact mul_nonneg (div_nonneg (Nat.cast_nonneg _) h.le) (by decide +kernel)

/-- The start of a transfer does not come after its end. -/
theorem Handles.transfer_le (h : Handles w now u b p out b') {base base' : TransferPayload}
    {req : Request} {t₁ t₂ : Time} (h₁ : (t₁, .kvTransferStart base) ∈ out)
    (h₂ : (t₂, .kvTransferComplete base' req) ∈ out) : t₁ ≤ t₂ := by
  have hwake : ∀ (b₁ : Bookkeeping) id t, (t₁, Payload.kvTransferStart base) ∉ b₁.wakeEvents id t :=
    fun b₁ id t hmem => by cases (Bookkeeping.mem_wakeEvents hmem).1
  cases h with
  | @prefillFinished r p req' a n n' pr started b₁ base₁ s₁ s₂ hp hn ha hop hpr hbase ht =>
      have hstarted : ∀ e ∈ started, ∃ q req k, e = (now, .prefillStart q p req k) := by
        intro e he
        obtain ⟨q, req, k, heq, -⟩ := hpr.mem_events he
        exact ⟨q, req, k, heq⟩
      have h₁' : t₁ = s₁ := by
        rcases List.mem_append.1 h₁ with h₁ | h₁
        · obtain ⟨q, req, k, heq⟩ := hstarted _ h₁
          cases heq
        · exact (by simpa using h₁ : t₁ = s₁ ∧ base = base₁).1
      have h₂' : t₂ = s₂ := by
        rcases List.mem_append.1 h₂ with h₂ | h₂
        · obtain ⟨q, req, k, heq⟩ := hstarted _ h₂
          cases heq
        · exact (by simpa using h₂ : t₂ = s₂ ∧ base' = base₁ ∧ req = req').1
      rw [h₁', h₂', ht, le_add_iff_nonneg_right]
      exact transferServiceMs_nonneg _ _ w.bandwidthCfg.gpuToGpu_pos
  | startPipeline => exact absurd h₁ (hwake _ _ _)
  | transferAccepted => exact absurd h₁ (hwake _ _ _)
  | decodeFinished => exact absurd h₁ (hwake _ _ _)
  | @arriveAdmitted _ x d dec mt mb v running n n' started hx hnode hv hop hstarted =>
      rcases List.mem_cons.1 h₁ with h₁ | h₁
      · cases h₁
      · cases running with
        | true =>
            obtain ⟨k, rfl⟩ := hstarted
            rw [List.mem_singleton] at h₁
            cases h₁
        | false =>
            obtain rfl := hstarted
            cases h₁
  | stepRun =>
      rcases List.mem_append.1 h₁ with h₁ | h₁
      · obtain ⟨q, req, -, -, heq⟩ := mem_prefillEvents h₁
        cases heq
      rcases List.mem_append.1 h₁ with h₁ | h₁
      · obtain ⟨q, -, heq⟩ := List.mem_map.1 h₁
        cases heq
      rcases List.mem_append.1 h₁ with h₁ | h₁
      · obtain ⟨q, -, heq⟩ := List.mem_map.1 h₁
        cases heq
      · exact absurd h₁ (hwake _ _ _)
  | _ => simp at h₁

end Handlers

/-! ### Turns -/

/-- The logs tell the stages; the event that carries a request on is the last of its log; without
such an event everything but the tokens of the request lies in the past. -/
structure Logged {ς : Type} (s : Simulator ς) (stage : RequestId → Stage) : Prop where
  story : ∀ r, (stage r).Story r ((s.log r).map Prod.snd)
  carried : ∀ r, ∀ ev ∈ s.1.queue.events, ev.payload.Carries r → ∀ e ∈ s.log r, e.1 ≤ ev.time
  settled : ∀ r, (stage r).pending r = 0 → ∀ e ∈ s.log r, e.2.stream? = none →
    e.1 ≤ s.1.currentTime

namespace Wiring

variable {ς : Type} {w : Wiring ς} {s s' : Simulator ς} {stage stage' : RequestId → Stage}
  {ev : Event Payload} {rest : List (Event Payload)} {out : List (Time × Payload)}

/-- A request that a turn schedules something for has its log so far in the past. -/
theorem TurnOf.log_past (ht : TurnOf w s ev rest out s') (hl : Logged s stage)
    (hs : Told s stage) (hst : Staged w s stage) {r : RequestId}
    (hm : Stage.Moves ev.time ev.payload out r (stage r) (stage' r)) (hout : own r out ≠ []) :
    ∀ e ∈ s.log r, e.1 ≤ ev.time := by
  have hfirst : ev ∈ s.1.queue.events := ht.events ▸ List.mem_cons_self
  intro e he
  rcases hm.cases_carried (hst.valid r) with hc | hp | ⟨-, hnil⟩
  · exact hl.carried r ev hfirst hc e he
  · by_cases hstream : e.2.stream? = none
    · exact (hl.settled r hp e he hstream).trans (s.1.timely ev hfirst)
    · have hmem : e ∈ s.stream r := mem_streamIn_of_mem_logIn he hstream
      rcases hm.announced_cases hp hout (hs.announced r) with hnil | ⟨req, a, g, hdec, hstep⟩
      · rw [hnil] at hmem
        cases hmem
      · exact hs.due r req a g hdec ev hfirst hstep e hmem
  · exact absurd hnil hout

/-- What a turn schedules for a request comes in order. -/
theorem TurnOf.own_mono (ht : TurnOf w s ev rest out s') {r : RequestId}
    (hm : Stage.Moves ev.time ev.payload out r (stage r) (stage' r)) :
    (own r out).Pairwise fun e e' => e.1 ≤ e'.1 :=
  hm.own_mono fun _ _ h₁ _ _ h₂ => ht.handles.transfer_le h₁ h₂

/-- A turn logs its own events behind those that were there. -/
theorem TurnOf.log_eq (ht : TurnOf w s ev rest out s') (hl : Logged s stage) (hs : Told s stage)
    (hst : Staged w s stage) (hn : s.1.Numbered) {r : RequestId}
    (hm : Stage.Moves ev.time ev.payload out r (stage r) (stage' r)) :
    s'.log r = s.log r ++ own r out := by
  have hbefore : logIn r ((s.1.advance ev rest ht.events).processed ++
      (s.1.advance ev rest ht.events).queue.events) = s.log r := by
    rw [Simulator.log, ht.events, SimulationEngine.advance_processed,
      SimulationEngine.advance_events, List.append_assoc, List.singleton_append]
  rw [Simulator.log, ht.pushes.logIn_eq (hn.advance ht.events) ?_ (ht.own_mono hm), hbefore]
  intro hout e he e' he'
  rw [hbefore] at he
  exact (ht.log_past hl hs hst hm hout e he).trans
    (ht.pushes.now_le e' (List.mem_of_mem_filter he'))

/-- **A turn logs what belongs to the stages of the requests.** -/
theorem TurnOf.logged (ht : TurnOf w s ev rest out s') (hl : Logged s stage) (hs : Told s stage)
    (hst : Staged w s stage) (hn : s.1.Numbered)
    (hmoves : ∀ r, Stage.Moves ev.time ev.payload out r (stage r) (stage' r)) :
    Logged s' stage' := by
  have hfirst : ev ∈ s.1.queue.events := ht.events ▸ List.mem_cons_self
  have hlog := fun r => ht.log_eq hl hs hst hn (hmoves r)
  refine ⟨fun r => ?_, fun r ev' hev' hc e he => ?_, fun r hp e he hstream => ?_⟩
  · rw [hlog r, List.map_append]
    refine (hmoves r).story (hl.story r) fun req hp e he hnotice => ?_
    have hh := ht.handles
    rw [hp] at hh
    exact hh.notice_of_arrival he hnotice
  · rw [hlog r] at he
    rcases ht.pushes.mem hev' with hold | hnew
    · -- the carrier was there before, so that the request stays
      have hev : ev' ∈ s.1.queue.events := ht.events ▸ List.mem_cons_of_mem _ hold
      have hmem : ev'.payload ∈ carrying r (rest.map Event.payload) := by
        rw [carrying, Multiset.mem_coe, List.mem_filter]
        exact ⟨List.mem_map_of_mem hold, decide_eq_true hc⟩
      have hstay : own r out = [] := by
        by_contra hout
        rcases (hmoves r).cases_carried (hst.valid r) with hcev | hp | ⟨-, hnil⟩
        · rw [((hst.known r).pending_of_carries ht.events hcev).2] at hmem
          exact absurd hmem (Multiset.notMem_zero _)
        · by_cases hcev : ev.payload.Carries r
          · rw [((hst.known r).pending_of_carries ht.events hcev).2] at hmem
            exact absurd hmem (Multiset.notMem_zero _)
          · rw [(hst.known r).pending_of_not ht.events hcev, hp] at hmem
            exact absurd hmem (Multiset.notMem_zero _)
        · exact hout hnil
      rw [hstay, List.append_nil] at he
      exact hl.carried r ev' hev hc e he
    · have hown : (ev'.time, ev'.payload) ∈ own r out :=
        List.mem_filter.2 ⟨hnew, decide_eq_true hc.1⟩
      rcases List.mem_append.1 he with he | he
      · exact (ht.log_past hl hs hst (hmoves r) (List.ne_nil_of_mem hown) e he).trans
          (ht.pushes.now_le _ hnew)
      · exact (hmoves r).le_carrier (ht.own_mono (hmoves r)) he hown hc
  · rw [hlog r] at he
    have hnow : s'.1.currentTime = ev.time := ht.pushes.currentTime_eq
    rw [hnow]
    rcases List.mem_append.1 he with he | he
    · rcases (hmoves r).cases_carried (hst.valid r) with hc | hp' | ⟨heq, -⟩
      · exact hl.carried r ev hfirst hc e he
      · exact (hl.settled r hp' e he hstream).trans (s.1.timely ev hfirst)
      · rw [heq] at hp
        exact (hl.settled r hp e he hstream).trans (s.1.timely ev hfirst)
    · exact (hmoves r).le_of_settled hp he hstream

/-- The arrival of a request with a new id starts its log. -/
theorem Logged.arrive {s s' : Simulator ς} (hl : Logged s stage) (hst : Staged w s stage)
    {t : Time} {req : Request} (habsent : stage req.requestId = .absent) (hn : s.1.Numbered)
    (hpush : Pushes s.1 [(t, .requestArrive req)] s'.1) :
    Logged s' fun r => if r = req.requestId then .arriving req else stage r := by
  have hempty : s.log req.requestId = [] := by
    have hstory := hl.story req.requestId
    rw [habsent] at hstory
    generalize hlog : (s.log req.requestId).map Prod.snd = l at hstory
    cases hstory
    exact List.map_eq_nil_iff.1 hlog
  have hself : own req.requestId [(t, .requestArrive req)] = [(t, .requestArrive req)] :=
    own_cons_self rfl
  have hother : ∀ r, r ≠ req.requestId → own r [(t, Payload.requestArrive req)] = [] :=
    fun r hr => own_cons_of_ne fun h => hr (Option.some_inj.1 h).symm
  have hlog : ∀ r, s'.log r = s.log r ++ own r [(t, .requestArrive req)] := by
    intro r
    refine hpush.logIn_eq hn (fun hout e he => ?_) ?_
    · by_cases hr : r = req.requestId
      · have he' : e ∈ s.log req.requestId := hr ▸ he
        rw [hempty] at he'
        cases he'
      · exact absurd (hother r hr) hout
    · by_cases hr : r = req.requestId
      · rw [hr, hself]
        exact List.pairwise_singleton _ _
      · rw [hother r hr]
        exact .nil
  have hnone : ∀ ev ∈ s.1.queue.events, ¬ ev.payload.Carries req.requestId := by
    intro ev hev hc
    have hmem : ev.payload ∈ carrying req.requestId (s.1.queue.events.map Event.payload) := by
      rw [carrying, Multiset.mem_coe, List.mem_filter]
      exact ⟨List.mem_map_of_mem hev, decide_eq_true hc⟩
    rw [(hst.known req.requestId).pending, habsent] at hmem
    exact absurd hmem (Multiset.notMem_zero _)
  refine ⟨fun r => ?_, fun r ev hev hc e he => ?_, fun r hp e he hstream => ?_⟩
  · rw [hlog r]
    by_cases hr : r = req.requestId
    · rw [if_pos hr, hr, hempty, hself]
      exact .arriving req
    · rw [if_neg hr, hother r hr, List.append_nil]
      exact hl.story r
  · rw [hlog r] at he
    by_cases hr : r = req.requestId
    · subst hr
      rw [hempty, hself, List.nil_append, List.mem_singleton] at he
      rcases hpush.mem hev with hold | hnew
      · exact absurd hc (hnone ev hold)
      · rw [List.mem_singleton] at hnew
        rw [he, ← hnew]
    · rw [hother r hr, List.append_nil] at he
      rcases hpush.mem hev with hold | hnew
      · exact hl.carried r ev hold hc e he
      · rw [List.mem_singleton, Prod.mk.injEq] at hnew
        rw [hnew.2] at hc
        exact absurd (Option.some_inj.1 hc.1).symm hr
  · by_cases hr : r = req.requestId
    · rw [if_pos hr] at hp
      exact absurd hp (Multiset.singleton_ne_zero _)
    · rw [if_neg hr] at hp
      rw [hlog r, hother r hr, List.append_nil] at he
      rw [hpush.currentTime_eq]
      exact hl.settled r hp e he hstream

/-- **In every state that is reached, the logs tell the stages of the requests.** -/
theorem Reaches.logged (hpools : ∀ id ∈ w.prefillIds, id ∉ w.decodeIds)
    (h : w.Reaches DistinctArrivals s) : ∃ stage, Staged w s stage ∧ Logged s stage := by
  have hall := h.staged_and (fun _ _ _ hm => hm) (fun _ _ hs _ => hs.noneQueued hpools)
    (J := fun s stage => s.1.Numbered ∧ Told s stage ∧ Logged s stage) ?_ ?_ ?_
  · exact hall.imp fun stage hs => ⟨hs.1, hs.2.2.2⟩
  · exact fun _ _ _ => ⟨fun _ hev => absurd hev List.not_mem_nil,
      ⟨fun _ => rfl, fun _ _ _ _ h => by cases h⟩,
      ⟨fun _ => .absent, fun _ _ hev => absurd hev List.not_mem_nil,
        fun _ _ _ he => absurd he List.not_mem_nil⟩⟩
  · exact fun s s' stage t req hst hs hnew hpush _ =>
      ⟨hpush.numbered hs.1, Told.arrive hs.2.1 (hst.absent hnew) hs.1 hpush,
        Logged.arrive hs.2.2 hst (hst.absent hnew) hs.1 hpush⟩
  · exact fun s s' stage stage' ev rest out h hst hs ht hmoves =>
      ⟨ht.pushes.numbered (hs.1.advance ht.events),
        ht.told hs.2.1 hst h.awake hs.1 hmoves, ht.logged hs.2.2 hs.2.1 hst hs.1 hmoves⟩

end Wiring

/-! ### The payloads of the transfers -/

/-- The id of a transfer that belongs to the request. -/
def TransferOf (r : RequestId) (transferId : String) : Prop :=
  ∃ n : ℕ, transferId = r ++ "-xfer-" ++ toString n

theorem TransferOf.unique {r r' : RequestId} {transferId : String} (h : TransferOf r transferId)
    (h' : TransferOf r' transferId) : r = r' := by
  obtain ⟨n, hn⟩ := h
  obtain ⟨n', hn'⟩ := h'
  exact transferId_injective (hn.symm.trans hn')

/-- What the events of a transfer carry: its id belongs to the request, and its cost is the time
in the lanes and the service. -/
structure TransferPayload.Consistent (base : TransferPayload) : Prop where
  named : TransferOf base.requestId base.transferId
  costs : base.costMs = base.queuedCostMs + base.serviceCostMs

/-- What an event of a transfer carries is consistent. -/
def Payload.Consistent : Payload → Prop
  | .kvTransferStart base => base.Consistent
  | .kvTransferComplete base _ => base.Consistent
  | _ => True

section Transfers

variable {ς : Type} {w : Wiring ς} {s s' s'' : Simulator ς} {out : List (Time × Payload)}
  {b : Bookkeeping}

/-- The events that have been scheduled are consistent. -/
def AddsConsistent (s s' : Simulator ς) : Prop :=
  ∀ ev ∈ s'.1.queue.events, ev ∈ s.1.queue.events ∨ ev.payload.Consistent

theorem AddsConsistent.trans (h : AddsConsistent s s') (h' : AddsConsistent s' s'') :
    AddsConsistent s s'' := by
  intro ev hev
  rcases h' ev hev with hev | hc
  · exact h ev hev
  · exact Or.inr hc

theorem Emits.addsConsistent (h : Emits s out b s') (hout : ∀ e ∈ out, e.2.Consistent) :
    AddsConsistent s s' := by
  intro ev hev
  exact (h.1.mem hev).imp_right fun hmem => hout _ hmem

/-- What belongs to no transfer is consistent. -/
theorem Payload.Consistent.of_not_transfer {p : Payload} (h : p.isTransfer = false) :
    p.Consistent := by
  cases p with
  | kvTransferStart | kvTransferComplete => cases h
  | _ => trivial

namespace Wiring

variable {u : Unit}

theorem run_onPrefillComplete_consistent {r : RequestId} {p : NodeId} {req : Request}
    (h : (w.onPrefillComplete r p req).run s = .ok u s') : AddsConsistent s s' := by
  obtain ⟨n, -, -, ⟨-, rfl⟩ | ⟨a, pr, s₂, s₃, -, hcomp, hstart, htransfer⟩⟩ := run_onPrefillComplete h
  · exact fun _ hev => Or.inl hev
  · obtain ⟨m, n', -, -, h₂⟩ := run_completeOn hcomp
    have h₃ : AddsConsistent s₂ s₃ := by
      rcases hstart with ⟨-, rfl⟩ | ⟨q, -, hstart⟩
      · exact fun _ hev => Or.inl hev
      · obtain ⟨out, b, hpr, hem⟩ := run_startPromoted hstart
        refine hem.addsConsistent fun e he => ?_
        obtain ⟨q, req, k, rfl, -⟩ := hpr.mem_events he
        trivial
    obtain ⟨base, t₁, t₂, hr, hid, hcosts, -, h₄⟩ := run_startTransfer htransfer
    have hbase : base.Consistent := ⟨⟨_, hr ▸ hid⟩, hcosts⟩
    refine ((h₂.addsConsistent (by simp)).trans h₃).trans (h₄.addsConsistent fun e he => ?_)
    rcases List.mem_pair.1 he with rfl | rfl
    · exact hbase
    · exact hbase

/-- The events of transfers that a handler schedules are consistent. -/
theorem addsConsistent_of_run {p : Payload} (h : (w.handle p).run s = .ok u s') :
    AddsConsistent s s' := by
  by_cases hp : ∃ r id req, p = .prefillComplete r id req
  · obtain ⟨r, id, req, rfl⟩ := hp
    exact run_onPrefillComplete_consistent h
  · obtain ⟨out, b, hh, hem⟩ := handles_of_run h
    refine hem.addsConsistent fun e he => .of_not_transfer ?_
    exact (hh.routine (fun r id req heq => hp ⟨r, id, req, heq⟩) e he).1

/-- **The events of every transfer are consistent**, in every state that is reached. -/
theorem Reaches.consistent {meets : Simulator ς → Action → Prop} (h : w.Reaches meets s) :
    ∀ ev ∈ s.1.processed ++ s.1.queue.events, ev.payload.Consistent := by
  induction h with
  | start => exact fun _ hev => absurd hev List.not_mem_nil
  | @step s s' a _ _ hrun ih =>
      cases a with
      | arrive t req =>
          obtain ⟨hpush, -⟩ := run_arrive hrun
          intro ev hev
          rw [hpush.processed_eq] at hev
          rcases List.mem_append.1 hev with hev | hev
          · exact ih ev (List.mem_append_left _ hev)
          · rcases hpush.mem hev with hold | hnew
            · exact ih ev (List.mem_append_right _ hold)
            · rw [List.mem_singleton, Prod.mk.injEq] at hnew
              rw [hnew.2]
              trivial
      | turn =>
          cases hq : s.1.queue.events with
          | nil =>
              rw [act, SimulationEngine.run_turn_nil _ hq, EStateM.Result.ok.injEq] at hrun
              exact hrun.2 ▸ ih
          | cons ev rest =>
              rw [act, SimulationEngine.run_turn_cons _ hq, handlers, Py.run_forM_cons] at hrun
              obtain ⟨_, s₁, hhandle, hpure⟩ := Py.bind_eq_ok.1 hrun
              cases hpure
              obtain ⟨out, b, -, hpush, -⟩ := handles_of_run hhandle
              have hold : ∀ ev' ∈ s.1.processed ++ [ev] ++ rest, ev'.payload.Consistent := by
                rw [List.append_assoc, List.singleton_append, ← hq]
                exact ih
              intro ev' hev'
              rw [hpush.processed_eq, SimulationEngine.advance_processed] at hev'
              rcases List.mem_append.1 hev' with hev' | hev'
              · exact hold ev' (List.mem_append_left _ hev')
              · rcases addsConsistent_of_run hhandle ev' hev' with hrest | hc
                · exact hold ev' (List.mem_append_right _ hrest)
                · exact hc

end Wiring

end Transfers

end NanoKVRouter
