/-
**The course of a request.**

The log of a request says in which order its events come; this module adds what they agree on.  The
decision of the scheduler names the two nodes of the request, and every later event is about these
nodes: it is prefilled on the one, transferred to the other and decoded there.  So the handled
events of a request are at all times the beginning of one of three courses: it is rejected on
arrival, it is refused by the decode node after its transfer, or it is served in full.

Main definitions:

* `SchedulingDecision.Names`, `Payload.Heeds` — the decision names the nodes, an event heeds it;
* `Decided` — the events and the assignments agree with the decisions;
* `Course.Proper`, `Life` — the courses a request can take.

Main results:

* `Wiring.ReachesFrom.decided` — the invariant holds in every state that is reached;
* `Stage.Story.extends` — what has been logged of a request is the beginning of a course;
* `Wiring.requests_take_their_course` — **every request takes one of the courses**.
-/

import NanoKVRouter.SimulatorTransfers

set_option relaxedAutoImplicit false
set_option autoImplicit false

namespace NanoKVRouter

/-! ### Decisions -/

/-- The decision names the nodes of the assignment. -/
structure SchedulingDecision.Names (dec : SchedulingDecision) (a : Assignment) : Prop where
  prefill : dec.prefillNode = some a.prefillNode
  decode : dec.decodeNode = some a.decodeNode

/-- The event is about the nodes the decision names. -/
def Payload.Heeds (dec : SchedulingDecision) : Payload → Prop
  | .prefillStart _ p _ _ => dec.prefillNode = some p
  | .prefillComplete _ p _ => dec.prefillNode = some p
  | .kvTransferStart base => dec.Names ⟨base.srcNodeId, base.dstNodeId⟩
  | .kvTransferComplete base _ => dec.Names ⟨base.srcNodeId, base.dstNodeId⟩
  | .decodeComplete _ d => dec.decodeNode = some d
  | _ => True

/-- The decisions that have been announced agree with the assignments that are in force and with all
events of their requests. -/
def Decided {ς : Type} (s : Simulator ς) : Prop :=
  ∀ t r dec mt mb, (t, Payload.scheduled r dec mt mb) ∈ s.history →
    (∀ a, s.2.decisions.get? r = some a → dec.Names a) ∧
    ∀ e ∈ s.history, e.2.owner = some r → e.2.Heeds dec

section History

variable {ς : Type} {w : Wiring ς} {s s' : Simulator ς} {out : List (Time × Payload)}

theorem mem_log {r : RequestId} {e : Time × Payload} :
    e ∈ s.log r ↔ e ∈ s.history ∧ e.2.owner = some r := by
  rw [Simulator.log, mem_logIn, Simulator.history, stamped, List.mem_map]
  constructor
  · rintro ⟨ev, hev, howner, rfl⟩
    exact ⟨⟨ev, hev, rfl⟩, howner⟩
  · rintro ⟨⟨ev, hev, rfl⟩, howner⟩
    exact ⟨ev, hev, howner, rfl⟩

theorem Pushes.mem_history {eng : SimulationEngine Payload} (h : Pushes eng out s'.1)
    (hold : (eng.processed ++ eng.queue.events).Perm (s.1.processed ++ s.1.queue.events))
    {e : Time × Payload} : e ∈ s'.history ↔ e ∈ s.history ∨ e ∈ out := by
  rw [(h.history hold).mem_iff, List.mem_append]

end History

/-! ### What an arrival announces -/

namespace Wiring

section Arrivals

variable {ς : Type} {w : Wiring ς} {s s' : Simulator ς} {u : Unit}

/-- An arrival is rejected, or its decision is announced and heeded. -/
theorem run_onArrive_decided {req : Request} (h : (w.onArrive req).run s = .ok u s') :
    (∃ reason, s'.2.decisions = s.2.decisions ∧
      Pushes s.1 [(s.1.now, .requestRejected req.requestId reason)] s'.1) ∨
    ∃ a dec mt mb started, SchedulingDecision.Names dec a ∧
      s'.2.decisions = s.2.decisions.set req.requestId a ∧
      (∀ e ∈ started, ∃ k, e.2 = Payload.prefillStart req.requestId a.prefillNode req k) ∧
      Pushes s.1 ((s.1.now, .scheduled req.requestId dec mt mb) :: started) s'.1 := by
  obtain ⟨dec, s₁, hsched, h⟩ := Py.bind_eq_ok.1 h
  have h₁ := run_schedule hsched
  cases hp : dec.prefillNode with
  | none =>
      simp only [hp] at h
      rw [Py.run_get_bind] at h
      have h₂ := run_scheduleAt h
      rw [h₁.now_eq] at h₂
      exact Or.inl ⟨_, congrArg Bookkeeping.decisions (h₂.2.trans h₁.2), (h₁.trans h₂).1⟩
  | some p =>
      simp only [hp] at h
      obtain ⟨d, lk, running, n, n', s₂, hd, -, -, -, ⟨mb, h₂⟩, hstart⟩ := run_acceptArrival h
      have hdec : s₂.2.decisions = s.2.decisions.set req.requestId ⟨p, d⟩ := by
        rw [← congrArg Bookkeeping.decisions h₁.2]
        exact congrArg Bookkeeping.decisions h₂.2
      have hnames : dec.Names ⟨p, d⟩ := ⟨hp, hd⟩
      rw [h₁.now_eq] at h₂
      rcases hstart with ⟨-, hstart⟩ | ⟨-, rfl⟩
      · obtain ⟨k, h₃⟩ := run_startPrefill hstart
        exact Or.inr ⟨_, dec, _, _, _, hnames, (congrArg Bookkeeping.decisions h₃.2).trans hdec,
          fun e he => ⟨k, congrArg Prod.snd (List.mem_singleton.1 he)⟩,
          h₁.1.append (h₂.1.append h₃.1)⟩
      · exact Or.inr ⟨_, dec, _, _, [], hnames, hdec, fun e he => absurd he List.not_mem_nil,
          h₁.1.append h₂.1⟩

end Arrivals

end Wiring

/-! ### Turns -/

/-- What is scheduled for a request that has arrived heeds the decision that assigned its nodes,
and no decision is announced; the events of transfers are left out. -/
theorem Stage.Moves.heeds {now : Time} {p : Payload} {out : List (Time × Payload)} {r : RequestId}
    {st st' : Stage} (h : Stage.Moves now p out r st st') (hp : ∀ req, p ≠ .requestArrive req)
    {e : Time × Payload} (he : e ∈ own r out) :
    (∀ r' dec mt mb, e.2 ≠ .scheduled r' dec mt mb) ∧
      ∀ dec : SchedulingDecision, (∀ a, st.assignment = some a → dec.Names a) →
        e.2.isTransfer = false → e.2.Heeds dec := by
  cases h with
  | reject harr | queue harr | start harr => exact absurd harr (hp _)
  | stay _ _ hout | pipeline _ hout | chunk _ hout | enter _ hout | finish _ hout
  | dismiss _ hout =>
      rw [hout] at he
      cases he
  | promote _ hout | skip _ hout | drain _ hout =>
      rw [hout, List.mem_singleton] at he
      rw [he]
      exact ⟨fun _ _ _ _ heq => (by cases heq), fun dec hnames _ => (hnames _ rfl).prefill⟩
  | refuse _ hout | token _ hout =>
      rw [hout, List.mem_singleton] at he
      rw [he]
      exact ⟨fun _ _ _ _ heq => (by cases heq), fun _ _ _ => trivial⟩
  | transfer _ hout =>
      rw [hout, List.mem_pair] at he
      rcases he with rfl | rfl
      · exact ⟨fun _ _ _ _ heq => (by cases heq), fun _ _ htransfer => (by cases htransfer)⟩
      · exact ⟨fun _ _ _ _ heq => (by cases heq), fun _ _ htransfer => (by cases htransfer)⟩
  | last _ hout =>
      rw [hout, List.mem_pair] at he
      rcases he with rfl | rfl
      · exact ⟨fun _ _ _ _ heq => (by cases heq), fun _ _ _ => trivial⟩
      · exact ⟨fun _ _ _ _ heq => (by cases heq), fun dec hnames _ => (hnames _ rfl).decode⟩

section Turns

variable {ς : Type} {w : Wiring ς} {s s' : Simulator ς} {stage : RequestId → Stage}
  {ev : Event Payload} {rest : List (Event Payload)} {out : List (Time × Payload)}

/-- Nothing but its arrival is known of a request that arrives. -/
theorem Logged.eq_arrival (hl : Logged s stage) {req : Request}
    (hstage : stage req.requestId = .arriving req) {e : Time × Payload} (he : e ∈ s.history)
    (howner : e.2.owner = some req.requestId) : e.2 = .requestArrive req := by
  have hmem : e.2 ∈ (s.log req.requestId).map Prod.snd :=
    List.mem_map_of_mem (mem_log.2 ⟨he, howner⟩)
  have hstory := hl.story req.requestId
  rw [hstage] at hstory
  generalize (s.log req.requestId).map Prod.snd = l at hmem hstory
  cases hstory
  exact List.mem_singleton.1 hmem

namespace Wiring

/-- An arrival leaves the decisions of the other requests alone and announces its own. -/
theorem decided_arrival (hd : Decided s) (hl : Logged s stage) {req : Request}
    (hstage : stage req.requestId = .arriving req) {hq : s.1.queue.events = ev :: rest}
    (hrun : (w.onArrive req).run (s.1.advance ev rest hq, s.2) = .ok () s') : Decided s' := by
  have hold : ∀ t r dec mt mb, (t, Payload.scheduled r dec mt mb) ∈ s.history →
      r ≠ req.requestId := by
    rintro t r dec mt mb hmem rfl
    cases hl.eq_arrival hstage hmem rfl
  rcases run_onArrive_decided hrun with ⟨reason, hdec, hpush⟩ | ⟨a, dec₀, mt₀, mb₀, started, hnames,
    hdec, hstarted, hpush⟩
  · have hmem := fun e => hpush.mem_history (perm_advance hq) (e := e)
    intro t r dec mt mb hsched
    rcases (hmem _).1 hsched with hsched | hsched
    · have hr := hold t r dec mt mb hsched
      refine ⟨fun a ha => (hd t r dec mt mb hsched).1 a (hdec ▸ ha), fun e he howner => ?_⟩
      rcases (hmem e).1 he with he | he
      · exact (hd t r dec mt mb hsched).2 e he howner
      · rw [List.mem_singleton.1 he] at howner
        exact absurd (Option.some_inj.1 howner).symm hr
    · cases List.mem_singleton.1 hsched
  · have hmem := fun e => hpush.mem_history (perm_advance hq) (e := e)
    -- what is announced is about the request that arrives
    have hown : ∀ t, ∀ e ∈ (t, Payload.scheduled req.requestId dec₀ mt₀ mb₀) :: started,
        e.2.owner = some req.requestId ∧ e.2.Heeds dec₀ := by
      intro t e he
      rcases List.mem_cons.1 he with rfl | he
      · exact ⟨rfl, trivial⟩
      · obtain ⟨k, heq⟩ := hstarted e he
        rw [heq]
        exact ⟨rfl, hnames.prefill⟩
    intro t r dec mt mb hsched
    rw [hdec]
    rcases (hmem _).1 hsched with hsched | hsched
    · have hr := hold t r dec mt mb hsched
      refine ⟨fun a' ha => (hd t r dec mt mb hsched).1 a' ?_, fun e he howner => ?_⟩
      · rwa [PyDict.get?_set_of_ne _ _ hr] at ha
      · rcases (hmem e).1 he with he | he
        · exact (hd t r dec mt mb hsched).2 e he howner
        · exact absurd (Option.some_inj.1 (howner.symm.trans (hown _ e he).1)) hr
    · have hself : r = req.requestId := Option.some_inj.1 (hown _ _ hsched).1
      have hdec₀ : dec = dec₀ := by
        rcases List.mem_cons.1 hsched with heq | hsched
        · cases heq
          rfl
        · obtain ⟨k, heq⟩ := hstarted _ hsched
          cases heq
      subst hself hdec₀
      refine ⟨fun a' ha => ?_, fun e he howner => ?_⟩
      · rw [PyDict.get?_set_self, Option.some_inj] at ha
        exact ha ▸ hnames
      · rcases (hmem e).1 he with he | he
        · rw [hl.eq_arrival hstage he howner]
          trivial
        · exact (hown _ e he).2

/-- **A turn heeds the decisions.** -/
theorem decided_turn (hpools : ∀ id ∈ w.prefillIds, id ∉ w.decodeIds) (hd : Decided s)
    (hst : Staged w s stage) (hl : Logged s stage) (ht : TurnOf w s ev rest out s')
    (hrun : (w.handle ev.payload).run (s.1.advance ev rest ht.events, s.2) = .ok () s') :
    Decided s' := by
  by_cases harr : ∃ req, ev.payload = .requestArrive req
  · obtain ⟨req, hpayload⟩ := harr
    have hcarries : ev.payload.Carries req.requestId := hpayload ▸ ⟨rfl, rfl⟩
    have hpend := ((hst.known req.requestId).pending_of_carries ht.events hcarries).1
    rw [hpayload] at hpend hrun
    exact decided_arrival hd hl (Stage.eq_arriving hpend) hrun
  · have hp : ∀ req, ev.payload ≠ .requestArrive req := fun req heq => harr ⟨req, heq⟩
    obtain ⟨stage', -, hmoves⟩ := ht.staged hst (hst.noneQueued hpools)
    have hmem := fun e => ht.pushes.mem_history (perm_advance ht.events) (e := e)
    have hheeds : ∀ {r : RequestId} {e : Time × Payload}, e ∈ out → e.2.owner = some r → _ :=
      fun {r e} he howner => (hmoves r).heeds hp (List.mem_filter.2 ⟨he, decide_eq_true howner⟩)
    intro t r dec mt mb hsched
    rcases (hmem _).1 hsched with hsched | hsched
    · obtain ⟨hnames, hfollow⟩ := hd t r dec mt mb hsched
      refine ⟨fun a ha => hnames a (assigned_handles ht.handles hp ha), fun e he howner => ?_⟩
      rcases (hmem e).1 he with hold | hnew
      · exact hfollow e hold howner
      by_cases htransfer : e.2.isTransfer = true
      · -- the transfer goes between the nodes of the assignment
        obtain ⟨r', x, req, hpayload⟩ : ∃ r' x req, ev.payload = .prefillComplete r' x req := by
          by_contra hne
          have hnone := (ht.handles.routine (fun r' x req heq => hne ⟨r', x, req, heq⟩) e hnew).1
          rw [hnone] at htransfer
          cases htransfer
        rw [hpayload] at hrun
        rcases run_onPrefillComplete_granted hrun with ⟨-, hsame⟩ | ⟨a, g, started, ha, hasks,
          hstarted, hpush⟩
        · have hhistory : s'.history.Perm s.history := by
            rw [hsame]
            exact (perm_advance ht.events).map _
          exact hfollow e (hhistory.mem_iff.1 he) howner
        · rcases (hpush.mem_history (perm_advance ht.events)).1 he with hold | hgranted
          · exact hfollow e hold howner
          rcases List.mem_append.1 hgranted with hgranted | hgranted
          · obtain ⟨q, req', k, heq⟩ := hstarted e hgranted
            rw [heq] at htransfer
            cases htransfer
          · have hr : e.2.owner = some g.base.requestId ∧
                (dec.Names ⟨g.base.srcNodeId, g.base.dstNodeId⟩ → e.2.Heeds dec) := by
              rcases List.mem_pair.1 hgranted with rfl | rfl
              · exact ⟨rfl, id⟩
              · exact ⟨rfl, id⟩
            have heq : r = r' := (Option.some_inj.1 (howner.symm.trans hr.1)).trans hasks.requestId
            subst heq
            rw [hasks.src, hasks.dst] at hr
            exact hr.2 (hnames a ha)
      · refine (hheeds hnew howner).2 dec (fun a ha => hnames a ?_) (Bool.not_eq_true _ ▸ htransfer)
        rw [(hst.kept r).assignment, ha]
    · exact absurd rfl ((hheeds hsched rfl).1 r dec mt mb)

/-- **The events of a run heed the decisions of the scheduler.** -/
theorem ReachesFrom.decided (hpools : ∀ id ∈ w.prefillIds, id ∉ w.decodeIds) {sched : ς}
    {cm : CacheManager} {tm : TransferModel}
    (h : w.ReachesFrom DistinctArrivals (w.start sched cm tm) s) : Decided s := by
  induction h with
  | refl => exact fun _ _ _ _ _ hmem => absurd hmem List.not_mem_nil
  | @step s s' a h ha hrun ih =>
      cases a with
      | arrive t req =>
          obtain ⟨hpush, hsame⟩ := run_arrive hrun
          have hmem := fun e => hpush.mem_history (s := s) (.refl _) (e := e)
          intro t' r dec mt mb hsched
          rw [hsame]
          rcases (hmem _).1 hsched with hsched | hsched
          · refine ⟨(ih t' r dec mt mb hsched).1, fun e he howner => ?_⟩
            rcases (hmem e).1 he with he | he
            · exact (ih t' r dec mt mb hsched).2 e he howner
            · rw [List.mem_singleton.1 he]
              trivial
          · cases List.mem_singleton.1 hsched
      | turn =>
          rcases turn_run_cases hrun with ⟨-, rfl⟩ | ⟨ev, rest, out, ht, hhandle⟩
          · exact ih
          · obtain ⟨stage, hst, hl⟩ := (h.reaches (.start sched cm tm)).logged hpools
            exact decided_turn hpools ih hst hl ht hhandle

end Wiring

end Turns

/-! ### Courses -/

/-- The decision of the course names the nodes of its assignment, and the transfer goes from the one
to the other. -/
structure Course.Proper (r : RequestId) (c : Course) : Prop where
  requestId : c.request.requestId = r
  names : c.decision.Names c.assignment
  owner : c.base.requestId = r
  src : c.base.srcNodeId = c.assignment.prefillNode
  dst : c.base.dstNodeId = c.assignment.decodeNode

/-- The courses a request can take: it is rejected on arrival, it is refused after its transfer, or
it gets all its tokens. -/
inductive Life (r : RequestId) : List Payload → Prop
  | rejected (req : Request) (reason : Option String) (hreq : req.requestId = r) :
      Life r [.requestArrive req, .requestRejected r reason]
  | refused (c : Course) (reason : Option String) (hc : c.Proper r) :
      Life r (c.transferred r ++ [.requestRejected r reason])
  | served (c : Course) (hc : c.Proper r) : Life r (c.decoded r (Stage.goal c.request))

namespace Course

variable {r : RequestId} {c : Course}

/-- A request that has not been transferred can be transferred between its nodes. -/
theorem exists_proper (c : Course) (hreq : c.request.requestId = r)
    (hnames : c.decision.Names c.assignment) : ∃ base, Proper r { c with base := base } :=
  ⟨⟨r, "", c.assignment.prefillNode, c.assignment.decodeNode, 0, 0, 0⟩, hreq, hnames, rfl, rfl, rfl⟩

theorem proper_of_base (hreq : c.request.requestId = r) (howner : c.base.requestId = r)
    (hnames : c.decision.Names c.assignment)
    (hbase : c.decision.Names ⟨c.base.srcNodeId, c.base.dstNodeId⟩) : c.Proper r :=
  ⟨hreq, hnames, howner, Option.some_inj.1 (hbase.prefill.symm.trans hnames.prefill),
    Option.some_inj.1 (hbase.decode.symm.trans hnames.decode)⟩

theorem admitted_isPrefix : c.admitted r <+: c.started r := List.prefix_append _ _

theorem started_isPrefix : c.started r <+: c.prefilled r := List.prefix_append _ _

theorem prefilled_isPrefix : c.prefilled r <+: c.transferred r := List.prefix_append _ _

theorem transferred_isPrefix (g : ℕ) : c.transferred r <+: c.decoding r g := List.prefix_append _ _

theorem decoding_isPrefix {g g' : ℕ} (h : g ≤ g') : c.decoding r g <+: c.decoded r g' := by
  obtain ⟨k, rfl⟩ := Nat.exists_eq_add_of_le h
  rw [decoded, decoding, decoding, List.range_add, List.map_append, ← List.append_assoc,
    List.append_assoc]
  exact List.prefix_append _ _

theorem prefilled_isPrefix_decoded (g : ℕ) : c.prefilled r <+: c.decoded r g :=
  (prefilled_isPrefix.trans (transferred_isPrefix 0)).trans (decoding_isPrefix (Nat.zero_le g))

end Course

section Stories

variable {r : RequestId} {st : Stage} {l : List Payload}

/-- **What has been logged of a request is the beginning of a course**, and a whole course when the
request is gone, if the events heed the decision. -/
theorem Stage.Story.extends (h : st.Story r l) {prefillIds decodeIds : List NodeId}
    (hv : st.Valid prefillIds decodeIds r) (hown : ∀ p ∈ l, p.owner = some r)
    (hheed : ∀ dec mt mb, Payload.scheduled r dec mt mb ∈ l →
      (∀ a, st.assignment = some a → dec.Names a) ∧ ∀ p ∈ l, p.Heeds dec) (hne : l ≠ []) :
    ∃ l', Life r l' ∧ l <+: l' ∧ (st.IsGone → l = l') := by
  -- before its transfer a request goes on to be served
  have hahead : ∀ c : Course, c.request.requestId = r → l <+: c.prefilled r →
      Payload.scheduled r c.decision c.matchedTokens c.matchedBlocksByTier ∈ l →
      st.assignment = some c.assignment → ¬ st.IsGone →
      ∃ l', Life r l' ∧ l <+: l' ∧ (st.IsGone → l = l') := by
    intro c hreq hl hmem ha hgone
    obtain ⟨base, hbase⟩ := c.exists_proper hreq ((hheed _ _ _ hmem).1 _ ha)
    exact ⟨_, .served _ hbase, hl.trans (Course.prefilled_isPrefix_decoded
      (c := { c with base := base })
      _), fun hg => absurd hg hgone⟩
  -- from its transfer on the course is told by the log
  have htold : ∀ c : Course, c.transferred r <+: l →
      c.request.requestId = r ∧ c.base.requestId = r ∧
      c.decision.prefillNode = some c.assignment.prefillNode ∧
      c.decision.Names ⟨c.base.srcNodeId, c.base.dstNodeId⟩ ∧ ∀ p ∈ l, p.Heeds c.decision := by
    intro c hl
    have hmem := fun p (hp : p ∈ c.transferred r) => hl.subset hp
    have hall := (hheed c.decision c.matchedTokens c.matchedBlocksByTier
      (hmem _ (by simp [Course.transferred, Course.prefilled, Course.started, Course.admitted]))).2
    have harr := hown _ (hmem (.requestArrive c.request)
      (by simp [Course.transferred, Course.prefilled, Course.started, Course.admitted]))
    have hbase := hmem (.kvTransferStart c.base) (by simp [Course.transferred])
    have hstart := hmem (.prefillStart r c.assignment.prefillNode c.request c.nChunks)
      (by simp [Course.transferred, Course.prefilled, Course.started])
    exact ⟨Option.some_inj.1 harr, Option.some_inj.1 (hown _ hbase), hall _ hstart, hall _ hbase,
      hall⟩
  -- the decode node of a request that is refused is that of its transfer
  have hrefused : ∀ (c : Course) (reason : Option String),
      l = c.transferred r ++ [.requestRejected r reason] → Life r l := by
    rintro c reason rfl
    obtain ⟨hreq, howner, hp, hbase, -⟩ := htold c (List.prefix_append _ _)
    exact .refused { c with assignment := ⟨c.assignment.prefillNode, c.base.dstNodeId⟩ } reason
      (Course.proper_of_base hreq howner ⟨hp, hbase.decode⟩ hbase)
  cases h with
  | absent => exact absurd rfl hne
  | arriving req =>
      exact ⟨_, .rejected req none hv, ⟨[_], rfl⟩, fun hg => hg.elim⟩
  | rejected req reason => exact ⟨_, .rejected req reason hv, List.prefix_rfl, fun hg => hg.elim⟩
  | dismissed req reason => exact ⟨_, .rejected req reason hv, List.prefix_rfl, fun _ => rfl⟩
  | refused c reason => exact ⟨_, hrefused c reason rfl, List.prefix_rfl, fun hg => hg.elim⟩
  | dismissedLate c reason => exact ⟨_, hrefused c reason rfl, List.prefix_rfl, fun _ => rfl⟩
  | waiting c =>
      exact hahead c hv.1 (Course.admitted_isPrefix.trans Course.started_isPrefix)
        (by simp [Course.admitted]) rfl id
  | starting c | prefilling c =>
      exact hahead c hv.1 Course.started_isPrefix (by simp [Course.started, Course.admitted]) rfl id
  | prefilled c =>
      exact hahead c hv.1 List.prefix_rfl
        (by simp [Course.prefilled, Course.started, Course.admitted]) rfl id
  | transferring c =>
      obtain ⟨hreq, howner, -, hbase, -⟩ := htold c List.prefix_rfl
      have hnames := (hheed c.decision c.matchedTokens c.matchedBlocksByTier
        (by simp [Course.transferred, Course.prefilled, Course.started, Course.admitted])).1 _ rfl
      refine ⟨_, .served c (Course.proper_of_base hreq howner hnames hbase), ?_, fun hg => hg.elim⟩
      exact (Course.transferred_isPrefix 0).trans (Course.decoding_isPrefix (Nat.zero_le _))
  | decoding c g =>
      obtain ⟨hreq, howner, -, hbase, -⟩ := htold c (Course.transferred_isPrefix g)
      have hnames := (hheed c.decision c.matchedTokens c.matchedBlocksByTier
        (by simp [Course.decoding, Course.transferred, Course.prefilled, Course.started,
          Course.admitted])).1 _ rfl
      exact ⟨_, .served c (Course.proper_of_base hreq howner hnames hbase),
        Course.decoding_isPrefix hv.2.2.le, fun hg => hg.elim⟩
  | decoded c g | finished c g =>
      obtain ⟨hreq, howner, hp, hbase, hall⟩ := htold c
        ((Course.transferred_isPrefix g).trans (List.prefix_append _ _))
      have hd := hall (.decodeComplete r c.assignment.decodeNode) (by simp [Course.decoded])
      have hlife := Life.served c (Course.proper_of_base hreq howner ⟨hp, hd⟩ hbase)
      rw [← hv.2.2] at hlife
      exact ⟨_, hlife, List.prefix_rfl, fun _ => rfl⟩

end Stories

/-! ### Runs -/

section Runs

variable {ς : Type} {w : Wiring ς} {s : Simulator ς}

/-- The events that have been handled lie in the past and in order. -/
structure InTime (eng : SimulationEngine Payload) : Prop where
  past : ∀ ev ∈ eng.processed, ev.time ≤ eng.currentTime
  ordered : eng.processed.Pairwise fun a b => a.time ≤ b.time

namespace Wiring

theorem Reaches.inTime {meets : Simulator ς → Action → Prop} (h : w.Reaches meets s) :
    InTime s.1 := by
  refine h.invariant (I := fun s => InTime s.1) ?_ ?_ ?_
  · exact fun _ _ _ => ⟨fun _ hev => absurd hev List.not_mem_nil, .nil⟩
  · intro s s' t req _ hs _ hpush _
    refine ⟨?_, ?_⟩
    · rw [hpush.processed_eq, hpush.currentTime_eq]
      exact hs.past
    · rw [hpush.processed_eq]
      exact hs.ordered
  · intro s s' ev rest out _ hs _ ht
    have hle : s.1.currentTime ≤ ev.time := s.1.timely ev (ht.events ▸ List.mem_cons_self)
    have hprocessed : s'.1.processed = s.1.processed ++ [ev] := ht.pushes.processed_eq
    have hnow : s'.1.currentTime = ev.time := ht.pushes.currentTime_eq
    refine ⟨?_, ?_⟩
    · rw [hprocessed, hnow]
      exact List.forall_mem_append.2
        ⟨fun x hx => (hs.past x hx).trans hle, List.forall_mem_singleton.2 le_rfl⟩
    · rw [hprocessed]
      exact List.pairwise_append.2 ⟨hs.ordered, List.pairwise_singleton _ _, fun x hx y hy =>
        List.mem_singleton.1 hy ▸ (hs.past x hx).trans hle⟩

/-- The log of a request is in order of time. -/
theorem Reaches.pairwise_log {meets : Simulator ς → Action → Prop} (h : w.Reaches meets s)
    (r : RequestId) : (s.log r).Pairwise fun e e' => e.1 ≤ e'.1 := by
  have hin := h.inTime
  have hall : (s.1.processed ++ s.1.queue.events).Pairwise fun a b => a.time ≤ b.time :=
    List.pairwise_append.2 ⟨hin.ordered, s.1.queue.sorted.imp fun hab => hab.time_le,
      fun x hx y hy => (hin.past x hx).trans (s.1.timely y hy)⟩
  rw [Simulator.log, logIn, List.pairwise_map]
  exact hall.filter _

/-- **Every request takes one of the courses.**  With disjoint pools and distinct ids, in every
state that is reached the events of a request, the handled ones and then those that are scheduled,
come in order of time and are the beginning of one of three courses: it is rejected on arrival; or
it is announced, prefilled on the prefill node that the scheduler named, transferred from there to
the decode node that it named, and refused; or it then gets its tokens one by one and is completed
there.  When no event is left, it has taken the whole course. -/
theorem requests_take_their_course (hpools : ∀ id ∈ w.prefillIds, id ∉ w.decodeIds) {sched : ς}
    {cm : CacheManager} {tm : TransferModel}
    (h : w.ReachesFrom DistinctArrivals (w.start sched cm tm) s) (r : RequestId) :
    s.log r = logIn r s.1.processed ++ logIn r s.1.queue.events ∧
    ((s.log r).Pairwise fun e e' => e.1 ≤ e'.1) ∧
    (s.log r ≠ [] → ∃ l, Life r l ∧ (s.log r).map Prod.snd <+: l ∧
      (s.1.queue.events = [] → (logIn r s.1.processed).map Prod.snd = l)) := by
  have hreach := h.reaches (.start sched cm tm)
  have hsplit : s.log r = logIn r s.1.processed ++ logIn r s.1.queue.events := logIn_append
  refine ⟨hsplit, hreach.pairwise_log r, fun hne => ?_⟩
  obtain ⟨stage, hst, hl⟩ := hreach.logged hpools
  have hown : ∀ p ∈ (s.log r).map Prod.snd, p.owner = some r := by
    intro p hp
    obtain ⟨e, he, rfl⟩ := List.mem_map.1 hp
    exact (mem_log.1 he).2
  have hheed : ∀ dec mt mb, Payload.scheduled r dec mt mb ∈ (s.log r).map Prod.snd →
      (∀ a, (stage r).assignment = some a → dec.Names a) ∧
        ∀ p ∈ (s.log r).map Prod.snd, p.Heeds dec := by
    intro dec mt mb hmem
    obtain ⟨⟨t, p⟩, he, heq⟩ := List.mem_map.1 hmem
    dsimp only at heq
    subst heq
    obtain ⟨hnames, hheed⟩ := h.decided hpools t r dec mt mb (mem_log.1 he).1
    refine ⟨fun a ha => hnames a ?_, fun p hp => ?_⟩
    · rw [(hst.kept r).assignment, ha]
    · obtain ⟨e, he', rfl⟩ := List.mem_map.1 hp
      exact hheed e (mem_log.1 he').1 (mem_log.1 he').2
  obtain ⟨l, hlife, hprefix, hwhole⟩ := (hl.story r).extends (hst.valid r) hown hheed
    fun hnil => hne (List.map_eq_nil_iff.1 hnil)
  refine ⟨l, hlife, hprefix, fun hq => ?_⟩
  rw [hsplit, hq] at hwhole
  rw [← hwhole (hst.isGone hreach.awake hq r)]
  exact congrArg _ (List.append_nil _).symm

/-- The two requests are run until no event is left. -/
def bothToTheEnd : Simulator Cursors :=
  ((funnel.execute (bothAtOnce ++ List.replicate 13 .turn)).run funnelStart).state

/-- Each of them is served. -/
theorem requests_take_their_course_both :
    (logIn "a" bothToTheEnd.1.processed).length = 9 ∧
      Life "a" ((logIn "a" bothToTheEnd.1.processed).map Prod.snd) := by
  have hm : funnel.Meets DistinctArrivals (bothAtOnce ++ List.replicate 13 .turn) funnelStart := by
    decide +kernel
  have hok : ((funnel.execute (bothAtOnce ++ List.replicate 13 .turn)).run
    funnelStart).isOk = true := by decide +kernel
  have hpools : ∀ id ∈ funnel.prefillIds, id ∉ funnel.decodeIds := by decide +kernel
  have hlength : (logIn "a" bothToTheEnd.1.processed).length = 9 := by decide +kernel
  have hq : bothToTheEnd.1.queue.events = [] := by decide +kernel
  have hreach : funnel.ReachesFrom DistinctArrivals funnelStart bothToTheEnd := by
    rw [bothToTheEnd]
    exact ReachesFrom.execute .refl hm hok
  obtain ⟨hsplit, -, hcourse⟩ := requests_take_their_course hpools hreach "a"
  obtain ⟨l, hlife, -, hwhole⟩ := hcourse fun hnil => by
    rw [hnil] at hsplit
    rw [(List.append_eq_nil_iff.1 hsplit.symm).1] at hlength
    cases hlength
  exact ⟨hlength, hwhole hq ▸ hlife⟩

end Wiring

end Runs

end NanoKVRouter
