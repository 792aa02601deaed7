/-
**The life of a request.**

What the handlers do together to one request is a walk through a few stages: it arrives, waits for a
prefill slot, is prefilled, is transferred and decoded, or is rejected on the way.  A stage says what
the whole state holds for the request: the events of the queue that carry it on, what each node keeps
of it, and its entries in the maps of the handlers.

This is the abstract model of the simulator; `NanoKVRouter.SimulatorLives` shows that every turn of
the engine moves every request along it.

Main definitions:

* `Stage` — the stages, and what the state holds for a request in each of them;
* `Stage.Moves` — what one turn of the engine can do to a request;
* `Stage.potential` — how many events the request can still cause.

Main results:

* `Stage.Moves.potential_lt` — **every move pays for the events it schedules**.
-/

import NanoKVRouter.Simulator
import Mathlib.Algebra.Order.Group.Multiset

set_option relaxedAutoImplicit false
set_option autoImplicit false

namespace NanoKVRouter

/-! ### Events of a request -/

/-- The request an event is about. -/
def Payload.owner : Payload → Option RequestId
  | .requestArrive req => some req.requestId
  | .requestRejected r _ => some r
  | .scheduled r _ _ _ => some r
  | .prefillStart r _ _ _ => some r
  | .prefillComplete r _ _ => some r
  | .kvTransferStart base => some base.requestId
  | .kvTransferComplete base _ => some base.requestId
  | .decodeBatchStep _ => none
  | .tokenGenerated r _ => some r
  | .decodeComplete r _ => some r

/-- The event announces something and carries no request on. -/
def Payload.isNotice : Payload → Bool
  | .scheduled .. => true
  | .kvTransferStart _ => true
  | .tokenGenerated .. => true
  | _ => false

/-- The event carries the request on. -/
def Payload.Carries (r : RequestId) (p : Payload) : Prop := p.owner = some r ∧ p.isNotice = false

instance (r : RequestId) : DecidablePred (Payload.Carries r) := fun p =>
  inferInstanceAs (Decidable (p.owner = some r ∧ p.isNotice = false))

/-- The request whose life the event ends. -/
def Payload.terminal? : Payload → Option RequestId
  | .requestRejected r _ => some r
  | .decodeComplete r _ => some r
  | _ => none

/-- The event ends the life of the request. -/
def Payload.Ends (r : RequestId) (p : Payload) : Prop := p.terminal? = some r

instance (r : RequestId) : DecidablePred (Payload.Ends r) := fun p =>
  inferInstanceAs (Decidable (p.terminal? = some r))

/-- The request that an event announces the arrival of. -/
def Payload.arrival? : Payload → Option Request
  | .requestArrive req => some req
  | _ => none

/-- The events about a request, among scheduled ones. -/
def own (r : RequestId) (out : List (Time × Payload)) : List (Time × Payload) :=
  out.filter fun e => e.2.owner = some r

/-- The events that carry a request on. -/
def carrying (r : RequestId) (ps : List Payload) : Multiset Payload :=
  ((ps.filter fun p => Payload.Carries r p : List Payload) : Multiset Payload)

section Events

variable {r : RequestId} {ps ps' : List Payload} {out out' : List (Time × Payload)}

theorem own_append : own r (out ++ out') = own r out ++ own r out' := List.filter_append ..

theorem own_cons_self {e : Time × Payload} (h : e.2.owner = some r) :
    own r (e :: out) = e :: own r out := by
  rw [own, List.filter_cons_of_pos (by simpa using h), own]

theorem own_cons_of_ne {e : Time × Payload} (h : e.2.owner ≠ some r) :
    own r (e :: out) = own r out := by
  rw [own, List.filter_cons_of_neg (by simpa using h), own]

@[simp] theorem own_nil : own r [] = [] := rfl

theorem own_eq_nil (h : ∀ e ∈ out, e.2.owner ≠ some r) : own r out = [] :=
  List.filter_eq_nil_iff.2 fun e he => by simpa using h e he

theorem owner_of_mem_own {e : Time × Payload} (h : e ∈ own r out) : e.2.owner = some r :=
  of_decide_eq_true (List.mem_filter.1 h).2

theorem not_carries_of_isNotice {p : Payload} (h : p.isNotice = true) : ¬ p.Carries r := by
  rintro ⟨-, h'⟩
  rw [h] at h'
  cases h'

@[simp] theorem carrying_nil : carrying r [] = 0 := rfl

theorem carrying_append : carrying r (ps ++ ps') = carrying r ps + carrying r ps' := by
  rw [carrying, List.filter_append, ← Multiset.coe_add, carrying, carrying]

theorem carrying_cons {p : Payload} :
    carrying r (p :: ps) = (if p.Carries r then {p} else 0) + carrying r ps := by
  by_cases hp : p.Carries r
  · rw [carrying, List.filter_cons_of_pos (by simpa using hp), if_pos hp, carrying,
      ← Multiset.cons_coe, Multiset.singleton_add]
  · rw [carrying, List.filter_cons_of_neg (by simpa using hp), if_neg hp, zero_add, carrying]

theorem carrying_perm (h : ps.Perm ps') : carrying r ps = carrying r ps' :=
  Multiset.coe_eq_coe.2 (h.filter _)

/-- The events that carry a request on are about it. -/
theorem carrying_own : carrying r ((own r out).map Prod.snd) = carrying r (out.map Prod.snd) := by
  induction out with
  | nil => rfl
  | cons e out ih =>
      by_cases h : e.2.owner = some r
      · rw [own_cons_self h, List.map_cons, List.map_cons, carrying_cons, carrying_cons, ih]
      · have hc : ¬ e.2.Carries r := fun hc => h hc.1
        rw [own_cons_of_ne h, ih, List.map_cons, carrying_cons, if_neg hc, zero_add]

end Events

/-! ### Stages -/

/-- What a node keeps of a request: how often it is running and queued, whether it is in the decode
batch, its uncached tokens in the pipeline, and its output counters. -/
structure NodeView where
  running : ℕ
  queued : ℕ
  decoding : Bool
  pipeline : Option ℤ
  generated : Option ℤ
  expected : Option ℤ
deriving DecidableEq

namespace NodeView

/-- The node has nothing of the request. -/
def idle : NodeView := ⟨0, 0, false, none, none, none⟩

/-- The request is queued. -/
def queuedOnly : NodeView := ⟨0, 1, false, none, none, none⟩

/-- The request is running, with `g` of `e` tokens generated. -/
def slot (g e : ℤ) : NodeView := ⟨1, 0, false, none, some g, some e⟩

end NodeView

/-- One node keeps something of a request, the others nothing. -/
def only (x : NodeId) (v : NodeView) : NodeId → NodeView := fun y => if y = x then v else .idle

@[simp] theorem only_self (x : NodeId) (v : NodeView) : only x v x = v := if_pos rfl

theorem only_of_ne {x y : NodeId} (v : NodeView) (h : y ≠ x) : only x v y = .idle := if_neg h

/-- Where a request is. -/
inductive Stage
  | absent
  | arriving (req : Request)
  | rejected (req : Request) (reason : Option String)
  | waiting (req : Request) (a : Assignment)
  | starting (req : Request) (a : Assignment) (k : ℤ)
  | prefilling (req : Request) (a : Assignment) (u : ℤ)
  | prefilled (req : Request) (a : Assignment)
  | transferring (req : Request) (a : Assignment) (base : TransferPayload)
  | decoding (req : Request) (a : Assignment) (g : ℕ)
  | decoded (req : Request) (a : Assignment) (g : ℕ)
  | finished (req : Request) (d : NodeId) (g : ℕ)
  | dismissed (req : Request) (reason : Option String)

namespace Stage

/-- The assignment of a request that has been accepted and not yet ended. -/
def assignment : Stage → Option Assignment
  | waiting _ a => some a
  | starting _ a _ => some a
  | prefilling _ a _ => some a
  | prefilled _ a => some a
  | transferring _ a _ => some a
  | decoding _ a _ => some a
  | decoded _ a _ => some a
  | _ => none

/-- The request itself, from its arrival on. -/
def arrived : Stage → List Request
  | absent => []
  | arriving _ => []
  | rejected req _ => [req]
  | waiting req _ => [req]
  | starting req _ _ => [req]
  | prefilling req _ _ => [req]
  | prefilled req _ => [req]
  | transferring req _ _ => [req]
  | decoding req _ _ => [req]
  | decoded req _ _ => [req]
  | finished req _ _ => [req]
  | dismissed req _ => [req]

/-- The request as the handlers have stored it. -/
def stored (st : Stage) : Option Request :=
  match st.assignment with
  | none => none
  | some _ => st.arrived.head?

/-- What the nodes keep of the request. -/
def node : Stage → NodeId → NodeView
  | waiting _ a => only a.prefillNode .queuedOnly
  | starting req a _ => only a.prefillNode (.slot 0 req.expectedOutputLen)
  | prefilling req a u =>
      only a.prefillNode { NodeView.slot 0 req.expectedOutputLen with pipeline := some u }
  | prefilled req a => only a.prefillNode (.slot 0 req.expectedOutputLen)
  | decoding req a g =>
      only a.decodeNode { NodeView.slot g req.expectedOutputLen with decoding := true }
  | decoded req a g => only a.decodeNode (.slot g req.expectedOutputLen)
  | _ => fun _ => .idle

/-- The scheduled event that carries the request `r` on, if there is one. -/
def pending (r : RequestId) : Stage → Multiset Payload
  | arriving req => {.requestArrive req}
  | rejected _ reason => {.requestRejected r reason}
  | starting req a k => {.prefillStart r a.prefillNode req k}
  | prefilled req a => {.prefillComplete r a.prefillNode req}
  | transferring req _ base => {.kvTransferComplete base req}
  | decoded _ a _ => {.decodeComplete r a.decodeNode}
  | _ => 0

/-- The transfer of the request `r` that has not ended. -/
def transfers (r : RequestId) : Stage → List (String × PendingTransfer)
  | transferring req a base =>
      [(base.transferId, ⟨r, a.prefillNode, a.decodeNode, base.costMs, req⟩)]
  | _ => []

/-- How often the request has entered decode. -/
def entered : Stage → ℕ
  | decoding _ _ _ => 1
  | decoded _ _ _ => 1
  | finished _ _ _ => 1
  | _ => 0

/-- The handled events that ended the request `r`. -/
def ended (r : RequestId) : Stage → List Payload
  | finished _ d _ => [.decodeComplete r d]
  | dismissed _ reason => [.requestRejected r reason]
  | _ => []

/-- The tokens a request is to generate. -/
def goal (req : Request) : ℕ := max 1 req.expectedOutputLen.toNat

/-- What is known of the data of a stage of the request `r`, in a deployment with given pools. -/
def Valid (prefillIds decodeIds : List NodeId) (r : RequestId) : Stage → Prop
  | absent => True
  | arriving req => req.requestId = r
  | rejected req _ => req.requestId = r
  | waiting req a => req.requestId = r ∧ a.prefillNode ∈ prefillIds
  | starting req a _ => req.requestId = r ∧ a.prefillNode ∈ prefillIds
  | prefilling req a u =>
      req.requestId = r ∧ a.prefillNode ∈ prefillIds ∧ 0 < u ∧ u ≤ req.tokenIds.length
  | prefilled req a => req.requestId = r ∧ a.prefillNode ∈ prefillIds
  | transferring req _ base =>
      req.requestId = r ∧ base.requestId = r ∧ ∃ n : ℕ, base.transferId = r ++ "-xfer-" ++ toString n
  | decoding req a g => req.requestId = r ∧ a.decodeNode ∈ decodeIds ∧ g < goal req
  | decoded req a g => req.requestId = r ∧ a.decodeNode ∈ decodeIds ∧ g = goal req
  | finished req d g => req.requestId = r ∧ d ∈ decodeIds ∧ g = goal req
  | dismissed req _ => req.requestId = r

/-! ### Moves -/

/-- What a turn that handles the event `p` at time `now` and schedules `out` can do to the request
`r`. -/
inductive Moves (now : Time) (p : Payload) (out : List (Time × Payload)) (r : RequestId) :
    Stage → Stage → Prop
  | stay (st : Stage) (hp : ¬ p.Carries r) (hout : own r out = []) : Moves now p out r st st
  | reject {req : Request} {reason : Option String} (hp : p = .requestArrive req)
      (hout : own r out = [(now, .requestRejected r reason)]) :
      Moves now p out r (arriving req) (rejected req reason)
  | queue {req : Request} {a : Assignment} {q : Payload} (hp : p = .requestArrive req)
      (hout : own r out = [(now, q)]) (hq : q.isNotice = true) :
      Moves now p out r (arriving req) (waiting req a)
  | start {req : Request} {a : Assignment} {k : ℤ} {q : Payload} (hp : p = .requestArrive req)
      (hout : own r out = [(now, q), (now, .prefillStart r a.prefillNode req k)])
      (hq : q.isNotice = true) : Moves now p out r (arriving req) (starting req a k)
  | promote {req : Request} {a : Assignment} {k : ℤ} (hp : ¬ p.Carries r)
      (hout : own r out = [(now, .prefillStart r a.prefillNode req k)]) :
      Moves now p out r (waiting req a) (starting req a k)
  | skip {req : Request} {a : Assignment} {k : ℤ} (hp : p = .prefillStart r a.prefillNode req k)
      (hout : own r out = [(now, .prefillComplete r a.prefillNode req)]) :
      Moves now p out r (starting req a k) (prefilled req a)
  | pipeline {req : Request} {a : Assignment} {k u : ℤ}
      (hp : p = .prefillStart r a.prefillNode req k) (hout : own r out = [])
      (hu : u ≤ req.tokenIds.length) : Moves now p out r (starting req a k) (prefilling req a u)
  | chunk {req : Request} {a : Assignment} {u u' : ℤ} (hp : p = .decodeBatchStep a.prefillNode)
      (hout : own r out = []) (hpos : 0 < u') (hlt : u' < u) :
      Moves now p out r (prefilling req a u) (prefilling req a u')
  | drain {req : Request} {a : Assignment} {u : ℤ} {t : Time}
      (hp : p = .decodeBatchStep a.prefillNode)
      (hout : own r out = [(t, .prefillComplete r a.prefillNode req)]) (hpos : 0 < u) :
      Moves now p out r (prefilling req a u) (prefilled req a)
  | transfer {req : Request} {a : Assignment} {base : TransferPayload} {t₁ t₂ : Time}
      (hp : p = .prefillComplete r a.prefillNode req)
      (hout : own r out = [(t₁, .kvTransferStart base), (t₂, .kvTransferComplete base req)]) :
      Moves now p out r (prefilled req a) (transferring req a base)
  | refuse {req : Request} {a : Assignment} {base : TransferPayload} {reason : Option String}
      (hp : p = .kvTransferComplete base req)
      (hout : own r out = [(now, .requestRejected r reason)]) :
      Moves now p out r (transferring req a base) (rejected req reason)
  | enter {req : Request} {a : Assignment} {base : TransferPayload}
      (hp : p = .kvTransferComplete base req) (hout : own r out = []) :
      Moves now p out r (transferring req a base) (decoding req a 0)
  | token {req : Request} {a : Assignment} {g : ℕ} {t : Time}
      (hp : p = .decodeBatchStep a.decodeNode) (hout : own r out = [(t, .tokenGenerated r g)])
      (ht : now < t) (hg : g + 1 < goal req) :
      Moves now p out r (decoding req a g) (decoding req a (g + 1))
  | last {req : Request} {a : Assignment} {g : ℕ} {t : Time}
      (hp : p = .decodeBatchStep a.decodeNode)
      (hout : own r out = [(t, .tokenGenerated r g), (t, .decodeComplete r a.decodeNode)])
      (ht : now < t) (hg : g + 1 = goal req) :
      Moves now p out r (decoding req a g) (decoded req a (g + 1))
  | finish {req : Request} {a : Assignment} {g : ℕ} (hp : p = .decodeComplete r a.decodeNode)
      (hout : own r out = []) : Moves now p out r (decoded req a g) (finished req a.decodeNode g)
  | dismiss {req : Request} {reason : Option String} (hp : p = .requestRejected r reason)
      (hout : own r out = []) : Moves now p out r (rejected req reason) (dismissed req reason)

section Inversion

variable {st : Stage} {r : RequestId}

theorem eq_arriving {req : Request} (h : st.pending r = {.requestArrive req}) :
    st = arriving req := by
  cases st <;> simp_all [pending]

theorem eq_rejected {reason : Option String} (h : st.pending r = {.requestRejected r reason}) :
    ∃ req, st = rejected req reason := by
  cases st <;> simp_all [pending]

theorem eq_starting {p : NodeId} {req : Request} {k : ℤ}
    (h : st.pending r = {.prefillStart r p req k}) :
    ∃ a, st = starting req a k ∧ a.prefillNode = p := by
  cases st <;> simp_all [pending]

theorem eq_prefilled {p : NodeId} {req : Request} (h : st.pending r = {.prefillComplete r p req}) :
    ∃ a, st = prefilled req a ∧ a.prefillNode = p := by
  cases st <;> simp_all [pending]

theorem eq_transferring {base : TransferPayload} {req : Request}
    (h : st.pending r = {.kvTransferComplete base req}) : ∃ a, st = transferring req a base := by
  cases st <;> simp_all [pending]

theorem eq_decoded {d : NodeId} (h : st.pending r = {.decodeComplete r d}) :
    ∃ req a g, st = decoded req a g ∧ a.decodeNode = d := by
  cases st <;> simp_all [pending]

/-- A node has something of a request only in the stages that are about that node. -/
theorem node_cases (st : Stage) (x : NodeId) :
    st.node x = .idle ∨ (∃ req a, st = waiting req a ∧ a.prefillNode = x) ∨
      (∃ req a k, st = starting req a k ∧ a.prefillNode = x) ∨
      (∃ req a u, st = prefilling req a u ∧ a.prefillNode = x) ∨
      (∃ req a, st = prefilled req a ∧ a.prefillNode = x) ∨
      (∃ req a g, st = decoding req a g ∧ a.decodeNode = x) ∨
      ∃ req a g, st = decoded req a g ∧ a.decodeNode = x := by
  by_cases hx : st.node x = .idle
  · exact Or.inl hx
  · refine Or.inr ?_
    cases st <;> simp only [node, only, ite_eq_right_iff, not_forall, exists_prop,
      not_true_eq_false] at hx <;> simp [hx.1]

/-- Only a waiting request is queued. -/
theorem eq_waiting {x : NodeId} (h : (st.node x).queued ≠ 0) :
    ∃ req a, st = waiting req a ∧ a.prefillNode = x := by
  rcases st.node_cases x with hx | hx | ⟨req, a, k, rfl, rfl⟩ | ⟨req, a, u, rfl, rfl⟩ |
    ⟨req, a, rfl, rfl⟩ | ⟨req, a, g, rfl, rfl⟩ | ⟨req, a, g, rfl, rfl⟩
  · rw [hx] at h
    exact absurd rfl h
  · exact hx
  all_goals
    simp [node, NodeView.slot] at h

/-- Only a request that is being decoded is in a batch. -/
theorem eq_decoding {x : NodeId} (h : (st.node x).decoding = true) :
    ∃ req a g, st = decoding req a g ∧ a.decodeNode = x := by
  rcases st.node_cases x with hx | ⟨req, a, rfl, rfl⟩ | ⟨req, a, k, rfl, rfl⟩ |
    ⟨req, a, u, rfl, rfl⟩ | ⟨req, a, rfl, rfl⟩ | hx | ⟨req, a, g, rfl, rfl⟩
  · rw [hx] at h
    cases h
  · simp [node, NodeView.queuedOnly] at h
  · simp [node, NodeView.slot] at h
  · simp [node, NodeView.slot] at h
  · simp [node, NodeView.slot] at h
  · exact hx
  · simp [node, NodeView.slot] at h

/-- Only a request that is being prefilled is in a pipeline. -/
theorem eq_prefilling {x : NodeId} {u : ℤ} (h : (st.node x).pipeline = some u) :
    ∃ req a, st = prefilling req a u ∧ a.prefillNode = x := by
  rcases st.node_cases x with hx | ⟨req, a, rfl, rfl⟩ | ⟨req, a, k, rfl, rfl⟩ |
    ⟨req, a, v, rfl, rfl⟩ | ⟨req, a, rfl, rfl⟩ | ⟨req, a, g, rfl, rfl⟩ | ⟨req, a, g, rfl, rfl⟩
  · rw [hx] at h
    cases h
  · simp [node, NodeView.queuedOnly] at h
  · simp [node, NodeView.slot] at h
  · simp only [node, only_self, Option.some_inj] at h
    exact ⟨req, a, by rw [h], rfl⟩
  · simp [node, NodeView.slot] at h
  · simp [node, NodeView.slot] at h
  · simp [node, NodeView.slot] at h

end Inversion

/-! ### The potential of a stage -/

/-- A bound on the events that a request can still cause, its own scheduled ones left out: its
notices, its next carriers, and the batch steps that it wakes its nodes for. -/
def potential : Stage → ℕ
  | absent => 0
  | arriving req => 11 + 3 * goal req + req.tokenIds.length
  | rejected _ _ => 1
  | waiting req _ => 9 + 3 * goal req + req.tokenIds.length
  | starting req _ _ => 7 + 3 * goal req + req.tokenIds.length
  | prefilling req _ u => 6 + 3 * goal req + u.toNat
  | prefilled req _ => 5 + 3 * goal req
  | transferring req _ _ => 2 + 3 * goal req
  | decoding req _ g => 1 + 3 * (goal req - g)
  | decoded _ _ _ => 1
  | finished _ _ _ => 0
  | dismissed _ _ => 0

theorem one_le_goal (req : Request) : 1 ≤ goal req := le_max_left _ _

/-- **Every move pays for the events it schedules**, and for one more. -/
theorem Moves.potential_lt {now : Time} {p : Payload} {out : List (Time × Payload)} {r : RequestId}
    {st st' : Stage} (h : Moves now p out r st st') :
    (st' = st ∧ own r out = [] ∧ ¬ p.Carries r) ∨
      st'.potential + (own r out).length < st.potential := by
  cases h with
  | stay _ hp hout => exact Or.inl ⟨rfl, hout, hp⟩
  | reject hp hout =>
      right
      simp only [potential, hout, List.length_singleton]
      omega
  | queue hp hout hq =>
      right
      simp only [potential, hout, List.length_singleton]
      omega
  | start hp hout hq =>
      right
      simp only [potential, hout, List.length_cons, List.length_nil]
      omega
  | promote hp hout =>
      right
      simp only [potential, hout, List.length_singleton]
      omega
  | skip hp hout =>
      right
      simp only [potential, hout, List.length_singleton]
      omega
  | pipeline hp hout hu =>
      right
      simp only [potential, hout, List.length_nil]
      omega
  | chunk hp hout hpos hlt =>
      right
      simp only [potential, hout, List.length_nil]
      omega
  | drain hp hout hpos =>
      right
      simp only [potential, hout, List.length_singleton]
      omega
  | transfer hp hout =>
      right
      simp only [potential, hout, List.length_cons, List.length_nil]
      omega
  | @refuse req a base reason hp hout =>
      right
      have := one_le_goal req
      simp only [potential, hout, List.length_singleton]
      omega
  | enter hp hout =>
      right
      simp only [potential, hout, List.length_nil]
      omega
  | token hp hout ht hg =>
      right
      simp only [potential, hout, List.length_singleton]
      omega
  | last hp hout ht hg =>
      right
      simp only [potential, hout, List.length_cons, List.length_nil]
      omega
  | finish hp hout =>
      right
      simp only [potential, hout, List.length_nil]
      omega
  | dismiss hp hout =>
      right
      simp only [potential, hout, List.length_nil]
      omega

/-- A request that has not arrived does not move. -/
theorem Moves.absent_iff {now : Time} {p : Payload} {out : List (Time × Payload)} {r : RequestId}
    {st st' : Stage} (h : Moves now p out r st st') : st = absent ↔ st' = absent := by
  cases h with
  | stay => exact Iff.rfl
  | _ => simp

end Stage

end NanoKVRouter
