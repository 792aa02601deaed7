/-
**Queries are not read-only.**

The interface of the manager lists `lookup` and `lookup_all` as read-only.  They change no table and
no pool, but the walk of a lookup touches the nodes it goes through, and the next demotion selects
by access times: a query can decide which prefix is demoted.  A run after some queries has the same
results as the run without them as long as none of its admissions depends on the ages in which the
two runs differ.

Main definitions:

* `CacheManager.Query` — the queries;
* `CacheManager.outcomes` — what the callers of a run see;
* `CacheManager.SameShape` — the managers differ in access times only;
* `CacheManager.Undisturbed` — no admission of a run depends on the ages.

Main results:

* `CacheManager.query_sameShape` — **a query** changes access times only;
* `CacheManager.alike_call` — **a call** on managers that differ in access times;
* `CacheManager.outcomes_afterQueries` — **queries do not matter** to an undisturbed run;
* `CacheManager.queries_disturb` — but they can decide which prefix is demoted.
-/

import NanoKVRouter.CacheTwins

set_option relaxedAutoImplicit false
set_option autoImplicit false

namespace NanoKVRouter

namespace CacheManager

/-! ### Queries and runs -/

/-- The calls of the interface that the source calls read-only and that walk a tree. -/
inductive Query
  | lookup (now : Time) (request : Request) (nodeId : NodeId)
  | lookupAll (now : Time) (request : Request)

/-- The state a query leaves. -/
def query (cm : CacheManager) : Query → CacheManager
  | .lookup now request nodeId => ((lookup now request nodeId).run cm).state
  | .lookupAll now request => ((lookupAll now request).run cm).state

/-- The state after some queries. -/
def afterQueries (cm : CacheManager) (qs : List Query) : CacheManager := qs.foldl query cm

/-- What a call of the interface returns. -/
inductive Answer
  | done
  | table (t : RequestBlockTable)
  | hit (l : CacheLookup)

/-- A call of the interface. -/
def call : Op → Py CacheManager Answer
  | .admitTokens clock tokenIds nodeId => do
      admitTokens clock tokenIds nodeId
      pure .done
  | .materialize clock requestId tokenIds nodeId => do
      let t ← materializeRequest clock requestId tokenIds nodeId
      pure (.table t)
  | .release requestId nodeId => do
      releaseRequest requestId nodeId
      pure .done
  | .lookup now request nodeId => do
      let l ← lookup now request nodeId
      pure (.hit l)

/-- What the callers of a sequence of calls see. -/
def outcomes : List Op → CacheManager → List (Except PyErr Answer)
  | [], _ => []
  | op :: ops, cm => Py.outcome ((call op).run cm) :: outcomes ops (cm.apply op)

/-- The state a call leaves does not depend on what is made of its value. -/
theorem state_bind_pure {σ α β : Type} (m : Py σ α) (f : α → β) (s : σ) :
    ((do let a ← m; pure (f a)).run s).state = (m.run s).state := by
  rw [EStateM.run_bind]
  cases m.run s <;> rfl

theorem state_call (op : Op) (cm : CacheManager) : ((call op).run cm).state = cm.apply op := by
  cases op with
  | admitTokens clock T n => exact state_bind_pure _ (fun _ => Answer.done) cm
  | materialize clock r T n => exact state_bind_pure _ Answer.table cm
  | release r n => exact state_bind_pure _ (fun _ => Answer.done) cm
  | lookup now r n => exact state_bind_pure _ Answer.hit cm

/-! ### Managers that differ in access times -/

/-- The managers differ in access times only. -/
structure SameShape (cm cm' : CacheManager) : Prop where
  model_eq : cm'.model = cm.model
  nodeConfig_eq : cm'.nodeConfig = cm.nodeConfig
  bandwidth_eq : cm'.bandwidth = cm.bandwidth
  blockTables_eq : cm'.blockTables = cm.blockTables
  keys_eq : cm'.caches.keys = cm.caches.keys
  caches : ∀ n c c', cm.caches.get? n = some c → cm'.caches.get? n = some c' → c.SameShape c'

namespace SameShape

variable {cm cm' cm'' : CacheManager}

theorem refl (cm : CacheManager) : SameShape cm cm where
  model_eq := rfl
  nodeConfig_eq := rfl
  bandwidth_eq := rfl
  blockTables_eq := rfl
  keys_eq := rfl
  caches := by
    intro n c c' hc hc'
    rw [hc, Option.some_inj] at hc'
    exact hc' ▸ .refl c

/-- The nodes of the one are those of the other. -/
theorem exists_cache (h : SameShape cm cm') {n : NodeId} {c : NodeCache}
    (hc : cm.caches.get? n = some c) : ∃ c', cm'.caches.get? n = some c' ∧ c.SameShape c' := by
  obtain ⟨c', hc'⟩ := PyDict.exists_get?_of_mem_keys (h.keys_eq ▸ PyDict.mem_keys_of_get? hc)
  exact ⟨c', hc', h.caches n c c' hc hc'⟩

theorem get?_eq_none (h : SameShape cm cm') {n : NodeId} (hn : cm.caches.get? n = none) :
    cm'.caches.get? n = none := by
  rw [PyDict.get?_eq_none_iff] at hn ⊢
  rwa [h.keys_eq]

theorem trans (h : SameShape cm cm') (h' : SameShape cm' cm'') : SameShape cm cm'' where
  model_eq := h'.model_eq.trans h.model_eq
  nodeConfig_eq := h'.nodeConfig_eq.trans h.nodeConfig_eq
  bandwidth_eq := h'.bandwidth_eq.trans h.bandwidth_eq
  blockTables_eq := h'.blockTables_eq.trans h.blockTables_eq
  keys_eq := h'.keys_eq.trans h.keys_eq
  caches := by
    intro n c c'' hc hc''
    obtain ⟨c', hc', hcc'⟩ := h.exists_cache hc
    exact hcc'.trans (h'.caches n c' c'' hc' hc'')

/-- Storing the caches of one node. -/
theorem set (h : SameShape cm cm') (n : NodeId) {c c' : NodeCache} (hc : c.SameShape c') :
    SameShape { cm with caches := cm.caches.set n c } { cm' with caches := cm'.caches.set n c' } where
  model_eq := h.model_eq
  nodeConfig_eq := h.nodeConfig_eq
  bandwidth_eq := h.bandwidth_eq
  blockTables_eq := h.blockTables_eq
  keys_eq := by simp only [PyDict.keys_set, h.keys_eq]
  caches := by
    intro m d d' hd hd'
    rw [PyDict.get?_set] at hd hd'
    by_cases hm : m = n
    · rw [if_pos hm, Option.some_inj] at hd hd'
      exact hd ▸ hd' ▸ hc
    · rw [if_neg hm] at hd hd'
      exact h.caches m d d' hd hd'

end SameShape

/-- A call on a node goes the same way if it does on the caches of the node. -/
theorem leads_onNode {α : Type} {R : NodeCache → NodeCache → Prop} {n : NodeId}
    {m : Py NodeCache α} (hm : Py.Leads R NodeCache.SameShape Eq m m) :
    Py.Leads (fun cm cm' => SameShape cm cm' ∧
        ∀ c c', cm.caches.get? n = some c → cm'.caches.get? n = some c' → R c c')
      SameShape Eq (onNode n m) (onNode n m) := by
  rintro cm cm' ⟨h, hR⟩
  rw [onNode, Py.run_get_bind, Py.run_get_bind]
  cases hc : cm.caches.get? n with
  | none =>
      rw [h.get?_eq_none hc]
      exact .error _ h
  | some c =>
      obtain ⟨c', hc', -⟩ := h.exists_cache hc
      rw [hc']
      have hrun := hm c c' (hR c c' hc hc')
      dsimp only
      rw [Py.run_onPart, Py.run_onPart]
      generalize m.run c = r at hrun
      generalize m.run c' = r' at hrun
      cases hrun with
      | ok ha hs => exact .ok ha (h.set n hs)
      | error e hs => exact .error e (h.set n hs)

theorem sim_onNode {α : Type} (n : NodeId) {m : Py NodeCache α}
    (hm : Py.Sim NodeCache.SameShape Eq m m) : Py.Sim SameShape Eq (onNode n m) (onNode n m) :=
  fun cm cm' h => leads_onNode hm cm cm' ⟨h, h.caches n⟩

/-! ### Queries -/

theorem sim_lookup (now : Time) (request : Request) (n : NodeId) :
    Py.Sim SameShape Eq (lookup now request n) (lookup now request n) := by
  refine .get_bind fun cm cm' h => ?_
  rw [h.model_eq, h.bandwidth_eq]
  exact sim_onNode n (NodeCache.sim_lookup cm.model cm.bandwidth now request.tokenIds)

theorem keeps_lookup (cm : CacheManager) (now : Time) (request : Request) (n : NodeId) :
    Py.Keeps (SameShape cm) (lookup now request n) := by
  intro cm' h
  refine h.trans ?_
  rw [lookup, Py.run_get_bind, onNode, Py.run_get_bind]
  cases hc : cm'.caches.get? n with
  | none => exact .refl cm'
  | some c =>
      have hself : { cm' with caches := cm'.caches.set n c } = cm' := by
        rw [PyDict.set_of_get? hc]
      have hkeep := NodeCache.keeps_lookup c cm'.model cm'.bandwidth now request.tokenIds c (.refl c)
      dsimp only
      rw [Py.run_onPart]
      generalize (NodeCache.lookup cm'.model cm'.bandwidth now request.tokenIds).run c = r at hkeep
      have hset := (SameShape.refl cm').set n hkeep
      rw [hself] at hset
      cases r with
      | ok a c₁ => exact hset
      | error e c₁ => exact hset

theorem keeps_lookupAll (cm : CacheManager) (now : Time) (request : Request) :
    Py.Keeps (SameShape cm) (lookupAll now request) :=
  Py.Keeps.get.bind fun _ => .foldlM (fun _ _ => (keeps_lookup cm now request _).bind fun _ =>
    .pure _) _ _

/-- **A query** changes access times only. -/
theorem query_sameShape (cm : CacheManager) (q : Query) : SameShape cm (cm.query q) := by
  cases q with
  | lookup now request n => exact keeps_lookup cm now request n cm (.refl cm)
  | lookupAll now request => exact keeps_lookupAll cm now request cm (.refl cm)

theorem afterQueries_sameShape (qs : List Query) (cm : CacheManager) :
    SameShape cm (cm.afterQueries qs) := by
  induction qs generalizing cm with
  | nil => exact .refl cm
  | cons q qs ih => exact (query_sameShape cm q).trans (ih (cm.query q))

/-! ### Undisturbed runs -/

/-- The caches of a node admit a prompt alike. -/
def AdmitsAlike (clock : ℕ → Time) (tokenIds : List Token) (nodeId : NodeId)
    (cm cm' : CacheManager) : Prop :=
  ∀ c c', cm.caches.get? nodeId = some c → cm'.caches.get? nodeId = some c' →
    c.AdmitsAlike cm.model.blockSize cm.nodeConfig.gpuBlocks clock
      (NodeCache.alignedTokens cm.model.blockSize tokenIds).1
      (NodeCache.alignedTokens cm.model.blockSize tokenIds).2 c'

/-- What makes a call go the same way on two managers that differ in access times only.  A
materialization reads the clock twice before it admits the prompt. -/
def Op.GoesAlike (cm cm' : CacheManager) : Op → Prop
  | .admitTokens clock tokenIds nodeId => AdmitsAlike clock tokenIds nodeId cm cm'
  | .materialize clock requestId tokenIds nodeId =>
      cm.blockTables.contains (nodeId, requestId) = true ∨
        AdmitsAlike (fun j => clock (j + 2)) tokenIds nodeId cm cm'
  | .release _ _ => True
  | .lookup _ _ _ => True

/-- Every call of a run goes alike from the states it finds in the two runs. -/
def Undisturbed : List Op → CacheManager → CacheManager → Prop
  | [], _, _ => True
  | op :: ops, cm, cm' => op.GoesAlike cm cm' ∧ Undisturbed ops (cm.apply op) (cm'.apply op)

/-! ### Calls on managers that differ in access times -/

section Calls

variable {cm cm' : CacheManager} {clock : ℕ → Time} {T : List Token} {n : NodeId}

theorem alike_admitTokens (h : SameShape cm cm') (ha : AdmitsAlike clock T n cm cm') :
    Py.Alike SameShape Eq ((admitTokens clock T n).run cm) ((admitTokens clock T n).run cm') := by
  rw [admitTokens, Py.run_get_bind, Py.run_get_bind, h.model_eq, h.nodeConfig_eq]
  refine leads_onNode (R := fun c c' => c.SameShape c' ∧ c.AdmitsAlike cm.model.blockSize
    cm.nodeConfig.gpuBlocks clock (NodeCache.alignedTokens cm.model.blockSize T).1
    (NodeCache.alignedTokens cm.model.blockSize T).2 c') ?_ cm cm'
    ⟨h, fun c c' hc hc' => ⟨h.caches n c c' hc hc', ha c c' hc hc'⟩⟩
  exact fun c c' hR => NodeCache.alike_admitTokens hR.1 rfl hR.2

theorem leads_acquireBlocks :
    Py.Leads (fun cm cm' => SameShape cm cm' ∧ AdmitsAlike (fun j => clock (j + 2)) T n cm cm')
      SameShape Eq (acquireBlocks clock T n) (acquireBlocks clock T n) := by
  rintro cm cm' ⟨h, ha⟩
  rw [acquireBlocks, Py.run_get_bind, Py.run_get_bind, h.model_eq, h.nodeConfig_eq]
  dsimp only
  split
  · exact .ok rfl h
  · have hself : NodeCache.alignedTokens cm.model.blockSize
        (NodeCache.alignedTokens cm.model.blockSize T).1 =
          NodeCache.alignedTokens cm.model.blockSize T :=
      NodeCache.alignedTokens_self cm.model.one_le_blockSize (NodeCache.length_aligned rfl)
    refine leads_onNode (R := fun c c' => c.SameShape c' ∧ c.AdmitsAlike cm.model.blockSize
      cm.nodeConfig.gpuBlocks (fun j => clock (j + 2))
      (NodeCache.alignedTokens cm.model.blockSize T).1
      (NodeCache.alignedTokens cm.model.blockSize T).2 c') ?_ cm cm'
      ⟨h, fun c c' hc hc' => ⟨h.caches n c c' hc hc', ha c c' hc hc'⟩⟩
    exact fun c c' hR => NodeCache.alike_materialize hR.1 hself hR.2

theorem alike_materializeRequest {r : RequestId} (h : SameShape cm cm')
    (ha : cm.blockTables.contains (n, r) = true ∨ AdmitsAlike (fun j => clock (j + 2)) T n cm cm') :
    Py.Alike SameShape Eq ((materializeRequest clock r T n).run cm)
      ((materializeRequest clock r T n).run cm') := by
  have hcontains : cm'.caches.contains n = cm.caches.contains n := by
    rw [Bool.eq_iff_iff, PyDict.contains_iff, PyDict.contains_iff, h.keys_eq]
  rw [materializeRequest, Py.run_get_bind, Py.run_get_bind, hcontains, h.blockTables_eq,
    h.model_eq]
  split
  · exact .error _ h
  · split
    · exact .error _ h
    · next hnew =>
        refine Py.Leads.bind leads_acquireBlocks ?_ (fun _ _ hs => hs) cm cm'
          ⟨h, ha.resolve_left hnew⟩
        rintro ⟨ids, matched⟩ _ rfl
        refine Py.Sim.bind_eq (.modify fun s s' hs => ?_) fun _ => .pure rfl
        exact { hs with blockTables_eq := by simp only [hs.blockTables_eq] }

theorem sim_releaseRequest (r : RequestId) (n : NodeId) :
    Py.Sim SameShape Eq (releaseRequest r n) (releaseRequest r n) := by
  refine .get_bind fun cm cm' h => ?_
  have hcontains : cm'.caches.contains n = cm.caches.contains n := by
    rw [Bool.eq_iff_iff, PyDict.contains_iff, PyDict.contains_iff, h.keys_eq]
  rw [hcontains, h.blockTables_eq]
  split
  · exact .raise _
  · cases cm.blockTables.get? (n, r) with
    | none => exact .raise _
    | some table =>
        refine Py.Sim.bind_eq (.modify fun s s' hs => ?_) fun _ =>
          sim_onNode n (NodeCache.sim_releaseBlocks _)
        exact { hs with blockTables_eq := by simp only [hs.blockTables_eq] }

/-- The answers of calls that end alike are the same. -/
theorem alike_bind_pure {α : Type} {m : Py CacheManager α} (f : α → Answer)
    (h : Py.Alike SameShape Eq (m.run cm) (m.run cm')) :
    Py.Alike SameShape Eq ((do let a ← m; pure (f a)).run cm)
      ((do let a ← m; pure (f a)).run cm') := by
  rw [EStateM.run_bind, EStateM.run_bind]
  generalize m.run cm = r at h
  generalize m.run cm' = r' at h
  cases h with
  | ok ha hs => exact .ok (congrArg f ha) hs
  | error e hs => exact .error e hs

/-- **A call** goes the same way on managers that differ in access times, if it goes alike. -/
theorem alike_call (h : SameShape cm cm') (op : Op) (ha : op.GoesAlike cm cm') :
    Py.Alike SameShape Eq ((call op).run cm) ((call op).run cm') := by
  cases op with
  | admitTokens clock T n => exact alike_bind_pure (fun _ => .done) (alike_admitTokens h ha)
  | materialize clock r T n => exact alike_bind_pure .table (alike_materializeRequest h ha)
  | release r n => exact alike_bind_pure (fun _ => .done) (sim_releaseRequest r n cm cm' h)
  | lookup now r n => exact alike_bind_pure .hit (sim_lookup now r n cm cm' h)

/-- An undisturbed run has the same outcomes from managers that differ in access times. -/
theorem SameShape.outcomes_eq : ∀ {ops : List Op} {cm cm' : CacheManager}, SameShape cm cm' →
    Undisturbed ops cm cm' → outcomes ops cm' = outcomes ops cm := by
  intro ops
  induction ops with
  | nil => intro cm cm' _ _; rfl
  | cons op ops ih =>
      intro cm cm' h hrun
      have hcall := alike_call h op hrun.1
      have hstate := hcall.state
      rw [state_call, state_call] at hstate
      rw [outcomes, outcomes, hcall.outcome_eq, ih hstate hrun.2]

end Calls

/-! ### Queries before a run -/

/-- **Queries do not matter to an undisturbed run**: its calls have the outcomes they have without
the queries. -/
theorem outcomes_afterQueries (qs : List Query) (ops : List Op) (cm : CacheManager)
    (h : Undisturbed ops cm (cm.afterQueries qs)) :
    outcomes ops (cm.afterQueries qs) = outcomes ops cm :=
  (afterQueries_sameShape qs cm).outcomes_eq h

/-- The request a scheduler probes a node with. -/
def probe (T : List Token) : Request := ⟨"", T, 0, 0, 0, 0⟩

/-- Two prompts of one block each on a node with three GPU blocks and no other tier. -/
def twoPrompts : CacheManager := (oneNode unitBlocks 3 0 0).run [.admitAt 1 [1], .admitAt 2 [2]]

/-- A query for the younger of two prompts leaves their ages as they are, so that the admission of
a third prompt demotes the older one with and without it. -/
theorem outcomes_afterQueries_younger :
    outcomes [.admitAt 4 [3], .lookup 5 (probe [1]) "n"]
        (twoPrompts.afterQueries [.lookup 3 (probe [2]) "n"]) =
      outcomes [.admitAt 4 [3], .lookup 5 (probe [1]) "n"] twoPrompts := by
  refine outcomes_afterQueries _ _ _ ⟨?_, trivial, trivial⟩
  intro c c' hc hc'
  have hages : ((twoPrompts.caches.get? "n").all fun c =>
      ((twoPrompts.afterQueries [.lookup 3 (probe [2]) "n"]).caches.get? "n").all fun c' =>
        decide (RadixTree.SameAges (fun b => 0 < c.pool.pinCountOf b) 4
          (c.tree.matchPrefixPath 4 [3]).2 (c'.tree.matchPrefixPath 4 [3]).2)) = true := by
    decide +kernel
  rw [hc, hc', Option.all_some, Option.all_some] at hages
  exact .aged 4 (fun _ => by decide +kernel) (of_decide_eq_true hages)

/-- The number of matched tokens that a lookup reports. -/
def matchedTokens : Except PyErr Answer → Option ℕ
  | .ok (.hit l) => some l.matchedTokens
  | _ => none

/-- **Queries are not read-only**: a query for the older of two prompts makes the admission of a
third one demote the other, so that a later lookup finds what it would not have found. -/
theorem queries_disturb :
    Reachable ["n"] unitBlocks { gpuBlocks := 3, cpuBlocks := 0, diskBlocks := 0 } .defaults
      twoPrompts ∧
    outcomes [.admitAt 4 [3], .lookup 5 (probe [1]) "n"]
        (twoPrompts.afterQueries [.lookup 3 (probe [1]) "n"]) ≠
      outcomes [.admitAt 4 [3], .lookup 5 (probe [1]) "n"] twoPrompts := by
  refine ⟨Reachable.init.run _, fun heq => ?_⟩
  have hwith : (outcomes [.admitAt 4 [3], .lookup 5 (probe [1]) "n"]
      (twoPrompts.afterQueries [.lookup 3 (probe [1]) "n"])).map matchedTokens =
        [none, some 1] := by decide +kernel
  have hwithout : (outcomes [.admitAt 4 [3], .lookup 5 (probe [1]) "n"] twoPrompts).map
      matchedTokens = [none, some 0] := by decide +kernel
  rw [heq, hwithout] at hwith
  exact absurd hwith (by decide)

end CacheManager

end NanoKVRouter
