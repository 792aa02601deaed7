/-
**Every call of the manager is a turn of the abstract cache.**

A call does to the cache of a node what a turn of the abstract cache does: evictions, then growth.
Before and after it changes pins, which say nothing of where a block is; a lookup and a release do
only that.  So what is to be known of the cache after a call follows from what it is after the
admission the call may contain, for all properties that do not speak of pins.

Main definitions:

* `NodeCache.Has` — the cache stands for an abstract one with a property;
* `NodeCache.Passes` — an admission leads from one property to another, whatever more is pinned;
* `CacheManager.Op.prompt?` — the prompt a call admits to a node;
* `CacheState.Steps` — a turn between two changes of pins.

Main results:

* `NodeCache.Passes.materialize` — a materialization leads where an admission does;
* `CacheManager.apply_passes` — **so does every call**;
* `CacheManager.apply_steps` — every call is a turn between two changes of pins.
-/

import NanoKVRouter.BlockPoolPins
import NanoKVRouter.CacheTables
import NanoKVRouter.PyRelations

set_option relaxedAutoImplicit false
set_option autoImplicit false

namespace NanoKVRouter

/-! ### Pins -/

namespace BlockPool

variable {p q : BlockPool}

theorem Pinned.repinned {ids : List BlockId} (h : Pinned p ids q) : Repinned p q :=
  ⟨h.tierOf_eq, h.tiers_eq, h.minted_eq⟩

theorem repinned_pin (ids : List BlockId) (p : BlockPool) :
    Repinned p ((pin ids).run p).state := by
  rcases run_pin_cases ids p with ⟨-, h⟩ | ⟨e, h⟩
  · rw [h]
    exact repinned_foldl_repin 1 ids p
  · rw [h]
    exact .refl p

theorem repinned_unpin (ids : List BlockId) (p : BlockPool) :
    Repinned p ((unpin ids).run p).state := by
  rcases run_unpin_cases ids p with ⟨-, h⟩ | ⟨e, h⟩
  · rw [h]
    exact repinned_foldl_repin (-1) ids p
  · rw [h]
    exact .refl p

end BlockPool

/-! ### Admissions that lead from one property to another -/

namespace NodeCache

variable {bs gpuBlocks : ℕ} {Q : List Token × ℕ → Prop} {K L : CacheState → Prop} {c : NodeCache}
  {s : CacheState}

/-- The cache stands for an abstract cache that has the property. -/
def Has (bs : ℕ) (K : CacheState → Prop) (c : NodeCache) : Prop := ∃ s, c.Represents bs s ∧ K s

/-- Pins do not bear on a property. -/
def Unpinning (K : CacheState → Prop) : Prop :=
  ∀ s q, K s → BlockPool.Repinned s.pool q → K ⟨s.trie, q⟩

/-- An admission of a prompt that is cut as `Q` says, to a cache in order with the property `K`,
leaves one with the property `L`.  Pinning more blocks does not bear on the one, and pins do not bear
on the other. -/
structure Passes (bs gpuBlocks : ℕ) (Q : List Token × ℕ → Prop) (K L : CacheState → Prop) :
    Prop where
  before : ∀ s R q, K s → BlockPool.Pinned s.pool R q → K ⟨s.trie, q⟩
  after : Unpinning L
  still : ∀ s, K s → L s
  admits : ∀ c s clock T, Q (alignedTokens bs T) → c.Represents bs s → s.Inv → K s →
    Has bs L ((admitTokens bs gpuBlocks clock T).run c).state

section Keeps

theorem has_matchPrefixPath (now : Time) (T : List Token) :
    Py.Keeps (Has bs K) (matchPrefixPath now T) := by
  rintro c ⟨s, h, hs⟩
  obtain ⟨c', hrun, hc', -⟩ := run_matchPrefixPath h now T
  rw [hrun]
  exact ⟨s, hc', hs⟩

/-- A call on the pool that changes pins only. -/
theorem has_onPool (hK : Unpinning K) {m : Py BlockPool Unit}
    (hm : ∀ p, BlockPool.Repinned p (m.run p).state) : Py.Keeps (Has bs K) (onPool m) := by
  rintro c ⟨s, h, hs⟩
  have hpool : Has bs K { c with pool := (m.run c.pool).state } :=
    ⟨⟨s.trie, (m.run c.pool).state⟩, ⟨h.tree, rfl⟩, hK s _ hs (h.pool ▸ hm c.pool)⟩
  cases hrun : m.run c.pool with
  | ok u p =>
      rw [hrun] at hpool
      rw [run_onPool_ok hrun]
      exact hpool
  | error e p =>
      rw [hrun] at hpool
      rw [run_onPool_error hrun]
      exact hpool

theorem has_retainBlocks (hK : Unpinning K) (ids : List BlockId) :
    Py.Keeps (Has bs K) (retainBlocks ids) := by
  rw [retainBlocks]
  split
  · exact .pure ()
  · exact has_onPool hK (BlockPool.repinned_pin ids)

theorem has_releaseBlocks (hK : Unpinning K) (ids : List BlockId) :
    Py.Keeps (Has bs K) (releaseBlocks ids) := by
  rw [releaseBlocks]
  split
  · exact .pure ()
  · exact has_onPool hK (BlockPool.repinned_unpin ids)

theorem has_beside {α : Type} {m : Py NodeCache α} (hm : Py.Keeps (Has bs K) m) :
    Py.Keeps (fun s : NodeCache × List BlockId => Has bs K s.1) (beside m) :=
  .onPart hm (fun _ hs => hs) fun _ _ _ ht => ht

theorem has_pinPath (hK : Unpinning K) (now : Time) (P : List Token) (k : ℕ) :
    Py.Keeps (fun s : NodeCache × List BlockId => Has bs K s.1) (pinPath bs now P k) := by
  refine .bind (has_beside (has_matchPrefixPath now P)) fun w => ?_
  dsimp only
  split
  · exact .raise _
  · refine .bind .get fun s => ?_
    split
    · exact .raise _
    · refine .bind .get fun s => .bind (has_beside (has_retainBlocks hK _)) fun _ => ?_
      exact .bind (.modify fun _ hs => hs) fun _ => .pure _

theorem has_lookup (model : ModelConfig) (bw : BandwidthConfig) (now : Time) (T : List Token) :
    Py.Keeps (Has model.blockSize K) (lookup model bw now T) := by
  rintro c ⟨s, h, hs⟩
  obtain ⟨r, c', hrun, hc', -⟩ := lookup_spec h bw now T
  rw [hrun]
  exact ⟨s, hc', hs⟩

end Keeps

/-- **A materialization** leads where an admission does, whether it returns or raises. -/
theorem Passes.materialize (hp : Passes bs gpuBlocks Q K L) (clock : ℕ → Time) {P : List Token}
    (hP : Q (alignedTokens bs P)) (k : ℕ) (h : c.Represents bs s) (hi : s.Inv) (hK : K s) :
    Has bs L ((NodeCache.materialize bs gpuBlocks clock P k).run c).state := by
  obtain ⟨c₁, q, hrun₁, hc₁, -, hq⟩ := retainPrefix_spec (k := k) h hi (clock 0) P
  have hi₁ := hi.pin (s.liveRun_prefix P _) (fun b hb => CacheState.liveRun_live hb)
    (fun b hb => hb) hq
  have hK₁ : K ⟨s.trie, q⟩ := hp.before s _ q hK hq
  generalize s.liveRun P (min (s.trie.matched P / bs) k) = R at hrun₁
  have hmissing : Has bs L ((admitMissing bs gpuBlocks (fun j => clock (j + 2)) P R.length
      k).run c₁).state := by
    rw [admitMissing]
    split
    · exact hp.admits c₁ _ _ P hP hc₁ hi₁ hK₁
    · exact ⟨_, hc₁, hp.still _ hK₁⟩
  have hbody : Has bs L ((materializeBody bs gpuBlocks clock P k).run (c, [])).state.1 := by
    rw [materializeBody, Py.run_bind_ok hrun₁]
    cases hrun : (admitMissing bs gpuBlocks (fun j => clock (j + 2)) P R.length k).run c₁ with
    | ok u c₂ =>
        rw [hrun] at hmissing
        rw [Py.run_bind_ok (run_beside_ok hrun R)]
        exact Py.Keeps.bind (has_pinPath hp.after (clock 1) P k) (fun _ => .pure _) (c₂, R)
          hmissing
    | error e c₂ =>
        rw [hrun] at hmissing
        rw [Py.run_bind_error (run_beside_error hrun R)]
        exact hmissing
  cases hrun : (materializeBody bs gpuBlocks clock P k).run (c, []) with
  | ok r st =>
      rw [hrun] at hbody
      rw [run_materialize_ok hrun]
      exact hbody
  | error e st =>
      rw [hrun] at hbody
      rw [run_materialize_error hrun]
      exact Py.Keeps.bind (has_releaseBlocks hp.after st.2) (fun _ => .raise e) st.1 hbody

end NodeCache

namespace CacheManager

variable {cm : CacheManager} {n : NodeId} {c : NodeCache} {s : CacheState}
  {Q : List Token × ℕ → Prop} {K L : CacheState → Prop}

/-- The prompt the call admits to the node. -/
def Op.prompt? (n : NodeId) : Op → Option (List Token)
  | .admitTokens _ T n' | .materialize _ _ T n' => if n' = n then some T else none
  | _ => none

/-- What becomes of the cache of a node in a call on some node. -/
theorem has_onNode {α : Type} {m : Py NodeCache α} {n' : NodeId} {bs : ℕ}
    (hc : cm.caches.get? n = some c) (hstay : c.Has bs L)
    (hm : n' = n → (m.run c).state.Has bs L) :
    ∃ c', ((onNode n' m).run cm).state.caches.get? n = some c' ∧ c'.Has bs L := by
  cases hc' : cm.caches.get? n' with
  | none =>
      rw [run_onNode_unknown m hc']
      exact ⟨c, hc, hstay⟩
  | some c₂ =>
      rw [state_onNode m hc']
      by_cases hn : n' = n
      · subst hn
        rw [hc, Option.some_inj] at hc'
        subst hc'
        exact ⟨_, PyDict.get?_set_self .., hm rfl⟩
      · exact ⟨c, (PyDict.get?_set_of_ne _ _ (Ne.symm hn)).trans hc, hstay⟩

/-- The caches after a materialization are those after it acquired its blocks, if it came to that. -/
theorem caches_materialize (cm : CacheManager) (clock : ℕ → Time) (r : RequestId)
    (T : List Token) (n : NodeId) :
    ((materializeRequest clock r T n).run cm).state.caches = cm.caches ∨
      ((materializeRequest clock r T n).run cm).state.caches =
        ((acquireBlocks clock T n).run cm).state.caches := by
  cases hc : cm.caches.get? n with
  | none =>
      rw [run_materializeRequest_unknown clock r T hc]
      exact Or.inl rfl
  | some c =>
      cases ht : cm.blockTables.get? (n, r) with
      | some t =>
          obtain ⟨msg, hrun⟩ := run_materializeRequest_again clock T hc ht
          rw [hrun]
          exact Or.inl rfl
      | none =>
          rw [run_materializeRequest hc ht, EStateM.run_bind]
          cases (acquireBlocks clock T n).run cm with
          | ok ids cm' => exact Or.inr rfl
          | error e cm' => exact Or.inr rfl

/-- **Every call** leads the cache of a node where an admission does. -/
theorem apply_passes (hp : NodeCache.Passes cm.model.blockSize cm.nodeConfig.gpuBlocks Q K L)
    (h : cm.Inv) (hc : cm.caches.get? n = some c) (hs : NodeInv cm n c s) (hK : K s) (op : Op)
    (hQ : ∀ T, op.prompt? n = some T → Q (NodeCache.alignedTokens cm.model.blockSize T)) :
    ∃ c' s', (cm.apply op).caches.get? n = some c' ∧ NodeInv (cm.apply op) n c' s' ∧ L s' := by
  have hstay : c.Has cm.model.blockSize L := ⟨s, hs.represents, hp.still s hK⟩
  -- a cache represents one state only, so that it is enough to say what the cache has
  suffices hex : ∃ c', (cm.apply op).caches.get? n = some c' ∧ c'.Has cm.model.blockSize L by
    obtain ⟨c', hc', s', hrep, hL⟩ := hex
    obtain ⟨c'', s'', hc'', hs'', -, -⟩ := (apply_spec h op).2.node n c s hc hs
    obtain rfl : c'' = c' := Option.some_inj.1 (hc''.symm.trans hc')
    have hmodel := (apply_spec h op).2.model_eq
    obtain rfl := (hmodel ▸ hs''.represents).unique hrep
    exact ⟨_, _, hc'', hs'', hL⟩
  cases op with
  | admitTokens clock T n' =>
      exact has_onNode hc hstay fun hn =>
        hp.admits c s clock T (hQ T (if_pos hn)) hs.represents hs.inv hK
  | lookup now request n' =>
      exact has_onNode hc hstay fun _ =>
        NodeCache.has_lookup cm.model cm.bandwidth now request.tokenIds c hstay
  | materialize clock r T n' =>
      rcases caches_materialize cm clock r T n' with heq | heq
      · refine ⟨c, ?_, hstay⟩
        change ((materializeRequest clock r T n').run cm).state.caches.get? n = some c
        rw [heq, hc]
      · change ∃ c', ((materializeRequest clock r T n').run cm).state.caches.get? n = some c' ∧ _
        rw [heq, acquireBlocks, Py.run_get_bind]
        dsimp only
        split
        · exact ⟨c, hc, hstay⟩
        · refine has_onNode hc hstay fun hn => hp.materialize clock ?_ _ hs.represents hs.inv hK
          have hP := NodeCache.length_aligned
            (Prod.mk.eta (p := NodeCache.alignedTokens cm.model.blockSize T)).symm
          rw [NodeCache.alignedTokens_self cm.model.one_le_blockSize hP]
          exact hQ T (if_pos hn)
  | release r n' =>
      change ∃ c', ((releaseRequest r n').run cm).state.caches.get? n = some c' ∧ _
      rw [releaseRequest, Py.run_get_bind]
      split
      · exact ⟨c, hc, hstay⟩
      · split
        · exact ⟨c, hc, hstay⟩
        · rename_i t ht
          have hcm : ({ cm with blockTables := cm.blockTables.erase (n', r) } :
              CacheManager).caches.get? n = some c := hc
          exact has_onNode hcm hstay fun _ =>
            NodeCache.has_releaseBlocks hp.after t.blockIds c hstay

end CacheManager

/-! ### Turns -/

/-- A turn between two changes of pins. -/
inductive CacheState.Steps (s s' : CacheState) : Prop
  | intro (q : BlockPool) (m s₁ : CacheState) : BlockPool.Repinned s.pool q →
      (⟨s.trie, q⟩ : CacheState).Inv → Turn ⟨s.trie, q⟩ m s₁ → s'.trie = s₁.trie →
      BlockPool.Repinned s₁.pool s'.pool → Steps s s'

/-- An admission is a turn, whatever the pins are that it finds. -/
theorem NodeCache.passes_steps {bs gpuBlocks : ℕ} {s : CacheState} (hi : s.Inv) (hbs : 0 < bs) :
    Passes bs gpuBlocks (fun _ => True)
      (fun s₁ => s₁.trie = s.trie ∧ BlockPool.Repinned s.pool s₁.pool) (CacheState.Steps s) where
  before := fun s₁ _ q h hq => ⟨h.1, h.2.trans hq.repinned⟩
  after := by
    rintro s₁ q ⟨p, m, s₂, hp, hinv, hturn, htrie, hpool⟩ hq
    exact ⟨p, m, s₂, hp, hinv, hturn, htrie, hpool.trans hq⟩
  still := fun s₁ h => ⟨s.pool, s, s, .refl _, hi, ⟨.refl, .refl⟩, h.1, h.2⟩
  admits := by
    rintro c ⟨A, p⟩ clock T - hc hinv ⟨rfl, hp⟩
    obtain ⟨m, c', s', hc', hturn, -, hout⟩ := admit_spec hc hinv hbs gpuBlocks clock
      (Prod.mk.eta (p := alignedTokens bs T))
    rw [CacheManager.state_of_admitted hout]
    exact ⟨s', hc', p, m, s', hp, hinv, hturn, rfl, .refl _⟩

namespace CacheManager

variable {cm : CacheManager} {n : NodeId} {c : NodeCache} {s : CacheState}

/-- **Every call is a turn** of the abstract cache, between two changes of pins. -/
theorem apply_steps (h : cm.Inv) (hc : cm.caches.get? n = some c) (hs : NodeInv cm n c s)
    (op : Op) :
    ∃ c' s', (cm.apply op).caches.get? n = some c' ∧ NodeInv (cm.apply op) n c' s' ∧
      s.Steps s' :=
  apply_passes (NodeCache.passes_steps hs.inv cm.model.one_le_blockSize) h hc hs ⟨rfl, .refl _⟩ op
    fun _ _ => trivial

end CacheManager

end NanoKVRouter
