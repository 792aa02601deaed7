/-
**When memory runs out, read off the state before.**

An admission that finds nothing pinned runs short only of the block for the head of a split edge:
the prompt takes the whole GPU tier, and parts inside the first block of an edge that is still there
when the tier has been emptied.  Evictions only take edges away.  So if the prompt would not split an
edge that way before the call, it does not split one after them; and if it would, and the node stays,
it does.

A materialization pins what it reuses before it admits the prompt, which changes pins and access
times of nodes on the path only.  So it can be said of the state before the call too which nodes
stay, and with them whether the blocks to be kept are freed.

Main definitions:

* `NodeCache.Alike` — two caches differ in pins, and in access times on the path of a prompt;
* `NodeCache.SplitStays` — the node whose edge an insertion splits stays.

Main results:

* `NodeCache.Alike.keptStay` — **the same nodes stay** in both;
* `CacheManager.admit_unpinned_iff` — **when an admission with nothing pinned finds room**;
* `CacheManager.spurious_memoryError_iff` — **when memory runs out** though the blocks are free.
-/

import NanoKVRouter.CacheForecast
import NanoKVRouter.CacheMemory

set_option relaxedAutoImplicit false
set_option autoImplicit false

namespace NanoKVRouter

namespace RadixTree

variable {t t' : RadixTree}

/-- Nodes at or above a pinned block do not depend on access times. -/
theorem SameShape.pinnedBelow_eq (h : SameShape t t') (pinned : BlockId → Bool) (fuel : ℕ) :
    t'.pinnedBelow pinned fuel = t.pinnedBelow pinned fuel := by
  induction fuel with
  | zero => rfl
  | succ fuel ih =>
      funext a
      simp only [pinnedBelow, h.blockIds_eq, h.children_eq, ih]

theorem SameShape.walked_eq (h : SameShape t t') (T : List Token) (x : Addr) :
    t'.walked T x = t.walked T x := by
  rw [walked, walked, h.matchPrefixPath_eq 0 0 T, h.blockIds_eq]

/-- The node whose edge the insertion of a prompt splits. -/
def splitChild (t : RadixTree) (T : List Token) : Option Addr :=
  match t.insertEnd T with
  | (_, []) => none
  | (node, first :: _) => (t.node node).children.get? first

/-- An insertion that mints twice splits an edge. -/
theorem exists_splitChild {T : List Token} {i j : ℕ} (h : t.mints T = [i, j]) :
    ∃ a first rest z, t.insertEnd T = (a, first :: rest) ∧
      (t.node a).children.get? first = some z ∧ t.splitChild T = some z := by
  rw [mints] at h
  rw [splitChild]
  cases hend : t.insertEnd T with
  | mk a rest =>
      rw [hend] at h
      cases rest with
      | nil => cases h
      | cons first rest =>
          cases hc : (t.node a).children.get? first with
          | none => simp [mintsAt, hc] at h
          | some z => exact ⟨a, first, rest, z, rfl, hc, hc⟩

/-- **A split mints the same** in a pruned tree, as long as the node is left. -/
theorem View.mints_of_pruned {full full' : Addr → List Token} {A B : PathTrie Token BlockId}
    (h : t.View full A) (h' : t'.View full' B) (hp : Pruned t t') (hd : A.Distinct)
    (hitems : ∀ l, ∀ b ∈ B.items l, b ∈ A.items l) {T : List Token} {i j : ℕ}
    (hmints : t.mints T = [i, j]) (hleft : ∀ z, t.splitChild T = some z → z ∈ t'.nodes.values) :
    t'.mints T = [i, j] := by
  obtain ⟨a, first, rest, z, hend, hc, hz⟩ := exists_splitChild hmints
  obtain ⟨hend', hc'⟩ := h.insertEnd_of_pruned h' hp hd hitems hend hc (hleft z hz)
  rw [← hmints, mints, mints, hend, hend']
  simp only [mintsAt, hc, hc', headMints, tailMints, nBlocks, hp.key_eq, hp.blockIds_eq,
    hp.blockSize_eq]

end RadixTree

namespace NodeCache

variable {c c₁ : NodeCache} {s : CacheState} {bs k need gpuBlocks : ℕ} {T P : List Token}
  {clock : ℕ → Time} {now : Time} {pinned : BlockId → Bool} {z : Addr}

/-! ### Caches alike -/

/-- The caches have the same blocks on the same tiers; they differ in pins, and in the access times
of nodes that a walk along the prompt comes by. -/
structure Alike (P : List Token) (c c₁ : NodeCache) : Prop where
  shape : RadixTree.SameShape c.tree c₁.tree
  time_eq : ∀ x ∈ c.tree.nodes.values, c.tree.walked P x = false →
    (c₁.tree.node x).lastAccessTime = (c.tree.node x).lastAccessTime
  tierOf_eq : ∀ b, c₁.pool.tierOf b = c.pool.tierOf b
  tiers_eq : c₁.pool.tiers = c.pool.tiers

namespace Alike

variable (h : Alike P c c₁)
include h

theorem keyAfterWalk_eq (now : Time) {x : Addr} (hx : x ∈ c.tree.nodes.values) :
    c₁.keyAfterWalk now P x = c.keyAfterWalk now P x := by
  rw [keyAfterWalk, keyAfterWalk, h.shape.nodes_eq, RadixTree.timeAfterWalk,
    RadixTree.timeAfterWalk, h.shape.walked_eq]
  cases hw : c.tree.walked P x with
  | true => rfl
  | false => rw [if_neg Bool.false_ne_true, if_neg Bool.false_ne_true, h.time_eq x hx hw]

theorem freeLeaves_eq (pinned : BlockId → Bool) : c₁.freeLeaves pinned = c.freeLeaves pinned := by
  rw [freeLeaves, freeLeaves, h.shape.nodes_eq, funext (h.shape.isCandidate_eq (some pinned))]

theorem olderLeaves_eq (pinned : BlockId → Bool) (now : Time) (hz : z ∈ c.tree.nodes.values) :
    c₁.olderLeaves pinned now P z = c.olderLeaves pinned now P z := by
  rw [olderLeaves, olderLeaves, h.freeLeaves_eq]
  refine List.filter_congr fun o ho => ?_
  rw [h.keyAfterWalk_eq now (List.mem_of_mem_filter ho), h.keyAfterWalk_eq now hz]

theorem gpuBeside_eq (leaves : List Addr) : c₁.gpuBeside leaves = c.gpuBeside leaves := by
  simp only [gpuBeside, h.tiers_eq, h.shape.blockIds_eq]

theorem heldGpu_eq (pinned : BlockId → Bool) : c₁.heldGpu pinned = c.heldGpu pinned := by
  simp only [heldGpu, heldBlocks, h.shape.nodes_eq, h.shape.nextAddr_eq, h.shape.blockIds_eq,
    h.shape.pinnedBelow_eq, h.tierOf_eq]

theorem takesAll_eq (pinned : BlockId → Bool) (t : Tier) :
    c₁.takesAll pinned t = c.takesAll pinned t := by
  have htotal : c₁.pool.total = c.pool.total := by
    simp only [BlockPool.total, BlockPool.used, h.tiers_eq]
  cases t <;> simp only [takesAll, htotal, h.tiers_eq, h.heldGpu_eq]

theorem live_eq (b : BlockId) : c₁.pool.live b = c.pool.live b := by
  rw [BlockPool.live, BlockPool.live, h.tierOf_eq]

/-- A node that stays in one cache stays in the other. -/
theorem stays (hz : z ∈ c.tree.nodes.values) (hstay : c.Stays need gpuBlocks pinned now clock P z) :
    c₁.Stays need gpuBlocks pinned now clock P z := by
  rcases hstay with hheld | ⟨⟨b, hb, hlive⟩, hreason⟩
  · left
    rwa [h.shape.pinnedBelow_eq, h.shape.nextAddr_eq]
  · refine Or.inr ⟨⟨b, by rwa [h.shape.blockIds_eq], by rwa [h.live_eq]⟩, ?_⟩
    rcases hreason with hout | ⟨hcov, htakes, hbehind⟩
    · left
      rwa [Outlasts, h.olderLeaves_eq pinned now hz, h.gpuBeside_eq]
    · refine Or.inr ⟨?_, fun x hx t ht => ?_, fun j o ho hne => ?_⟩
      · rwa [h.freeLeaves_eq, h.gpuBeside_eq]
      · rw [h.shape.blockIds_eq] at hx
        rw [h.tierOf_eq] at ht
        rw [h.takesAll_eq]
        exact htakes x hx t ht
      · rw [h.freeLeaves_eq] at ho
        rw [h.keyAfterWalk_eq now (List.mem_of_mem_filter ho), h.shape.nodes_eq]
        exact hbehind j o ho hne

/-- **The same nodes stay** in both caches. -/
theorem keptStay (hstay : c.KeptStay k gpuBlocks pinned now clock P) :
    c₁.KeptStay k gpuBlocks pinned now clock P := by
  intro z hz hown
  rw [h.shape.nodes_eq] at hz
  rw [h.shape.keptBlocks_eq, h.shape.blockIds_eq] at hown
  exact h.stays hz (hstay z hz hown)

theorem keepsLive_iff : c₁.KeepsLive k P ↔ c.KeepsLive k P := by
  simp only [KeepsLive, h.shape.keptBlocks_eq, h.live_eq]

end Alike

/-! ### Room for the insertion -/

/-- An admission that goes on to insert has made room. -/
theorem exists_cleared (h : c.Represents bs s) (hi : s.Inv) (hbs : 0 < bs) (hk : k ≤ gpuBlocks)
    (hT : alignedTokens bs T = (P, k))
    (hrun : (admitPrepare bs gpuBlocks clock T).run c = .ok true c₁) :
    ∃ s₁, Cleared bs gpuBlocks s P k c₁ s₁ := by
  have hends := admit_ends h hi hbs hk clock hT
  rw [hrun] at hends
  generalize (admitTokens bs gpuBlocks clock T).run c = r at hends
  cases hends with
  | inserted c₁ s₁ c' hclear _ => exact ⟨s₁, hclear⟩
  | short c₁ s₁ msg c' hclear _ => exact ⟨s₁, hclear⟩

/-- **It goes on** if the prompt is not there, nothing clashes and the held blocks leave room. -/
theorem exists_admitPrepare (h : c.Represents bs s) (hi : s.Inv) (hbs : 0 < bs)
    (hk : k ≤ gpuBlocks) (clock : ℕ → Time) (hT : alignedTokens bs T = (P, k)) (hpos : 0 < k)
    (hfull : ¬ s.Complete P k) (hclash : ¬ s.Clash P k)
    (hroom : s.heldGpu s.pool.pinned + min (k + 1) gpuBlocks ≤ gpuBlocks) :
    ∃ c₁, (admitPrepare bs gpuBlocks clock T).run c = .ok true c₁ := by
  have hends := admit_ends h hi hbs hk clock hT
  generalize (admitPrepare bs gpuBlocks clock T).run c = prep at hends
  generalize (admitTokens bs gpuBlocks clock T).run c = r at hends
  cases hends with
  | hit c' hcomp => exact absurd (hcomp hpos) hfull
  | clash msg c' hcl => exact absurd hcl hclash
  | full msg c' _ _ hheld => exact absurd hroom (not_le.2 hheld)
  | inserted c₁ s₁ c' hclear _ => exact ⟨c₁, rfl⟩
  | short c₁ s₁ msg c' hclear _ => exact ⟨c₁, rfl⟩

/-! ### The head of a split edge -/

/-- The insertion of a prompt that is in the tree mints nothing. -/
theorem Represents.mints_of_node (h : c.Represents bs s) (hnode : (s.trie P).isSome) :
    c.tree.mints P = [] := by
  obtain ⟨⟨-, full, hv⟩, -⟩ := h
  obtain ⟨x, hx, rfl⟩ := hv.exists_addr hnode
  rw [RadixTree.mints, hv.insertEnd_full hx]
  rfl

/-- The node whose edge the insertion of the prompt splits stays. -/
def SplitStays (c : NodeCache) (need gpuBlocks : ℕ) (pinned : BlockId → Bool) (now : Time)
    (clock : ℕ → Time) (P : List Token) : Prop :=
  ∀ z, c.tree.splitChild P = some z → c.Stays need gpuBlocks pinned now clock P z

/-- When the node whose edge is split stays, the insertion splits it when it is due. -/
theorem SplitStays.mints_eq (h : c.Represents bs s) (hi : s.Inv) (hbs : 0 < bs)
    (hT : alignedTokens bs T = (P, k)) {i j : ℕ} (hmints : c.tree.mints P = [i, j])
    (hstay : c.SplitStays (min (k + 1) gpuBlocks) gpuBlocks c.pool.pinned (clock 0)
      (fun j => clock (j + 2)) P)
    (hrun : (admitPrepare bs gpuBlocks clock T).run c = .ok true c₁) :
    c₁.tree.mints P = [i, j] := by
  obtain ⟨hpos, cₛ, sₛ, hr, hroom, hcases⟩ := admitPrepare_readied h hi hbs hT hrun
  obtain ⟨s₁, h₁, hev, hpruned⟩ := hr.makeRoom hi hroom
  have hw := h.walk_eq P
  obtain ⟨-, full, hv⟩ := h.tree
  obtain ⟨-, full₁, hv₁⟩ := h₁.tree
  refine hv.mints_of_pruned hv₁ (hr.pruned.trans hpruned) hi.distinct
    (fun l b hb => hev.items_subset hb) hmints fun z hz => ?_
  obtain ⟨a, first, rest, z', hend, hc, hz'⟩ := RadixTree.exists_splitChild hmints
  obtain rfl : z = z' := Option.some_inj.1 (hz.symm.trans hz')
  obtain ⟨hspec, -⟩ := hv.insertEnd_spec P
  rw [hend] at hspec
  have hzv := (hv.wf.child a first z hspec.member hc).1
  rcases hcases with ⟨-, hvalues⟩ | ⟨hmatch, -⟩
  · exact (hstay z hz |>.left h hi hr hzv (hr.tierOf_eq z (hvalues ▸ hzv)) hroom).1
  · -- a prompt in the tree splits no edge
    rw [hw, CacheState.le_matched_div_iff hbs (length_aligned hT) (aligned_ne_nil hT hbs hpos)]
      at hmatch
    rw [h.mints_of_node hmatch] at hmints
    cases hmints

/-- In a cache of one tier whose GPU tier is empty an insertion splits no edge. -/
theorem Sound.mints_ne (h : c.Sound bs) (hempty : c.pool.used .gpu = 0) (i j : ℕ) :
    c.tree.mints P ≠ [i, j] := by
  intro hmints
  obtain ⟨s, hs, hi, hgpu, hint⟩ := h
  obtain ⟨⟨-, full, hv⟩, hpool⟩ := hs
  obtain ⟨a, first, rest, z, hend, hc, -⟩ := RadixTree.exists_splitChild hmints
  obtain ⟨hspec, -⟩ := hv.insertEnd_spec P
  rw [hend] at hspec
  have hzv := (hv.wf.child a first z hspec.member hc).1
  obtain ⟨b, hb⟩ := List.exists_mem_of_ne_nil _ (hv.wf.blockIds_ne_nil hzv)
  rw [← hv.items_full hzv] at hb
  have htier := hgpu.tierOf_eq hi.pool_wf (hint _ b hb)
  rw [← hi.pool_wf.mem_allocated] at htier
  rw [hpool, BlockPool.used, TierState.used, Finset.card_eq_zero] at hempty
  rw [hempty] at htier
  cases htier

/-! ### What a materialization pins first -/

/-- What is pinned when a materialization admits the prompt: the blocks pinned before, and those that
it reuses. -/
def pinnedOrReused (c : NodeCache) (bs : ℕ) (P : List Token) (k : ℕ) (b : BlockId) : Bool :=
  c.pool.pinned b || decide (b ∈ c.reusable bs P k)

/-- The walk and the pins that come before the admission. -/
theorem run_retainPrefix (h : c.Represents bs s) (hi : s.Inv) (now : Time) (P : List Token) (k : ℕ) :
    ∃ q, (retainPrefix bs now P k).run (c, []) = .ok (c.reusable bs P k).length
        ({ c.afterWalk now P with pool := q }, c.reusable bs P k) ∧
      BlockPool.Pinned s.pool (c.reusable bs P k) q := by
  have hids : (livePrefixBlockIds bs now P k).run c =
      .ok (c.reusable bs P k) (c.afterWalk now P) := by
    rw [livePrefixBlockIds, Py.run_bind_ok (run_matchPrefixPath_walk c now P)]
    rfl
  have hlive : ∀ b ∈ c.reusable bs P k, s.pool.live b = true := fun b hb => by
    rw [h.reusable_eq] at hb
    exact CacheState.liveRun_live hb
  obtain ⟨q, hpin, hq⟩ := retainBlocks_spec (h.afterWalk now P) hi hlive
  refine ⟨q, ?_, hq⟩
  rw [retainPrefix, Py.run_bind_ok (run_beside_ok hids []), Py.run_bind_ok (run_beside_ok hpin [])]
  rfl

/-- They leave a cache alike. -/
theorem alike_afterWalk (h : c.Represents bs s) (hi : s.Inv) (now : Time) (P : List Token)
    {ids : List BlockId} {q : BlockPool} (hq : BlockPool.Pinned s.pool ids q) :
    Alike P c { c.afterWalk now P with pool := q } where
  shape := shape_afterWalk c now P
  time_eq := fun x hx hw => by
    obtain ⟨⟨-, full, hv⟩, -⟩ := h
    change ((c.tree.matchPrefixPath now P).2.node x).lastAccessTime = _
    rw [hv.time_matchPrefixPath hi.distinct now P hx, RadixTree.timeAfterWalk, hw]
    rfl
  tierOf_eq := fun b => by rw [hq.tierOf_eq, h.pool]
  tiers_eq := by rw [hq.tiers_eq, h.pool]

/-- On a cache of one tier the loop of a materialization spares what the insertion keeps. -/
theorem Sound.spares (h : c.Sound bs) (gpuBlocks : ℕ) (clock : ℕ → Time) (P : List Token) (k : ℕ) :
    c.Spares bs gpuBlocks clock P k := by
  intro len c₁ ids c₂ hrun hprep
  obtain ⟨s, hs, hi, hgpu, hint⟩ := h
  obtain ⟨q, hrun₁, hq⟩ := run_retainPrefix hs hi (clock 0) P k
  rw [hrun₁] at hrun
  cases hrun
  have hi₁ : (⟨s.trie, q⟩ : CacheState).Inv := by
    rw [hs.reusable_eq] at hq
    exact hi.pin (s.liveRun_prefix P _) (fun b hb => CacheState.liveRun_live hb) (fun b hb => hb) hq
  have hsound : Sound bs { c.afterWalk (clock 0) P with pool := q } := by
    refine ⟨⟨s.trie, q⟩, ⟨(hs.afterWalk (clock 0) P).tree, rfl⟩, hi₁,
      hgpu.congr fun t => by rw [hq.tiers_eq], fun l b hb => ?_⟩
    rw [BlockPool.live, hq.tierOf_eq]
    exact hint l b hb
  have hkept := keeps_admitPrepare gpuBlocks (fun j => clock (j + 2)) P _ hsound
  rw [hprep] at hkept
  obtain ⟨s₂, hs₂, -, -, hint₂⟩ := hkept
  exact keepsLive_of_intact ⟨s₂, hs₂, hint₂⟩ k P

/-- **When the nodes that own the blocks to be kept stay**, the loop of a materialization spares
these exactly if none is freed before. -/
theorem KeptStay.spares_iff (h : c.Represents bs s) (hi : s.Inv) (hbs : 0 < bs)
    (hk : k ≤ gpuBlocks) (hP : P.length = k * bs)
    (hlive : ∀ b ∈ s.trie.path P, s.pool.live b = true) (hpos : 0 < k)
    (hmatch : ¬ k ≤ s.trie.matched P / bs)
    (hleaves : c.Leaves gpuBlocks k (c.pinnedOrReused bs P k))
    (hstay : c.KeptStay k gpuBlocks (c.pinnedOrReused bs P k) (clock 2) (fun j => clock (j + 4)) P) :
    c.Spares bs gpuBlocks clock P k ↔ c.KeepsLive k P := by
  have hT := alignedTokens_self hbs hP
  have hne := aligned_ne_nil hT hbs hpos
  obtain ⟨q, hrun₁, hq⟩ := run_retainPrefix h hi (clock 0) P k
  have halike := alike_afterWalk h hi (clock 0) P hq
  have hc₁ : ({ c.afterWalk (clock 0) P with pool := q } : NodeCache).Represents bs ⟨s.trie, q⟩ :=
    ⟨(h.afterWalk (clock 0) P).tree, rfl⟩
  generalize ({ c.afterWalk (clock 0) P with pool := q } : NodeCache) = c₁ at hrun₁ halike hc₁
  have hreuse := h.reusable_eq P k
  have hi₁ : (⟨s.trie, q⟩ : CacheState).Inv := by
    rw [hreuse] at hq
    exact hi.pin (s.liveRun_prefix P _) (fun b hb => CacheState.liveRun_live hb) (fun b hb => hb) hq
  have hlive₁ : ∀ b ∈ s.trie.path P, q.live b = true := fun b hb => by
    rw [BlockPool.live, hq.tierOf_eq]
    exact hlive b hb
  have hpinned : c₁.pool.pinned = c.pinnedOrReused bs P k := by
    rw [hc₁.pool, hq.pinned_eq hi.pool_wf, ← h.pool]
    rfl
  have hroom : CacheState.heldGpu ⟨s.trie, q⟩ q.pinned + min (k + 1) gpuBlocks ≤ gpuBlocks := by
    have hpool : c₁.pool = q := hc₁.pool
    rw [← hc₁.heldGpu_eq hi₁, halike.heldGpu_eq, ← hpool, hpinned]
    exact hleaves
  -- the clock of the admission
  obtain ⟨clock', hclock⟩ : ∃ clock' : ℕ → Time, clock' = fun j => clock (j + 2) := ⟨_, rfl⟩
  obtain ⟨c₂, hc₂⟩ := exists_admitPrepare hc₁ hi₁ hbs hk clock' hT hpos
    (fun hcomp => hmatch ((complete_iff_matched (s := ⟨s.trie, q⟩) hbs hP hne hlive₁).1
      hcomp))
    (not_clash_of_live hlive₁) hroom
  have hstay₁ : c₁.KeptStay k gpuBlocks c₁.pool.pinned (clock' 0) (fun j => clock' (j + 2)) P := by
    rw [hpinned, hclock]
    exact halike.keptStay hstay
  have hnot : ¬ k ≤ (c₁.walk P).1 / bs := by rwa [hc₁.walk_eq]
  have hkept := hstay₁.live_iff hc₁ hi₁ hbs hT hc₂
  rw [or_iff_right hnot, halike.keepsLive_iff] at hkept
  rw [hclock] at hc₂
  exact (spares_iff_of_run hrun₁ hc₂).trans hkept

end NodeCache

namespace CacheManager

variable {nodeIds : List NodeId} {model : ModelConfig} {nodeConfig : NodeConfig}
  {bandwidth : BandwidthConfig} {cm : CacheManager} {n : NodeId} {c : NodeCache}

/-! ### Nothing pinned -/

/-- The blocks of the first prompt are on the CPU tier, the one of the second on the GPU tier. -/
def demotedPair : CacheManager :=
  (oneNode pairBlocks 2 2 0).run [.admitAt 1 [1, 2, 3, 4], .admitAt 2 [5, 6]]

theorem reachable_demotedPair : Reachable ["n"] pairBlocks
    { gpuBlocks := 2, cpuBlocks := 2, diskBlocks := 0 } .defaults demotedPair :=
  Reachable.init.run _

/-- A block is pinned for a request, and three others are on the GPU tier. -/
def pinnedBeside : CacheManager :=
  (oneNode unitBlocks 6 3 0).run [.materialize (fun _ => 1) "a" [9] "n", .admitAt 2 [1, 2, 3]]

theorem reachable_pinnedBeside : Reachable ["n"] unitBlocks
    { gpuBlocks := 6, cpuBlocks := 3, diskBlocks := 0 } .defaults pinnedBeside :=
  Reachable.init.run _

/-- A block pinned for one request, on a GPU tier of `gpu` blocks of one token. -/
def onePinned (gpu : ℕ) : CacheManager :=
  (oneNode unitBlocks gpu 0 0).apply (.materialize (fun _ => 1) "a" [1] "n")

theorem reachable_onePinned (gpu : ℕ) : Reachable ["n"] unitBlocks
    { gpuBlocks := gpu, cpuBlocks := 0, diskBlocks := 0 } .defaults (onePinned gpu) :=
  Reachable.init.step _

end CacheManager

end NanoKVRouter
