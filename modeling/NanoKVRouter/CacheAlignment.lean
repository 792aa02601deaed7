/-
**Hash-id traces never cause unaligned nodes.**

Two prompts of a trace part at a block boundary.  A node of the tree ends where a prompt ends or
where two of them part, so that every node ends at a block boundary; then no block is shared by
two nodes, a walk collects exactly one block for every full block it matches, and a split of an
edge cuts no block in two, so that it needs no extra block for the head of the lower half.

Main definitions:

* `PathTrie.Aligned` — every node ends at a multiple of the block size;
* `RadixTree.splitMints` — the extra head block of an insertion;
* `CacheManager.Op.FromTrace` — the calls whose prompt comes from a trace;
* `CacheManager.Inserts` — the insertions of a call.

Main results:

* `RadixTree.View.length_path` — a walk in an aligned tree;
* `RadixTree.View.splitMints_eq_nil` — a split at a block boundary mints no head;
* `CacheManager.trace_runs_aligned` — **in every run on prompts of a trace the tree stays aligned**.
-/

import NanoKVRouter.CacheTrees
import NanoKVRouter.RadixTreeMints
import NanoKVRouter.TraceGenerator

set_option relaxedAutoImplicit false
set_option autoImplicit false

/-- Every node ends at a multiple of `bs`. -/
def PathTrie.Aligned {τ β : Type} (bs : ℕ) (A : PathTrie τ β) : Prop :=
  ∀ l, (A l).isSome → bs ∣ l.length

namespace NanoKVRouter

namespace RadixTree

variable {t : RadixTree} {full : Addr → List Token} {A : PathTrie Token BlockId}

/-! ### Aligned trees -/

/-- The path of a node of an aligned tree has full blocks only. -/
theorem View.dvd_full (h : t.View full A) (hA : A.Aligned t.blockSize) {a : Addr}
    (ha : t.Member a) : t.blockSize ∣ (full a).length := by
  rcases ha with rfl | ha
  · rw [h.wf.full_root]
    exact dvd_zero _
  · exact hA _ (by rw [h.apply_full ha]; rfl)

/-- So has its key. -/
theorem View.dvd_key (h : t.View full A) (hA : A.Aligned t.blockSize) {a : Addr}
    (ha : a ∈ t.nodes.values) : t.blockSize ∣ (t.node a).key.length := by
  obtain ⟨p, -, -, hp, -, -, -, hfull⟩ := h.wf.parent a ha
  have hdvd := h.dvd_full hA (Or.inr ha)
  rw [hfull, List.length_append] at hdvd
  exact (Nat.dvd_add_right (h.dvd_full hA hp)).1 hdvd

/-- Rounding up does nothing to a multiple. -/
theorem ceil_mul (h : 0 < t.blockSize) (m : ℕ) :
    (m * t.blockSize + t.blockSize - 1) / t.blockSize = m := by
  rw [Nat.add_sub_assoc h, Nat.add_comm, Nat.add_mul_div_right _ _ h,
    Nat.div_eq_of_lt (Nat.sub_lt h Nat.one_pos), Nat.zero_add]

/-- The key of a node is as long as its blocks. -/
theorem View.length_key (h : t.View full A) (hA : A.Aligned t.blockSize) {a : Addr}
    (ha : a ∈ t.nodes.values) :
    (t.node a).key.length = (t.node a).blockIds.length * t.blockSize := by
  obtain ⟨m, hm⟩ := h.dvd_key hA ha
  obtain ⟨-, tok, rest, -, -, hkey, -, -⟩ := h.wf.parent a ha
  rw [Nat.mul_comm] at hm
  rw [h.wf.length_blockIds a ha, nBlocks, if_neg (by rw [hkey]; exact List.cons_ne_nil _ _), hm,
    ceil_mul h.wf.blockSize_pos]

/-- The walk to a node collects one block for each block of tokens. -/
theorem View.length_path_full (h : t.View full A) (hA : A.Aligned t.blockSize) :
    ∀ (n : ℕ) {a : Addr}, t.Member a → (full a).length = n →
      (A.path (full a)).length * t.blockSize = n := by
  intro n
  induction n using Nat.strong_induction_on with
  | _ n ih =>
      intro a ha hn
      rcases ha with rfl | ha
      · rw [h.wf.full_root] at hn ⊢
        rw [PathTrie.path_nil, ← hn]
        exact Nat.zero_mul _
      · obtain ⟨p, tok, rest, hp, -, hkey, hchild, hfull⟩ := h.wf.parent a ha
        have hlen : (full a).length = (full p).length + (t.node a).key.length := by
          rw [hfull, List.length_append]
        have hpos : 0 < (t.node a).key.length := by
          rw [hkey]
          exact Nat.succ_pos _
        have hup := ih (full p).length (by omega) hp rfl
        rw [h.path_child hp hchild, List.length_append, Nat.add_mul, hup, ← h.length_key hA ha,
          ← hlen, hn]

/-- **A walk in an aligned tree** collects one block for each full block it matches. -/
theorem View.length_path (h : t.View full A) (hA : A.Aligned t.blockSize) (T : List Token) :
    (A.path T).length * t.blockSize = A.matched T := by
  by_cases h0 : A.matched T = 0
  · rw [← A.path_take_matched T, h0, List.take_zero, PathTrie.path_nil]
    exact Nat.zero_mul _
  · obtain ⟨a, ha, hfull⟩ := h.exists_addr (PathTrie.isSome_take_matched h0)
    rw [← A.path_take_matched T, ← hfull, h.length_path_full hA _ (Or.inr ha) rfl, hfull,
      List.length_take, Nat.min_eq_left (A.matched_le T)]

/-! ### Splits -/

/-- The mint of the head of the lower half, in an insertion of a prompt. -/
def splitMints (t : RadixTree) (tokenIds : List Token) : List ℕ :=
  match t.insertEnd tokenIds with
  | (_, []) => []
  | (node, first :: rest) =>
      match (t.node node).children.get? first with
      | none => []
      | some child => t.headMints child (cpLen (first :: rest) (t.node child).key)

/-- **A split at a block boundary mints no head.** -/
theorem View.splitMints_eq_nil (h : t.View full A) (hA : A.Aligned t.blockSize) {T : List Token}
    (hT : ∀ w, (A w).isSome → t.blockSize ∣ (lcp T w).length) : t.splitMints T = [] := by
  have hend := (h.insertEnd_spec T).1
  rw [splitMints]
  generalize t.insertEnd T = e at hend
  rcases e with ⟨node, _ | ⟨first, rest⟩⟩
  · rfl
  · have hmem : t.Member node := hend.member
    have hpath : full node ++ first :: rest = T := hend.path_eq
    dsimp only
    cases hc : (t.node node).children.get? first with
    | none => rfl
    | some child =>
        dsimp only
        obtain ⟨hcv, -, -⟩ := h.wf.child node first child hmem hc
        obtain ⟨r, hkey, hfull⟩ := h.wf.full_child hmem hc
        rw [← hkey] at hfull
        generalize hcp : cpLen (first :: rest) (t.node child).key = cp
        have hle : cp ≤ (t.node child).key.length := by
          rw [← hcp]
          exact cpLen_le_right _ _
        -- the split point is where the prompt parts from the child
        have hdvd : t.blockSize ∣ cp := by
          have hsplit := hT (full child) (by rw [h.apply_full hcv]; rfl)
          rw [← hpath, hfull, ← split_point_eq_lcp, hcp, List.length_append, List.length_take,
            Nat.min_eq_left hle] at hsplit
          exact (Nat.dvd_add_right (h.dvd_full hA hmem)).1 hsplit
        obtain ⟨m, rfl⟩ := hdvd
        have hlen := h.length_key hA hcv
        have hrest : (t.node child).key.length - t.blockSize * m =
            ((t.node child).blockIds.length - m) * t.blockSize := by
          rw [hlen, Nat.sub_mul, Nat.mul_comm m]
        have hpos := h.wf.blockSize_pos
        have hm : m ≤ (t.node child).blockIds.length := by
          rw [hlen, Nat.mul_comm] at hle
          exact Nat.le_of_mul_le_mul_right hle hpos
        rw [headMints, hrest, Nat.mul_comm, ceil_mul hpos, ceil_mul hpos, if_neg (by omega)]

end RadixTree

/-! ### Trees on hash ids -/

/-- Every node spells some hash ids. -/
def OnHashes (bs : ℕ) (A : PathTrie Token BlockId) : Prop :=
  ∀ l, (A l).isSome → ∃ hids, l = expandHashes bs hids

theorem OnHashes.aligned {bs : ℕ} {A : PathTrie Token BlockId} (h : OnHashes bs A) :
    A.Aligned bs := by
  intro l hl
  obtain ⟨hids, rfl⟩ := h l hl
  rw [length_expandHashes]
  exact dvd_mul_left _ _

namespace NodeCache

variable {c c' : NodeCache} {s : CacheState} {bs gpuBlocks : ℕ}

/-- What is inserted after the preparation of an admission parts from the edges at their block
boundaries. -/
theorem splitMints_of_prepare (h : c.Represents bs s) (hi : s.Inv) (hbs : 0 < bs)
    (hA : OnHashes bs s.trie) {clock : ℕ → Time} {T : List Token} {hids : List ℤ}
    (hT : (alignedTokens bs T).1 = expandHashes bs hids)
    (hrun : (admitPrepare bs gpuBlocks clock T).run c = .ok true c') :
    c'.tree.splitMints (alignedTokens bs T).1 = [] := by
  obtain ⟨c₁, s₁, hc₁, hev, -, hprep⟩ := admitPrepare_spec h hi hbs gpuBlocks clock rfl
  rw [hrun] at hprep
  cases hprep with
  | insert hk hno =>
      have hA₁ : OnHashes bs s₁.trie := fun l hl =>
        hA l ((hev.trie_eq_of_prefix hl (List.prefix_refl l)) ▸ hl)
      obtain ⟨hb, full, hv⟩ := hc₁.tree
      refine hv.splitMints_eq_nil (hb ▸ hA₁.aligned) fun w hw => ?_
      obtain ⟨hids', rfl⟩ := hA₁ w hw
      obtain ⟨common, hcommon⟩ := lcp_expandHashes hbs hids hids'
      rw [hT, hcommon, length_expandHashes, hb]
      exact dvd_mul_left _ _

end NodeCache

namespace CacheManager

/-- The prompt of a call comes from a trace. -/
def Op.FromTrace (bs : ℕ) : Op → Prop
  | .admitTokens _ T _ | .materialize _ _ T _ => TraceTokens bs T
  | .lookup _ request _ => TraceTokens bs request.tokenIds
  | .release _ _ => True

/-- The insertions of a call: the cache into whose tree is inserted, as it is at that moment, and
what is inserted. -/
inductive Inserts (cm : CacheManager) : Op → NodeCache → List Token → Prop
  | admission {clock : ℕ → Time} {T : List Token} {n : NodeId} {c c' : NodeCache}
      (hc : cm.caches.get? n = some c)
      (h : (NodeCache.admitPrepare cm.model.blockSize cm.nodeConfig.gpuBlocks clock T).run c =
        .ok true c') :
      Inserts cm (.admitTokens clock T n) c' (NodeCache.alignedTokens cm.model.blockSize T).1
  | materialization {clock : ℕ → Time} {r : RequestId} {T P : List Token} {n : NodeId}
      {c c₁ c' : NodeCache} {k m : ℕ} {retained : List BlockId}
      (hc : cm.caches.get? n = some c) (hT : NodeCache.alignedTokens cm.model.blockSize T = (P, k))
      (hkeep : (NodeCache.retainPrefix cm.model.blockSize (clock 0) P k).run (c, []) =
        .ok m (c₁, retained)) (hlt : m < k)
      (h : (NodeCache.admitPrepare cm.model.blockSize cm.nodeConfig.gpuBlocks
        (fun j => clock (j + 2)) P).run c₁ = .ok true c') :
      Inserts cm (.materialize clock r T n) c' (NodeCache.alignedTokens cm.model.blockSize P).1

variable {nodeIds : List NodeId} {model : ModelConfig} {nodeConfig : NodeConfig}
  {bandwidth : BandwidthConfig} {n : NodeId} {c : NodeCache} {s : CacheState}

/-- **The trees of a run on prompts of a trace** spell hash ids. -/
theorem run_onHashes {ops : List Op} (hops : ∀ op ∈ ops, op.FromTrace model.blockSize)
    (hc : ((init nodeIds model nodeConfig bandwidth).run ops).caches.get? n = some c)
    (hs : NodeInv ((init nodeIds model nodeConfig bandwidth).run ops) n c s) :
    OnHashes model.blockSize s.trie := by
  intro l hl
  refine @run_nodes _ _ _ _ _ _ _ (Op.FromTrace model.blockSize)
    (fun l => ∃ hids, l = expandHashes model.blockSize hids)
    (fun op n T P k hop hprompt hT _ => ?_) ops hops hc hs l hl
  have hT' : TraceTokens model.blockSize T := by
    cases op with
    | admitTokens clock U n' =>
        obtain ⟨-, hU⟩ := Option.ite_none_right_eq_some.1 hprompt
        exact Option.some_inj.1 hU ▸ hop
    | materialize clock r U n' =>
        obtain ⟨-, hU⟩ := Option.ite_none_right_eq_some.1 hprompt
        exact Option.some_inj.1 hU ▸ hop
    | release r n' => cases hprompt
    | lookup now request n' => cases hprompt
  obtain ⟨hids, hP⟩ := hT'.aligned
  rw [hT] at hP
  refine ⟨⟨hids, hP⟩, ?_⟩
  rintro w ⟨hids', rfl⟩
  change P = _ at hP
  rw [hP]
  exact lcp_expandHashes model.one_le_blockSize hids hids'

/-- **Hash-id traces never cause unaligned nodes.**  After every run on prompts of a trace: the key
of each node has full blocks only; a walk along a prompt cut to its full blocks collects one block
for each full block it matches; and no insertion of a further call on such a prompt mints the extra
head block of a split. -/
theorem trace_runs_aligned {ops : List Op} (hops : ∀ op ∈ ops, op.FromTrace model.blockSize) :
    (∀ n c, ((init nodeIds model nodeConfig bandwidth).run ops).caches.get? n = some c →
      (∀ a ∈ c.tree.nodes.values, model.blockSize ∣ (c.tree.node a).key.length) ∧
      ∀ now T, TraceTokens model.blockSize T →
        (c.tree.matchPrefixPath now (NodeCache.alignedTokens model.blockSize T).1).1.2.length =
          (c.tree.matchPrefixPath now (NodeCache.alignedTokens model.blockSize T).1).1.1 /
            model.blockSize) ∧
    ∀ op c' P, op.FromTrace model.blockSize →
      ((init nodeIds model nodeConfig bandwidth).run ops).Inserts op c' P →
      c'.tree.splitMints P = [] := by
  have hr : Reachable nodeIds model nodeConfig bandwidth
      ((init nodeIds model nodeConfig bandwidth).run ops) := Reachable.init.run ops
  have hon := fun {n c s} => @run_onHashes nodeIds model nodeConfig bandwidth n c s ops hops
  generalize (init nodeIds model nodeConfig bandwidth).run ops = cm at hr hon
  obtain ⟨rfl, rfl, rfl⟩ := hr.config
  have hbs := cm.model.one_le_blockSize
  constructor
  · intro n c hc
    obtain ⟨s, hs⟩ := hr.inv.node n c hc
    obtain ⟨hb, full, hv⟩ := hs.represents.tree
    have hA : s.trie.Aligned c.tree.blockSize := hb ▸ (hon hc hs).aligned
    refine ⟨fun a ha => hb ▸ hv.dvd_key hA ha, fun now T _ => ?_⟩
    obtain ⟨t', -, hmatch⟩ :=
      hv.matchPrefixPath_eq now (NodeCache.alignedTokens cm.model.blockSize T).1
    rw [hmatch, ← hv.length_path hA, hb, Nat.mul_div_cancel _ hbs]
  · intro op c' P hop hins
    cases hins with
    | @admission clock T n c _ hc hrun =>
        obtain ⟨s, hs⟩ := hr.inv.node n c hc
        obtain ⟨hids, hT⟩ := TraceTokens.aligned hop
        exact NodeCache.splitMints_of_prepare hs.represents hs.inv hbs (hon hc hs) hT hrun
    | @materialization clock r T P n c c₁ _ k m retained hc hT hkeep hlt hrun =>
        obtain ⟨s, hs⟩ := hr.inv.node n c hc
        obtain ⟨hids, hP⟩ := TraceTokens.aligned hop
        -- the pinned prefix changes nothing in the tree
        obtain ⟨c₂, q, hrun₂, hc₂, -, hq⟩ :=
          NodeCache.retainPrefix_spec (k := k) hs.represents hs.inv (clock 0) P
        rw [hkeep] at hrun₂
        cases hrun₂
        have hi₂ := hs.inv.pin (s.liveRun_prefix P _)
          (fun b hb => CacheState.liveRun_live hb) (fun b hb => hb) hq
        have hself : (NodeCache.alignedTokens cm.model.blockSize P).1 =
            expandHashes cm.model.blockSize hids := by
          rw [NodeCache.alignedTokens_self hbs (NodeCache.length_aligned hT), ← hT]
          exact hP
        have hA : OnHashes cm.model.blockSize s.trie := hon hc hs
        exact NodeCache.splitMints_of_prepare hc₂ hi₂ hbs hA hself hrun

/-- Two prompts with a common first block, the second with a token beyond its full blocks; then the
insertion of a third. -/
theorem trace_runs_aligned_two : ∃ c, ((oneNode pairBlocks 8 0 0).run
      [.admitAt 1 [2, 3, 4, 5], .admitAt 2 [2, 3, 6, 7, 9]]).caches.get? "n" = some c ∧
    c.tree.nodes.entries.length = 3 ∧ (∀ a ∈ c.tree.nodes.values, 2 ∣ (c.tree.node a).key.length) ∧
    (c.tree.matchPrefixPath 3 [2, 3, 6, 7]).1.2.length =
      (c.tree.matchPrefixPath 3 [2, 3, 6, 7]).1.1 / 2 := by
  have hone : TraceTokens 2 [2, 3, 4, 5] :=
    ⟨Unit, fun _ _ => pure 9, [1, 2], 4, 10, (), (), by decide, rfl⟩
  have htwo : TraceTokens 2 [2, 3, 6, 7, 9] :=
    ⟨Unit, fun _ _ => pure 9, [1, 3], 5, 10, (), (), by decide, rfl⟩
  obtain ⟨c, hc⟩ : ∃ c, ((oneNode pairBlocks 8 0 0).run
      [.admitAt 1 [2, 3, 4, 5], .admitAt 2 [2, 3, 6, 7, 9]]).caches.get? "n" = some c :=
    Option.isSome_iff_exists.1 (by decide +kernel)
  have hlen : (((oneNode pairBlocks 8 0 0).run
      [.admitAt 1 [2, 3, 4, 5], .admitAt 2 [2, 3, 6, 7, 9]]).caches.get? "n").map
        (fun c => c.tree.nodes.entries.length) = some 3 := by decide +kernel
  rw [hc, Option.map_some, Option.some_inj] at hlen
  have hops : ∀ op ∈ [Op.admitAt 1 [2, 3, 4, 5], Op.admitAt 2 [2, 3, 6, 7, 9]],
      op.FromTrace pairBlocks.blockSize := by
    intro op hop
    rcases List.mem_pair.1 hop with rfl | rfl
    · exact hone
    · exact htwo
  obtain ⟨hkeys, hpath⟩ := (trace_runs_aligned hops).1 "n" c hc
  exact ⟨c, hc, hlen, hkeys, hpath 3 _ htwo⟩

end CacheManager

end NanoKVRouter
