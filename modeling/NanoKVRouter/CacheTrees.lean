/-
**The tree of a node after a call.**

Only `admit` and `materialize_request` change the trie of a node, the latter by the admission in the
body of its `try` statement.  So what holds of the trie after every admission holds of it after every
call.  The first thing of this kind is where new nodes come from: an insertion puts a node at its
prompt, and perhaps one where the prompt parts from an old node, and it takes place only when the
prompt fits into the GPU tier.

Main results:

* `RadixTree.View.edge_of_dropped` — an edge after nodes were dropped was there before;
* `CacheManager.apply_tree` — **what holds of the trie after an admission** holds of it after every
  call;
* `CacheManager.apply_nodes` — **a node after a call** was there before, or it ends the prompt or a
  prefix shared with an old node, and the prompt fits into the GPU tier.
-/

import NanoKVRouter.BlockPoolCalls
import NanoKVRouter.CacheTurns
import NanoKVRouter.RadixTreeCalls

set_option relaxedAutoImplicit false
set_option autoImplicit false

namespace NanoKVRouter

/-! ### Dropped nodes -/

/-- The nodes above a node that evictions leave are left too. -/
theorem CacheState.Evicts.trie_eq_of_prefix {s m : CacheState} (h : Evicts s m) {z w : List Token}
    (hz : (m.trie z).isSome) (hw : w <+: z) : m.trie w = s.trie w := by
  induction h with
  | refl => rfl
  | @tail u v hrun hstep ih =>
      cases hstep with
      | move l b t q _ _ _ _ => exact ih hz
      | free l b q _ _ _ _ => exact ih hz
      | drop x ids q _ _ _ _ =>
          change (PathTrie.prune u.trie x z).isSome = true at hz
          change PathTrie.prune u.trie x w = s.trie w
          have hx : ¬ x <+: z := by
            intro hx
            rw [PathTrie.prune_of_prefix _ hx] at hz
            simp at hz
          rw [PathTrie.prune_of_not_isPrefix _ hx] at hz
          rw [PathTrie.prune_of_not_isPrefix _ fun hxw => hx (hxw.trans hw)]
          exact ih hz

namespace RadixTree

variable {t t' : RadixTree} {full full' : Addr → List Token} {A B : PathTrie Token BlockId}

/-- **An edge after nodes were dropped** is an edge of the tree before. -/
theorem View.edge_of_dropped (h : t.View full A) (h' : t'.View full' B)
    (hdrop : ∀ z, (B z).isSome → ∀ w, w <+: z → B w = A w) {a' c' : Addr} {first : Token}
    (ha' : t'.Member a') (hc' : (t'.node a').children.get? first = some c') :
    ∃ a c, t.Member a ∧ full a = full' a' ∧ (t.node a).children.get? first = some c ∧
      (t.node c).key = (t'.node c').key ∧ (t.node c).blockIds = (t'.node c').blockIds := by
  have hcv' := (h'.wf.child a' first c' ha' hc').1
  obtain ⟨r', hkey', hfull'⟩ := h'.wf.full_child ha' hc'
  have hz : (B (full' c')).isSome := by
    rw [h'.apply_full hcv']
    rfl
  have hAz := hdrop _ hz _ (List.prefix_refl _)
  have hpre : full' a' <+: full' c' := hfull' ▸ List.prefix_append _ _
  -- both ends of the edge were there
  obtain ⟨c, hcv, hfc⟩ := h.exists_addr (hAz ▸ hz)
  obtain ⟨a, ha, hfa⟩ : ∃ a, t.Member a ∧ full a = full' a' := by
    rcases ha' with rfl | hv
    · exact ⟨root, t.member_root, by rw [h.wf.full_root, h'.wf.full_root]⟩
    · have hsome : (A (full' a')).isSome := by
        rw [← hdrop _ hz _ hpre, h'.apply_full hv]
        rfl
      obtain ⟨a, hav, hfa⟩ := h.exists_addr hsome
      exact ⟨a, Or.inr hav, hfa⟩
  -- and the edge was between them
  obtain ⟨tok, hc⟩ : ∃ tok, (t.node a).children.get? tok = some c := by
    rcases h.wf.exists_child (Or.inr hcv) ha (hfa ▸ hfc ▸ hpre) with rfl | ⟨tok, d, hd, hdc⟩
    · rw [hfc, hfull'] at hfa
      simp at hfa
    · obtain ⟨r, -, hfd⟩ := h.wf.full_child ha hd
      have hdv := (h.wf.child a tok d ha hd).1
      have hBd : (B (full d)).isSome := by
        rw [hdrop _ hz _ (hfc ▸ hdc), h.apply_full hdv]
        rfl
      have heq : full d = full c := by
        by_contra hne
        rw [h'.none_inside_edge ha' hc' (hfa ▸ hfd ▸ List.prefix_append _ _) (hfc ▸ hdc) ?_
          (hfc ▸ hne)] at hBd
        · simp at hBd
        · rw [hfd, hfa]
          simp
      exact ⟨tok, h.wf.full_inj (Or.inr hdv) (Or.inr hcv) heq ▸ hd⟩
  obtain ⟨r, hkey, hfull⟩ := h.wf.full_child ha hc
  rw [hfc, hfull', hfa, List.append_cancel_left_eq, List.cons.injEq] at hfull
  obtain ⟨rfl, rfl⟩ := hfull
  refine ⟨a, c, ha, hfa, hc, hkey.trans hkey'.symm, ?_⟩
  rw [h'.apply_full hcv', ← hfc, h.apply_full hcv, Option.some_inj] at hAz
  exact hAz.symm

/-- The edge that the walk of an insertion leaves partway after nodes were dropped is the one it
left partway before. -/
theorem View.insertEnd_of_dropped (h : t.View full A) (h' : t'.View full' B)
    (hdrop : ∀ z, (B z).isSome → ∀ w, w <+: z → B w = A w) {T rest : List Token} {a' c' : Addr}
    {first : Token} (hend : t'.insertEnd T = (a', first :: rest))
    (hc' : (t'.node a').children.get? first = some c') :
    ∃ a c, t.insertEnd T = (a, first :: rest) ∧ (t.node a).children.get? first = some c ∧
      (t.node c).key = (t'.node c').key ∧ (t.node c).blockIds = (t'.node c').blockIds := by
  obtain ⟨hspec, -⟩ := h'.insertEnd_spec T
  rw [hend] at hspec
  obtain ⟨a, c, ha, hfa, hc, hkeys, hblocks⟩ := h.edge_of_dropped h' hdrop hspec.member hc'
  refine ⟨a, c, h.endOf_unique (h.insertEnd_spec T).1 ⟨ha, ?_, ?_⟩, hc, hkeys, hblocks⟩
  · rw [← hspec.path_eq, ← hfa]
  · rintro f r d hr hd
    obtain ⟨rfl, rfl⟩ := List.cons.inj hr
    obtain rfl : c = d := Option.some_inj.1 (hc.symm.trans hd)
    rw [hkeys]
    exact hspec.partway first rest c' rfl hc'

end RadixTree

namespace NodeCache

variable {c : NodeCache} {s : CacheState} {bs k : ℕ} {T P : List Token}

/-! ### Calls on the parts of a cache -/

theorem tree_onBoth {α : Type} (m : Py (RadixTree × BlockPool) α) (c : NodeCache) :
    ((onBoth m).run c).state.tree = (m.run (c.tree, c.pool)).state.1 := by
  rw [onBoth, Py.run_onPart]
  cases m.run (c.tree, c.pool) <;> rfl

/-- The tree an admission leaves when it comes to the insertion. -/
theorem tree_admitTokens {gpuBlocks : ℕ} {clock : ℕ → Time} {c' : NodeCache}
    (hT : alignedTokens bs T = (P, k))
    (hrun : (admitPrepare bs gpuBlocks clock T).run c = .ok true c') :
    ((admitTokens bs gpuBlocks clock T).run c).state.tree =
      ((RadixTree.insert RadixTree.mintGpu (clock 1) P).run (c'.tree, c'.pool)).state.1 := by
  rw [admitTokens, Py.run_bind_ok hrun, hT, ← tree_onBoth]
  simp only [if_true, EStateM.run_bind]
  cases (onBoth (RadixTree.insert RadixTree.mintGpu (clock 1) P)).run c' <;> rfl

end NodeCache

/-! ### New nodes -/

/-- The blocks a pool mints are fresh to the tree. -/
theorem RadixTree.mintsFresh_mintGpu : MintsFresh mintGpu (fun p b => b < p.minted) := by
  constructor
  · intro n p ids q hrun
    rcases BlockPool.run_allocate_cases n "gpu" p with ⟨t, -, hok⟩ | ⟨e, herr⟩
    · rw [hok] at hrun
      cases hrun
      refine ⟨p.nodup_freshIds n, p.length_freshIds n, fun b hb => ?_⟩
      obtain ⟨hle, hlt⟩ := BlockPool.mem_freshIds.1 hb
      exact ⟨not_lt.2 hle, hlt⟩
    · rw [herr] at hrun
      cases hrun
  · intro n p b hb
    rcases BlockPool.run_allocate_cases n "gpu" p with ⟨t, -, hok⟩ | ⟨e, herr⟩
    · rw [hok]
      exact Nat.lt_add_right n hb
    · rw [herr]
      exact hb

namespace NodeCache

variable {c : NodeCache} {s : CacheState} {bs k : ℕ} {T P : List Token}

/-- The tree of a cache in order owns the blocks the pool has minted. -/
theorem Represents.owns (h : c.Represents bs s) (hi : s.Inv) :
    RadixTree.Owns (· < c.pool.minted) c.tree s.trie := by
  obtain ⟨⟨-, full, hv⟩, hp⟩ := h
  exact ⟨⟨full, hv⟩, hi.distinct, fun l b hb => hp ▸ hi.lt_minted l b hb⟩

/-- The size check of an admission is passed before room is made. -/
theorem le_of_makeRoom {gpuBlocks : ℕ} {clock : ℕ → Time} {c' : NodeCache}
    (hrun : (makeRoom gpuBlocks clock k).run c = .ok () c') : k ≤ gpuBlocks := by
  by_contra hbig
  rw [makeRoom, if_pos (not_le.1 hbig)] at hrun
  cases hrun

/-- The insertion is due only when the prompt fits into the GPU tier. -/
theorem le_of_admitPrepare {gpuBlocks : ℕ} {clock : ℕ → Time} {c' : NodeCache}
    (hT : alignedTokens bs T = (P, k))
    (hrun : (admitPrepare bs gpuBlocks clock T).run c = .ok true c') : k ≤ gpuBlocks := by
  simp only [admitPrepare, hT] at hrun
  split at hrun
  · cases hrun
  obtain ⟨⟨matched, path⟩, c₁, -, hrun⟩ := Py.bind_eq_ok.1 hrun
  split at hrun
  · rw [prepareMatched, Py.run_get_bind] at hrun
    dsimp only at hrun
    split at hrun
    · cases hrun
    · obtain ⟨purged, c₂, -, hrun⟩ := Py.bind_eq_ok.1 hrun
      obtain ⟨u, c₃, hroom, -⟩ := Py.bind_eq_ok.1 hrun
      exact le_of_makeRoom hroom
  · obtain ⟨u, c₂, hroom, -⟩ := Py.bind_eq_ok.1 hrun
    exact le_of_makeRoom hroom

/-- **The nodes after an admission.** -/
theorem admit_nodes (h : c.Represents bs s) (hi : s.Inv) (hbs : 0 < bs) (gpuBlocks : ℕ)
    (clock : ℕ → Time) (hT : alignedTokens bs T = (P, k)) :
    ∃ A, ((admitTokens bs gpuBlocks clock T).run c).state.tree.Repr bs A ∧
      ∀ l, (A l).isSome → (s.trie l).isSome ∨ k ≤ gpuBlocks ∧
        (l = P ∨ ∃ w, (s.trie w).isSome ∧ l = RadixTree.lcp P w) := by
  obtain ⟨cm, m, hcm, hev, -, hprep⟩ := admitPrepare_spec h hi hbs gpuBlocks clock hT
  have hold : ∀ l, (m.trie l).isSome → (s.trie l).isSome := fun l hl => by
    rw [← hev.trie_eq_of_prefix hl (List.prefix_refl l)]
    exact hl
  have hstop : ∃ A, cm.tree.Repr bs A ∧ ∀ l, (A l).isSome → (s.trie l).isSome ∨ k ≤ gpuBlocks ∧
      (l = P ∨ ∃ w, (s.trie w).isSome ∧ l = RadixTree.lcp P w) :=
    ⟨m.trie, hcm.tree, fun l hl => Or.inl (hold l hl)⟩
  generalize hrun : (admitPrepare bs gpuBlocks clock T).run c = prep at hprep
  cases hprep with
  | hit _ _ _ =>
      rw [admitTokens, Py.run_bind_ok hrun]
      exact hstop
  | full msg _ =>
      rw [admitTokens, Py.run_bind_error hrun]
      exact hstop
  | clash msg _ _ _ =>
      rw [admitTokens, Py.run_bind_error hrun]
      exact hstop
  | insert hk _ =>
      rw [tree_admitTokens hT hrun]
      obtain ⟨A, ha⟩ := RadixTree.insert_adds (hcm.owns (hev.inv hi)) RadixTree.mintsFresh_mintGpu
        (clock 1) (aligned_ne_nil hT hbs hk)
      refine ⟨A, ⟨ha.blockSize_eq.trans hcm.tree.1, ha.owns.view⟩, fun l hl => ?_⟩
      rcases ha.nodes l hl with hl | hl | ⟨w, hw, hl⟩
      · exact Or.inl (hold l hl)
      · exact Or.inr ⟨le_of_admitPrepare hT hrun, Or.inl hl⟩
      · exact Or.inr ⟨le_of_admitPrepare hT hrun, Or.inr ⟨w, hold w hw, hl⟩⟩

end NodeCache

namespace CacheManager

variable {cm : CacheManager} {n : NodeId} {r : RequestId} {c : NodeCache} {s : CacheState}

/-! ### Calls -/

/-- **What holds of the trie after an admission** holds of it after every call.  An admission within
a materialization finds more blocks pinned. -/
theorem apply_tree (h : cm.Inv) (hc : cm.caches.get? n = some c) (hs : NodeInv cm n c s) (op : Op)
    {R : PathTrie Token BlockId → Prop} (hrefl : R s.trie)
    (hadm : ∀ T U c₁ q clock, op.prompt? n = some T →
      NodeCache.alignedTokens cm.model.blockSize U =
        NodeCache.alignedTokens cm.model.blockSize T →
      c₁.Represents cm.model.blockSize ⟨s.trie, q⟩ → (⟨s.trie, q⟩ : CacheState).Inv →
      (∀ b, s.pool.pinCountOf b ≤ q.pinCountOf b) →
      ∃ A, ((NodeCache.admitTokens cm.model.blockSize cm.nodeConfig.gpuBlocks clock U).run
        c₁).state.tree.Repr cm.model.blockSize A ∧ R A) :
    ∃ c' s', (cm.apply op).caches.get? n = some c' ∧ NodeInv (cm.apply op) n c' s' ∧ R s'.trie := by
  have hp : NodeCache.Passes cm.model.blockSize cm.nodeConfig.gpuBlocks
      (fun a => ∃ T, op.prompt? n = some T ∧ a = NodeCache.alignedTokens cm.model.blockSize T)
      (fun s₁ => s₁.trie = s.trie ∧ ∀ b, s.pool.pinCountOf b ≤ s₁.pool.pinCountOf b)
      (fun s' => R s'.trie) := by
    refine ⟨?_, fun _ _ hR _ => hR, fun s₁ h => h.1 ▸ hrefl, ?_⟩
    · rintro s₁ ids q ⟨htrie, hle⟩ hq
      refine ⟨htrie, fun b => (hle b).trans ?_⟩
      change s₁.pool.pinCountOf b ≤ q.pinCountOf b
      rw [hq.pin_eq]
      omega
    · rintro c₁ ⟨A, q⟩ clock U ⟨T, hT, hU⟩ hrep hinv ⟨rfl, hle⟩
      obtain ⟨B, hB, hR⟩ := hadm T U c₁ q clock hT hU hrep hinv hle
      exact ⟨⟨B, _⟩, ⟨hB, rfl⟩, hR⟩
  exact apply_passes hp h hc hs ⟨rfl, fun _ => le_rfl⟩ op fun T hT => ⟨T, hT, rfl⟩

/-- **A node after a call** was there before, or the call admits a prompt that fits into the GPU
tier and the node ends the prompt or a prefix the prompt shares with an old node. -/
theorem apply_nodes (h : cm.Inv) (hc : cm.caches.get? n = some c) (hs : NodeInv cm n c s)
    (op : Op) :
    ∃ c' s', (cm.apply op).caches.get? n = some c' ∧ NodeInv (cm.apply op) n c' s' ∧
      ∀ l, (s'.trie l).isSome → (s.trie l).isSome ∨ ∃ T P k, op.prompt? n = some T ∧
        NodeCache.alignedTokens cm.model.blockSize T = (P, k) ∧ k ≤ cm.nodeConfig.gpuBlocks ∧
        (l = P ∨ ∃ w, (s.trie w).isSome ∧ l = RadixTree.lcp P w) := by
  refine apply_tree (R := fun A => ∀ l, (A l).isSome → (s.trie l).isSome ∨ ∃ T P k,
    op.prompt? n = some T ∧ NodeCache.alignedTokens cm.model.blockSize T = (P, k) ∧
    k ≤ cm.nodeConfig.gpuBlocks ∧ (l = P ∨ ∃ w, (s.trie w).isSome ∧ l = RadixTree.lcp P w))
    h hc hs op (fun l hl => Or.inl hl) fun T U c₁ q clock hT hU hc₁ hi₁ _ => ?_
  obtain ⟨P, k, hP⟩ : ∃ P k, NodeCache.alignedTokens cm.model.blockSize T = (P, k) := ⟨_, _, rfl⟩
  obtain ⟨A, hA, hnodes⟩ := NodeCache.admit_nodes hc₁ hi₁ cm.model.one_le_blockSize
    cm.nodeConfig.gpuBlocks clock (hU.trans hP)
  refine ⟨A, hA, fun l hl => ?_⟩
  rcases hnodes l hl with hl | ⟨hk, hl⟩
  · exact Or.inl hl
  · exact Or.inr ⟨T, P, k, hT, hP, hk, hl⟩

/-! ### The nodes of a run -/

section Runs

variable {nodeIds : List NodeId} {model : ModelConfig} {nodeConfig : NodeConfig}
  {bandwidth : BandwidthConfig}

/-- An empty manager has no nodes. -/
theorem trie_init (hc : (init nodeIds model nodeConfig bandwidth).caches.get? n = some c)
    (hs : NodeInv (init nodeIds model nodeConfig bandwidth) n c s) (l : List Token) :
    s.trie l = none := by
  rw [init_caches hc] at hs
  have hempty : (NodeCache.init model nodeConfig).Represents model.blockSize
      ⟨fun _ => none, BlockPool.init nodeConfig⟩ :=
    ⟨RadixTree.repr_init model.one_le_blockSize, rfl⟩
  rw [hempty.unique hs.represents]

/-- A node the manager knows after a call it knew before. -/
theorem known_of_apply (h : cm.Inv) (op : Op) {c' : NodeCache}
    (hc' : (cm.apply op).caches.get? n = some c') : ∃ c, cm.caches.get? n = some c := by
  cases hc : cm.caches.get? n with
  | none =>
      rw [(apply_spec h op).2.known n hc] at hc'
      cases hc'
  | some c => exact ⟨c, rfl⟩

theorem run_concat (cm : CacheManager) (ops : List Op) (op : Op) :
    cm.run (ops ++ [op]) = (cm.run ops).apply op := by
  rw [CacheManager.run, List.foldl_append]
  rfl

/-- A reachable state is the end of a run. -/
theorem Reachable.exists_run (h : Reachable nodeIds model nodeConfig bandwidth cm) :
    ∃ ops, cm = (CacheManager.init nodeIds model nodeConfig bandwidth).run ops := by
  induction h with
  | init => exact ⟨[], rfl⟩
  | step op _ ih =>
      obtain ⟨ops, rfl⟩ := ih
      exact ⟨ops ++ [op], (run_concat _ ops op).symm⟩

/-- **The nodes of a run**: what holds of the admitted prompts, and of what they have in common with
a node of which it holds, holds of every node. -/
theorem run_nodes {ok : Op → Prop} {Q : List Token → Prop}
    (hnew : ∀ op n T P k, ok op → op.prompt? n = some T →
      NodeCache.alignedTokens model.blockSize T = (P, k) → k ≤ nodeConfig.gpuBlocks →
      Q P ∧ ∀ w, Q w → Q (RadixTree.lcp P w)) {ops : List Op} (hops : ∀ op ∈ ops, ok op)
    (hc : ((init nodeIds model nodeConfig bandwidth).run ops).caches.get? n = some c)
    (hs : NodeInv ((init nodeIds model nodeConfig bandwidth).run ops) n c s) {l : List Token}
    (hl : (s.trie l).isSome) : Q l := by
  induction ops using List.reverseRecOn generalizing c s l with
  | nil =>
      rw [trie_init hc hs] at hl
      cases hl
  | append_singleton ops op ih =>
      have hr : Reachable nodeIds model nodeConfig bandwidth
          ((init nodeIds model nodeConfig bandwidth).run ops) := Reachable.init.run ops
      rw [run_concat] at hc hs
      generalize (init nodeIds model nodeConfig bandwidth).run ops = cm at hr ih hc hs
      obtain ⟨c₀, hc₀⟩ := known_of_apply hr.inv op hc
      obtain ⟨s₀, hs₀⟩ := hr.inv.node n c₀ hc₀
      have hold : ∀ w, (s₀.trie w).isSome → Q w := fun w hw =>
        ih (fun op hop => hops op (List.mem_append_left _ hop)) hc₀ hs₀ hw
      obtain ⟨c', s', hc', hs', hnodes⟩ := apply_nodes hr.inv hc₀ hs₀ op
      obtain rfl : c' = c := Option.some_inj.1 (hc'.symm.trans hc)
      obtain rfl : s = s' := hs'.represents.unique hs.represents
      rcases hnodes l hl with hl | ⟨T, P, k, hprompt, hT, hk, hP⟩
      · exact hold l hl
      · rw [hr.config.1] at hT
        rw [hr.config.2.1] at hk
        obtain ⟨hQ, hlcp⟩ := hnew op n T P k
          (hops op (List.mem_append_right _ (List.mem_singleton_self op))) hprompt hT hk
        rcases hP with rfl | ⟨w, hw, rfl⟩
        · exact hQ
        · exact hlcp w (hold w hw)

end Runs

end CacheManager

end NanoKVRouter
