/-
**The blocks that active requests share.**

Two active requests with a common prefix list the same physical blocks for it, as long as no edge is
split inside a block past which an active table goes on.  A table is a prefix of the walk along its
prompt when it is made.  Evictions leave a pinned prefix of a walk alone, and so does a new leaf; but
the lower half of an edge split inside a block gets a fresh head, which comes to stand in the middle
of the walks through the edge, and a later table of the same prompt lists it.

Main definitions:

* `CacheState.KeepsPinned` — what a call leaves of the walks;
* `CacheManager.Issued` — the states of the manager with the prompts of its tables;
* `CacheManager.SplitsNoTable` — the call splits no edge inside a block of a longer table;
* `CacheManager.TablesOnWalks` — the tables lie on the walks along their prompts.

Main results:

* `CacheManager.apply_keepsPinned` — **a call leaves alone the pinned blocks that walks start with**,
  unless these go on past the block inside which it splits an edge;
* `CacheManager.take_eq_of_walks` — tables on the walks along their prompts agree;
* `CacheManager.tables_share_prefix` — **tables of active requests share the blocks of their common
  prefix**.
-/

import NanoKVRouter.CacheTrees

set_option relaxedAutoImplicit false
set_option autoImplicit false

namespace NanoKVRouter

namespace RadixTree

variable {t t' : RadixTree} {full full' : Addr → List Token} {A B : PathTrie Token BlockId}

/-- **The boundary block after nodes were dropped** is the boundary block before. -/
theorem View.boundaryBlock_of_dropped (h : t.View full A) (h' : t'.View full' B)
    (hbs : t'.blockSize = t.blockSize)
    (hdrop : ∀ z, (B z).isSome → ∀ w, w <+: z → B w = A w) {T : List Token} {b : BlockId}
    (hb : t'.boundaryBlock T = some b) : t.boundaryBlock T = some b := by
  rw [(h'.insertEnd_spec T).2.2] at hb
  rw [(h.insertEnd_spec T).2.2]
  cases hend : t'.insertEnd T with
  | mk a' rest' =>
      rw [hend] at hb
      cases rest' with
      | nil => cases hb
      | cons first rest =>
          cases hc' : (t'.node a').children.get? first with
          | none => simp [boundaryAt, hc'] at hb
          | some c' =>
              obtain ⟨a, c, hend₀, hc, hkeys, hblocks⟩ :=
                h.insertEnd_of_dropped h' hdrop hend hc'
              rw [hend₀]
              simpa [boundaryAt, hc, hc', splitBlock, hkeys, hblocks, hbs] using hb

end RadixTree

/-! ### What a call leaves of the walks -/

namespace CacheState

variable {s m s' : CacheState}

/-- Walks keep the pinned blocks they start with, unless these go on past the block `b?`. -/
def KeepsPinned (s : CacheState) (A : PathTrie Token BlockId) (b? : Option BlockId) : Prop :=
  ∀ T R, R <+: s.trie.path T → (∀ b ∈ R, s.pool.pinned b = true) →
    (∀ b, b? = some b → b ∈ R → R.getLast? = some b) → R <+: A.path T

theorem KeepsPinned.refl (s : CacheState) (b? : Option BlockId) : s.KeepsPinned s.trie b? :=
  fun _ _ hR _ _ => hR

theorem Evicts.keepsPinned (h : Evicts s m) (hi : s.Inv) (b? : Option BlockId) :
    s.KeepsPinned m.trie b? :=
  fun _ _ hR hpin _ => h.pinned_prefix hi hR hpin

end CacheState

namespace NodeCache

variable {c : NodeCache} {s : CacheState} {bs k : ℕ} {T P : List Token}

/-- After evictions there is no boundary block that was none before. -/
theorem boundaryBlock_of_evicts {c' : NodeCache} {m : CacheState}
    (h : c.tree.Repr bs s.trie) (h' : c'.tree.Repr bs m.trie) (hev : CacheState.Evicts s m)
    {b : BlockId} (hb : c'.tree.boundaryBlock T = some b) : c.tree.boundaryBlock T = some b := by
  obtain ⟨hbs, full, hv⟩ := h
  obtain ⟨hbs', full', hv'⟩ := h'
  exact hv.boundaryBlock_of_dropped hv' (hbs'.trans hbs.symm)
    (fun z hz w hw => hev.trie_eq_of_prefix hz hw) hb

/-- **An admission** leaves alone the pinned blocks that walks start with, unless these go on past
its boundary block. -/
theorem admit_keepsPinned (h : c.Represents bs s) (hi : s.Inv) (hbs : 0 < bs) (gpuBlocks : ℕ)
    (clock : ℕ → Time) (hT : alignedTokens bs T = (P, k)) :
    ∃ A, ((admitTokens bs gpuBlocks clock T).run c).state.tree.Repr bs A ∧
      s.KeepsPinned A (c.tree.boundaryBlock P) := by
  obtain ⟨cm, m, hcm, hev, -, hprep⟩ := admitPrepare_spec h hi hbs gpuBlocks clock hT
  have hstop : ∃ A, cm.tree.Repr bs A ∧ s.KeepsPinned A (c.tree.boundaryBlock P) :=
    ⟨m.trie, hcm.tree, hev.keepsPinned hi _⟩
  generalize hrun : (admitPrepare bs gpuBlocks clock T).run c = prep at hprep
  cases hprep with
  | hit _ _ _ =>
      rw [admitTokens, Py.run_bind_ok hrun]
      exact hstop
  | full msg _ =>
      rw [admitTokens, Py.run_bind_error hrun]
      exact hstop
  | clash msg _ _ _ =>
      rw [admitTokens, Py.run_bind_error hrun]
      exact hstop
  | insert hk _ =>
      obtain ⟨s', hins, hkeeps⟩ := RadixTree.insert_spec hcm.tree (hev.inv hi) (clock 1)
        (aligned_ne_nil hT hbs hk)
      rw [tree_admitTokens hT hrun, hcm.pool]
      refine ⟨s'.trie, hins.repr, fun U R hR hpin hlast => ?_⟩
      exact hkeeps U R (hev.pinned_prefix hi hR hpin) fun b hb =>
        hlast b (boundaryBlock_of_evicts h.tree hcm.tree hev hb)

/-- Pinning more blocks before a call leaves it less to break. -/
theorem keepsPinned_of_pinned {c₁ : NodeCache} {q : BlockPool} {A : PathTrie Token BlockId}
    (h : c.Represents bs s) (hc₁ : c₁.Represents bs ⟨s.trie, q⟩)
    (hpin : ∀ b, s.pool.pinCountOf b ≤ q.pinCountOf b)
    (hA : (⟨s.trie, q⟩ : CacheState).KeepsPinned A (c₁.tree.boundaryBlock P)) :
    s.KeepsPinned A (c.tree.boundaryBlock P) := by
  intro U R hR hpinned hlast
  refine hA U R hR (fun b hb => ?_) fun b hb => hlast b ?_
  · have h1 := hpinned b hb
    rw [BlockPool.pinned_iff] at h1 ⊢
    exact h1.trans_le (hpin b)
  · exact boundaryBlock_of_evicts (m := s) h.tree hc₁.tree .refl hb

end NodeCache

namespace CacheManager

variable {cm : CacheManager} {n : NodeId} {r : RequestId} {c : NodeCache} {s : CacheState}
  {nodeIds : List NodeId} {model : ModelConfig} {nodeConfig : NodeConfig}
  {bandwidth : BandwidthConfig}

/-! ### Calls -/

/-- The block of the node inside which the call splits an edge, if it does. -/
def Op.boundaryBlock (cm : CacheManager) (n : NodeId) : Op → Option BlockId
  | .admitTokens _ T n' | .materialize _ _ T n' =>
      if n' = n then
        (cm.caches.get? n).bind fun c =>
          c.tree.boundaryBlock (NodeCache.alignedTokens cm.model.blockSize T).1
      else none
  | _ => none

theorem boundaryBlock_of_prompt {op : Op} {T : List Token} (hc : cm.caches.get? n = some c)
    (hT : op.prompt? n = some T) :
    op.boundaryBlock cm n =
      c.tree.boundaryBlock (NodeCache.alignedTokens cm.model.blockSize T).1 := by
  cases op with
  | admitTokens clock T' n' | materialize clock r T' n' =>
      rw [Op.prompt?, Option.ite_none_right_eq_some, Option.some_inj] at hT
      obtain ⟨hn, rfl⟩ := hT
      rw [Op.boundaryBlock, if_pos hn, hc]
      rfl
  | release | lookup => cases hT

/-- **A call** leaves alone the pinned blocks that walks start with, unless these go on past the
block inside which it splits an edge. -/
theorem apply_keepsPinned (h : cm.Inv) (hc : cm.caches.get? n = some c) (hs : NodeInv cm n c s)
    (op : Op) :
    ∃ c' s', (cm.apply op).caches.get? n = some c' ∧ NodeInv (cm.apply op) n c' s' ∧
      s.KeepsPinned s'.trie (op.boundaryBlock cm n) := by
  refine apply_tree (R := fun A => s.KeepsPinned A (op.boundaryBlock cm n)) h hc hs op (.refl s _)
    fun T U c₁ q clock hT hU hc₁ hi₁ hpin => ?_
  obtain ⟨P, k, hP⟩ : ∃ P k, NodeCache.alignedTokens cm.model.blockSize T = (P, k) := ⟨_, _, rfl⟩
  obtain ⟨A, hA, hkept⟩ := NodeCache.admit_keepsPinned hc₁ hi₁ cm.model.one_le_blockSize
    cm.nodeConfig.gpuBlocks clock (hU.trans hP)
  rw [boundaryBlock_of_prompt hc hT, hP]
  exact ⟨A, hA, NodeCache.keepsPinned_of_pinned hs.represents hc₁ hpin hkept⟩

/-! ### The prompts of the active requests -/

/-- The prompt that each table was last made for, after the call. -/
def Op.note (cm : CacheManager) (prompts : NodeId × RequestId → List Token) :
    Op → NodeId × RequestId → List Token
  | .materialize clock r T n =>
      if ((materializeRequest clock r T n).run cm).isOk then Function.update prompts (n, r) T
      else prompts
  | _ => prompts

/-- The states that calls meeting the condition `ok` lead to from the empty manager, with the
prompts of the tables. -/
inductive Issued (ok : CacheManager → Op → Prop) (nodeIds : List NodeId) (model : ModelConfig)
    (nodeConfig : NodeConfig) (bandwidth : BandwidthConfig) :
    CacheManager → (NodeId × RequestId → List Token) → Prop
  | init : Issued ok nodeIds model nodeConfig bandwidth
      (init nodeIds model nodeConfig bandwidth) fun _ => []
  | step {cm : CacheManager} {prompts : NodeId × RequestId → List Token} (op : Op) :
      Issued ok nodeIds model nodeConfig bandwidth cm prompts → ok cm op →
      Issued ok nodeIds model nodeConfig bandwidth (cm.apply op) (op.note cm prompts)

theorem Issued.reachable {ok : CacheManager → Op → Prop}
    {prompts : NodeId × RequestId → List Token}
    (h : Issued ok nodeIds model nodeConfig bandwidth cm prompts) :
    Reachable nodeIds model nodeConfig bandwidth cm := by
  induction h with
  | init => exact .init
  | step op _ _ ih => exact ih.step op

/-- A table is an old one, or the call has made it. -/
theorem table_origin (h : cm.Inv) (prompts : NodeId × RequestId → List Token) {op : Op}
    {t : RequestBlockTable} (ht : (cm.apply op).blockTables.get? (n, r) = some t) :
    (cm.blockTables.get? (n, r) = some t ∧ op.note cm prompts (n, r) = prompts (n, r)) ∨
      ∃ clock T, op = .materialize clock r T n ∧ cm.blockTables.get? (n, r) = none ∧
        (materializeRequest clock r T n).run cm = .ok t (cm.apply op) ∧
        op.note cm prompts (n, r) = T := by
  cases op with
  | admitTokens clock T n' =>
      change ((onNode n' (NodeCache.admitTokens cm.model.blockSize cm.nodeConfig.gpuBlocks clock
        T)).run cm).state.blockTables.get? (n, r) = some t at ht
      rw [blockTables_onNode] at ht
      exact Or.inl ⟨ht, rfl⟩
  | lookup now request n' =>
      change ((onNode n' (NodeCache.lookup cm.model cm.bandwidth now request.tokenIds)).run
        cm).state.blockTables.get? (n, r) = some t at ht
      rw [blockTables_onNode] at ht
      exact Or.inl ⟨ht, rfl⟩
  | release r' n' =>
      refine Or.inl ⟨?_, rfl⟩
      change ((releaseRequest r' n').run cm).state.blockTables.get? (n, r) = some t at ht
      cases ht' : cm.blockTables.get? (n', r') with
      | none =>
          obtain ⟨msg, hrun⟩ := run_releaseRequest_none (Or.inr ht')
          rw [hrun] at ht
          exact ht
      | some t' =>
          obtain ⟨c, hc⟩ := h.table_node n' r' t' ht'
          obtain ⟨s, hs⟩ := h.node n' c hc
          obtain ⟨q, hrun, -⟩ := NodeCache.releaseBlocks_spec hs.represents hs.inv
            (h.table_nodup n' r' t' ht') fun b hb => hs.pinned_of_table ht' hb
          rw [run_releaseRequest hc ht' hrun] at ht
          change (cm.blockTables.erase (n', r')).get? (n, r) = some t at ht
          rw [PyDict.get?_erase] at ht
          split at ht
          · simp at ht
          · exact ht
  | materialize clock r' T n' =>
      rcases blockTables_materialize h clock r' T n' with
        ⟨t', cm', hrun, hnew, htables⟩ | ⟨e, cm', hrun, htables⟩
      · have happly : cm.apply (.materialize clock r' T n') = cm' := by
          rw [apply, hrun]
          rfl
        have hnote : Op.note cm prompts (.materialize clock r' T n') =
            Function.update prompts (n', r') T := by
          rw [Op.note, hrun]
          rfl
        rw [happly, htables, PyDict.get?_set] at ht
        rw [happly, hnote]
        split at ht
        · rename_i heq
          obtain ⟨rfl, rfl⟩ := Prod.mk.inj heq
          obtain rfl := Option.some_inj.1 ht
          exact Or.inr ⟨clock, T, rfl, hnew, hrun, Function.update_self ..⟩
        · rename_i hne
          exact Or.inl ⟨ht, Function.update_of_ne hne ..⟩
      · have hnote : Op.note cm prompts (.materialize clock r' T n') = prompts := by
          rw [Op.note, hrun]
          rfl
        rw [apply, hrun, EStateM.Result.state_error, htables] at ht
        exact Or.inl ⟨ht, by rw [hnote]⟩

/-! ### Shared blocks -/

/-- The call splits no edge inside a block past which an active table goes on. -/
def SplitsNoTable (cm : CacheManager) (op : Op) : Prop :=
  ∀ n r t b, cm.blockTables.get? (n, r) = some t → op.boundaryBlock cm n = some b →
    b ∈ t.blockIds → t.blockIds.getLast? = some b

/-- Every active table lists the first blocks of the walk along its prompt, one for each full
block. -/
def TablesOnWalks (cm : CacheManager) (prompts : NodeId × RequestId → List Token) : Prop :=
  ∀ n r t c s, cm.blockTables.get? (n, r) = some t → cm.caches.get? n = some c →
    NodeInv cm n c s → t.blockIds <+: s.trie.path (prompts (n, r))

/-- **A call that splits no table** leaves the tables on the walks along their prompts. -/
theorem TablesOnWalks.apply {prompts : NodeId × RequestId → List Token}
    (hw : cm.TablesOnWalks prompts) (h : cm.Inv) {op : Op} (hop : cm.SplitsNoTable op) :
    (cm.apply op).TablesOnWalks (op.note cm prompts) := by
  intro n r t c' s' ht hc' hs'
  rcases table_origin h prompts ht with
    ⟨hold, hnote⟩ | ⟨clock, T, rfl, hnew, hrun, hnote⟩
  · obtain ⟨c, hc⟩ := h.table_node n r t hold
    obtain ⟨s, hs⟩ := h.node n c hc
    obtain ⟨c'', s'', hc'', hs'', hkept⟩ := apply_keepsPinned h hc hs op
    obtain rfl : c'' = c' := Option.some_inj.1 (hc''.symm.trans hc')
    obtain rfl : s' = s'' := hs''.represents.unique hs'.represents
    rw [hnote]
    exact hkept _ _ (hw n r t c s hold hc hs) (fun b hb => hs.pinned_of_table hold hb)
      fun b hb hbt => hop n r t b hold hb hbt
  · -- a new table lists the blocks of the walk at its time
    rw [hnote]
    cases hc : cm.caches.get? n with
    | none =>
        rw [run_materializeRequest_unknown clock r T hc] at hrun
        simp at hrun
    | some c =>
        obtain ⟨s, hs⟩ := h.node n c hc
        obtain ⟨P, k, hT⟩ : ∃ P k, NodeCache.alignedTokens cm.model.blockSize T = (P, k) :=
          ⟨_, _, rfl⟩
        obtain ⟨c'', s'', hrep, -, -, hout⟩ := materializeRequest_spec (r := r) clock hc hnew hs hT
        have hmodel := (apply_spec h (.materialize clock r T n)).2.model_eq
        generalize hstate : cm.apply (.materialize clock r T n) = cm' at hrun hc' hs' hmodel
        rw [hrun] at hout
        cases hout with
        | ok _ _ hids _ _ =>
            obtain rfl : c'' = c' := Option.some_inj.1 ((PyDict.get?_set_self ..).symm.trans hc')
            obtain rfl : s' = s'' := hrep.unique hs'.represents
            rw [hids]
            exact (List.take_prefix _ _).trans (PathTrie.path_prefix _ (NodeCache.aligned_prefix hT))

/-- **Tables on the walks** along their prompts agree on the blocks of the common prefix. -/
theorem take_eq_of_walks {full : Addr → List Token} {t : RadixTree} {A : PathTrie Token BlockId}
    (hv : t.View full A) {T T' : List Token} {R R' : List BlockId} (hR : R <+: A.path T)
    (hR' : R' <+: A.path T') {k : ℕ} (hk : k ≤ RadixTree.cpLen T T' / t.blockSize)
    (hkR : k ≤ R.length) (hkR' : k ≤ R'.length) : R.take k = R'.take k := by
  rcases Nat.eq_zero_or_pos k with rfl | hpos
  · simp
  have hT := RadixTree.lcp_isPrefix_left T T'
  have hT' := RadixTree.lcp_isPrefix_right T T'
  have hlen : (RadixTree.lcp T T').length = RadixTree.cpLen T T' := by
    rw [RadixTree.lcp, List.length_take, Nat.min_eq_left (RadixTree.cpLen_le_right T T')]
  have hmul := (Nat.le_div_iff_mul_le hv.wf.blockSize_pos).1 hk
  rw [← hlen] at hmul
  have hne : RadixTree.lcp T T' ≠ [] := by
    rintro h0
    rw [h0, List.length_nil, Nat.le_zero, Nat.mul_eq_zero] at hmul
    have := hv.wf.blockSize_pos
    omega
  have hcover : k ≤ (A.path (RadixTree.lcp T T')).length := by
    by_contra hlt
    rw [not_le] at hlt
    -- both walks go on beyond the common prefix, so a node ends there
    have hbeyond : ∀ {U : List Token} {Q : List BlockId}, RadixTree.lcp T T' <+: U →
        Q <+: A.path U → k ≤ Q.length →
        ∃ z, (A z).isSome ∧ RadixTree.lcp T T' <+: z ∧ z <+: U := by
      rintro U Q ⟨w, rfl⟩ hQ hkQ
      have hle := hQ.length_le
      rw [PathTrie.path_append, List.length_append] at hle
      obtain ⟨b, hb⟩ := List.exists_mem_of_length_pos
        (l := A.below (RadixTree.lcp T T') w) (by omega)
      obtain ⟨z, -, hz, hbz⟩ := (PathTrie.mem_below _ _ _ _).1 hb
      obtain ⟨bs, hbs, -⟩ := PathTrie.exists_of_mem_items hbz
      exact ⟨_, by rw [hbs]; rfl, List.prefix_append _ _, (List.prefix_append_right_inj _).2 hz⟩
    obtain ⟨z, hz, hlz, hzT⟩ := hbeyond hT hR hkR
    obtain ⟨z', hz', hlz', hzT'⟩ := hbeyond hT' hR' hkR'
    have hlcp : RadixTree.lcp T T' = RadixTree.lcp z z' :=
      RadixTree.eq_lcp fun x => ⟨fun hx => ⟨hx.trans hlz, hx.trans hlz'⟩,
        fun hx => RadixTree.isPrefix_lcp_iff.2 ⟨hx.1.trans hzT, hx.2.trans hzT'⟩⟩
    have hnode : (A (RadixTree.lcp T T')).isSome := hlcp ▸ hv.isSome_lcp hz hz' (hlcp ▸ hne)
    obtain ⟨a, ha, hfull⟩ := hv.exists_addr hnode
    have hle := hv.length_full_le (Or.inr ha)
    rw [hfull] at hle
    have := Nat.mul_lt_mul_of_pos_right hlt hv.wf.blockSize_pos
    rw [Nat.mul_comm t.blockSize] at hle
    omega
  have htake : ∀ {U : List Token} {Q : List BlockId}, RadixTree.lcp T T' <+: U → Q <+: A.path U →
      k ≤ Q.length → Q.take k = (A.path (RadixTree.lcp T T')).take k := by
    intro U Q hU hQ hkQ
    have h1 := List.prefix_iff_eq_take.1 hQ
    have h2 := List.prefix_iff_eq_take.1 (PathTrie.path_prefix A hU)
    rw [h1, h2, List.take_take, List.take_take, Nat.min_eq_left hkQ, Nat.min_eq_left hcover]
  rw [htake hT hR hkR, htake hT' hR' hkR']

theorem Issued.tablesOnWalks {prompts : NodeId × RequestId → List Token}
    (h : Issued SplitsNoTable nodeIds model nodeConfig bandwidth cm prompts) :
    cm.TablesOnWalks prompts := by
  induction h with
  | init =>
      intro n r t c s ht
      simp [CacheManager.init] at ht
  | step op h hop ih => exact ih.apply h.reachable.inv hop

/-- The number of full blocks in the common prefix of two prompts, as far as both tables go. -/
def sharedBlocks (bs : ℕ) (T T' : List Token) (t t' : RequestBlockTable) : ℕ :=
  min (RadixTree.cpLen T T' / bs) (min t.blockIds.length t'.blockIds.length)

/-- **Tables of active requests share the blocks of their common prefix**, as long as no call splits an
edge inside a block past which an active table goes on. -/
theorem tables_share_prefix {prompts : NodeId × RequestId → List Token}
    (h : Issued SplitsNoTable nodeIds model nodeConfig bandwidth cm prompts) {r r' : RequestId}
    {t t' : RequestBlockTable} (ht : cm.blockTables.get? (n, r) = some t)
    (ht' : cm.blockTables.get? (n, r') = some t') :
    t.blockIds.take (sharedBlocks model.blockSize (prompts (n, r)) (prompts (n, r')) t t') =
      t'.blockIds.take (sharedBlocks model.blockSize (prompts (n, r)) (prompts (n, r')) t t') := by
  obtain ⟨c, hc⟩ := h.reachable.inv.table_node n r t ht
  obtain ⟨s, hs⟩ := h.reachable.inv.node n c hc
  obtain ⟨hbs, full, hv⟩ := hs.represents.tree
  rw [h.reachable.config.1] at hbs
  refine take_eq_of_walks hv (h.tablesOnWalks n r t c s ht hc hs)
    (h.tablesOnWalks n r' t' c s ht' hc hs) ?_ ?_ ?_
  · rw [hbs]
    exact Nat.min_le_left _ _
  · exact (Nat.min_le_right _ _).trans (Nat.min_le_left _ _)
  · exact (Nat.min_le_right _ _).trans (Nat.min_le_right _ _)

theorem tables_share_prefix_split :
    ∃ cm t t', cm = ((oneNode pairBlocks 8 0 0).apply
        (.materialize (fun _ => 1) "a" [1, 2, 3, 4] "n")).apply
          (.materialize (fun _ => 2) "b" [1, 2, 3, 5, 6, 7] "n") ∧
      cm.blockTables.get? ("n", "a") = some t ∧ cm.blockTables.get? ("n", "b") = some t' ∧
      t.blockIds.take 1 = t'.blockIds.take 1 := by
  have hfirst : SplitsNoTable (oneNode pairBlocks 8 0 0)
      (.materialize (fun _ => 1) "a" [1, 2, 3, 4] "n") := fun n r t b ht =>
    absurd ht (by simp [oneNode, CacheManager.init])
  -- the second call splits the edge inside the last block of the first table
  have hsecond : SplitsNoTable ((oneNode pairBlocks 8 0 0).apply
      (.materialize (fun _ => 1) "a" [1, 2, 3, 4] "n"))
      (.materialize (fun _ => 2) "b" [1, 2, 3, 5, 6, 7] "n") := by
    have hblock : Op.boundaryBlock ((oneNode pairBlocks 8 0 0).apply
        (.materialize (fun _ => 1) "a" [1, 2, 3, 4] "n")) "n"
        (.materialize (fun _ => 2) "b" [1, 2, 3, 5, 6, 7] "n") = some 1 := by decide +kernel
    have hlast : ((oneNode pairBlocks 8 0 0).apply
        (.materialize (fun _ => 1) "a" [1, 2, 3, 4] "n")).blockTables.entries.all
          (fun e => decide (e.2.blockIds.getLast? = some 1)) = true := by decide +kernel
    intro n r t b ht hb _
    by_cases hn : "n" = n
    · rw [← hn, hblock] at hb
      rw [← hb]
      exact of_decide_eq_true (List.all_eq_true.1 hlast _ (PyDict.get?_eq_some_iff.1 ht))
    · rw [Op.boundaryBlock, if_neg hn] at hb
      simp at hb
  have ha : (((oneNode pairBlocks 8 0 0).apply (.materialize (fun _ => 1) "a" [1, 2, 3, 4]
      "n")).apply (.materialize (fun _ => 2) "b" [1, 2, 3, 5, 6, 7] "n")).blockTables.get?
        ("n", "a") = some ⟨"a", "n", [0, 1], 0, 2⟩ := by decide +kernel
  have hb : (((oneNode pairBlocks 8 0 0).apply (.materialize (fun _ => 1) "a" [1, 2, 3, 4]
      "n")).apply (.materialize (fun _ => 2) "b" [1, 2, 3, 5, 6, 7] "n")).blockTables.get?
        ("n", "b") = some ⟨"b", "n", [0, 1, 3], 0, 3⟩ := by decide +kernel
  obtain ⟨prompts, hrun, hpa, hpb⟩ : ∃ prompts, Issued SplitsNoTable ["n"] pairBlocks
      { gpuBlocks := 8, cpuBlocks := 0, diskBlocks := 0 } .defaults _ prompts ∧
      prompts ("n", "a") = [1, 2, 3, 4] ∧ prompts ("n", "b") = [1, 2, 3, 5, 6, 7] :=
    ⟨_, .step _ (.step _ .init hfirst) hsecond, by decide +kernel, by decide +kernel⟩
  have hshare := tables_share_prefix hrun ha hb
  rw [hpa, hpb] at hshare
  exact ⟨_, _, _, rfl, ha, hb, hshare⟩

/-- The edge of eight tokens is split inside its second block, between the materializations of one
prompt for two requests. -/
theorem tables_share_prefix_fails :
    ∃ cm prompts t t', Issued (fun _ _ => True) ["n"] pairBlocks
        { gpuBlocks := 8, cpuBlocks := 0, diskBlocks := 0 } .defaults cm prompts ∧
      cm.blockTables.get? ("n", "a") = some t ∧ cm.blockTables.get? ("n", "b") = some t' ∧
      sharedBlocks 2 (prompts ("n", "a")) (prompts ("n", "b")) t t' = 4 ∧
      t.blockIds.take 4 = [0, 1, 2, 3] ∧ t'.blockIds.take 4 = [0, 1, 4, 2] := by
  refine ⟨_, _, ⟨"a", "n", [0, 1, 2, 3], 0, 4⟩, ⟨"b", "n", [0, 1, 4, 2], 4, 0⟩,
    .step (.materialize (fun _ => 3) "b" [1, 2, 3, 4, 5, 6, 7, 8] "n")
      (.step (.admitAt 2 [1, 2, 3, 9])
        (.step (.materialize (fun _ => 1) "a" [1, 2, 3, 4, 5, 6, 7, 8] "n") .init trivial)
        trivial) trivial, ?_, ?_, ?_, rfl, rfl⟩
  · decide +kernel
  · decide +kernel
  · decide +kernel

end CacheManager

end NanoKVRouter
