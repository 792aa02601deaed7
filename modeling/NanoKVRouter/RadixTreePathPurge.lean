/-
**Purging a path with freed blocks.**

`purge_path_with_any_dead` walks the path of a token sequence to the first node that has a freed
block and takes it out with everything below it, giving the blocks that are still allocated back
to the pool.  For every sound tree and every pool in which the tree's blocks are unpinned, that is
all it does: the path is clean afterwards, each block of a removed node is freed once, and no other
node, and no match that avoids the removed ones, has changed.

Main definitions:

* `RadixTree.PoolBacked` — the callbacks are those of a pool, and what is freed is recorded;
* `RadixTree.Purged` — the nodes that go: the first on the path with a freed block, and all below;
* `RadixTree.PathPurged` — what the purge of a path has done.

Main results:

* `RadixTree.purgePathWithAnyDead_purges` — **the purge of a path** clears it and does nothing else.
-/

import NanoKVRouter.RadixTreePaths

set_option relaxedAutoImplicit false
set_option autoImplicit false

namespace NanoKVRouter

namespace RadixTree

/-! ### The nodes that go -/

/-- The node is fully matched along the token sequence. -/
def OnPath (t : RadixTree) (T : List Token) (a : Addr) : Prop :=
  a ≠ root ∧ ∃ l, t.Spells a l ∧ l <+: T

/-- A block of the node has been freed. -/
def HasDead (t : RadixTree) (p : BlockPool) (a : Addr) : Prop :=
  ∃ b ∈ (t.node a).blockIds, p.live b = false

/-- The first node on the path that has a freed block. -/
structure FirstDeadNode (t : RadixTree) (p : BlockPool) (T : List Token) (c : Addr) : Prop where
  onPath : t.OnPath T c
  hasDead : t.HasDead p c
  first : ∀ x, t.OnPath T x → t.HasDead p x → t.Descends c x

/-- The node is the first on the path that has a freed block, or lies below it. -/
def Purged (t : RadixTree) (p : BlockPool) (T : List Token) (x : Addr) : Prop :=
  ∃ c, t.FirstDeadNode p T c ∧ t.Descends c x

variable {t t' : RadixTree} {full : Addr → List Token} {A : PathTrie Token BlockId}
  {p : BlockPool} {T : List Token}

theorem View.onPath_iff (h : t.View full A) {a : Addr} :
    t.OnPath T a ↔ a ∈ t.nodes.values ∧ full a <+: T := by
  constructor
  · rintro ⟨hne, l, hl, hT⟩
    obtain ⟨ha, rfl⟩ := h.spells_iff.1 hl
    exact ⟨ha.resolve_left hne, hT⟩
  · rintro ⟨ha, hT⟩
    exact ⟨fun heq => h.wf.root_notMem (heq ▸ ha), full a, h.spells_iff.2 ⟨Or.inr ha, rfl⟩, hT⟩

/-- Where `c` is the first node with a freed block, its subtree goes. -/
theorem View.purged_iff (h : t.View full A) {c : Addr} (hc : t.FirstDeadNode p T c) {x : Addr} :
    t.Purged p T x ↔ t.Sub full c x := by
  obtain ⟨hcv, -⟩ := h.onPath_iff.1 hc.onPath
  have hval : ∀ y, t.Member y → full c <+: full y → y ∈ t.nodes.values := by
    rintro y (rfl | hy) hpre
    · rw [h.wf.full_root, List.prefix_nil] at hpre
      exact absurd hpre (h.wf.full_ne_nil hcv)
    · exact hy
  constructor
  · rintro ⟨c', hc', hx⟩
    -- two first nodes lie below each other, so they are the same
    have h₁ := (h.descends_iff (Or.inr hcv)).1 (hc.first c' hc'.onPath hc'.hasDead)
    have h₂ := (h.descends_iff h₁.1).1 (hc'.first c hc.onPath hc.hasDead)
    obtain rfl := h.wf.full_inj h₁.1 h₂.1 (h₂.2.eq_of_length_le h₁.2.length_le)
    obtain ⟨hxm, hpre⟩ := (h.descends_iff (Or.inr hcv)).1 hx
    exact ⟨hval x hxm hpre, hpre⟩
  · rintro ⟨hxv, hpre⟩
    exact ⟨c, hc, (h.descends_iff (Or.inr hcv)).2 ⟨Or.inr hxv, hpre⟩⟩

/-! ### Callbacks backed by a pool -/

section Backed

variable {π : Type} {tierOf : π → BlockId → Option Tier} {freeBlocks : List BlockId → Py π Unit}
  {pool : π → BlockPool} {freed : π → List BlockId}

/-- The callbacks are the queries and the `free` of a pool; `freed s` lists the blocks that they
have freed so far. -/
structure PoolBacked (tierOf : π → BlockId → Option Tier) (freeBlocks : List BlockId → Py π Unit)
    (pool : π → BlockPool) (freed : π → List BlockId) : Prop where
  tierOf_eq : ∀ s b, tierOf s b = (pool s).tierOf b
  run_free : ∀ ids s q, (BlockPool.free ids).run (pool s) = .ok () q →
    ∃ s', (freeBlocks ids).run s = .ok () s' ∧ pool s' = q ∧ freed s' = freed s ++ ids

/-- Freeing the allocated blocks of a node whose blocks are unpinned. -/
theorem PoolBacked.run_freeAlive (hb : PoolBacked tierOf freeBlocks pool freed) {s : π}
    (hp : (pool s).WF) {a : Addr} (hnd : (t.node a).blockIds.Nodup)
    (hun : ∀ b ∈ (t.node a).blockIds, (pool s).pinned b = false) :
    ∃ s', (freeAlive tierOf freeBlocks a).run (t, s) = .ok () (t, s') ∧
      BlockPool.Freed (pool s) (t.aliveIds (pool s) a) (pool s') ∧
      freed s' = freed s ++ t.aliveIds (pool s) a := by
  have halive : (t.node a).blockIds.filter (fun b => (tierOf s b).isSome) =
      t.aliveIds (pool s) a := by
    simp only [aliveIds, hb.tierOf_eq]
  by_cases hnil : t.aliveIds (pool s) a = []
  · refine ⟨s, ?_, hnil ▸ .refl hp, by rw [hnil, List.append_nil]⟩
    simp only [freeAlive, EStateM.run_bind, EStateM.run_get, halive, hnil, ne_eq,
      not_true_eq_false, if_false]
    rfl
  · have hnd' : (t.aliveIds (pool s) a).Nodup := hnd.filter _
    obtain ⟨q, hfree, hq⟩ := BlockPool.free_ok hp hnd' fun b hb =>
      ⟨(mem_aliveIds.1 hb).2, hun b (mem_aliveIds.1 hb).1⟩
    obtain ⟨s', hrun, hpool, hfreed⟩ := hb.run_free _ s q hfree
    refine ⟨s', ?_, hpool ▸ hq, hfreed⟩
    simpa only [freeAlive, EStateM.run_bind, EStateM.run_get, halive, ne_eq, hnil,
      not_false_eq_true, if_true] using run_callback_ok (t := t) hrun

/-- The `free` of a pool, with a record of what it has freed. -/
def freeRecorded (ids : List BlockId) : Py (BlockPool × List BlockId) Unit := do
  Py.onPart Prod.fst (fun p s => (p, s.2)) (BlockPool.free ids)
  modify fun s => (s.1, s.2 ++ ids)

theorem poolBacked_freeRecorded :
    PoolBacked (fun s b => s.1.tierOf b) freeRecorded Prod.fst Prod.snd := by
  refine ⟨fun _ _ => rfl, fun ids s q hq => ⟨(q, s.2 ++ ids), ?_, rfl, rfl⟩⟩
  rw [freeRecorded, EStateM.run_bind, Py.run_onPart_ok hq]
  rfl

/-- What freeing the blocks of one node does to the state of the callbacks. -/
def FreesNode (t₀ : RadixTree) (pool : π → BlockPool) (freed : π → List BlockId) (c : Addr)
    (s s' : π) : Prop :=
  BlockPool.Freed (pool s) (t₀.aliveIds (pool s) c) (pool s') ∧
    freed s' = freed s ++ t₀.aliveIds (pool s) c

/-- The blocks freed with the nodes of `S` are those allocated, each once. -/
theorem Frees.recorded {t₀ : RadixTree} {S : Addr → Prop} {s s' : π}
    (h : Frees (t₀.FreesNode pool freed) S s s') (hp : (pool s).WF)
    (hnd : ∀ c, S c → (t₀.node c).blockIds.Nodup) :
    ∃ ids, freed s' = freed s ++ ids ∧ ids.Nodup ∧ BlockPool.Freed (pool s) ids (pool s') ∧
      ∀ b, b ∈ ids ↔ (pool s).live b = true ∧ ∃ c, S c ∧ b ∈ (t₀.node c).blockIds := by
  induction h with
  | none s => exact ⟨[], by simp, List.nodup_nil, .refl hp, by simp⟩
  | @one S s u r c _ hc ih =>
      obtain ⟨ids, hlog, hids, hfreed, hmem⟩ := ih hp fun d hd => hnd d (Or.inl hd)
      obtain ⟨hfreed', hlog'⟩ := hc
      have halive : ∀ b, b ∈ t₀.aliveIds (pool u) c ↔
          b ∈ (t₀.node c).blockIds ∧ b ∉ ids ∧ (pool s).live b = true := by
        intro b
        rw [mem_aliveIds, hfreed.live_eq, Bool.and_eq_true, Bool.not_eq_true',
          decide_eq_false_iff_not]
      refine ⟨ids ++ t₀.aliveIds (pool u) c, by rw [hlog', hlog, List.append_assoc], ?_,
        hfreed.trans hfreed', fun b => ?_⟩
      · refine List.nodup_append.2 ⟨hids, (hnd c (Or.inr rfl)).filter _, ?_⟩
        rintro b hb b' hb' rfl
        exact ((halive b).1 hb').2.1 hb
      · rw [List.mem_append, halive]
        constructor
        · rintro (hb | ⟨hbc, -, hlive⟩)
          · obtain ⟨hlive, d, hd, hbd⟩ := (hmem b).1 hb
            exact ⟨hlive, d, Or.inl hd, hbd⟩
          · exact ⟨hlive, c, Or.inr rfl, hbc⟩
        · rintro ⟨hlive, d, hd | rfl, hbd⟩
          · exact Or.inl ((hmem b).2 ⟨hlive, d, hd, hbd⟩)
          · by_cases hb : b ∈ ids
            · exact Or.inl hb
            · exact Or.inr ⟨hbd, hb, hlive⟩

/-- **Purging a node with callbacks backed by a pool.** -/
theorem View.run_purgeNode_backed (h : t.View full A) (hA : A.Distinct)
    (hb : PoolBacked tierOf freeBlocks pool freed) {n c : Addr} {first : Token}
    (hn : t.Member n) (hc : (t.node n).children.get? first = some c) {s : π} (hp : (pool s).WF)
    (hun : ∀ x ∈ t.nodes.values, ∀ b ∈ (t.node x).blockIds, (pool s).pinned b = false) :
    ∃ k t' s' ids, (purgeNode tierOf freeBlocks n first c).run (t, s) = .ok k (t', s') ∧
      Removed t full n first c t' ∧ {x | t.Sub full c x}.encard = k ∧
      (∀ x, ¬ full c <+: full x → t'.node x =
        { t.node x with children := if x = n then (t.node n).children.erase first
          else (t.node x).children }) ∧
      freed s' = freed s ++ ids ∧ ids.Nodup ∧ BlockPool.Freed (pool s) ids (pool s') ∧
      ∀ b, b ∈ ids ↔ (pool s).live b = true ∧ ∃ x, t.Sub full c x ∧ b ∈ (t.node x).blockIds := by
  have hnodup : ∀ x ∈ t.nodes.values, (t.node x).blockIds.Nodup := fun x hx =>
    h.items_full hx ▸ hA.nodup _
  obtain ⟨k, t', s', hrun, hrem, hfrees, -, hcount, hkeep⟩ := h.run_purgeNode_detached
    (R := t.FreesNode pool freed) (D := t.Sub full c)
    (I := fun s' => (pool s').WF ∧ ∀ b, (pool s).pinned b = false → (pool s').pinned b = false)
    (fun x hx _ u s' hs' hsame => by
      obtain ⟨s'', hrun, hfreed, hlog⟩ := hb.run_freeAlive (t := u) hs'.1
        (hsame ▸ hnodup x hx) fun b hbx => hs'.2 b (hun x hx b (hsame ▸ hbx))
      rw [aliveIds, hsame] at hfreed hlog
      refine ⟨s'', hrun, ⟨hfreed, hlog⟩, hfreed.wf, fun b hbu => ?_⟩
      rw [BlockPool.pinned, hfreed.pin_eq]
      split
      · simp
      · exact hs'.2 b hbu) hn hc (fun _ hx => hx) (p := s) ⟨hp, fun _ hbu => hbu⟩
  obtain ⟨ids, hlog, hids, hfreed, hmem⟩ := hfrees.recorded hp fun x hx => hnodup x hx.1
  exact ⟨k, t', s', ids, hrun, hrem, hcount, hkeep, hlog, hids, hfreed, hmem⟩

end Backed

/-! ### The purge of a path -/

/-- The tree `t` with the pool `p` has become `t'` with `q`: the nodes to go are gone, and nothing
else has changed; `ids` are the blocks freed and `k` is the result. -/
structure PathPurged (t : RadixTree) (p : BlockPool) (T : List Token) (t' : RadixTree)
    (q : BlockPool) (ids : List BlockId) (k : ℕ) : Prop where
  sound : t'.Sound
  linked_iff : ∀ x, t'.Linked x ↔ t.Linked x ∧ ¬ t.Purged p T x
  count : {x | t.Purged p T x}.encard = k
  path_live : ∀ x, t'.OnPath T x → ∀ b ∈ (t'.node x).blockIds, q.live b = true
  freed : BlockPool.Freed p ids q
  nodup : ids.Nodup
  mem_freed : ∀ b, b ∈ ids ↔ p.live b = true ∧ ∃ x, t.Purged p T x ∧ b ∈ (t.node x).blockIds
  node_eq : ∀ x, t'.Linked x → t'.node x = { t.node x with children := (t'.node x).children }
  child_iff : ∀ x, t'.Linked x → ∀ tok c, (t'.node x).children.get? tok = some c ↔
    (t.node x).children.get? tok = some c ∧ ¬ t.Purged p T c
  spells_iff : ∀ x l, t'.Spells x l ↔ t.Spells x l ∧ ¬ t.Purged p T x
  match_eq : ∀ T', (∀ x l, t.Purged p T x → t.Spells x l → ¬ l <+: T') → ∀ now,
    (t'.matchPrefix now T').1 = (t.matchPrefix now T').1 ∧
      (t'.matchPrefixPath now T').1 = (t.matchPrefixPath now T').1

/-- Where the path has no freed block, nothing is to be done. -/
theorem View.pathPurged_clean (h : t.View full A) (hA : A.Distinct) (hp : p.WF)
    (hlive : ∀ x, t.OnPath T x → ∀ b ∈ (t.node x).blockIds, p.live b = true) :
    PathPurged t p T t p [] 0 := by
  have hnone : ∀ x, ¬ t.Purged p T x := by
    rintro x ⟨c, hc, -⟩
    obtain ⟨b, hb, hdead⟩ := hc.hasDead
    rw [hlive c hc.onPath b hb] at hdead
    simp at hdead
  exact {
    sound := h.sound hA
    linked_iff := fun x => by simp [hnone]
    count := by simp [hnone]
    path_live := hlive
    freed := .refl hp
    nodup := List.nodup_nil
    mem_freed := by simp [hnone]
    node_eq := fun _ _ => rfl
    child_iff := fun _ _ _ _ => by simp [hnone]
    spells_iff := fun _ _ => by simp [hnone]
    match_eq := fun _ _ _ => ⟨rfl, rfl⟩ }

/-- The first node with a freed block has gone with its subtree. -/
theorem View.pathPurged_dead {q : BlockPool} {ids : List BlockId} {k : ℕ} {n c : Addr}
    {first : Token} (h : t.View full A) (hA : A.Distinct) (hn : t.Member n)
    (hnc : (t.node n).children.get? first = some c) (hc : t.FirstDeadNode p T c)
    (hrem : Removed t full n first c t') (hcount : {x | t.Sub full c x}.encard = k)
    (hkeep : ∀ x, ¬ full c <+: full x → t'.node x =
      { t.node x with children := if x = n then (t.node n).children.erase first
        else (t.node x).children })
    (hids : ids.Nodup) (hfreed : BlockPool.Freed p ids q)
    (hmem : ∀ b, b ∈ ids ↔ p.live b = true ∧ ∃ x, t.Sub full c x ∧ b ∈ (t.node x).blockIds) :
    PathPurged t p T t' q ids k := by
  have hpur : ∀ x, t.Purged p T x ↔ t.Sub full c x := fun x => h.purged_iff hc
  obtain ⟨hcv, hcT⟩ := h.onPath_iff.1 hc.onPath
  have hv' := h.removed hn hnc hrem
  have hroot : ¬ full c <+: full root := by
    rw [h.wf.full_root, List.prefix_nil]
    exact h.wf.full_ne_nil hcv
  have hsub : ∀ x, t.Member x → (t.Purged p T x ↔ full c <+: full x) := by
    intro x hx
    rw [hpur]
    rcases hx with rfl | hx
    · exact ⟨fun hx => hx.2, fun hx => absurd hx hroot⟩
    · exact ⟨fun hx => hx.2, fun hx' => ⟨hx, hx'⟩⟩
  have hmember : ∀ x, t'.Member x ↔ t.Member x ∧ ¬ t.Purged p T x := by
    intro x
    rw [Member, hrem.mem_values_iff, Member]
    constructor
    · rintro (rfl | ⟨hx, hx'⟩)
      · exact ⟨Or.inl rfl, by rwa [hsub root t.member_root]⟩
      · exact ⟨Or.inr hx, by rwa [hsub x (Or.inr hx)]⟩
    · rintro ⟨hx | hx, hx'⟩
      · exact Or.inl hx
      · exact Or.inr ⟨hx, by rwa [hsub x (Or.inr hx)] at hx'⟩
  have hlinked : ∀ x, t'.Linked x ↔ t.Linked x ∧ ¬ t.Purged p T x := by
    intro x
    rw [hv'.wf.linked_iff, hmember, h.wf.linked_iff]
  have hspells : ∀ x l, t'.Spells x l ↔ t.Spells x l ∧ ¬ t.Purged p T x := by
    intro x l
    rw [hv'.spells_iff, hmember, h.spells_iff]
    tauto
  have hnode : ∀ x, t'.Linked x → t'.node x =
      { t.node x with children := if x = n then (t.node n).children.erase first
        else (t.node x).children } := by
    intro x hx
    obtain ⟨hx, hnot⟩ := (hlinked x).1 hx
    exact hkeep x (by rwa [← hsub x (h.wf.linked_iff.1 hx)])
  refine ⟨hv'.sound (hA.prune _), hlinked, ?_, ?_, hfreed, hids, ?_, ?_, ?_, hspells, ?_⟩
  · simpa only [hpur] using hcount
  · -- what is left on the path lies above the first node with a freed block
    intro x hx b hb
    obtain ⟨hxr, l, hl, hlT⟩ := hx
    obtain ⟨hl, hnot⟩ := (hspells x l).1 hl
    rw [hnode x ((hlinked x).2 ⟨hl.linked, hnot⟩)] at hb
    have hxT : t.OnPath T x := ⟨hxr, l, hl, hlT⟩
    have hlive : p.live b = true := by
      by_contra hdead
      exact hnot ⟨c, hc, hc.first x hxT ⟨b, hb, by simpa using hdead⟩⟩
    rw [hfreed.live_eq, hlive, Bool.and_true, Bool.not_eq_true', decide_eq_false_iff_not, hmem]
    rintro ⟨-, y, hy, hby⟩
    obtain ⟨hxv, -⟩ := h.onPath_iff.1 hxT
    have heq : full x = full y :=
      hA.unique _ _ b (by rwa [h.items_full hxv]) (by rwa [h.items_full hy.1])
    exact hnot ((hsub x (Or.inr hxv)).2 (heq ▸ hy.2))
  · simpa only [hpur] using hmem
  · intro x hx
    rw [hnode x hx]
  · intro x hx tok d
    have hchildren := congrArg RadixNode.children (hnode x hx)
    constructor
    · intro hd
      refine ⟨?_, ((hlinked d).1 (.child hx hd)).2⟩
      rw [hchildren] at hd
      by_cases hxn : x = n
      · subst hxn
        rw [if_pos rfl, PyDict.get?_erase] at hd
        split at hd
        · simp at hd
        · exact hd
      · rwa [if_neg hxn] at hd
    · rintro ⟨hd, hnot⟩
      rw [hchildren]
      by_cases hxn : x = n
      · subst hxn
        have htok : tok ≠ first := by
          rintro rfl
          rw [hnc, Option.some_inj] at hd
          exact hnot ((hpur d).2 (hd ▸ ⟨hcv, List.prefix_refl _⟩))
        rwa [if_pos rfl, PyDict.get?_erase_of_ne _ htok]
      · rwa [if_neg hxn]
  · intro T' hT' now
    exact h.matches_prune hv' (hT' c (full c) ((hpur c).2 ⟨hcv, List.prefix_refl _⟩)
      (h.spells_iff.2 ⟨Or.inr hcv, rfl⟩)) now

/-- **The purge of a path clears it and does nothing else.** -/
theorem purgePathWithAnyDead_purges {π : Type} {tierOf : π → BlockId → Option Tier}
    {freeBlocks : List BlockId → Py π Unit} {pool : π → BlockPool} {freed : π → List BlockId}
    (ht : t.Sound) (href : t.Unreferenced) (hb : PoolBacked tierOf freeBlocks pool freed) {s : π}
    (hp : (pool s).WF)
    (hun : ∀ a, t.Linked a → ∀ b ∈ (t.node a).blockIds, (pool s).pinned b = false)
    (T : List Token) :
    ∃ k t' s' ids, (purgePathWithAnyDead tierOf freeBlocks T).run (t, s) = .ok k (t', s') ∧
      freed s' = freed s ++ ids ∧ PathPurged t (pool s) T t' (pool s') ids k := by
  obtain ⟨full, A, h, hA⟩ := ht.exists_view href
  have hdead : ∀ b, tierOf s b = none ↔ (pool s).live b = false := by
    intro b
    rw [hb.tierOf_eq, BlockPool.live_eq_false_iff]
  rcases h.purgePathLoop_first s tierOf freeBlocks T.length t.member_root le_rfl with
    ⟨hrun, hlive⟩ | ⟨n, first, c, hn, hnc, hway, hcd, hfirst, hrun⟩
  · refine ⟨0, t, s, [], hrun, by simp, h.pathPurged_clean hA hp fun x hx b hbx => ?_⟩
    obtain ⟨hxv, hxT⟩ := h.onPath_iff.1 hx
    have hsome := hlive x hxv ((h.way_root_iff hxv).2 hxT) b hbx
    rwa [hb.tierOf_eq] at hsome
  · obtain ⟨hcv, -⟩ := h.wf.child n first c hn hnc
    have hc : t.FirstDeadNode (pool s) T c := by
      refine ⟨h.onPath_iff.2 ⟨hcv, (h.way_root_iff hcv).1 hway⟩, ?_, fun x hx hxd => ?_⟩
      · obtain ⟨b, hbc, hnone⟩ := hcd
        exact ⟨b, hbc, (hdead b).1 hnone⟩
      · obtain ⟨hxv, hxT⟩ := h.onPath_iff.1 hx
        obtain ⟨b, hbx, hbd⟩ := hxd
        exact (h.descends_iff (Or.inr hcv)).2 ⟨Or.inr hxv,
          hfirst x hxv ((h.way_root_iff hxv).2 hxT) ⟨b, hbx, (hdead b).2 hbd⟩⟩
    obtain ⟨k, t', s', ids, hrun', hrem, hcount, hkeep, hlog, hids, hfreed, hmem⟩ :=
      h.run_purgeNode_backed hA hb hn hnc hp fun x hx => hun x (ht.mem_values_iff.1 hx).1
    exact ⟨k, t', s', ids, by rw [purgePathWithAnyDead, hrun, hrun'], hlog,
      h.pathPurged_dead hA hn hnc hc hrem hcount hkeep hids hfreed hmem⟩

theorem purgePathWithAnyDead_purges_three : ∃ (t : RadixTree) (p : BlockPool),
    t.nodes.keys = [0, 1, 2] ∧ (p.live 0, p.live 1, p.live 2) = (false, true, true) ∧
    ∃ k t' s' ids, (purgePathWithAnyDead (fun s b => s.1.tierOf b) freeRecorded [5, 6, 7]).run
        (t, (p, [])) = .ok k (t', s') ∧ s'.2 = [] ++ ids ∧
      PathPurged t p [5, 6, 7] t' s'.1 ids k := by
  have hreach := Reachable.call (.insert 1 [5, 6, 8]) (.call (.insert 0 [5, 6, 7])
    (@Reachable.init _ mintCounter (fun k b => b < k) 2 0) trivial) trivial
  obtain ⟨-, A, ho⟩ := hreach.owns mintsFresh_mintCounter
  obtain ⟨full, hv⟩ := ho.view
  have hroom : ((3 : ℕ) : ℤ) ≤ (BlockPool.init NodeConfig.defaults).freeSlots .gpu := by
    decide +kernel
  obtain ⟨p, -, hp⟩ := BlockPool.allocate_ok (BlockPool.wf_init NodeConfig.defaults) hroom
  have hpin : ∀ b, p.pinned b = false := fun b => by
    rw [BlockPool.pinned, hp.pin_eq]
    rfl
  have hlive : ∀ b, b < 3 → p.live b = true := fun b hb => by
    rw [hp.live_eq, Bool.or_eq_true, decide_eq_true_eq, BlockPool.mem_freshIds]
    exact Or.inl ⟨Nat.zero_le b, by simpa [BlockPool.init] using hb⟩
  obtain ⟨q, -, hq⟩ := BlockPool.free_ok hp.wf (List.nodup_singleton 0) fun b hb => by
    rw [List.mem_singleton.1 hb]
    exact ⟨hlive 0 (by decide), hpin 0⟩
  refine ⟨_, q, by decide +kernel, ?_, purgePathWithAnyDead_purges (hv.sound ho.distinct)
    hv.unreferenced poolBacked_freeRecorded (s := (q, [])) hq.wf (fun a _ b _ => ?_) [5, 6, 7]⟩
  · simp [hq.live_eq, hlive]
  · have hcount : q.pinCountOf b = 0 := by
      rw [hq.pin_eq, hp.pin_eq]
      split <;> rfl
    simp [BlockPool.pinned, hcount]

end RadixTree

end NanoKVRouter
