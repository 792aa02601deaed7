/-
**What an admission does.**

An admission is a run of evictions followed by one insertion.  It returns at once when the prompt
is in the tree and its blocks are allocated; when the prompt is in the tree and some of them are
freed, it first severs the path at the first node with a freed block, and raises `RuntimeError`
when that node has a pinned block.

Main definitions:

* `CacheState.Intact` — every block of the tree is allocated;
* `CacheState.Complete` — the prompt is in the tree and its blocks are allocated;
* `CacheState.Stale` — the prompt is in the tree and some of its blocks are freed;
* `CacheState.Clash` — the purge of a stale prompt meets a pinned block;
* `NodeCache.Recorded` — what the history says about a change of the cache;
* `NodeCache.Evolves` — evictions and growth, with their history.

Main results:

* `NodeCache.admitPrepare_checked`, `NodeCache.admitPrepare_spec` — all that comes before the size
  check, and before the insertion;
* `NodeCache.admit_spec` — **the admission**: a turn of the cache that ends with the prompt in the
  tree, in `MemoryError`, or exactly in a clash in `RuntimeError`.
-/

import NanoKVRouter.CacheLookup
import NanoKVRouter.RadixTreeInsert

set_option relaxedAutoImplicit false
set_option autoImplicit false

namespace NanoKVRouter

/-! ### The prompt cut to full blocks -/

namespace NodeCache

variable {bs k : ℕ} {T P : List Token}

theorem aligned_prefix (h : alignedTokens bs T = (P, k)) : P <+: T := by
  rw [alignedTokens, Prod.mk.injEq] at h
  rw [← h.1]
  exact List.take_prefix _ _

theorem length_aligned (h : alignedTokens bs T = (P, k)) : P.length = k * bs := by
  rw [alignedTokens, Prod.mk.injEq] at h
  rw [← h.1, ← h.2, List.length_take]
  exact Nat.min_eq_left (Nat.div_mul_le_self _ _)

theorem length_lt_aligned (h : alignedTokens bs T = (P, k)) (hbs : 0 < bs) :
    T.length < k * bs + bs := by
  rw [alignedTokens, Prod.mk.injEq] at h
  rw [← h.2]
  have h1 := Nat.div_add_mod T.length bs
  have h2 := Nat.mod_lt T.length hbs
  have h3 := Nat.mul_comm (T.length / bs) bs
  omega

/-- A prompt of full blocks is cut to itself. -/
theorem alignedTokens_self (hbs : 0 < bs) (h : P.length = k * bs) :
    alignedTokens bs P = (P, k) := by
  have hk : P.length / bs = k := by
    rw [h]
    exact Nat.mul_div_cancel _ hbs
  rw [alignedTokens, hk, ← h, List.take_length]

theorem aligned_ne_nil (h : alignedTokens bs T = (P, k)) (hbs : 0 < bs) (hk : 0 < k) : P ≠ [] := by
  rintro rfl
  have := length_aligned h
  have := Nat.mul_pos hk hbs
  simp only [List.length_nil] at *
  omega

end NodeCache

namespace CacheState

variable {s : CacheState} {bs k : ℕ} {P : List Token}

/-- The match reaches the end of a prompt of `k` full blocks exactly if the prompt is in the
tree. -/
theorem le_matched_div_iff (hbs : 0 < bs) (hP : P.length = k * bs) (hne : P ≠ []) :
    k ≤ s.trie.matched P / bs ↔ (s.trie P).isSome := by
  rw [Nat.le_div_iff_mul_le hbs, ← hP, ← PathTrie.matched_eq_length_iff hne]
  have := s.trie.matched_le P
  omega

/-- Every block of the tree is allocated. -/
def Intact (s : CacheState) : Prop := ∀ l, ∀ b ∈ s.trie.items l, s.pool.live b = true

theorem Intact.path {s : CacheState} (h : s.Intact) (T : List Token) :
    ∀ b ∈ s.trie.path T, s.pool.live b = true := by
  intro b hb
  obtain ⟨l, -, -, hl⟩ := PathTrie.mem_path.1 hb
  exact h l b hl

/-- The prompt is in the tree, and its first `k` blocks are allocated. -/
structure Complete (s : CacheState) (P : List Token) (k : ℕ) : Prop where
  node : (s.trie P).isSome
  live : ∀ b ∈ (s.trie.path P).take k, s.pool.live b = true

/-- The prompt is in the tree, and one of its first `k` blocks is freed. -/
structure Stale (s : CacheState) (P : List Token) (k : ℕ) : Prop where
  node : (s.trie P).isSome
  dead : ∃ b ∈ (s.trie.path P).take k, s.pool.live b = false

/-- The prompt is stale, and the first node on its path with a freed block has a pinned one. -/
structure Clash (s : CacheState) (P : List Token) (k : ℕ) : Prop where
  stale : s.Stale P k
  pinned : ∃ l, s.FirstDead P l ∧ ∃ b ∈ s.trie.items l, s.pool.pinned b = true

end CacheState

/-! ### The history of a change -/

namespace NodeCache

/-- From `c` to `c'` the history grew by calls that freed blocks only when exhausted.  If none freed
its block and all blocks of the tree were allocated, they still are, and no node is gone. -/
def Recorded (c : NodeCache) (s : CacheState) (c' : NodeCache) (s' : CacheState) : Prop :=
  ∃ calls, c'.demotions = c.demotions ++ calls ∧ (∀ d ∈ calls, d.Frees → d.Exhausted) ∧
    (s.Intact → (∀ d ∈ calls, ¬ d.Frees) →
      s'.Intact ∧ ∀ l, (s.trie l).isSome → (s'.trie l).isSome)

namespace Recorded

variable {c c' c'' : NodeCache} {s s' s'' : CacheState}

/-- A change that is none of the demotion loop's. -/
theorem of_eq (hdem : c'.demotions = c.demotions) (hintact : s.Intact → s'.Intact)
    (hnode : s.Intact → ∀ l, (s.trie l).isSome → (s'.trie l).isSome) : Recorded c s c' s' :=
  ⟨[], by simp [hdem], by simp, fun h _ => ⟨hintact h, hnode h⟩⟩

theorem refl (c : NodeCache) (s : CacheState) : Recorded c s c s :=
  of_eq rfl id fun _ _ h => h

theorem trans (h : Recorded c s c' s') (h' : Recorded c' s' c'' s'') : Recorded c s c'' s'' := by
  obtain ⟨l, hl, hex, hkept⟩ := h
  obtain ⟨l', hl', hex', hkept'⟩ := h'
  refine ⟨l ++ l', ?_, ?_, ?_⟩
  · rw [hl', hl, List.append_assoc]
  · intro d hd
    rcases List.mem_append.1 hd with hd | hd
    · exact hex d hd
    · exact hex' d hd
  · intro hs hnone
    obtain ⟨hs', hnode⟩ := hkept hs fun d hd => hnone d (List.mem_append_left _ hd)
    obtain ⟨hs'', hnode'⟩ := hkept' hs' fun d hd => hnone d (List.mem_append_right _ hd)
    exact ⟨hs'', fun l hl => hnode' l (hnode l hl)⟩

end Recorded

/-- A node of a represented trie owns a block. -/
theorem Represents.exists_item {c : NodeCache} {bs : ℕ} {s : CacheState} (h : c.Represents bs s)
    {l : List Token} (hl : (s.trie l).isSome) : ∃ b, b ∈ s.trie.items l := by
  obtain ⟨⟨-, full, hv⟩, -⟩ := h
  obtain ⟨a, ha, rfl⟩ := hv.exists_addr hl
  obtain ⟨b, hb⟩ := List.exists_mem_of_ne_nil _ (hv.wf.blockIds_ne_nil ha)
  exact ⟨b, by rwa [hv.items_full ha]⟩

/-- The walk to a node collects a block for each full block of its path. -/
theorem Represents.le_length_path {c : NodeCache} {bs k : ℕ} {s : CacheState}
    (h : c.Represents bs s) (hbs : 0 < bs) {P : List Token} (hP : P.length = k * bs)
    (hnode : (s.trie P).isSome) : k ≤ (s.trie.path P).length := by
  obtain ⟨⟨rfl, full, hv⟩, -⟩ := h
  have h1 := hv.matched_le_blocks P
  have h2 := PathTrie.le_matched (List.prefix_refl P) hnode
  rw [hP] at h2
  have h3 := h2.trans h1
  rw [Nat.mul_comm] at h3
  exact Nat.le_of_mul_le_mul_left h3 hbs

theorem Demotes.recorded {bs : ℕ} {c c' : NodeCache} {s s' : CacheState}
    (h : Demotes bs c s c' s') (hc : c.Represents bs s) : Recorded c s c' s' := by
  obtain ⟨calls, hcalls, hex, hkept⟩ := h.calls
  refine ⟨calls, hcalls, hex, fun hs hnone => ?_⟩
  have hk := hkept hnone
  have hnode : ∀ l, (s.trie l).isSome → s'.trie l = s.trie l := by
    intro l hl
    rcases hk.trie_or l hl with heq | hdead
    · exact heq
    · obtain ⟨b, hb⟩ := hc.exists_item hl
      have := hdead b hb
      rw [hs l b hb] at this
      simp at this
  refine ⟨fun l b hb => ?_, fun l hl => by rwa [hnode l hl]⟩
  rw [hk.live_eq]
  exact hs l b (h.evicts.items_subset hb)

/-! ### Before the insertion -/

section Prepare

variable {bs k : ℕ} {T P : List Token} {c : NodeCache} {s : CacheState}

/-- The ways `admitPrepare` ends. -/
inductive Prepared (s : CacheState) (P : List Token) (k : ℕ) (c' : NodeCache) (s' : CacheState) :
    EStateM.Result PyErr NodeCache Bool → Prop
  | hit : s' = s → ¬ s.Stale P k → (0 < k → s.Complete P k) → Prepared s P k c' s' (.ok false c')
  | insert : 0 < k → ¬ s.Clash P k → Prepared s P k c' s' (.ok true c')
  | full (msg : String) : ¬ s.Clash P k → Prepared s P k c' s' (.error (.memoryError msg) c')
  | clash (msg : String) : s' = s → 0 < k → s.Clash P k →
      Prepared s P k c' s' (.error (.runtimeError msg) c')

/-- The prompt is stale if its blocks are not all allocated. -/
theorem stale_of_countP_ne (h : c.Represents bs s) (hbs : 0 < bs) (hP : P.length = k * bs)
    (hnode : (s.trie P).isSome) (hne : ((s.trie.path P).take k).countP s.pool.live ≠ k) :
    s.Stale P k := by
  refine ⟨hnode, ?_⟩
  by_contra hno
  have hlen : ((s.trie.path P).take k).length = k := by
    rw [List.length_take]
    exact Nat.min_eq_left (h.le_length_path hbs hP hnode)
  refine hne ((List.countP_eq_length.2 fun b hb => ?_).trans hlen)
  by_contra hdead
  exact hno ⟨b, hb, by simpa using hdead⟩

theorem live_of_countP_eq (h : c.Represents bs s) (hbs : 0 < bs) (hP : P.length = k * bs)
    (hnode : (s.trie P).isSome) (heq : ((s.trie.path P).take k).countP s.pool.live = k) :
    ∀ b ∈ (s.trie.path P).take k, s.pool.live b = true := by
  have hlen : ((s.trie.path P).take k).length = k := by
    rw [List.length_take]
    exact Nat.min_eq_left (h.le_length_path hbs hP hnode)
  exact List.countP_eq_length.1 (heq.trans hlen.symm)

/-- Where an admission stands before the size check, in the cache `c₁`: it is done, or room is to be
made, or the purge has failed. -/
inductive Checked (s s₁ : CacheState) (P : List Token) (k : ℕ) (c₁ : NodeCache)
    (room : Py NodeCache Bool) :
    EStateM.Result PyErr NodeCache Bool → Prop
  | hit : s₁ = s → ¬ s.Stale P k → (0 < k → s.Complete P k) →
      Checked s s₁ P k c₁ room (.ok false c₁)
  | room : 0 < k → ¬ s.Complete P k → ¬ s.Clash P k → Checked s s₁ P k c₁ room (room.run c₁)
  | clash (msg : String) : s₁ = s → 0 < k → s.Clash P k →
      Checked s s₁ P k c₁ room (.error (.runtimeError msg) c₁)

/-- A prompt in the tree: the admission is done if its blocks are allocated; a stale one is
purged. -/
theorem prepareMatched_checked (h : c.Represents bs s) (hi : s.Inv) (hbs : 0 < bs) (gpuBlocks : ℕ)
    (clock : ℕ → Time) (hk : 0 < k) (hP : P.length = k * bs) (hnode : (s.trie P).isSome) :
    ∃ c₁ s₁, c₁.Represents bs s₁ ∧ CacheState.Evicts s s₁ ∧ Recorded c s c₁ s₁ ∧
      Checked s s₁ P k c₁ (do makeRoom gpuBlocks clock k; pure true)
        ((prepareMatched gpuBlocks clock P k (s.trie.path P)).run c) := by
  have hcount := s.pool.length_entries_tiersOf
    ((hi.distinct.path_nodup P).sublist (List.take_sublist k _))
  by_cases hlive : ((s.trie.path P).take k).countP s.pool.live = k
  · have hall := live_of_countP_eq h hbs hP hnode hlive
    have hrun : (prepareMatched gpuBlocks clock P k (s.trie.path P)).run c = .ok false c := by
      simp [prepareMatched, h.pool, hcount, hlive]
    refine ⟨c, s, h, .refl, .refl c s, ?_⟩
    rw [hrun]
    refine .hit rfl ?_ fun _ => ⟨hnode, hall⟩
    rintro ⟨-, b, hb, hdead⟩
    rw [hall b hb] at hdead
    simp at hdead
  · have hstale := stale_of_countP_ne h hbs hP hnode hlive
    have hstart : (prepareMatched gpuBlocks clock P k (s.trie.path P)).run c =
        (do
          let _ ← onBoth (RadixTree.purgePathWithAnyDead BlockPool.tierOf BlockPool.free P)
          makeRoom gpuBlocks clock k
          pure true : Py NodeCache Bool).run c := by
      simp [prepareMatched, h.pool, hcount, hlive]
    rw [hstart]
    obtain ⟨b, hb, hdead⟩ := hstale.dead
    have hnotfull : ¬ s.Complete P k := by
      intro hfull
      rw [hfull.live b hb] at hdead
      simp at hdead
    obtain ⟨l, hl⟩ := CacheState.exists_firstDead ⟨b, List.mem_of_mem_take hb, hdead⟩
    obtain ⟨hclash, hclean⟩ := RadixTree.purgePath_dead h.tree hi hl
    by_cases hpin : ∃ b ∈ s.trie.items l, s.pool.pinned b = true
    · obtain ⟨msg, hrun⟩ := hclash hpin
      rw [← h.pool] at hrun
      refine ⟨c, s, h, .refl, .refl c s, ?_⟩
      rw [Py.run_bind_error (run_onBoth_error hrun)]
      exact .clash msg rfl hk ⟨hstale, l, hl, hpin⟩
    · have hun : ∀ b ∈ s.trie.items l, s.pool.pinned b = false := by
        intro x hx
        by_contra hp
        exact hpin ⟨x, hx, by simpa using hp⟩
      obtain ⟨n, t', q, hrun, hrepr, hev⟩ := hclean hun
      rw [← h.pool] at hrun
      have hno : ¬ s.Clash P k := by
        rintro ⟨-, l', hl', hpin'⟩
        exact hpin (hl.unique hl' ▸ hpin')
      have hnot : ¬ s.Intact := by
        intro hs
        have := hs.path P b (List.mem_of_mem_take hb)
        rw [hdead] at this
        simp at this
      have hrec : Recorded c s { c with tree := t', pool := q } ⟨s.trie.prune l, q⟩ :=
        .of_eq rfl (fun hs => absurd hs hnot) fun hs => absurd hs hnot
      refine ⟨{ c with tree := t', pool := q }, ⟨s.trie.prune l, q⟩, ⟨hrepr, rfl⟩, .single hev.evict,
        hrec, ?_⟩
      rw [Py.run_bind_ok (run_onBoth_ok hrun)]
      exact .room hk hnotfull hno

/-- **All that comes before the size check**: evictions only. -/
theorem admitPrepare_checked (h : c.Represents bs s) (hi : s.Inv) (hbs : 0 < bs) (gpuBlocks : ℕ)
    (clock : ℕ → Time) (hT : alignedTokens bs T = (P, k)) :
    ∃ c₁ s₁, c₁.Represents bs s₁ ∧ CacheState.Evicts s s₁ ∧ Recorded c s c₁ s₁ ∧
      Checked s s₁ P k c₁ (do makeRoom gpuBlocks (fun j => clock (j + 2)) k; pure true)
        ((admitPrepare bs gpuBlocks clock T).run c) := by
  rcases Nat.eq_zero_or_pos k with rfl | hk
  · refine ⟨c, s, h, .refl, .refl c s, ?_⟩
    have hrun : (admitPrepare bs gpuBlocks clock T).run c = .ok false c := by
      simp [admitPrepare, hT]
    rw [hrun]
    refine .hit rfl ?_ (by omega)
    rintro ⟨-, b, hb, -⟩
    simp at hb
  · have hP := length_aligned hT
    have hne := aligned_ne_nil hT hbs hk
    obtain ⟨c₁, hrun₁, hc₁, hdem₁⟩ := run_matchPrefixPath h (clock 0) P
    have hrec₁ : Recorded c s c₁ s := .of_eq hdem₁ id fun _ _ hl => hl
    have hstart : (admitPrepare bs gpuBlocks clock T).run c =
        (if s.trie.matched P / bs ≥ k then
          prepareMatched gpuBlocks (fun k => clock (k + 2)) P k (s.trie.path P)
        else do
          makeRoom gpuBlocks (fun k => clock (k + 2)) k
          pure true : Py NodeCache Bool).run c₁ := by
      simp only [admitPrepare, hT, if_neg (Nat.pos_iff_ne_zero.1 hk)]
      rw [Py.run_bind_ok hrun₁]
    rw [hstart]
    by_cases hfull : s.trie.matched P / bs ≥ k
    · have hnode := (CacheState.le_matched_div_iff hbs hP hne).1 hfull
      obtain ⟨c₂, s₂, hc₂, hev, hrec, hchecked⟩ := prepareMatched_checked hc₁ hi hbs gpuBlocks
        (fun k => clock (k + 2)) hk hP hnode
      rw [if_pos hfull]
      exact ⟨c₂, s₂, hc₂, hev, hrec₁.trans hrec, hchecked⟩
    · have hnone : ¬ (s.trie P).isSome := fun hnode =>
        hfull ((CacheState.le_matched_div_iff hbs hP hne).2 hnode)
      rw [if_neg hfull]
      exact ⟨c₁, s, hc₁, .refl, hrec₁, .room hk (fun hcomp => hnone hcomp.node)
        fun hcl => hnone hcl.stale.node⟩

/-- **All that comes before the insertion**: evictions only. -/
theorem admitPrepare_spec (h : c.Represents bs s) (hi : s.Inv) (hbs : 0 < bs) (gpuBlocks : ℕ)
    (clock : ℕ → Time) (hT : alignedTokens bs T = (P, k)) :
    ∃ c' s', c'.Represents bs s' ∧ CacheState.Evicts s s' ∧ Recorded c s c' s' ∧
      Prepared s P k c' s' ((admitPrepare bs gpuBlocks clock T).run c) := by
  obtain ⟨c₁, s₁, hc₁, hev₁, hrec₁, hchecked⟩ := admitPrepare_checked h hi hbs gpuBlocks clock hT
  generalize (admitPrepare bs gpuBlocks clock T).run c = r at hchecked
  cases hchecked with
  | hit hs hstale hcomp => exact ⟨c₁, s₁, hc₁, hev₁, hrec₁, .hit hs hstale hcomp⟩
  | clash msg hs hk hcl => exact ⟨c₁, s₁, hc₁, hev₁, hrec₁, .clash msg hs hk hcl⟩
  | room hk _ hno =>
      obtain ⟨c', s', hd, ⟨hrun, -⟩ | ⟨msg, hrun, -⟩⟩ :=
        makeRoom_spec hc₁ (hev₁.inv hi) gpuBlocks (fun j => clock (j + 2)) k
      · refine ⟨c', s', hd.represents, hev₁.trans hd.evicts, hrec₁.trans (hd.recorded hc₁), ?_⟩
        rw [Py.run_bind_ok hrun]
        exact .insert hk hno
      · refine ⟨c', s', hd.represents, hev₁.trans hd.evicts, hrec₁.trans (hd.recorded hc₁), ?_⟩
        rw [Py.run_bind_error hrun]
        exact .full msg hno

/-! ### The admission -/

/-- The ways `admit` ends, when `admitPrepare` ends as in `prep` with the state `m`. -/
inductive Admitted (s m : CacheState) (P : List Token) (k : ℕ)
    (prep : EStateM.Result PyErr NodeCache Bool) (c' : NodeCache) (s' : CacheState) :
    EStateM.Result PyErr NodeCache Unit → Prop
  | hit : prep = .ok false c' → s' = s → ¬ s.Stale P k → (0 < k → s.Complete P k) →
      Admitted s m P k prep c' s' (.ok () c')
  | inserted (cm : NodeCache) (bs : ℕ) (fresh : List BlockId) : prep = .ok true cm →
      cm.Represents bs m → 0 < k → ¬ s.Clash P k → (s'.trie P).isSome →
      s'.trie.path P = cm.tree.keptBlocks P ++ fresh → (∀ b ∈ fresh, s'.pool.live b = true) →
      m.trie.path P <+: cm.tree.keptBlocks P → Admitted s m P k prep c' s' (.ok () c')
  | full (msg : String) : ¬ s.Clash P k → Admitted s m P k prep c' s' (.error (.memoryError msg) c')
  | clash (msg : String) : s' = s → 0 < k → s.Clash P k →
      Admitted s m P k prep c' s' (.error (.runtimeError msg) c')

/-- Growth is none of the demotion loop's business. -/
theorem recorded_of_grows {c' : NodeCache} {s' : CacheState} (hdem : c'.demotions = c.demotions)
    (hi : s.Inv) (hg : CacheState.Grows s s') : Recorded c s c' s' := by
  refine .of_eq hdem (fun hs => ?_) fun _ l hl => hg.isSome_trie hl
  induction hg with
  | refl => exact hs
  | @tail u v hrun hstep ih =>
      intro l b hb
      rcases hstep.mem_items hb with hlive | ⟨w, hw⟩
      · exact hlive
      · exact hstep.live_of_live (CacheState.Grows.inv hrun hi) (ih w b hw)

/-- **The admission** is a turn of the cache: it ends with the prompt in the tree, in
`MemoryError`, or exactly in a clash in `RuntimeError`. -/
theorem admit_spec (h : c.Represents bs s) (hi : s.Inv) (hbs : 0 < bs) (gpuBlocks : ℕ)
    (clock : ℕ → Time) (hT : alignedTokens bs T = (P, k)) :
    ∃ m c' s', c'.Represents bs s' ∧ CacheState.Turn s m s' ∧ Recorded c s c' s' ∧
      Admitted s m P k ((admitPrepare bs gpuBlocks clock T).run c) c' s'
        ((admitTokens bs gpuBlocks clock T).run c) := by
  obtain ⟨cm, m, hcm, hev, hrec, hprep⟩ := admitPrepare_spec h hi hbs gpuBlocks clock hT
  have hstop : CacheState.Turn s m m := ⟨hev, .refl⟩
  generalize hrun : (admitPrepare bs gpuBlocks clock T).run c = prep at hprep ⊢
  cases hprep with
  | hit hs hstale hlive =>
      refine ⟨m, cm, m, hcm, hstop, hrec, ?_⟩
      have hout : (admitTokens bs gpuBlocks clock T).run c = .ok () cm := by
        rw [admitTokens, Py.run_bind_ok hrun]
        rfl
      rw [hout]
      exact .hit rfl hs hstale hlive
  | full msg hno =>
      refine ⟨m, cm, m, hcm, hstop, hrec, ?_⟩
      rw [admitTokens, Py.run_bind_error hrun]
      exact .full msg hno
  | clash msg hs hk hcl =>
      refine ⟨m, cm, m, hcm, hstop, hrec, ?_⟩
      rw [admitTokens, Py.run_bind_error hrun]
      exact .clash msg hs hk hcl
  | insert hk hno =>
      obtain ⟨s', hins, -⟩ := RadixTree.insert_spec hcm.tree (hev.inv hi) (clock 1)
        (aligned_ne_nil hT hbs hk)
      have hstart : (admitTokens bs gpuBlocks clock T).run c = (do
          let _ ← onBoth (RadixTree.insert RadixTree.mintGpu (clock 1) P)
          pure () : Py NodeCache Unit).run cm := by
        rw [admitTokens, Py.run_bind_ok hrun, hT]
        rfl
      rw [← hcm.pool] at hins
      cases hr : (RadixTree.insert RadixTree.mintGpu (clock 1) P).run (cm.tree, cm.pool) with
      | ok ids st =>
          rw [hr] at hins
          obtain ⟨fresh, hpath, hfresh⟩ := hins.path_eq rfl
          refine ⟨m, { cm with tree := st.1, pool := st.2 }, s', ⟨hins.repr, hins.pool_eq⟩,
            ⟨hev, hins.grows⟩, hrec.trans (recorded_of_grows rfl (hev.inv hi) hins.grows), ?_⟩
          rw [hstart, Py.run_bind_ok (run_onBoth_ok hr)]
          exact .inserted cm bs fresh rfl hcm hk hno (hins.node rfl) hpath hfresh
            (hins.kept_prefix rfl)
      | error e st =>
          rw [hr] at hins
          obtain ⟨msg, rfl⟩ : ∃ msg, e = .memoryError msg := by
            have he := hins.error e rfl
            cases e with
            | memoryError msg => exact ⟨msg, rfl⟩
            | _ => simp [PyErr.isMemoryError] at he
          refine ⟨m, { cm with tree := st.1, pool := st.2 }, s', ⟨hins.repr, hins.pool_eq⟩,
            ⟨hev, hins.grows⟩, hrec.trans (recorded_of_grows rfl (hev.inv hi) hins.grows), ?_⟩
          rw [hstart, Py.run_bind_error (run_onBoth_error hr)]
          exact .full msg hno

end Prepare

end NodeCache

end NanoKVRouter
