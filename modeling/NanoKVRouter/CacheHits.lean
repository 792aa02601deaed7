/-
**Hits: what a lookup counts, and what it promises.**

A lookup reports all allocated blocks among the first full blocks it matches on the raw prompt.
What a materialization would reuse is the run of allocated blocks at the start of the walk along
the prompt cut to full blocks.  This module says exactly when the two agree, and exactly when an
admitted prompt is found in full.

Main definitions:

* `NodeCache.walk` — the result of `match_prefix_path`;
* `NodeCache.OneRun` — the allocated blocks the lookup counts are one run, and reusable.

Main results:

* `CacheManager.admit_hit_iff` — **an admitted prompt is found in full** exactly if the insertion
  keeps no freed block among its first blocks;
* `CacheManager.lookup_reusable_iff` — **the hit of a lookup is what is reusable** exactly if the
  blocks it counts are one run.
-/

import NanoKVRouter.CacheRuns

set_option relaxedAutoImplicit false
set_option autoImplicit false

namespace NanoKVRouter

/-! ### Counting along a list -/

/-- The entries with a property among the first `a` are the run at the start of the first `b`
exactly if each of them comes before `b` and after entries with the property only. -/
theorem countP_eq_length_takeWhile_iff {α : Type} (p : α → Bool) : ∀ (l : List α) (a b : ℕ),
    b ≤ a → (((l.take a).countP p = ((l.take b).takeWhile p).length) ↔
      ∀ i x, i < a → l[i]? = some x → p x = true →
        i < b ∧ ∀ j y, j < i → l[j]? = some y → p y = true) := by
  intro l
  induction l with
  | nil => simp
  | cons x l ih =>
      intro a b hba
      cases a with
      | zero =>
          obtain rfl : b = 0 := by omega
          simp
      | succ a =>
          by_cases hx : p x = true
          · cases b with
            | zero =>
                simp only [List.take_succ_cons, List.countP_cons_of_pos hx, List.take_zero,
                  List.takeWhile_nil, List.length_nil, Nat.add_eq_zero_iff, one_ne_zero,
                  and_false, Nat.not_lt_zero, false_and, imp_false, false_iff, not_forall]
                exact ⟨0, x, Nat.succ_pos a, rfl, fun hn => hn hx⟩
            | succ b =>
                rw [List.take_succ_cons, List.take_succ_cons, List.countP_cons_of_pos hx,
                  List.takeWhile_cons_of_pos hx, List.length_cons, Nat.add_right_cancel_iff,
                  ih a b (by omega)]
                constructor
                · intro h i y hi hy hp
                  cases i with
                  | zero => exact ⟨Nat.succ_pos b, fun j z hj => absurd hj (Nat.not_lt_zero j)⟩
                  | succ i =>
                      obtain ⟨h1, h2⟩ := h i y (by omega) hy hp
                      refine ⟨by omega, fun j z hj hz => ?_⟩
                      cases j with
                      | zero =>
                          obtain rfl : x = z := by simpa using hz
                          exact hx
                      | succ j => exact h2 j z (by omega) hz
                · intro h i y hi hy hp
                  obtain ⟨h1, h2⟩ := h (i + 1) y (by omega) hy hp
                  exact ⟨by omega, fun j z hj hz => h2 (j + 1) z (by omega) hz⟩
          · have hrun : ((x :: l).take b).takeWhile p = [] := by
              cases b with
              | zero => simp
              | succ b => rw [List.take_succ_cons, List.takeWhile_cons_of_neg hx]
            rw [hrun, List.take_succ_cons, List.countP_cons_of_neg hx, List.length_nil,
              List.countP_eq_zero]
            constructor
            · intro h i y hi hy hp
              cases i with
              | zero =>
                  obtain rfl : x = y := by simpa using hy
                  exact absurd hp hx
              | succ i =>
                  refine absurd hp (h y ?_)
                  exact List.mem_of_getElem? (i := i) (by
                    rw [List.getElem?_take, if_pos (by omega)]
                    exact hy)
            · intro h y hy hp
              obtain ⟨i, hi⟩ := List.mem_iff_getElem?.1 hy
              rw [List.getElem?_take] at hi
              split at hi
              · rename_i hia
                exact hx ((h (i + 1) y (by omega) hi hp).2 0 x (Nat.succ_pos i) rfl)
              · simp at hi

/-! ### The walk of a prompt -/

namespace NodeCache

/-- The result of `match_prefix_path`: the matched tokens and the blocks of the path.  The clock
does not matter. -/
def walk (c : NodeCache) (T : List Token) : ℕ × List BlockId := (c.tree.matchPrefixPath 0 T).1

theorem Represents.walk_eq {c : NodeCache} {bs : ℕ} {s : CacheState} (h : c.Represents bs s)
    (T : List Token) : c.walk T = (s.trie.matched T, s.trie.path T) := by
  obtain ⟨⟨-, full, hv⟩, -⟩ := h
  obtain ⟨t', -, heq⟩ := hv.matchPrefixPath_eq 0 T
  rw [walk, heq]

theorem run_matchPrefixPath_walk (c : NodeCache) (τ : Time) (T : List Token) :
    (matchPrefixPath τ T).run c =
      .ok (c.walk T) { c with tree := (c.tree.matchPrefixPath τ T).2 } := by
  rw [walk, (RadixTree.SameShape.refl c.tree).matchPrefixPath_eq τ 0 T]
  rfl

/-- Each allocated block among the first full blocks matched on the raw prompt `T` comes after
allocated blocks only, and among the first full blocks matched on the cut prompt `P`. -/
def OneRun (c : NodeCache) (bs : ℕ) (T P : List Token) : Prop :=
  ∀ i b, i < (c.walk T).1 / bs → (c.walk T).2[i]? = some b → c.pool.live b = true →
    i < (c.walk P).1 / bs ∧
      ∀ j x, j < i → (c.walk T).2[j]? = some x → c.pool.live x = true

end NodeCache

/-! ### Full hits -/

namespace CacheState

variable {s : CacheState} {c : NodeCache} {bs k : ℕ} {T P : List Token}

/-- A prompt with `k` full blocks matches no more. -/
theorem matched_div_le (hT : NodeCache.alignedTokens bs T = (P, k)) (hbs : 0 < bs) :
    s.trie.matched T / bs ≤ k := by
  have h1 := s.trie.matched_le T
  have h2 := NodeCache.length_lt_aligned hT hbs
  have h3 : s.trie.matched T < (k + 1) * bs := by
    rw [Nat.succ_mul]
    omega
  exact Nat.lt_succ_iff.1 (Nat.div_lt_of_lt_mul (by rwa [Nat.mul_comm]))

/-- **A prompt in the tree is found in full** exactly if its first blocks are allocated. -/
theorem hitBlocks_eq_iff (h : c.Represents bs s) (hbs : 0 < bs)
    (hT : NodeCache.alignedTokens bs T = (P, k)) (hnode : (s.trie P).isSome) :
    s.hitBlocks bs T = k ↔ ∀ b ∈ (s.trie.path P).take k, s.pool.live b = true := by
  have hP := NodeCache.length_aligned hT
  have hle := PathTrie.le_matched (NodeCache.aligned_prefix hT) hnode
  have hk : s.trie.matched T / bs = k := by
    refine le_antisymm (matched_div_le hT hbs) ?_
    rw [Nat.le_div_iff_mul_le hbs, ← hP]
    exact hle
  have hlen := h.le_length_path hbs hP hnode
  obtain ⟨rest, hrest⟩ := s.trie.path_prefix (NodeCache.aligned_prefix hT)
  have hhead : (s.trie.path T).take k = (s.trie.path P).take k := by
    rw [← hrest, List.take_append_of_le_length hlen]
  have htake : ((s.trie.path P).take k).length = k := by
    rw [List.length_take]
    exact Nat.min_eq_left hlen
  rw [hitBlocks, head, hk, hhead, ← List.countP_eq_length, htake]

end CacheState

namespace CacheManager

/-- A lookup of the prompt on the node reports all its full blocks. -/
def FoundInFull (cm : CacheManager) (n : NodeId) (T : List Token) : Prop :=
  ∀ (now : Time) (request : Request), request.tokenIds = T →
    ∃ r cm', (lookup now request n).run cm = .ok r cm' ∧
      r.matchedTokens = T.length / cm.model.blockSize * cm.model.blockSize

section Hits

variable {cm : CacheManager} {n : NodeId} {c : NodeCache} {s : CacheState}

/-- The lookup on a known node returns the hit of its abstract cache. -/
theorem run_lookup (hc : cm.caches.get? n = some c) (hs : c.Represents cm.model.blockSize s)
    (now : Time) (request : Request) :
    ∃ r cm', (lookup now request n).run cm = .ok r cm' ∧
      r.matchedTokens =
        s.hitBlocks cm.model.blockSize request.tokenIds * cm.model.blockSize := by
  obtain ⟨r, c', hrun, -, -, hr⟩ := NodeCache.lookup_spec hs cm.bandwidth now request.tokenIds
  refine ⟨r, cm.update n c' cm.blockTables, ?_, hr⟩
  change (onNode n (NodeCache.lookup cm.model cm.bandwidth now request.tokenIds)).run cm = _
  rw [run_onNode _ hc, hrun]

theorem foundInFull_iff (hc : cm.caches.get? n = some c)
    (hs : c.Represents cm.model.blockSize s) (T : List Token) :
    cm.FoundInFull n T ↔ s.hitBlocks cm.model.blockSize T = T.length / cm.model.blockSize := by
  have hbs := cm.model.one_le_blockSize
  constructor
  · intro h
    obtain ⟨r, cm', hrun, hr⟩ := h 0 ⟨"", T, 0, 0, 0, 0⟩ rfl
    obtain ⟨r', cm'', hrun', hr'⟩ := run_lookup hc hs 0 ⟨"", T, 0, 0, 0, 0⟩
    rw [hrun, EStateM.Result.ok.injEq] at hrun'
    rw [hrun'.1, hr'] at hr
    exact Nat.eq_of_mul_eq_mul_right hbs hr
  · intro h now request hT
    obtain ⟨r, cm', hrun, hr⟩ := run_lookup hc hs now request
    exact ⟨r, cm', hrun, by rw [hr, hT, h]⟩

/-- What a lookup of a prompt that is found in full returns. -/
theorem FoundInFull.matchedTokens_eq {T : List Token} (h : cm.FoundInFull n T) :
    ((lookup 0 ⟨"", T, 0, 0, 0, 0⟩ n).run cm).value?.map CacheLookup.matchedTokens =
      some (T.length / cm.model.blockSize * cm.model.blockSize) := by
  obtain ⟨r, cm', hrun, hr⟩ := h 0 ⟨"", T, 0, 0, 0, 0⟩ rfl
  rw [hrun, ← hr]
  rfl

/-- A manager of one node, for runs on fixed inputs. -/
def oneNode (model : ModelConfig) (gpu cpu disk : ℕ) : CacheManager :=
  init ["n"] model
    { NodeConfig.defaults with gpuBlocks := gpu, cpuBlocks := cpu, diskBlocks := disk } .defaults

/-- An admission on that node at a time that stands still. -/
def Op.admitAt (now : Time) (T : List Token) : Op := .admitTokens (fun _ => now) T "n"

/-- Every token is a block. -/
def unitBlocks : ModelConfig :=
  { ModelConfig.defaults with blockSize := 1, one_le_blockSize := Nat.one_pos }

/-- Two tokens are a block. -/
def pairBlocks : ModelConfig :=
  { ModelConfig.defaults with blockSize := 2, one_le_blockSize := Nat.two_pos }

/-! ### Admitted prompts -/

/-- The first blocks of the path after an insertion are allocated exactly if the kept ones among them
were when it started. -/
theorem live_path_iff {c₁ : NodeCache} {m s' : CacheState} {bs : ℕ} {P : List Token}
    {fresh : List BlockId} (h : c₁.Represents bs m) (hi : m.Inv) (hgrows : CacheState.Grows m s')
    (hpath : s'.trie.path P = c₁.tree.keptBlocks P ++ fresh)
    (hfresh : ∀ b ∈ fresh, s'.pool.live b = true) {k : ℕ} :
    (∀ b ∈ (s'.trie.path P).take k, s'.pool.live b = true) ↔
      ∀ b ∈ (c₁.tree.keptBlocks P).take k, c₁.pool.live b = true := by
  -- the kept blocks belong to the tree before the insertion, which frees nothing
  have hlive : ∀ b ∈ c₁.tree.keptBlocks P, s'.pool.live b = c₁.pool.live b := by
    intro b hb
    obtain ⟨⟨-, full, hv⟩, hpool⟩ := h
    obtain ⟨l, hl⟩ := hv.mem_keptLoop _ (RadixTree.member_root _) hb
    have hmem : b ∈ m.trie.path l := by
      have hne : l ≠ [] := by
        rintro rfl
        rw [PathTrie.items_of_none hi.root_none] at hl
        simp at hl
      exact PathTrie.mem_path.2 ⟨l, hne, List.prefix_refl l, hl⟩
    rw [hgrows.live_of_mem_path hi hmem, hpool]
  rw [hpath, List.take_append]
  constructor
  · intro hall b hb
    rw [← hlive b (List.mem_of_mem_take hb)]
    exact hall b (List.mem_append_left _ hb)
  · intro hall b hb
    rcases List.mem_append.1 hb with hb | hb
    · rw [hlive b (List.mem_of_mem_take hb)]
      exact hall b hb
    · exact hfresh b (List.mem_of_mem_take hb)

/-- An admitted prompt is found in full exactly if no block the insertion keeps among its first
blocks is freed when the insertion starts. -/
theorem admit_hit_iff {nodeIds : List NodeId} {model : ModelConfig} {nodeConfig : NodeConfig}
    {bandwidth : BandwidthConfig} (h : Reachable nodeIds model nodeConfig bandwidth cm)
    (hc : cm.caches.get? n = some c) (clock : ℕ → Time) (T : List Token)
    (hok : ((admitTokens clock T n).run cm).isOk = true) :
    ((admitTokens clock T n).run cm).state.FoundInFull n T ↔
      ∀ c₁, (NodeCache.admitPrepare cm.model.blockSize cm.nodeConfig.gpuBlocks clock T).run c =
          .ok true c₁ →
        ∀ b ∈ (c₁.tree.keptBlocks (NodeCache.alignedTokens cm.model.blockSize T).1).take
          (T.length / cm.model.blockSize), c₁.pool.live b = true := by
  obtain ⟨s, hs⟩ := h.inv.node n c hc
  have hbs := cm.model.one_le_blockSize
  have hT : NodeCache.alignedTokens cm.model.blockSize T =
    ((NodeCache.alignedTokens cm.model.blockSize T).1, T.length / cm.model.blockSize) := rfl
  generalize (NodeCache.alignedTokens cm.model.blockSize T).1 = P at hT ⊢
  obtain ⟨m, c', s', hc', hturn, -, hout⟩ :=
    NodeCache.admit_spec hs.represents hs.inv hbs cm.nodeConfig.gpuBlocks clock hT
  have hrun : (admitTokens clock T n).run cm = (onNode n
      (NodeCache.admitTokens cm.model.blockSize cm.nodeConfig.gpuBlocks clock T)).run cm := rfl
  rw [hrun, run_onNode _ hc] at hok ⊢
  generalize (NodeCache.admitTokens cm.model.blockSize cm.nodeConfig.gpuBlocks clock T).run c = r
    at hout hok ⊢
  have hget : (cm.update n c' cm.blockTables).caches.get? n = some c' := PyDict.get?_set_self ..
  cases hout with
  | full msg hno => simp [EStateM.Result.isOk] at hok
  | clash msg hsame hk hcl => simp [EStateM.Result.isOk] at hok
  | hit hprep hsame hstale hcomp =>
      have hfull : (cm.update n c' cm.blockTables).FoundInFull n T := by
        refine (foundInFull_iff hget hc' T).2 ?_
        change s'.hitBlocks cm.model.blockSize T = T.length / cm.model.blockSize
        rcases Nat.eq_zero_or_pos (T.length / cm.model.blockSize) with h0 | hk
        · have hle := CacheState.matched_div_le (s := s') hT hbs
          rw [h0] at hle ⊢
          rw [CacheState.hitBlocks, CacheState.head, Nat.le_zero.1 hle]
          simp
        · have hcomp := hcomp hk
          rw [← hsame] at hcomp
          exact (CacheState.hitBlocks_eq_iff hc' hbs hT hcomp.node).2 hcomp.live
      refine ⟨fun _ c₁ hc₁ => ?_, fun _ => hfull⟩
      rw [hprep] at hc₁
      simp at hc₁
  | inserted c₁ bs₁ fresh hprep hc₁ hk hno hnode hpath hfresh hkept =>
      have hiff := (foundInFull_iff hget hc' T).trans
        (CacheState.hitBlocks_eq_iff hc' hbs hT hnode)
      rw [live_path_iff hc₁ (hturn.evicts.inv hs.inv) hturn.grows hpath hfresh] at hiff
      refine hiff.trans ⟨fun hall c₂ hc₂ => ?_, fun hall => hall c₁ hprep⟩
      rw [hprep, EStateM.Result.ok.injEq] at hc₂
      obtain rfl := hc₂.2
      exact hall

/-! ### Reusable blocks -/

/-- **The hit of a lookup is what is reusable** exactly if the blocks it counts are one run. -/
theorem lookup_reusable_iff {nodeIds : List NodeId} {model : ModelConfig} {nodeConfig : NodeConfig}
    {bandwidth : BandwidthConfig} (h : Reachable nodeIds model nodeConfig bandwidth cm)
    (hc : cm.caches.get? n = some c) (now now' : Time) (request : Request) (P : List Token) (k : ℕ)
    (hP : NodeCache.alignedTokens cm.model.blockSize request.tokenIds = (P, k)) :
    ∃ r cm' ids c', (lookup now request n).run cm = .ok r cm' ∧
      (NodeCache.livePrefixBlockIds cm.model.blockSize now' P k).run c = .ok ids c' ∧
      (r.matchedTokens = cm.model.blockSize * ids.length ↔
        c.OneRun cm.model.blockSize request.tokenIds P) := by
  obtain ⟨s, hs⟩ := h.inv.node n c hc
  have hbs := cm.model.one_le_blockSize
  obtain ⟨r, cm', hrun, hr⟩ := run_lookup hc hs.represents now request
  obtain ⟨c', hids, -, -⟩ := NodeCache.livePrefixBlockIds_spec hs.represents now' P k
  refine ⟨r, cm', _, c', hrun, hids, ?_⟩
  have hpre := NodeCache.aligned_prefix hP
  have hmk : s.trie.matched P / cm.model.blockSize ≤ k := by
    refine Nat.div_le_of_le_mul ?_
    rw [Nat.mul_comm, ← NodeCache.length_aligned hP]
    exact s.trie.matched_le P
  have hle : s.trie.matched P / cm.model.blockSize ≤
      s.trie.matched request.tokenIds / cm.model.blockSize :=
    Nat.div_le_div_right (s.trie.matched_mono hpre)
  -- on its first blocks the walk along the cut prompt is the walk along the raw one
  have hrun_eq : s.liveRun P (min (s.trie.matched P / cm.model.blockSize) k) =
      ((s.trie.path request.tokenIds).take
        (s.trie.matched P / cm.model.blockSize)).takeWhile s.pool.live := by
    obtain ⟨⟨hb, full, hv⟩, -⟩ := hs.represents
    have hlen : s.trie.matched P / cm.model.blockSize ≤ (s.trie.path P).length := by
      refine Nat.div_le_of_le_mul ?_
      rw [← hb]
      exact hv.matched_le_blocks P
    obtain ⟨rest, hrest⟩ := s.trie.path_prefix hpre
    rw [CacheState.liveRun, Nat.min_eq_left hmk, ← hrest, List.take_append_of_le_length hlen]
  have hiff := countP_eq_length_takeWhile_iff s.pool.live (s.trie.path request.tokenIds) _ _ hle
  rw [hr, hrun_eq, Nat.mul_comm cm.model.blockSize, Nat.mul_left_inj (Nat.pos_iff_ne_zero.1 hbs),
    CacheState.hitBlocks, CacheState.head, hiff, NodeCache.OneRun, hs.represents.walk_eq,
    hs.represents.walk_eq, hs.represents.pool]

/-- Two blocks of the first prompt are on the CPU tier, the other two are freed. -/
def pairHalfFreed : CacheManager :=
  (oneNode pairBlocks 4 2 0).run [.admitAt 1 [1, 2, 3, 4, 5, 6, 7, 8],
    .admitAt 2 [11, 12, 13, 14, 15, 16, 17, 18]]

theorem reachable_pairHalfFreed : Reachable ["n"] pairBlocks
    { gpuBlocks := 4, cpuBlocks := 2, diskBlocks := 0 } .defaults pairHalfFreed :=
  Reachable.init.run _

/-- The raw prompt matches four blocks and ends behind the last full one; two of them are freed. -/
theorem lookup_reusable_iff_halfFreed :
    ∃ c, pairHalfFreed.caches.get? "n" = some c ∧
      (c.walk [1, 2, 3, 4, 5, 6, 7, 8, 9]).2.map c.pool.tierOf =
        [some .cpu, some .cpu, none, none] ∧
      ∃ r cm' ids c', (lookup 3 ⟨"", [1, 2, 3, 4, 5, 6, 7, 8, 9], 0, 0, 0, 0⟩ "n").run pairHalfFreed =
          .ok r cm' ∧
        (NodeCache.livePrefixBlockIds 2 3 [1, 2, 3, 4, 5, 6, 7, 8] 4).run c = .ok ids c' ∧
        (r.matchedTokens = 2 * ids.length ↔
          c.OneRun 2 [1, 2, 3, 4, 5, 6, 7, 8, 9] [1, 2, 3, 4, 5, 6, 7, 8]) := by
  have hstate : (pairHalfFreed.caches.get? "n").map (fun c =>
      (c.walk [1, 2, 3, 4, 5, 6, 7, 8, 9]).2.map c.pool.tierOf) =
        some [some .cpu, some .cpu, none, none] := by decide +kernel
  obtain ⟨c, hc, hwalk⟩ := Option.map_eq_some_iff.1 hstate
  have hbs : pairHalfFreed.model.blockSize = 2 := by decide +kernel
  have hiff := lookup_reusable_iff reachable_pairHalfFreed hc 3 3
    ⟨"", [1, 2, 3, 4, 5, 6, 7, 8, 9], 0, 0, 0, 0⟩ [1, 2, 3, 4, 5, 6, 7, 8] 4
    (by rw [hbs]; decide +kernel)
  rw [hbs] at hiff
  exact ⟨c, hc, hwalk, hiff⟩

/-- Two prompts of two blocks that part at the fourth token leave a node of three tokens, which the
raw prompt of these tokens matches and the cut prompt does not. -/
theorem lookup_reusable_fails :
    Reachable ["n"] pairBlocks { gpuBlocks := 5, cpuBlocks := 0, diskBlocks := 0 } .defaults
        ((oneNode pairBlocks 5 0 0).run [.admitAt 1 [1, 2, 3, 4],
          .admitAt 2 [1, 2, 3, 5]]) ∧
      ((lookup 3 ⟨"", [1, 2, 3], 0, 0, 0, 0⟩ "n").run ((oneNode pairBlocks 5 0 0).run
        [.admitAt 1 [1, 2, 3, 4],
          .admitAt 2 [1, 2, 3, 5]])).value?.map CacheLookup.matchedTokens = some 2 ∧
      ((onNode "n" (NodeCache.livePrefixBlockIds 2 3 [1, 2] 1)).run ((oneNode pairBlocks 5 0 0).run
        [.admitAt 1 [1, 2, 3, 4],
          .admitAt 2 [1, 2, 3, 5]])).value?.map List.length = some 0 :=
  ⟨Reachable.init.run _, by decide +kernel, by decide +kernel⟩

end Hits

end CacheManager

end NanoKVRouter
