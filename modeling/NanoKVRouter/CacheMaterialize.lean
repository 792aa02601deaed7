/-
**What a materialization does.**

A materialization pins the run of allocated blocks the walk along the prompt starts with, admits
the prompt if that run is too short, and pins the rest of the path.  Whatever goes wrong, what was
pinned is unpinned, so pins change only by the blocks of the table that is returned.

The run pinned first can reach into the node the purge of the admission severs: then the purge
raises `RuntimeError`.  This happens exactly if the prompt is stale and the first node on its path
with a freed block starts with an allocated one.

Main definitions:

* `CacheState.Collision` — the condition just described;
* `CacheState.Safe` — what every call leaves alone;
* `NodeCache.Materialized` — the ways `materialize` ends.

Main results:

* `CacheState.clash_pin_iff` — **the purge clashes with the pins of the call** exactly in a
  collision;
* `NodeCache.materialize_spec` — **the materialization**.
-/

import NanoKVRouter.CacheAdmit

set_option relaxedAutoImplicit false
set_option autoImplicit false

namespace NanoKVRouter

namespace CacheState

/-! ### What every call leaves alone -/

/-- From `s` to `s'` pinned blocks stay on their tiers and on their walks, and nodes with a pinned
block stay. -/
structure Safe (s s' : CacheState) : Prop where
  inv : s'.Inv
  capacity_eq : ∀ t, (s'.pool.tiers t).capacity = (s.pool.tiers t).capacity
  tierOf_pinned : ∀ b, s.pool.pinned b = true → s'.pool.tierOf b = s.pool.tierOf b
  pinned_sublist : ∀ (R : List BlockId) T, R.Sublist (s.trie.path T) →
    (∀ b ∈ R, s.pool.pinned b = true) → R.Sublist (s'.trie.path T)
  isSome_of_pinned : ∀ l b, b ∈ s.trie.items l → s.pool.pinned b = true → (s'.trie l).isSome

variable {s m s' : CacheState}

theorem Turn.safe (h : Turn s m s') (hi : s.Inv) : Safe s s' where
  inv := h.inv hi
  capacity_eq := h.capacity_eq
  tierOf_pinned := fun _ hb => h.tierOf_pinned hi hb
  pinned_sublist := fun _ _ hR hpin => h.pinned_sublist hi hR hpin
  isSome_of_pinned := fun _ _ hb hp => h.isSome_of_pinned hi hb hp

/-- A call may pin blocks before its turn. -/
theorem Safe.of_pinned {ids : List BlockId} {q : BlockPool} (h : Safe ⟨s.trie, q⟩ s')
    (hq : BlockPool.Pinned s.pool ids q) : Safe s s' := by
  have hpin : ∀ b, s.pool.pinned b = true → q.pinned b = true := by
    intro b hb
    rw [BlockPool.pinned_iff] at hb ⊢
    rw [hq.pin_eq]
    omega
  refine ⟨h.inv, fun t => ?_, fun b hb => ?_, fun R T hR hb => ?_, fun l b hb hp => ?_⟩
  · rw [h.capacity_eq, hq.tiers_eq]
  · rw [h.tierOf_pinned b (hpin b hb), hq.tierOf_eq]
  · exact h.pinned_sublist R T hR fun b hbR => hpin b (hb b hbR)
  · exact h.isSome_of_pinned l b hb (hpin b hp)

/-- It may pin or unpin some after it. -/
theorem Safe.repin {q : BlockPool} (h : Safe s s') (htiers : q.tiers = s'.pool.tiers)
    (htier : ∀ b, q.tierOf b = s'.pool.tierOf b) (hi : (⟨s'.trie, q⟩ : CacheState).Inv) :
    Safe s ⟨s'.trie, q⟩ where
  inv := hi
  capacity_eq := fun t => by rw [← h.capacity_eq, ← htiers]
  tierOf_pinned := fun b hb => (htier b).trans (h.tierOf_pinned b hb)
  pinned_sublist := h.pinned_sublist
  isSome_of_pinned := h.isSome_of_pinned

/-! ### Collisions -/

/-- The prompt is stale, and the first node on its path with a freed block starts with an allocated
one. -/
structure Collision (s : CacheState) (P : List Token) (k : ℕ) : Prop where
  stale : s.Stale P k
  head : ∃ l, s.FirstDead P l ∧ ∃ b, (s.trie.items l).head? = some b ∧ s.pool.live b = true

/-- **The purge clashes with the pins of the call** exactly in a collision. -/
theorem clash_pin_iff {P : List Token} {k : ℕ} {q : BlockPool} (hi : (⟨s.trie, q⟩ : CacheState).Inv)
    (hlive : ∀ b, q.live b = s.pool.live b)
    (hpin : (s.trie P).isSome → ∀ b ∈ s.liveRun P k, q.pinned b = true) :
    (⟨s.trie, q⟩ : CacheState).Clash P k ↔ s.Collision P k := by
  have hstale : (⟨s.trie, q⟩ : CacheState).Stale P k ↔ s.Stale P k :=
    ⟨fun ⟨h1, h2⟩ => ⟨h1, by simpa [hlive] using h2⟩, fun ⟨h1, h2⟩ => ⟨h1, by simpa [hlive] using h2⟩⟩
  have hfirst : ∀ l, (⟨s.trie, q⟩ : CacheState).FirstDead P l ↔ s.FirstDead P l := fun l =>
    ⟨fun ⟨h1, h2, h3, h4⟩ => ⟨h1, h2, by simpa [hlive] using h3, by simpa [hlive] using h4⟩,
      fun ⟨h1, h2, h3, h4⟩ => ⟨h1, h2, by simpa [hlive] using h3, by simpa [hlive] using h4⟩⟩
  constructor
  · rintro ⟨hst, l, hl, b, hb, hp⟩
    refine ⟨hstale.1 hst, l, (hfirst l).1 hl, ?_⟩
    change b ∈ s.trie.items l at hb
    -- the walk to `l` meets the head of its blocks before the pinned one, or it is that one
    have hclosed := hi.pin_closed l
    rw [PathTrie.path_eq_above _ hl.ne_nil, List.pairwise_append] at hclosed
    change _ ∧ (s.trie.items l).Pairwise _ ∧ _ at hclosed
    cases hitems : s.trie.items l with
    | nil =>
        rw [hitems] at hb
        simp at hb
    | cons x xs =>
        refine ⟨x, rfl, ?_⟩
        rw [hitems] at hb hclosed
        rw [← hlive]
        rcases List.mem_cons.1 hb with rfl | hb
        · exact hi.pool_wf.live_of_pinned hp
        · exact (List.pairwise_cons.1 hclosed.2.1).1 b hb hp
  · rintro ⟨hst, l, hl, x, hx, hxlive⟩
    refine ⟨hstale.2 hst, l, (hfirst l).2 hl, x, List.mem_of_head? hx, hpin hst.node x ?_⟩
    obtain ⟨xs, hxs⟩ := List.head?_eq_some_iff.1 hx
    obtain ⟨-, b, hb, hdead⟩ := hst
    have hsplit := PathTrie.path_split_at s.trie hl.ne_nil hl.isPrefix
    rw [hxs] at hsplit
    have hpre : s.trie.above l ++ [x] <+: s.trie.path P := by
      rw [hsplit]
      exact ⟨xs ++ s.trie.below l (P.drop l.length), by simp⟩
    have hall : ∀ c ∈ s.trie.above l ++ [x], s.pool.live c = true := by
      intro c hc
      rcases List.mem_append.1 hc with hc | hc
      · exact hl.above_live c hc
      · rwa [List.mem_singleton.1 hc]
    -- the freed block among the first `k` comes after the head of the node
    have hlen : (s.trie.above l ++ [x]).length ≤ k := by
      by_contra hgt
      have hsub : (s.trie.path P).take k <+: s.trie.above l ++ [x] := by
        refine List.prefix_of_prefix_length_le (List.take_prefix _ _) hpre ?_
        exact (List.length_take_le _ _).trans (not_le.1 hgt).le
      rw [hall b (hsub.subset hb)] at hdead
      simp at hdead
    exact (prefix_liveRun hpre hlen hall).subset (by simp)

end CacheState

/-! ### Pinning in the source's calls -/

namespace NodeCache

variable {c : NodeCache} {s : CacheState} {bs k : ℕ} {P : List Token}

theorem retainBlocks_spec (h : c.Represents bs s) (hi : s.Inv) {ids : List BlockId}
    (hids : ∀ b ∈ ids, s.pool.live b = true) :
    ∃ q, (retainBlocks ids).run c = .ok () { c with pool := q } ∧
      BlockPool.Pinned s.pool ids q := by
  by_cases hnil : ids = []
  · subst hnil
    refine ⟨c.pool, by simp [retainBlocks], ?_⟩
    rw [h.pool]
    exact ⟨hi.pool_wf, fun _ => rfl, by simp, rfl, rfl⟩
  · obtain ⟨q, hrun, hq⟩ := BlockPool.pin_ok hi.pool_wf hids
    rw [← h.pool] at hrun
    refine ⟨q, ?_, hq⟩
    rw [retainBlocks, if_neg hnil]
    exact run_onPool_ok hrun

theorem releaseBlocks_spec (h : c.Represents bs s) (hi : s.Inv) {ids : List BlockId}
    (hnd : ids.Nodup) (hids : ∀ b ∈ ids, s.pool.pinned b = true) :
    ∃ q, (releaseBlocks ids).run c = .ok () { c with pool := q } ∧
      BlockPool.Unpinned s.pool ids q := by
  by_cases hnil : ids = []
  · subst hnil
    refine ⟨c.pool, by simp [releaseBlocks], ?_⟩
    rw [h.pool]
    exact ⟨hi.pool_wf, fun _ => rfl, by simp, rfl, rfl⟩
  · obtain ⟨q, hrun, hq⟩ := BlockPool.unpin_ok hi.pool_wf hnd hids
    rw [← h.pool] at hrun
    refine ⟨q, ?_, hq⟩
    rw [releaseBlocks, if_neg hnil]
    exact run_onPool_ok hrun

theorem run_beside_ok {α : Type} {m : Py NodeCache α} {a : α} {c' : NodeCache}
    (h : m.run c = .ok a c') (R : List BlockId) : (beside m).run (c, R) = .ok a (c', R) :=
  Py.run_onPart_ok h

theorem run_beside_error {α : Type} {m : Py NodeCache α} {e : PyErr} {c' : NodeCache}
    (h : m.run c = .error e c') (R : List BlockId) : (beside m).run (c, R) = .error e (c', R) :=
  Py.run_onPart_error h

/-- The rest of a complete path is pinned. -/
theorem pinPath_ok (h : c.Represents bs s) (hi : s.Inv) (hbs : 0 < bs) (now : Time)
    (hP : P.length = k * bs) (hne : P ≠ []) (hfull : s.Complete P k) (R : List BlockId) :
    ∃ c' q, (pinPath bs now P k).run (c, R) =
        .ok ((s.trie.path P).take k)
          (c', R ++ ((s.trie.path P).take k).filter fun b => b ∉ R) ∧
      c'.Represents bs ⟨s.trie, q⟩ ∧ c'.demotions = c.demotions ∧
      BlockPool.Pinned s.pool (((s.trie.path P).take k).filter fun b => b ∉ R) q := by
  obtain ⟨c₁, hrun₁, hc₁, hdem₁⟩ := run_matchPrefixPath h now P
  have hmatch := (CacheState.le_matched_div_iff hbs hP hne).2 hfull.node
  have hnd := (hi.distinct.path_nodup P).sublist (List.take_sublist k _)
  have hlen : ((s.trie.path P).take k).length = k := by
    rw [List.length_take]
    exact Nat.min_eq_left (h.le_length_path hbs hP hfull.node)
  have hcount : (s.pool.tiersOf ((s.trie.path P).take k)).entries.length = k :=
    ((s.pool.length_entries_tiersOf_eq_iff hnd).2 hfull.live).trans hlen
  have hnew : ∀ b ∈ ((s.trie.path P).take k).filter fun b => b ∉ R, s.pool.live b = true :=
    fun b hb => hfull.live b (List.mem_of_mem_filter hb)
  obtain ⟨q, hrun, hq⟩ := retainBlocks_spec hc₁ hi hnew
  refine ⟨{ c₁ with pool := q }, q, ?_, ⟨hc₁.tree, rfl⟩, hdem₁, hq⟩
  rw [pinPath, Py.run_bind_ok (run_beside_ok hrun₁ R)]
  simp only [if_neg (not_lt.2 hmatch), EStateM.run_bind, EStateM.run_get, hc₁.pool, hcount,
    ne_eq, not_true_eq_false, if_false, run_beside_ok hrun R]
  rfl

/-- An incomplete path is refused. -/
theorem pinPath_error (h : c.Represents bs s) (hi : s.Inv) (hbs : 0 < bs) (now : Time)
    (hP : P.length = k * bs) (hne : P ≠ []) (hfull : ¬ s.Complete P k) (R : List BlockId) :
    ∃ msg c', (pinPath bs now P k).run (c, R) = .error (.memoryError msg) (c', R) ∧
      c'.Represents bs s ∧ c'.demotions = c.demotions := by
  obtain ⟨c₁, hrun₁, hc₁, hdem₁⟩ := run_matchPrefixPath h now P
  by_cases hmatch : s.trie.matched P / bs < k
  · exact ⟨_, c₁, by
      rw [pinPath, Py.run_bind_ok (run_beside_ok hrun₁ R)]
      simp only [if_pos hmatch]
      rfl, hc₁, hdem₁⟩
  · have hnode := (CacheState.le_matched_div_iff hbs hP hne).1 (not_lt.1 hmatch)
    have hnd := (hi.distinct.path_nodup P).sublist (List.take_sublist k _)
    have hlen : ((s.trie.path P).take k).length = k := by
      rw [List.length_take]
      exact Nat.min_eq_left (h.le_length_path hbs hP hnode)
    have hcount : (s.pool.tiersOf ((s.trie.path P).take k)).entries.length ≠ k := fun heq =>
      hfull ⟨hnode, (s.pool.length_entries_tiersOf_eq_iff hnd).1 (heq.trans hlen.symm)⟩
    exact ⟨_, c₁, by
      rw [pinPath, Py.run_bind_ok (run_beside_ok hrun₁ R)]
      simp only [if_neg hmatch, EStateM.run_bind, EStateM.run_get, hc₁.pool, ne_eq, hcount,
        not_false_eq_true, if_true]
      rfl, hc₁, hdem₁⟩

/-! ### The materialization -/

/-- A change of pins is none of the demotion loop's business. -/
theorem recorded_of_pool {c' : NodeCache} {q : BlockPool} (hdem : c'.demotions = c.demotions)
    (hlive : ∀ b, q.tierOf b = s.pool.tierOf b) : Recorded c s c' ⟨s.trie, q⟩ := by
  refine .of_eq hdem (fun hs l b hb => ?_) fun _ _ hl => hl
  change (q.tierOf b).isSome = true
  rw [hlive]
  exact hs l b hb

/-- The admission in the body of the `try` statement, with the run `R` pinned. -/
theorem admitMissing_spec (h : c.Represents bs s) (hi : s.Inv) (hbs : 0 < bs) (gpuBlocks : ℕ)
    (clock : ℕ → Time) (hP : P.length = k * bs) {n : ℕ}
    (hpin : ∀ b ∈ s.liveRun P n, s.pool.pinned b = true) :
    ∃ m c' s', c'.Represents bs s' ∧ CacheState.Turn s m s' ∧ Recorded c s c' s' ∧
      ((admitMissing bs gpuBlocks clock P (s.liveRun P n).length k).run c = .ok () c' ∧
          ¬ s.Clash P k ∧ s.liveRun P n <+: s'.trie.path P ∨
        (∃ msg, (admitMissing bs gpuBlocks clock P (s.liveRun P n).length k).run c =
          .error (.memoryError msg) c' ∧ ¬ s.Clash P k) ∨
        ∃ msg, (admitMissing bs gpuBlocks clock P (s.liveRun P n).length k).run c =
          .error (.runtimeError msg) c' ∧ s.Clash P k) := by
  by_cases hlt : (s.liveRun P n).length < k
  · rw [admitMissing, if_pos hlt]
    obtain ⟨m, c', s', hc', hturn, hrec, hout⟩ := admit_spec h hi hbs gpuBlocks clock
      (alignedTokens_self hbs hP)
    refine ⟨m, c', s', hc', hturn, hrec, ?_⟩
    generalize (admitTokens bs gpuBlocks clock P).run c = r at hout
    cases hout with
    | hit _ hs hstale hcomp =>
        rw [hs]
        exact Or.inl ⟨rfl, fun hcl => hstale hcl.stale, s.liveRun_prefix P n⟩
    | inserted cm bs fresh _ _ _ hno _ hpath _ hkept =>
        refine Or.inl ⟨rfl, hno, ?_⟩
        have h1 := hturn.evicts.pinned_prefix hi (s.liveRun_prefix P n) hpin
        rw [hpath]
        exact (h1.trans hkept).trans (List.prefix_append _ _)
    | full msg hno => exact Or.inr (Or.inl ⟨msg, rfl, hno⟩)
    | clash msg _ _ hcl => exact Or.inr (Or.inr ⟨msg, rfl, hcl⟩)
  · refine ⟨s, c, s, h, ⟨.refl, .refl⟩, .refl c s, Or.inl ⟨?_, ?_, s.liveRun_prefix P n⟩⟩
    · rw [admitMissing, if_neg hlt]
      rfl
    · rintro ⟨⟨-, b, hb, hdead⟩, -⟩
      -- a run of `k` blocks is all of the first `k`
      have hsub : (s.trie.path P).take k <+: s.liveRun P n := by
        refine List.prefix_of_prefix_length_le (List.take_prefix _ _) (s.liveRun_prefix P n) ?_
        exact (List.length_take_le _ _).trans (not_lt.1 hlt)
      rw [CacheState.liveRun_live (hsub.subset hb)] at hdead
      simp at hdead

/-- A list counts as its part in `R` and the rest. -/
theorem count_add_count_filter {α : Type} [DecidableEq α] {R B : List α} (hR : R.Nodup)
    (hB : B.Nodup) (hsub : ∀ x ∈ R, x ∈ B) (x : α) :
    (R ++ B.filter fun y => y ∉ R).count x = B.count x := by
  rw [List.count_append]
  by_cases hxR : x ∈ R
  · have h1 : R.count x = 1 := List.count_eq_one_of_mem hR hxR
    have h2 : B.count x = 1 := List.count_eq_one_of_mem hB (hsub x hxR)
    have h3 : (B.filter fun y => y ∉ R).count x = 0 := by
      rw [List.count_eq_zero]
      simp [hxR]
    omega
  · rw [List.count_eq_zero_of_not_mem hxR, List.count_filter (by simpa using hxR)]
    omega

/-- The reusable prefix is pinned. -/
theorem retainPrefix_spec (h : c.Represents bs s) (hi : s.Inv) (now : Time) (P : List Token) :
    ∃ c' q, (retainPrefix bs now P k).run (c, []) =
        .ok (s.liveRun P (min (s.trie.matched P / bs) k)).length
          (c', s.liveRun P (min (s.trie.matched P / bs) k)) ∧
      c'.Represents bs ⟨s.trie, q⟩ ∧ c'.demotions = c.demotions ∧
      BlockPool.Pinned s.pool (s.liveRun P (min (s.trie.matched P / bs) k)) q := by
  obtain ⟨c₀, hrun₀, hc₀, hdem₀⟩ := livePrefixBlockIds_spec h now P k
  obtain ⟨q, hrun₁, hq⟩ := retainBlocks_spec hc₀ hi fun b hb =>
    CacheState.liveRun_live (n := min (s.trie.matched P / bs) k) (P := P) hb
  refine ⟨{ c₀ with pool := q }, q, ?_, ⟨hc₀.tree, rfl⟩, hdem₀, hq⟩
  rw [retainPrefix, Py.run_bind_ok (run_beside_ok hrun₀ []),
    Py.run_bind_ok (run_beside_ok hrun₁ [])]
  rfl

/-- The ways the body of the `try` statement ends, having pinned the blocks `R`. -/
inductive Tried (s : CacheState) (P : List Token) (k : ℕ) (R : List BlockId) (c' : NodeCache)
    (s' : CacheState) :
    EStateM.Result PyErr (NodeCache × List BlockId) (List BlockId × ℕ) → Prop
  | ok (n : ℕ) : ¬ s.Collision P k → s'.Complete P k →
      (∀ b, R.count b = ((s'.trie.path P).take k).count b) →
      Tried s P k R c' s' (.ok ((s'.trie.path P).take k, n) (c', R))
  | full (msg : String) : ¬ s.Collision P k →
      Tried s P k R c' s' (.error (.memoryError msg) (c', R))
  | collision (msg : String) : s.Collision P k →
      Tried s P k R c' s' (.error (.runtimeError msg) (c', R))

/-- The end of the body: the rest of the path is pinned, or the call gives up. -/
theorem pinPath_tried {c₀ : NodeCache} {s₀ : CacheState} {R : List BlockId}
    (h : c.Represents bs s) (hi : s.Inv) (hbs : 0 < bs) (now : Time) (hP : P.length = k * bs)
    (hne : P ≠ []) (hno : ¬ s₀.Collision P k) (hnd : R.Nodup) (hlen : R.length ≤ k)
    (hR : R <+: s.trie.path P) (hsafe : CacheState.Safe s₀ s) (hrec : Recorded c₀ s₀ c s)
    (hpin : ∀ b, s.pool.pinCountOf b = s₀.pool.pinCountOf b + R.count b) (n : ℕ) :
    ∃ R' c' s', c'.Represents bs s' ∧ CacheState.Safe s₀ s' ∧ Recorded c₀ s₀ c' s' ∧ R'.Nodup ∧
      (∀ b, s'.pool.pinCountOf b = s₀.pool.pinCountOf b + R'.count b) ∧
      Tried s₀ P k R' c' s'
        ((do let ids ← pinPath bs now P k; pure (ids, n) : Py _ _).run (c, R)) := by
  by_cases hfull : s.Complete P k
  · obtain ⟨c', q, hrun, hc', hdem, hq⟩ := pinPath_ok h hi hbs now hP hne hfull R
    have hB : ((s.trie.path P).take k).Nodup :=
      (hi.distinct.path_nodup P).sublist (List.take_sublist _ _)
    have hsub : ∀ b ∈ R, b ∈ (s.trie.path P).take k :=
      fun b hb => (List.prefix_take_iff.2 ⟨hR, hlen⟩).subset hb
    have hcount := count_add_count_filter hnd hB hsub
    refine ⟨R ++ ((s.trie.path P).take k).filter fun b => b ∉ R, c', ⟨s.trie, q⟩, hc',
      hsafe.repin hq.tiers_eq hq.tierOf_eq (hi.pin (List.take_prefix k _) hfull.live
        (fun b hb => List.mem_of_mem_filter hb) hq),
      hrec.trans (recorded_of_pool hdem hq.tierOf_eq), ?_, fun b => ?_, ?_⟩
    · refine List.nodup_append.2 ⟨hnd, hB.filter _, fun a ha b hb hab => ?_⟩
      subst hab
      simp [ha] at hb
    · change q.pinCountOf b = _
      rw [hq.pin_eq, hpin, List.count_append]
      push_cast
      omega
    · rw [Py.run_bind_ok hrun]
      refine .ok n hno ⟨hfull.node, fun b hb => ?_⟩ hcount
      change (q.tierOf b).isSome = true
      rw [hq.tierOf_eq]
      exact hfull.live b hb
  · obtain ⟨msg, c', hrun, hc', hdem⟩ := pinPath_error h hi hbs now hP hne hfull R
    refine ⟨R, c', s, hc', hsafe, hrec.trans (.of_eq hdem id fun _ _ hl => hl), hnd, hpin, ?_⟩
    rw [Py.run_bind_error hrun]
    exact .full msg hno

/-- **The body of the `try` statement**: pins grow by the blocks it has retained. -/
theorem materializeBody_spec (h : c.Represents bs s) (hi : s.Inv) (hbs : 0 < bs) (gpuBlocks : ℕ)
    (clock : ℕ → Time) (hP : P.length = k * bs) (hk : 0 < k) :
    ∃ R c' s', c'.Represents bs s' ∧ CacheState.Safe s s' ∧ Recorded c s c' s' ∧ R.Nodup ∧
      (∀ b, s'.pool.pinCountOf b = s.pool.pinCountOf b + R.count b) ∧
      Tried s P k R c' s' ((materializeBody bs gpuBlocks clock P k).run (c, [])) := by
  have hne := aligned_ne_nil (alignedTokens_self hbs hP) hbs hk
  obtain ⟨c₁, q, hrun₁, hc₁, hdem₁, hq⟩ := retainPrefix_spec (k := k) h hi (clock 0) P
  have hn : min (s.trie.matched P / bs) k ≤ k := Nat.min_le_right _ _
  have hnode : (s.trie P).isSome → min (s.trie.matched P / bs) k = k := fun hnode =>
    Nat.min_eq_right ((CacheState.le_matched_div_iff hbs hP hne).2 hnode)
  generalize min (s.trie.matched P / bs) k = n at hrun₁ hq hn hnode
  have hnd : (s.liveRun P n).Nodup :=
    (hi.distinct.path_nodup P).sublist (s.liveRun_prefix P n).sublist
  have hi₁ := hi.pin (s.liveRun_prefix P n) (fun b hb => CacheState.liveRun_live hb)
    (fun b hb => hb) hq
  have hlive : ∀ b, q.live b = s.pool.live b := fun b => by
    rw [BlockPool.live, hq.tierOf_eq, BlockPool.live]
  have hrun_eq : (⟨s.trie, q⟩ : CacheState).liveRun P n = s.liveRun P n := by
    simp only [CacheState.liveRun, funext hlive]
  have hpinned : ∀ b ∈ s.liveRun P n, q.pinned b = true := by
    intro b hb
    rw [BlockPool.pinned_iff, hq.pin_eq]
    have h1 := hi.pool_wf.pin_nonneg b
    have h2 := List.count_pos_iff.2 hb
    omega
  have hclash : (⟨s.trie, q⟩ : CacheState).Clash P k ↔ s.Collision P k :=
    CacheState.clash_pin_iff hi₁ hlive fun hsome b hb => hpinned b (by rwa [hnode hsome])
  obtain ⟨m, c₂, s₂, hc₂, hturn, hrec₂, hout⟩ := admitMissing_spec hc₁ hi₁ hbs gpuBlocks
    (fun k => clock (k + 2)) hP (by rwa [hrun_eq])
  rw [hrun_eq] at hout
  have hpin₂ : ∀ b, s₂.pool.pinCountOf b = s.pool.pinCountOf b + (s.liveRun P n).count b :=
    fun b => (hturn.pin_eq hi₁ b).trans (hq.pin_eq b)
  have hsafe := (hturn.safe hi₁).of_pinned hq
  have hrec : Recorded c s c₂ s₂ := (recorded_of_pool hdem₁ hq.tierOf_eq).trans hrec₂
  rw [materializeBody, Py.run_bind_ok hrun₁]
  rcases hout with ⟨hr, hno, hprefix⟩ | ⟨msg, hr, hno⟩ | ⟨msg, hr, hcl⟩
  · rw [Py.run_bind_ok (run_beside_ok hr _)]
    exact pinPath_tried hc₂ (hturn.inv hi₁) hbs (clock 1) hP hne (hclash.not.1 hno) hnd
      ((s.length_liveRun_le P n).trans hn) hprefix hsafe hrec hpin₂ _
  · refine ⟨s.liveRun P n, c₂, s₂, hc₂, hsafe, hrec, hnd, hpin₂, ?_⟩
    rw [Py.run_bind_error (run_beside_error hr _)]
    exact .full msg (hclash.not.1 hno)
  · refine ⟨s.liveRun P n, c₂, s₂, hc₂, hsafe, hrec, hnd, hpin₂, ?_⟩
    rw [Py.run_bind_error (run_beside_error hr _)]
    exact .collision msg (hclash.1 hcl)

/-- The ways `materialize` ends: with the first `k` blocks of the path, all allocated and pinned
once more, or in an exception, with all pin counts as they were. -/
inductive Materialized (s : CacheState) (P : List Token) (k : ℕ) (c' : NodeCache)
    (s' : CacheState) : EStateM.Result PyErr NodeCache (List BlockId × ℕ) → Prop
  | ok (n : ℕ) : ¬ s.Collision P k → s'.Complete P k →
      (∀ b, s'.pool.pinCountOf b = s.pool.pinCountOf b + ((s'.trie.path P).take k).count b) →
      Materialized s P k c' s' (.ok ((s'.trie.path P).take k, n) c')
  | full (msg : String) : ¬ s.Collision P k →
      (∀ b, s'.pool.pinCountOf b = s.pool.pinCountOf b) →
      Materialized s P k c' s' (.error (.memoryError msg) c')
  | collision (msg : String) : s.Collision P k →
      (∀ b, s'.pool.pinCountOf b = s.pool.pinCountOf b) →
      Materialized s P k c' s' (.error (.runtimeError msg) c')

/-- The `except` clause unpins what the body has retained. -/
theorem releaseRetained_spec {s₀ : CacheState} {c₀ : NodeCache} {R : List BlockId}
    (h : c.Represents bs s) (hsafe : CacheState.Safe s₀ s) (hrec : Recorded c₀ s₀ c s)
    (hnd : R.Nodup) (hnonneg : ∀ b, 0 ≤ s₀.pool.pinCountOf b)
    (hpin : ∀ b, s.pool.pinCountOf b = s₀.pool.pinCountOf b + R.count b) (e : PyErr) :
    ∃ c' s', c'.Represents bs s' ∧ CacheState.Safe s₀ s' ∧ Recorded c₀ s₀ c' s' ∧
      (releaseRetained e R : Py NodeCache (List BlockId × ℕ)).run c = .error e c' ∧
      ∀ b, s'.pool.pinCountOf b = s₀.pool.pinCountOf b := by
  have hpinned : ∀ b ∈ R, s.pool.pinned b = true := by
    intro b hb
    rw [BlockPool.pinned_iff, hpin]
    have h1 := hnonneg b
    have h2 := List.count_pos_iff.2 hb
    omega
  obtain ⟨q, hrun, hq⟩ := releaseBlocks_spec h hsafe.inv hnd hpinned
  refine ⟨{ c with pool := q }, ⟨s.trie, q⟩, ⟨h.tree, rfl⟩,
    hsafe.repin hq.tiers_eq hq.tierOf_eq (hsafe.inv.unpin hq),
    hrec.trans (recorded_of_pool rfl hq.tierOf_eq), Py.run_bind_ok hrun, fun b => ?_⟩
  change q.pinCountOf b = _
  rw [hq.pin_eq, hpin]
  omega

/-- **The materialization.**  What is pinned stays as it is, and pins change by the blocks of the
returned table only. -/
theorem materialize_spec (h : c.Represents bs s) (hi : s.Inv) (hbs : 0 < bs) (gpuBlocks : ℕ)
    (clock : ℕ → Time) (hP : P.length = k * bs) (hk : 0 < k) :
    ∃ c' s', c'.Represents bs s' ∧ CacheState.Safe s s' ∧ Recorded c s c' s' ∧
      Materialized s P k c' s' ((materialize bs gpuBlocks clock P k).run c) := by
  obtain ⟨R, c₁, s₁, hc₁, hsafe, hrec, hnd, hpin, hout⟩ :=
    materializeBody_spec h hi hbs gpuBlocks clock hP hk
  generalize hbody : (materializeBody bs gpuBlocks clock P k).run (c, []) = r at hout
  cases hout with
  | ok n hno hfull hcount =>
      rw [run_materialize_ok hbody]
      refine ⟨c₁, s₁, hc₁, hsafe, hrec, .ok n hno hfull fun b => ?_⟩
      rw [hpin, hcount]
  | full msg hno =>
      obtain ⟨c', s', hc', hsafe', hrec', hrun, hpins⟩ := releaseRetained_spec hc₁ hsafe hrec hnd
        hi.pool_wf.pin_nonneg hpin (.memoryError msg)
      refine ⟨c', s', hc', hsafe', hrec', ?_⟩
      rw [run_materialize_error hbody, hrun]
      exact .full msg hno hpins
  | collision msg hcol =>
      obtain ⟨c', s', hc', hsafe', hrec', hrun, hpins⟩ := releaseRetained_spec hc₁ hsafe hrec hnd
        hi.pool_wf.pin_nonneg hpin (.runtimeError msg)
      refine ⟨c', s', hc', hsafe', hrec', ?_⟩
      rw [run_materialize_error hbody, hrun]
      exact .collision msg hcol hpins

end NodeCache

end NanoKVRouter
