/-
**What a lookup and a reusable prefix report.**

Both walk the tree along a prompt.  The lookup counts the allocated blocks among the first full
blocks of the walk; the reusable prefix is the run of allocated blocks the walk starts with.

Main definitions:

* `CacheState.head` — the blocks of the first full blocks a walk matches;
* `CacheState.hitBlocks` — the number of allocated blocks among them;
* `CacheState.liveRun` — the allocated blocks a walk starts with.

Main results:

* `BlockPool.length_entries_tiersOf` — `tiers_of` has an entry for each allocated block;
* `NodeCache.run_lookup_of_walk` — the tokens a lookup reports, from what the walk matches;
* `NodeCache.lookup_spec` — **the hit of a lookup**;
* `NodeCache.livePrefixBlockIds_spec` — the reusable prefix.
-/

import Mathlib.Data.List.TakeWhile
import NanoKVRouter.CacheDemotion

set_option relaxedAutoImplicit false
set_option autoImplicit false

/-- Counting one more under a key. -/
theorem PyDict.sum_values_set_getD {κ : Type} [DecidableEq κ] (d : PyDict κ ℕ) (k : κ) :
    (d.set k (d.getD k 0 + 1)).values.sum = d.values.sum + 1 := by
  obtain ⟨es, hnd⟩ := d
  simp only [PyDict.values, PyDict.set, PyDict.getD, PyDict.get?]
  induction es with
  | nil => simp [PyDict.setEntries]
  | cons e es ih =>
      have hes : (es.map Prod.fst).Nodup := (List.nodup_cons.1 hnd).2
      by_cases he : e.1 = k
      · simp [PyDict.setEntries, he]
        omega
      · have h := ih hes
        simp only [PyDict.setEntries, he, if_false, List.map_cons, List.sum_cons,
          List.find?_cons_of_neg, decide_false, Bool.false_eq_true, not_false_eq_true]
        omega

namespace NanoKVRouter

namespace BlockPool

theorem tiersOf_foldl_get? (p : BlockPool) (b : BlockId) : ∀ (ids : List BlockId)
    (d : PyDict BlockId Tier),
    (ids.foldl p.addTier d).get? b = if b ∈ ids ∧ p.live b = true then p.tierOf b else d.get? b := by
  intro ids
  induction ids with
  | nil => simp
  | cons c ids ih =>
      intro d
      rw [List.foldl_cons, ih]
      by_cases hb : b ∈ ids ∧ p.live b = true
      · simp [hb]
      · rw [if_neg hb, addTier]
        cases hc : p.tierOf c with
        | none =>
            have hne : ¬ (b ∈ c :: ids ∧ p.live b = true) := by
              rintro ⟨hmem, hlive⟩
              rcases List.mem_cons.1 hmem with rfl | hmem
              · simp [live, hc] at hlive
              · exact hb ⟨hmem, hlive⟩
            rw [if_neg hne]
        | some t =>
            rw [PyDict.get?_set]
            by_cases hbc : b = c
            · subst hbc
              simp [live, hc]
            · have hiff : (b ∈ c :: ids ∧ p.live b = true) ↔ b ∈ ids ∧ p.live b = true := by
                simp [hbc]
              rw [if_neg hbc, if_neg (hiff.not.2 hb)]

/-- `tiers_of` gives the tier of each allocated block of the list. -/
theorem tiersOf_get? (p : BlockPool) {ids : List BlockId} {b : BlockId} (hb : b ∈ ids) :
    (p.tiersOf ids).get? b = p.tierOf b := by
  rw [tiersOf, tiersOf_foldl_get?]
  by_cases hlive : p.live b = true
  · simp [hb, hlive]
  · rw [Bool.not_eq_true, live_eq_false_iff] at hlive
    simp [live, hlive]

theorem length_tiersOf_foldl (p : BlockPool) : ∀ (ids : List BlockId) (d : PyDict BlockId Tier),
    ids.Nodup → (∀ b ∈ ids, b ∉ d.keys) →
    (ids.foldl p.addTier d).entries.length = d.entries.length + ids.countP p.live := by
  intro ids
  induction ids with
  | nil => simp
  | cons b ids ih =>
      intro d hnd hnew
      obtain ⟨hb, hnd⟩ := List.nodup_cons.1 hnd
      have hbd := hnew b (List.mem_cons_self ..)
      rw [List.foldl_cons, List.countP_cons, addTier]
      cases ht : p.tierOf b with
      | none =>
          rw [ih d hnd fun c hc => hnew c (List.mem_cons_of_mem _ hc)]
          simp [live, ht]
      | some t =>
          have hnew' : ∀ c ∈ ids, c ∉ (d.set b t).keys := by
            intro c hc
            rw [PyDict.mem_keys_set, not_or]
            refine ⟨?_, hnew c (List.mem_cons_of_mem _ hc)⟩
            rintro rfl
            exact hb hc
          have hlen : (d.set b t).entries.length = d.entries.length + 1 := by
            rw [← PyDict.length_keys, PyDict.keys_set, if_neg hbd]
            simp
          rw [ih _ hnd hnew', hlen]
          simp [live, ht]
          omega

/-- **`tiers_of` has an entry for each allocated block.** -/
theorem length_entries_tiersOf (p : BlockPool) {ids : List BlockId} (hnd : ids.Nodup) :
    (p.tiersOf ids).entries.length = ids.countP p.live := by
  rw [tiersOf, length_tiersOf_foldl p ids _ hnd (by simp)]
  simp

/-- `tiers_of` has as many entries as the list exactly if every block is allocated. -/
theorem length_entries_tiersOf_eq_iff (p : BlockPool) {ids : List BlockId} (hnd : ids.Nodup) :
    (p.tiersOf ids).entries.length = ids.length ↔ ∀ b ∈ ids, p.live b = true := by
  rw [length_entries_tiersOf p hnd, List.countP_eq_length]

end BlockPool

/-! ### Counting -/

namespace NodeCache

theorem sum_values_tierCounts_foldl (tiers : PyDict BlockId Tier) : ∀ (bids : List BlockId)
    (d : PyDict Tier ℕ),
    (bids.foldl (countTier tiers) d).values.sum =
      d.values.sum + bids.countP fun b => (tiers.get? b).isSome := by
  intro bids
  induction bids with
  | nil => simp
  | cons b bids ih =>
      intro d
      rw [List.foldl_cons, ih, List.countP_cons, countTier]
      cases hb : tiers.get? b with
      | none => simp
      | some t =>
          simp only [Option.isSome_some, if_true]
          rw [PyDict.sum_values_set_getD]
          omega

/-- The counts of the tiers add up to the number of allocated blocks. -/
theorem sum_values_tierCounts (p : BlockPool) (bids : List BlockId) :
    (tierCounts (p.tiersOf bids) bids).values.sum = bids.countP p.live := by
  rw [tierCounts, sum_values_tierCounts_foldl, PyDict.values_empty, List.sum_nil, Nat.zero_add]
  refine List.countP_congr fun b hb => ?_
  rw [p.tiersOf_get? hb]
  rfl

end NodeCache

/-! ### Lookups -/

namespace CacheState

/-- The blocks of the full blocks matched by the walk along `T`. -/
def head (s : CacheState) (bs : ℕ) (T : List Token) : List BlockId :=
  (s.trie.path T).take (s.trie.matched T / bs)

/-- The number of allocated blocks among them. -/
def hitBlocks (s : CacheState) (bs : ℕ) (T : List Token) : ℕ := (s.head bs T).countP s.pool.live

variable {s : CacheState}

/-- The allocated blocks the walk along `P` starts with, at most `n`. -/
def liveRun (s : CacheState) (P : List Token) (n : ℕ) : List BlockId :=
  ((s.trie.path P).take n).takeWhile s.pool.live

theorem liveRun_prefix (s : CacheState) (P : List Token) (n : ℕ) :
    s.liveRun P n <+: s.trie.path P :=
  (List.takeWhile_prefix _).trans (List.take_prefix _ _)

theorem liveRun_live {P : List Token} {n : ℕ} {b : BlockId} (hb : b ∈ s.liveRun P n) :
    s.pool.live b = true :=
  List.mem_takeWhile_imp hb

theorem length_liveRun_le (s : CacheState) (P : List Token) (n : ℕ) :
    (s.liveRun P n).length ≤ n :=
  ((List.takeWhile_prefix _).length_le).trans (List.length_take_le _ _)

/-- An allocated prefix of the walk is part of the run. -/
theorem prefix_liveRun {P : List Token} {n : ℕ} {R : List BlockId} (hR : R <+: s.trie.path P)
    (hlen : R.length ≤ n) (hlive : ∀ b ∈ R, s.pool.live b = true) : R <+: s.liveRun P n := by
  obtain ⟨rest, hrest⟩ := hR
  rw [liveRun, ← hrest, List.take_append, List.take_of_length_le hlen,
    List.takeWhile_append_of_pos hlive]
  exact List.prefix_append _ _

end CacheState

namespace NodeCache

variable {c : NodeCache} {s : CacheState}

/-- The tokens that a lookup reports, from what the walk along the prompt matches. -/
theorem run_lookup_of_walk {model : ModelConfig} {c c' : NodeCache} {now : Time} {T : List Token}
    {m : ℕ} {path : List BlockId} (hrun : (matchPrefixPath now T).run c = .ok (m, path) c')
    (bw : BandwidthConfig) : ∃ r, (lookup model bw now T).run c = .ok r c' ∧
      r.matchedTokens =
        (path.take (m / model.blockSize)).countP c'.pool.live * model.blockSize := by
  have hsum := sum_values_tierCounts c'.pool (path.take (m / model.blockSize))
  by_cases h0 : m / model.blockSize = 0
  · refine ⟨CacheLookup.miss, ?_, by simp [h0, CacheLookup.miss]⟩
    simp only [lookup, EStateM.run_bind, hrun, h0, if_true]
    rfl
  · rw [← hsum]
    by_cases hzero : (tierCounts (c'.pool.tiersOf (path.take (m / model.blockSize)))
        (path.take (m / model.blockSize))).values.sum = 0
    · refine ⟨CacheLookup.miss, ?_, ?_⟩
      · simp only [lookup, EStateM.run_bind, hrun, h0, if_false, EStateM.run_get, hzero, if_true]
        rfl
      · rw [hzero]
        simp [CacheLookup.miss]
    · exact ⟨_, by
        simp only [lookup, EStateM.run_bind, hrun, h0, if_false, EStateM.run_get, hzero]
        rfl, rfl⟩

/-- **The hit of a lookup**: the allocated blocks among the full blocks of the walk.  The lookup
changes access times only. -/
theorem lookup_spec {model : ModelConfig} (h : c.Represents model.blockSize s)
    (bw : BandwidthConfig) (now : Time) (T : List Token) :
    ∃ r c', (lookup model bw now T).run c = .ok r c' ∧ c'.Represents model.blockSize s ∧
      c'.demotions = c.demotions ∧
      r.matchedTokens = s.hitBlocks model.blockSize T * model.blockSize := by
  obtain ⟨c', hrun, hc', hdem⟩ := run_matchPrefixPath h now T
  obtain ⟨r, hlookup, hr⟩ := run_lookup_of_walk hrun bw
  rw [hc'.pool] at hr
  exact ⟨r, c', hlookup, hc', hdem, hr⟩

/-- **The reusable prefix**: the allocated blocks the walk starts with. -/
theorem livePrefixBlockIds_spec {bs : ℕ} (h : c.Represents bs s) (now : Time) (T : List Token)
    (totalBlocks : ℕ) :
    ∃ c', (livePrefixBlockIds bs now T totalBlocks).run c =
        .ok (s.liveRun T (min (s.trie.matched T / bs) totalBlocks)) c' ∧
      c'.Represents bs s ∧ c'.demotions = c.demotions := by
  obtain ⟨c', hrun, hc', hdem⟩ := run_matchPrefixPath h now T
  refine ⟨c', ?_, hc', hdem⟩
  simp only [livePrefixBlockIds, EStateM.run_bind, hrun, EStateM.run_get, CacheState.liveRun]
  rw [← hc'.pool]
  rfl

end NodeCache

end NanoKVRouter
