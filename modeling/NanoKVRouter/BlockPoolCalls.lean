/-
**The block pool under arbitrary calls.**

The other modules use a pool through the cache manager, which passes it only blocks the tree
owns.  Here the caller is arbitrary: any sequence of the public calls, with any block ids, any
lists (with duplicates, unknown and pinned blocks) and any tier names.  A call checks all its
arguments before it changes anything, so that a call that raises leaves the pool as it was, and a
call that returns keeps the maps and the sets in agreement.

Only the counts themselves can go astray: an `unpin` that names one block twice passes its check
and takes the count below zero.  The accounting does not depend on them.

Main definitions:

* `PoolCall`, `PoolCall.call` — the public calls;
* `BlockPool.runCalls` — the pool after a sequence of calls, whether they return or raise.

Main results:

* `PoolCall.raises_unchanged` — a call that raises changes nothing;
* `PoolCall.keeps_accounted` — any call keeps the accounting;
* `pool_accounting` — **the accounting holds after any sequence of calls**.
-/

import NanoKVRouter.BlockPoolSpec

set_option relaxedAutoImplicit false
set_option autoImplicit false

namespace NanoKVRouter

/-- A call of a public method of the pool that may change it. -/
inductive PoolCall
  | allocate (numBlocks : ℕ) (tier : String)
  | free (blockIds : List BlockId)
  | promote (blockId : BlockId) (fromTier toTier : String)
  | demote (blockId : BlockId) (fromTier toTier : String)
  | move (blockId : BlockId) (fromTier toTier : String)
  | pin (blockIds : List BlockId)
  | unpin (blockIds : List BlockId)
deriving DecidableEq

namespace PoolCall

/-- The call as a computation; the ids an allocation returns are dropped. -/
def call : PoolCall → Py BlockPool Unit
  | allocate n tier => do
      let _ ← BlockPool.allocate n tier
      pure ()
  | free ids => BlockPool.free ids
  | promote b fromTier toTier => BlockPool.promote b fromTier toTier
  | demote b fromTier toTier => BlockPool.demote b fromTier toTier
  | move b fromTier toTier => BlockPool.move b fromTier toTier
  | pin ids => BlockPool.pin ids
  | unpin ids => BlockPool.unpin ids

end PoolCall

namespace BlockPool

/-- The pool after a sequence of calls; a caller goes on after a call that raised. -/
def runCalls (p : BlockPool) (calls : List PoolCall) : BlockPool :=
  calls.foldl (fun q c => (c.call.run q).state) p

/-! ### What a call that returned has done -/

theorem run_requireTier (name : String) (p : BlockPool) :
    (∃ t, (requireTier name).run p = .ok t p) ∨
      ∃ e, (requireTier name).run p = .error e p := by
  rw [requireTier]
  split
  · exact Or.inl ⟨_, rfl⟩
  · exact Or.inr ⟨_, rfl⟩

/-- An allocation hands out fresh ids on a tier with room for them, or leaves the pool alone. -/
theorem run_allocate_cases (n : ℕ) (tier : String) (p : BlockPool) :
    (∃ t, (n : ℤ) ≤ p.freeSlots t ∧
      (allocate n tier).run p = .ok (p.freshIds n) (p.addBlocks n t)) ∨
      ∃ e, (allocate n tier).run p = .error e p := by
  rcases run_requireTier tier p with ⟨t, ht⟩ | ⟨e, he⟩
  · by_cases hn : (n : ℤ) ≤ p.freeSlots t
    · have hn' : ¬ (n : ℤ) > (p.tiers t).free := not_lt.2 hn
      refine Or.inl ⟨t, hn, ?_⟩
      rw [allocate, Py.run_bind_ok ht]
      simp [hn', addBlocks]
      rfl
    · have hn' : (n : ℤ) > (p.tiers t).free := not_le.1 hn
      rw [allocate, Py.run_bind_ok ht]
      exact Or.inr ⟨_, by simp [hn']; rfl⟩
  · exact Or.inr ⟨e, Py.run_bind_error he⟩

/-- A block moves to a tier with a free slot, or the pool is left alone. -/
theorem run_move_cases (b : BlockId) (fromTier toTier : String) (p : BlockPool) :
    (∃ src dst, p.tierOf b = some src ∧ p.pinCountOf b ≤ 0 ∧ 0 < p.freeSlots dst ∧
      (move b fromTier toTier).run p = .ok () (p.moveBlock b src dst)) ∨
      ∃ e, (move b fromTier toTier).run p = .error e p := by
  rcases run_requireTier fromTier p with ⟨src, hsrc⟩ | ⟨e, he⟩
  · rcases run_requireTier toTier p with ⟨dst, hdst⟩ | ⟨e, he⟩
    · rw [move, Py.run_bind_ok hsrc, Py.run_bind_ok hdst]
      by_cases hb : p.tierOf b = some src
      · by_cases hpin : p.pinCountOf b > 0
        · exact Or.inr ⟨_, by simp [hb, hpin]; rfl⟩
        · by_cases hfree : (p.tiers dst).free < 1
          · exact Or.inr ⟨_, by simp [hb, hpin, hfree]; rfl⟩
          · have hfree' : 0 < p.freeSlots dst := by
              simp only [freeSlots]
              omega
            exact Or.inl ⟨src, dst, hb, not_lt.1 hpin, hfree',
              by simp [hb, hpin, hfree, moveBlock]⟩
      · exact Or.inr ⟨_, by simp [hb]; rfl⟩
    · rw [move, Py.run_bind_ok hsrc]
      exact Or.inr ⟨e, Py.run_bind_error he⟩
  · exact Or.inr ⟨e, Py.run_bind_error he⟩

/-- The checking loop of `free` collects the tiers of blocks that are not pinned. -/
theorem checkFree_tiers {p : BlockPool} : ∀ (ids : List BlockId) {acc d : PyDict BlockId Tier},
    (∀ e ∈ acc.entries, p.tierOf e.1 = some e.2 ∧ p.pinCountOf e.1 ≤ 0) →
    p.checkFree acc ids = .ok d →
    ∀ e ∈ d.entries, p.tierOf e.1 = some e.2 ∧ p.pinCountOf e.1 ≤ 0 := by
  intro ids
  induction ids with
  | nil =>
      intro acc d hacc h
      simp only [checkFree, Except.ok.injEq] at h
      exact h ▸ hacc
  | cons b ids ih =>
      intro acc d hacc h
      rw [checkFree] at h
      split at h
      · simp at h
      · split at h
        · simp at h
        · next t ht =>
            split at h
            · simp at h
            · next hpin =>
                refine ih ?_ h
                rintro ⟨c, s⟩ he
                rcases PyDict.mem_entries_set.1 he with ⟨rfl, rfl⟩ | ⟨-, he⟩
                · exact ⟨ht, not_lt.1 hpin⟩
                · exact hacc _ he

theorem run_free_cases (ids : List BlockId) (p : BlockPool) :
    (∃ d : PyDict BlockId Tier,
      (∀ e ∈ d.entries, p.tierOf e.1 = some e.2 ∧ p.pinCountOf e.1 ≤ 0) ∧
      (free ids).run p = .ok () (d.entries.foldl (fun q e => q.dropBlock e.1 e.2) p)) ∨
      ∃ e, (free ids).run p = .error e p := by
  cases h : p.checkFree PyDict.empty ids with
  | ok d => exact Or.inl ⟨d, checkFree_tiers ids (by simp) h, by simp [free, h]⟩
  | error e => exact Or.inr ⟨e, by simp [free, h]⟩

theorem run_pin_cases (ids : List BlockId) (p : BlockPool) :
    ((∀ b ∈ ids, p.live b = true) ∧ (pin ids).run p = .ok () (ids.foldl pinOne p)) ∨
      ∃ e, (pin ids).run p = .error e p := by
  cases h : ids.find? fun b => !p.blockTier.contains b with
  | none =>
      refine Or.inl ⟨fun b hb => ?_, by simp [pin, h]⟩
      have := List.find?_eq_none.1 h b hb
      simpa [live_iff_mem_keys] using this
  | some b => exact Or.inr ⟨_, by simp [pin, h]; rfl⟩

/-- A block that `unpin` has nothing against is allocated. -/
theorem live_of_unpinError {p : BlockPool} {b : BlockId} (h : p.unpinError b = none) :
    p.live b = true := by
  by_contra hl
  have hk : p.blockTier.contains b = false := by
    rw [← Bool.not_eq_true, PyDict.contains_iff, ← live_iff_mem_keys]
    exact hl
  simp [unpinError, hk] at h

theorem run_unpin_cases (ids : List BlockId) (p : BlockPool) :
    ((∀ b ∈ ids, p.unpinError b = none) ∧ (unpin ids).run p = .ok () (ids.foldl unpinOne p)) ∨
      ∃ e, (unpin ids).run p = .error e p := by
  cases h : ids.findSome? p.unpinError with
  | none => exact Or.inl ⟨List.findSome?_eq_none_iff.1 h, by simp [unpin, h]⟩
  | some e => exact Or.inr ⟨e, by simp [unpin, h]⟩

/-! ### The loops of the calls -/

namespace Accounted

theorem foldl_dropBlock : ∀ (es : List (BlockId × Tier)) {p : BlockPool}, p.Accounted →
    (es.map Prod.fst).Nodup → (∀ e ∈ es, p.tierOf e.1 = some e.2) →
    (es.foldl (fun q e => q.dropBlock e.1 e.2) p).Accounted := by
  intro es
  induction es with
  | nil => intro p h _ _; exact h
  | cons e es ih =>
      intro p h hnd hes
      obtain ⟨he, hnd'⟩ := List.nodup_cons.1 hnd
      refine ih (h.dropBlock (hes e List.mem_cons_self)) hnd' ?_
      intro e' he'
      have hne : e'.1 ≠ e.1 := fun heq => he (heq ▸ List.mem_map_of_mem he')
      rw [tierOf_dropBlock, if_neg hne]
      exact hes e' (List.mem_cons_of_mem _ he')

end Accounted

end BlockPool

/-! ### One call, and a sequence of calls -/

namespace PoolCall

open BlockPool

/-- What a call that returns has done to the pool `p`. -/
inductive Returns (p : BlockPool) : PoolCall → BlockPool → Prop
  | allocate {n : ℕ} {tier : String} {t : Tier} (hn : (n : ℤ) ≤ p.freeSlots t) :
      Returns p (allocate n tier) (p.addBlocks n t)
  | free {ids : List BlockId} {d : PyDict BlockId Tier}
      (hd : ∀ e ∈ d.entries, p.tierOf e.1 = some e.2 ∧ p.pinCountOf e.1 ≤ 0) :
      Returns p (free ids) (d.entries.foldl (fun q e => q.dropBlock e.1 e.2) p)
  | moved {c : PoolCall} {b : BlockId} {fromTier toTier : String} {src dst : Tier}
      (hc : c = promote b fromTier toTier ∨ c = demote b fromTier toTier ∨
        c = move b fromTier toTier)
      (hb : p.tierOf b = some src) (hpin : p.pinCountOf b ≤ 0) (hfree : 0 < p.freeSlots dst) :
      Returns p c (p.moveBlock b src dst)
  | pin {ids : List BlockId} (hids : ∀ b ∈ ids, p.live b = true) :
      Returns p (pin ids) (ids.foldl BlockPool.pinOne p)
  | unpin {ids : List BlockId} (hids : ∀ b ∈ ids, p.unpinError b = none) :
      Returns p (unpin ids) (ids.foldl BlockPool.unpinOne p)

/-- A call that returns keeps the accounting. -/
theorem Returns.accounted {p q : BlockPool} {c : PoolCall} (h : Returns p c q)
    (hp : p.Accounted) : q.Accounted := by
  cases h with
  | allocate hn => exact hp.addBlocks hn
  | @free ids d hd =>
      exact Accounted.foldl_dropBlock d.entries hp d.nodup_keys fun e he => (hd e he).1
  | moved hc hb hpin hfree => exact hp.moveBlock hb hfree
  | pin hids => exact hp.foldl_repin 1 hids
  | unpin hids => exact hp.foldl_repin (-1) fun b hb => live_of_unpinError (hids b hb)

/-- A call returns, or it raises and leaves the pool alone. -/
theorem run_call_cases (c : PoolCall) (p : BlockPool) :
    (∃ q, c.call.run p = .ok () q ∧ Returns p c q) ∨ ∃ e, c.call.run p = .error e p := by
  have hmove : ∀ (b : BlockId) (fromTier toTier : String),
      c = promote b fromTier toTier ∨ c = demote b fromTier toTier ∨ c = move b fromTier toTier →
      (∃ q, (BlockPool.move b fromTier toTier).run p = .ok () q ∧ Returns p c q) ∨
        ∃ e, (BlockPool.move b fromTier toTier).run p = .error e p := by
    intro b fromTier toTier hc
    rcases run_move_cases b fromTier toTier p with ⟨src, dst, hb, hpin, hfree, hr⟩ | hr
    · exact Or.inl ⟨_, hr, .moved hc hb hpin hfree⟩
    · exact Or.inr hr
  cases c with
  | allocate n tier =>
      rcases run_allocate_cases n tier p with ⟨t, hn, hr⟩ | ⟨e, hr⟩
      · exact Or.inl ⟨_, Py.run_bind_ok hr, .allocate hn⟩
      · exact Or.inr ⟨e, Py.run_bind_error hr⟩
  | free ids =>
      rcases run_free_cases ids p with ⟨d, hd, hr⟩ | hr
      · exact Or.inl ⟨_, hr, .free hd⟩
      · exact Or.inr hr
  | promote b fromTier toTier => exact hmove b fromTier toTier (Or.inl rfl)
  | demote b fromTier toTier => exact hmove b fromTier toTier (Or.inr (Or.inl rfl))
  | move b fromTier toTier => exact hmove b fromTier toTier (Or.inr (Or.inr rfl))
  | pin ids =>
      rcases run_pin_cases ids p with ⟨hids, hr⟩ | hr
      · exact Or.inl ⟨_, hr, .pin hids⟩
      · exact Or.inr hr
  | unpin ids =>
      rcases run_unpin_cases ids p with ⟨hids, hr⟩ | hr
      · exact Or.inl ⟨_, hr, .unpin hids⟩
      · exact Or.inr hr

/-- **A call that raises leaves the pool as it was.** -/
theorem raises_unchanged (c : PoolCall) {p q : BlockPool} {e : PyErr}
    (h : c.call.run p = .error e q) : q = p := by
  rcases c.run_call_cases p with ⟨q', hr, -⟩ | ⟨e', hr⟩ <;> rw [hr] at h <;> cases h
  rfl

/-- A call keeps the accounting, whether it returns or raises. -/
theorem keeps_accounted (c : PoolCall) {p : BlockPool} (hp : p.Accounted) :
    (c.call.run p).state.Accounted := by
  rcases c.run_call_cases p with ⟨q, hr, hq⟩ | ⟨e, hr⟩ <;> rw [hr]
  · exact hq.accounted hp
  · exact hp

end PoolCall

theorem BlockPool.Accounted.runCalls (calls : List PoolCall) {p : BlockPool} (hp : p.Accounted) :
    (p.runCalls calls).Accounted := by
  induction calls generalizing p with
  | nil => exact hp
  | cons c calls ih => exact ih (c.keeps_accounted hp)

/-- **The accounting of a pool**: after any sequence of calls, successful or not, an allocated
block is in the set of the one tier its entry names, a block without an entry is in no set and has
no counts, no tier is over its capacity, and the next call that raises changes nothing. -/
theorem pool_accounting (cfg : NodeConfig) (calls : List PoolCall) :
    (∀ b t, ((BlockPool.init cfg).runCalls calls).tierOf b = some t →
      ∀ s, b ∈ (((BlockPool.init cfg).runCalls calls).tiers s).allocated ↔ s = t) ∧
    (∀ b, ((BlockPool.init cfg).runCalls calls).tierOf b = none →
      (∀ s, b ∉ (((BlockPool.init cfg).runCalls calls).tiers s).allocated) ∧
        b ∉ ((BlockPool.init cfg).runCalls calls).refCount.keys ∧
        b ∉ ((BlockPool.init cfg).runCalls calls).pinCount.keys) ∧
    (∀ t, ((BlockPool.init cfg).runCalls calls).used t ≤
      (((BlockPool.init cfg).runCalls calls).tiers t).capacity) ∧
    ∀ (c : PoolCall) (e : PyErr) (q : BlockPool),
      c.call.run ((BlockPool.init cfg).runCalls calls) = .error e q →
        q = (BlockPool.init cfg).runCalls calls := by
  have h := (BlockPool.wf_init cfg).accounted.runCalls calls
  refine ⟨?_, fun b hb => h.not_live (BlockPool.live_eq_false_iff.2 hb), h.used_le,
    fun c e q hq => c.raises_unchanged hq⟩
  intro b t hb s
  rw [h.mem_allocated, hb, Option.some.injEq, eq_comm]

end NanoKVRouter
