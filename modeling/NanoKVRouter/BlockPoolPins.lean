/-
**The pins of a block pool under arbitrary calls.**

A pin of a list of blocks counts each block as often as the list names it, and so does an unpin.
The check of an unpin looks at one element after another before it counts any of them down: it
asks that each block is pinned at all, not that it is pinned as often as the list names it.  A list
that names a block more often than it is pinned passes the check and takes the counts below zero,
and then a later pin of the block does not hold it.

As long as no unpin is of this kind, the counts of a block are the pins that are outstanding, and
they hold it where it is.

Main definitions:

* `PoolCall.pins`, `PoolCall.unpins` — how often a call names a block;
* `BlockPool.returned`, `outstanding` — the calls that returned, and the pins they left;
* `PoolCall.Covered` — an unpin that raises or names no block more often than it is pinned;
* `PinSafe` — what is expected of the pins after some calls.

Main results:

* `PoolCall.counts_of_ok` — what a call does to the counts of a block;
* `BlockPool.held` — **a block with a positive count stays where it is** until it is unpinned as
  often;
* `pins_safe_iff` — **the pins are as expected in every state of a run exactly when every unpin in
  it is covered**.
-/

import NanoKVRouter.BlockPoolCalls

set_option relaxedAutoImplicit false
set_option autoImplicit false

namespace NanoKVRouter

open BlockPool

/-! ### Counting -/

namespace PoolCall

/-- How often a call pins a block. -/
def pins (b : BlockId) : PoolCall → ℕ
  | pin ids => ids.count b
  | _ => 0

/-- How often a call unpins a block. -/
def unpins (b : BlockId) : PoolCall → ℕ
  | unpin ids => ids.count b
  | _ => 0

/-- An unpin raises, or it names no block more often than the block is pinned. -/
def Covered (p : BlockPool) : PoolCall → Prop
  | unpin ids => (∃ b ∈ ids, p.unpinError b ≠ none) ∨ ∀ b ∈ ids, (ids.count b : ℤ) ≤ p.pinCountOf b
  | _ => True

end PoolCall

/-- The calls of a sequence that return. -/
def BlockPool.returned (p : BlockPool) : List PoolCall → List PoolCall
  | [] => []
  | c :: calls =>
      (if (c.call.run p).isOk then [c] else []) ++ returned (c.call.run p).state calls

/-- How often some calls pin a block more than they unpin it. -/
def outstanding (b : BlockId) (calls : List PoolCall) : ℤ :=
  (calls.map (PoolCall.pins b)).sum - (calls.map (PoolCall.unpins b)).sum

namespace BlockPool

variable {p q : BlockPool} {b : BlockId}

theorem returned_append (calls calls' : List PoolCall) :
    p.returned (calls ++ calls') = p.returned calls ++ (p.runCalls calls).returned calls' := by
  induction calls generalizing p with
  | nil => rfl
  | cons c calls ih =>
      rw [List.cons_append, returned, ih, returned, List.append_assoc]
      rfl

theorem returned_singleton (c : PoolCall) :
    p.returned [c] = if (c.call.run p).isOk then [c] else [] :=
  List.append_nil _

/-! ### What a call does to the counts of a block -/

/-- A pin counts every block as often as it is named. -/
theorem counts_foldl_pinOne (ids : List BlockId) (p : BlockPool) :
    (ids.foldl pinOne p).pinCountOf b = p.pinCountOf b + ids.count b ∧
      (ids.foldl pinOne p).refCountOf b = p.refCountOf b + ids.count b := by
  have h := @counts_foldl_repin 1 ids p b
  rwa [one_mul] at h

/-- An unpin counts every block down as often as it is named. -/
theorem counts_foldl_unpinOne (ids : List BlockId) (p : BlockPool) :
    (ids.foldl unpinOne p).pinCountOf b = p.pinCountOf b - ids.count b ∧
      (ids.foldl unpinOne p).refCountOf b = p.refCountOf b - ids.count b := by
  have h := @counts_foldl_repin (-1) ids p b
  rwa [neg_one_mul, ← sub_eq_add_neg, ← sub_eq_add_neg] at h

/-- Forgetting a block leaves the others as they are. -/
theorem get?_dropBlock_of_ne {c : BlockId} (h : c ≠ b) (t : Tier) :
    (p.dropBlock b t).pinCount.get? c = p.pinCount.get? c ∧
      (p.dropBlock b t).refCount.get? c = p.refCount.get? c ∧
      (p.dropBlock b t).tierOf c = p.tierOf c :=
  ⟨PyDict.get?_erase_of_ne _ h, PyDict.get?_erase_of_ne _ h, PyDict.get?_erase_of_ne _ h⟩

/-- A block that is not freed is left as it is. -/
theorem get?_foldl_dropBlock_of_notMem {es : List (BlockId × Tier)} : ∀ {p : BlockPool},
    b ∉ es.map Prod.fst →
    let q := es.foldl (fun q e => q.dropBlock e.1 e.2) p
    q.pinCount.get? b = p.pinCount.get? b ∧ q.refCount.get? b = p.refCount.get? b ∧
      q.tierOf b = p.tierOf b := by
  induction es with
  | nil => exact fun _ => ⟨rfl, rfl, rfl⟩
  | cons e es ih =>
      intro p h
      rw [List.map_cons, List.mem_cons, not_or] at h
      obtain ⟨hpin, href, htier⟩ := ih (p := p.dropBlock e.1 e.2) h.2
      obtain ⟨hpin', href', htier'⟩ := @get?_dropBlock_of_ne p e.1 b h.1 e.2
      exact ⟨hpin.trans hpin', href.trans href', htier.trans htier'⟩

/-- No count is kept of a block that is freed. -/
theorem get?_foldl_dropBlock_of_mem {es : List (BlockId × Tier)} : ∀ {p : BlockPool},
    b ∈ es.map Prod.fst →
    let q := es.foldl (fun q e => q.dropBlock e.1 e.2) p
    q.pinCount.get? b = none ∧ q.refCount.get? b = none := by
  induction es with
  | nil => exact fun h => absurd h List.not_mem_nil
  | cons e es ih =>
      intro p h
      by_cases hes : b ∈ es.map Prod.fst
      · exact ih hes
      · obtain rfl : b = e.1 := (List.mem_cons.1 h).resolve_right hes
        obtain ⟨hpin, href, -⟩ := get?_foldl_dropBlock_of_notMem (p := p.dropBlock e.1 e.2) hes
        exact ⟨hpin.trans (PyDict.get?_erase_self _ _), href.trans (PyDict.get?_erase_self _ _)⟩

/-- A block without an entry has no counts. -/
theorem Accounted.counts_eq_zero (h : p.Accounted) (hb : p.live b = false) :
    p.pinCountOf b = 0 ∧ p.refCountOf b = 0 := by
  obtain ⟨-, href, hpin⟩ := h.not_live hb
  rw [pinCountOf, refCountOf, PyDict.getD, PyDict.getD, PyDict.get?_eq_none_iff.2 href,
    PyDict.get?_eq_none_iff.2 hpin]
  exact ⟨rfl, rfl⟩

end BlockPool

namespace PoolCall

variable {p q : BlockPool} {b : BlockId}

/-- **What a call does to the counts of a block**: they go up by its pins and down by its unpins,
or the block is freed, and then its pin count was not positive. -/
theorem Returns.counts (hp : p.Accounted) {c : PoolCall} (h : Returns p c q) (b : BlockId) :
    (q.pinCountOf b = p.pinCountOf b + (c.pins b - c.unpins b : ℤ) ∧
        q.refCountOf b = p.refCountOf b + (c.pins b - c.unpins b : ℤ)) ∨
      (p.pinCountOf b ≤ 0 ∧ q.pinCountOf b = 0 ∧ q.refCountOf b = 0 ∧ c.pins b = 0 ∧
        c.unpins b = 0) := by
  cases h with
  | @allocate n tier t hn =>
      refine Or.inl ?_
      simp only [pins, unpins, pinCountOf, refCountOf, PyDict.getD, pin_addBlocks, ref_addBlocks]
      by_cases hb : b ∈ p.freshIds n
      · obtain ⟨hpin, href⟩ := hp.counts_eq_zero (hp.fresh_not_live hb)
        rw [pinCountOf, PyDict.getD] at hpin
        rw [refCountOf, PyDict.getD] at href
        simp [hb, hpin, href]
      · simp [hb]
  | @free ids d hd =>
      by_cases hb : b ∈ d.keys
      · obtain ⟨e, he, rfl⟩ := List.mem_map.1 hb
        obtain ⟨hpin, href⟩ := get?_foldl_dropBlock_of_mem (p := p) hb
        refine Or.inr ⟨(hd e he).2, ?_, ?_, rfl, rfl⟩
        · rw [pinCountOf, PyDict.getD, hpin]
          rfl
        · rw [refCountOf, PyDict.getD, href]
          rfl
      · obtain ⟨hpin, href, -⟩ := get?_foldl_dropBlock_of_notMem (p := p) hb
        refine Or.inl ?_
        simp [pins, unpins, pinCountOf, refCountOf, PyDict.getD, hpin, href]
  | moved hc hb hpin hfree =>
      refine Or.inl ?_
      rcases hc with rfl | rfl | rfl <;>
        simp [pins, unpins, pinCountOf, refCountOf, moveBlock, setTier]
  | @pin ids hids =>
      refine Or.inl ?_
      rw [(counts_foldl_pinOne ids p).1, (counts_foldl_pinOne ids p).2]
      simp [pins, unpins]
  | @unpin ids hids =>
      refine Or.inl ?_
      rw [(counts_foldl_unpinOne ids p).1, (counts_foldl_unpinOne ids p).2]
      simp only [pins, unpins]
      omega

/-- **A block with a positive count stays where it is.** -/
theorem Returns.tierOf_eq (hp : p.Accounted) {c : PoolCall} (h : Returns p c q)
    (hb : 0 < p.pinCountOf b) : q.tierOf b = p.tierOf b := by
  have hlive : p.live b = true := by
    by_contra hl
    rw [Bool.not_eq_true] at hl
    exact absurd (hp.counts_eq_zero hl).1 hb.ne'
  cases h with
  | allocate hn =>
      rw [tierOf_addBlocks, if_neg]
      intro hfresh
      rw [hp.fresh_not_live hfresh] at hlive
      cases hlive
  | free hd =>
      refine (get?_foldl_dropBlock_of_notMem fun hmem => ?_).2.2
      obtain ⟨e, he, rfl⟩ := List.mem_map.1 hmem
      exact absurd hb (not_lt.2 (hd e he).2)
  | moved hc hb' hpin hfree =>
      rw [tierOf_moveBlock, if_neg]
      rintro rfl
      exact absurd hb (not_lt.2 hpin)
  | @pin ids hids => exact (repinned_foldl_repin 1 ids p).tierOf_eq b
  | @unpin ids hids => exact (repinned_foldl_repin (-1) ids p).tierOf_eq b

end PoolCall

/-! ### Runs -/

section Runs

variable {p : BlockPool} {b : BlockId}

theorem outstanding_append (calls calls' : List PoolCall) :
    outstanding b (calls ++ calls') = outstanding b calls + outstanding b calls' := by
  simp only [outstanding, List.map_append, List.sum_append, Nat.cast_add]
  omega

theorem outstanding_singleton (c : PoolCall) :
    outstanding b [c] = (c.pins b - c.unpins b : ℤ) := by
  simp [outstanding]

/-- **A block stays where it is until it is unpinned as often as its count says.** -/
theorem BlockPool.held : ∀ {more : List PoolCall} {p : BlockPool}, p.Accounted →
    (((p.returned more).map (PoolCall.unpins b)).sum : ℤ) < p.pinCountOf b →
    (p.runCalls more).tierOf b = p.tierOf b := by
  intro more
  induction more with
  | nil => exact fun _ _ => rfl
  | cons c more ih =>
      intro p hp hlt
      have hrun : p.runCalls (c :: more) = (c.call.run p).state.runCalls more := rfl
      rw [returned, List.map_append, List.sum_append, Nat.cast_add] at hlt
      rcases c.run_call_cases p with ⟨q, hr, hq⟩ | ⟨e, hr⟩
      · rw [hrun, hr]
        rw [hr] at hlt
        change (([c].map (PoolCall.unpins b)).sum : ℤ) +
          (((q.returned more).map (PoolCall.unpins b)).sum : ℤ) < p.pinCountOf b at hlt
        rw [List.map_singleton, List.sum_singleton] at hlt
        have hpos : 0 < p.pinCountOf b := by omega
        rw [← hq.tierOf_eq hp hpos]
        refine ih (p := q) (hq.accounted hp) ?_
        rcases hq.counts hp b with ⟨hpin, -⟩ | ⟨hle, -⟩
        · omega
        · omega
      · rw [hrun, hr]
        rw [hr] at hlt
        change (([] : List PoolCall).map (PoolCall.unpins b)).sum +
          (((p.returned more).map (PoolCall.unpins b)).sum : ℤ) < p.pinCountOf b at hlt
        exact ih hp (by simpa using hlt)

/-- What is expected of the pins of a pool after some calls: both counts of a block agree and are
not negative; an unpin raises and changes nothing, or it counts every block down as often as it is
named; and a block with outstanding pins stays where it is, until it is unpinned as often. -/
structure PinSafe (cfg : NodeConfig) (calls : List PoolCall) : Prop where
  ref_eq_pin : ∀ b, ((BlockPool.init cfg).runCalls calls).refCountOf b =
    ((BlockPool.init cfg).runCalls calls).pinCountOf b
  nonneg : ∀ b, 0 ≤ ((BlockPool.init cfg).runCalls calls).pinCountOf b
  unpin : ∀ ids,
    (∃ e, (BlockPool.unpin ids).run ((BlockPool.init cfg).runCalls calls) =
      .error e ((BlockPool.init cfg).runCalls calls)) ∨
    ∃ q, (BlockPool.unpin ids).run ((BlockPool.init cfg).runCalls calls) = .ok () q ∧
      ∀ b, q.pinCountOf b = ((BlockPool.init cfg).runCalls calls).pinCountOf b - ids.count b ∧
        q.refCountOf b = ((BlockPool.init cfg).runCalls calls).refCountOf b - ids.count b
  held : ∀ b more,
    ((((BlockPool.init cfg).runCalls calls).returned more).map (PoolCall.unpins b)).sum <
      outstanding b ((BlockPool.init cfg).returned calls) →
    ((BlockPool.init cfg).runCalls calls).live b = true ∧
      (((BlockPool.init cfg).runCalls calls).runCalls more).tierOf b =
        ((BlockPool.init cfg).runCalls calls).tierOf b

/-- The counts of every block are its outstanding pins. -/
structure PinsCounted (p : BlockPool) (calls : List PoolCall) : Prop where
  accounted : p.Accounted
  ref_eq_pin : ∀ b, p.refCountOf b = p.pinCountOf b
  nonneg : ∀ b, 0 ≤ p.pinCountOf b
  pin_eq : ∀ b, p.pinCountOf b = outstanding b calls

/-- **A covered call keeps the counts.** -/
theorem PinsCounted.step {calls : List PoolCall} (h : PinsCounted p calls) {c : PoolCall}
    (hc : c.Covered p) :
    PinsCounted (c.call.run p).state (calls ++ if (c.call.run p).isOk then [c] else []) := by
  rcases c.run_call_cases p with ⟨q, hr, hq⟩ | ⟨e, hr⟩
  · rw [hr]
    change PinsCounted q (calls ++ [c])
    have hcounts : ∀ b, q.pinCountOf b = p.pinCountOf b + (c.pins b - c.unpins b : ℤ) ∧
        q.refCountOf b = p.refCountOf b + (c.pins b - c.unpins b : ℤ) := by
      intro b
      have hnn := h.nonneg b
      have href := h.ref_eq_pin b
      rcases hq.counts h.accounted b with hsame | ⟨hle, hpin, hzero, hpins, hunpins⟩
      · exact hsame
      · rw [hpins, hunpins, hpin, hzero]
        omega
    refine ⟨hq.accounted h.accounted, fun b => ?_, fun b => ?_, fun b => ?_⟩
    · rw [(hcounts b).1, (hcounts b).2, h.ref_eq_pin]
    · rw [(hcounts b).1]
      have hnn := h.nonneg b
      cases c with
      | unpin ids =>
          simp only [PoolCall.pins, PoolCall.unpins]
          have hcover : ∀ b ∈ ids, (ids.count b : ℤ) ≤ p.pinCountOf b := by
            rcases hc with ⟨b', hb', he⟩ | hc
            · -- such an unpin raises
              cases hq with
              | unpin hids => exact absurd (hids b' hb') he
              | moved hmoved => simp at hmoved
            · exact hc
          by_cases hb : b ∈ ids
          · have := hcover b hb
            omega
          · rw [List.count_eq_zero_of_not_mem hb]
            omega
      | _ =>
          simp only [PoolCall.unpins]
          omega
    · rw [(hcounts b).1, h.pin_eq, outstanding_append, outstanding_singleton]
  · rw [hr]
    change PinsCounted p (calls ++ [])
    rw [List.append_nil]
    exact h

/-- The counts are the outstanding pins after calls that are covered. -/
theorem PinsCounted.run (cfg : NodeConfig) : ∀ {calls : List PoolCall},
    (∀ before c, before ++ [c] <+: calls → c.Covered ((BlockPool.init cfg).runCalls before)) →
    PinsCounted ((BlockPool.init cfg).runCalls calls) ((BlockPool.init cfg).returned calls) := by
  intro calls
  induction calls using List.reverseRecOn with
  | nil =>
      have hwf := BlockPool.wf_init cfg
      exact fun _ => ⟨hwf.accounted, hwf.ref_eq_pin, hwf.pin_nonneg, fun _ => rfl⟩
  | append_singleton calls c ih =>
      intro hcovered
      have hbefore := ih fun before c' hpre =>
        hcovered before c' (hpre.trans (List.prefix_append _ _))
      have hstep := hbefore.step (hcovered calls c (List.prefix_refl _))
      rw [returned_append]
      have hrun : (BlockPool.init cfg).runCalls (calls ++ [c]) =
          (c.call.run ((BlockPool.init cfg).runCalls calls)).state := List.foldl_concat ..
      rw [hrun, returned_singleton]
      exact hstep

/-- Counts that are the outstanding pins are as expected. -/
theorem PinsCounted.safe {cfg : NodeConfig} {calls : List PoolCall}
    (h : PinsCounted ((BlockPool.init cfg).runCalls calls) ((BlockPool.init cfg).returned calls)) :
    PinSafe cfg calls := by
  refine ⟨h.ref_eq_pin, h.nonneg, fun ids => ?_, fun b more hlt => ?_⟩
  · rcases run_unpin_cases ids ((BlockPool.init cfg).runCalls calls) with ⟨-, hr⟩ | hr
    · exact Or.inr ⟨_, hr, fun b => counts_foldl_unpinOne ids _⟩
    · exact Or.inl hr
  · rw [← h.pin_eq] at hlt
    have hpos : 0 < ((BlockPool.init cfg).runCalls calls).pinCountOf b := by omega
    refine ⟨?_, BlockPool.held h.accounted hlt⟩
    by_contra hl
    rw [Bool.not_eq_true] at hl
    exact absurd (h.accounted.counts_eq_zero hl).1 hpos.ne'

/-- **The pins are as expected in every state of a run exactly when every unpin in it is
covered**: it raises, or it names no block more often than the block is pinned. -/
theorem pins_safe_iff (cfg : NodeConfig) (calls : List PoolCall) :
    (∀ before, before <+: calls → PinSafe cfg before) ↔
      ∀ before c, before ++ [c] <+: calls → c.Covered ((BlockPool.init cfg).runCalls before) := by
  constructor
  · intro hsafe before c hpre
    cases c with
    | unpin ids =>
        rw [PoolCall.Covered, or_iff_not_imp_left]
        intro hids b hb
        have hnone : ids.findSome? ((BlockPool.init cfg).runCalls before).unpinError = none :=
          List.findSome?_eq_none_iff.2 fun b hb => by_contra fun he => hids ⟨b, hb, he⟩
        have hr : (BlockPool.unpin ids).run ((BlockPool.init cfg).runCalls before) =
            .ok () (ids.foldl unpinOne ((BlockPool.init cfg).runCalls before)) := by
          simp [BlockPool.unpin, hnone]
        -- the counts after the call are not negative
        have hafter := (hsafe _ hpre).nonneg b
        have hrun : (BlockPool.init cfg).runCalls (before ++ [.unpin ids]) =
            ((BlockPool.unpin ids).run ((BlockPool.init cfg).runCalls before)).state :=
          List.foldl_concat ..
        rw [hrun, hr] at hafter
        have hcount := (@counts_foldl_unpinOne b ids ((BlockPool.init cfg).runCalls before)).1
        exact sub_nonneg.1 (hcount ▸ hafter)
    | _ => trivial
  · intro hcovered before hpre
    exact (PinsCounted.run cfg fun before' c hpre' => hcovered before' c (hpre'.trans hpre)).safe

/-- The configuration of a pool with one block on each tier. -/
def onePerTier : NodeConfig :=
  { gpuBlocks := 1, cpuBlocks := 1, diskBlocks := 1, capacity := 1,
    one_le_capacity := Nat.le_refl 1 }

/-- A block that is pinned once is unpinned twice by one list, so that its counts are negative; and
then a pin does not hold it. -/
theorem pins_safe_fails :
    ¬ PinSafe onePerTier [.allocate 1 "gpu", .pin [0], .unpin [0, 0]] ∧
      ((BlockPool.free [0]).run ((BlockPool.init onePerTier).runCalls
        [.allocate 1 "gpu", .pin [0], .unpin [0, 0], .pin [0]])).isOk = true := by
  refine ⟨fun h => ?_, by decide +kernel⟩
  exact absurd (h.nonneg 0) (by decide +kernel)

end Runs

end NanoKVRouter
