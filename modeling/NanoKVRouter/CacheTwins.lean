/-
**Caches that differ in access times only.**

Two such caches go through every call of the manager in the same way, but for the demotion loop of
an admission.  That loop goes the same way too if the trees have the same ages when it starts, and
where it has nothing to do the ages do not matter.

Main definitions:

* `NodeCache.Pair` — caches with related trees and the same pool;
* `NodeCache.SameShape` — the caches differ in access times only;
* `NodeCache.HoldsAll` — the tree matches the prompt in full and all its blocks are allocated;
* `NodeCache.AdmitsAlike` — what makes an admission go the same way on two such caches.

Main results:

* `NodeCache.sim_demotionLoop` — **the demotion loop** on trees with the same ages;
* `NodeCache.leads_admitTokens`, `NodeCache.leads_materialize` — **an admission and a
  materialization** go the same way if they admit alike;
* `NodeCache.sim_lookup` — so does every lookup.
-/

import NanoKVRouter.BlockPoolPins
import NanoKVRouter.CacheHits
import NanoKVRouter.RadixTreeAges

set_option relaxedAutoImplicit false
set_option autoImplicit false

namespace NanoKVRouter

/-! ### What freeing, moving and pinning keep -/

namespace BlockPool

variable {held : BlockId → Prop}

/-- The held blocks are pinned. -/
def Pins (held : BlockId → Prop) (p : BlockPool) : Prop := ∀ b, held b → 0 < p.pinCountOf b

theorem keeps_free_pins (ids : List BlockId) : Py.Keeps (Pins held) (free ids) := by
  intro p hp
  rcases run_free_cases ids p with ⟨d, hd, hrun⟩ | ⟨e, hrun⟩
  · rw [hrun, EStateM.Result.state_ok]
    intro b hb
    have hnot : b ∉ d.entries.map Prod.fst := by
      intro hmem
      obtain ⟨e, he, rfl⟩ := List.mem_map.1 hmem
      exact (hp _ hb).not_ge (hd e he).2
    rw [pinCountOf, PyDict.getD, (get?_foldl_dropBlock_of_notMem hnot).1]
    exact hp b hb
  · rwa [hrun]

theorem keeps_move_pins (b : BlockId) (fromTier toTier : String) :
    Py.Keeps (Pins held) (move b fromTier toTier) := by
  intro p hp
  rcases run_move_cases b fromTier toTier p with ⟨src, dst, -, -, -, hrun⟩ | ⟨e, hrun⟩
  · rw [hrun]
    exact hp
  · rwa [hrun]

theorem keeps_pin_pins (ids : List BlockId) : Py.Keeps (Pins held) (pin ids) := by
  intro p hp
  rcases run_pin_cases ids p with ⟨-, hrun⟩ | ⟨e, hrun⟩
  · rw [hrun, EStateM.Result.state_ok]
    intro b hb
    rw [(counts_foldl_pinOne ids p).1]
    have := hp b hb
    omega
  · rwa [hrun]

/-- An admission of that many blocks demotes nothing: they do not fit into the GPU tier at all, or
there is room for them. -/
def Idle (gpuBlocks totalBlocks : ℕ) (p : BlockPool) : Prop :=
  gpuBlocks < totalBlocks ∨ p.used .gpu + min (totalBlocks + 1) gpuBlocks ≤ gpuBlocks

theorem Idle.mono {p q : BlockPool} {gpuBlocks totalBlocks : ℕ} (h : p.Idle gpuBlocks totalBlocks)
    (hle : q.used .gpu ≤ p.used .gpu) : q.Idle gpuBlocks totalBlocks :=
  h.imp_right fun hp => (Nat.add_le_add_right hle _).trans hp

theorem used_foldl_dropBlock_le (es : List (BlockId × Tier)) (p : BlockPool) (t : Tier) :
    (es.foldl (fun q e => q.dropBlock e.1 e.2) p).used t ≤ p.used t := by
  induction es generalizing p with
  | nil => exact le_rfl
  | cons e es ih =>
      refine (ih _).trans ?_
      simp only [used, TierState.used, dropBlock]
      rcases eq_or_ne t e.2 with rfl | ht
      · rw [Function.update_self]
        exact Finset.card_le_card (Finset.erase_subset _ _)
      · rw [Function.update_of_ne ht]

theorem keeps_free_idle (gpuBlocks totalBlocks : ℕ) (ids : List BlockId) :
    Py.Keeps (Idle gpuBlocks totalBlocks) (free ids) := by
  intro p hp
  rcases run_free_cases ids p with ⟨d, -, hrun⟩ | ⟨e, hrun⟩
  · rw [hrun]
    exact hp.mono (used_foldl_dropBlock_le _ p .gpu)
  · rwa [hrun]

theorem keeps_pin_idle (gpuBlocks totalBlocks : ℕ) (ids : List BlockId) :
    Py.Keeps (Idle gpuBlocks totalBlocks) (pin ids) := by
  intro p hp
  rcases run_pin_cases ids p with ⟨-, hrun⟩ | ⟨e, hrun⟩
  · rw [hrun]
    refine hp.mono ?_
    rw [EStateM.Result.state_ok, used, used, pinOne_eq_repin,
      (repinned_foldl_repin 1 ids p).tiers_eq]
  · rwa [hrun]

/-- `tiers_of` has no more entries than the list has allocated blocks. -/
theorem length_entries_tiersOf_le (p : BlockPool) (ids : List BlockId) :
    (p.tiersOf ids).entries.length ≤ ids.countP p.live := by
  suffices h : ∀ (ids : List BlockId) (d : PyDict BlockId Tier),
      (ids.foldl p.addTier d).entries.length ≤ d.entries.length + ids.countP p.live by
    have hids := h ids PyDict.empty
    rwa [PyDict.entries_empty, List.length_nil, Nat.zero_add] at hids
  intro ids
  induction ids with
  | nil => intro d; exact le_rfl
  | cons b ids ih =>
      intro d
      rw [List.foldl_cons, List.countP_cons, addTier]
      cases hb : p.tierOf b with
      | none => exact (ih d).trans (Nat.add_le_add_left (Nat.le_add_right _ _) _)
      | some t =>
          have hd := ih (d.set b t)
          have hlen := PyDict.length_entries_set d b t
          have hlive : p.live b = true := live_iff.2 ⟨t, hb⟩
          rw [if_pos hlive]
          dsimp only
          split at hlen <;> omega

end BlockPool

namespace NodeCache

variable {α : Type} {K K' : RadixTree → RadixTree → Prop} {P : BlockPool → Prop}
  {held : BlockId → Prop} {now : Time} {aged : Prop}

/-! ### Pairs of caches -/

/-- Caches with related trees and the same pool, which has a property. -/
structure Pair (K : RadixTree → RadixTree → Prop) (P : BlockPool → Prop) (c c' : NodeCache) :
    Prop where
  trees : K c.tree c'.tree
  pool_eq : c'.pool = c.pool
  demotions_eq : c'.demotions = c.demotions
  pool : P c.pool

/-- The caches differ in access times only. -/
def SameShape : NodeCache → NodeCache → Prop := Pair RadixTree.SameShape fun _ => True

theorem SameShape.refl (c : NodeCache) : SameShape c c := ⟨.refl _, rfl, rfl, trivial⟩

theorem SameShape.trans {c c' c'' : NodeCache} (h : SameShape c c') (h' : SameShape c' c'') :
    SameShape c c'' :=
  ⟨h.trees.trans h'.trees, h'.pool_eq.trans h.pool_eq, h'.demotions_eq.trans h.demotions_eq,
    trivial⟩

theorem Pair.sameShape {c c' : NodeCache} (h : Pair K P c c')
    (hK : ∀ t t', K t t' → RadixTree.SameShape t t') : SameShape c c' :=
  ⟨hK _ _ h.trees, h.pool_eq, h.demotions_eq, trivial⟩

theorem sim_onTree {α' : Type} {V : α → α' → Prop} {m : Py RadixTree α} {m' : Py RadixTree α'}
    (hm : Py.Sim K V m m') : Py.Sim (Pair K P) V (onTree m) (onTree m') :=
  hm.onPart (fun _ _ h => h.trees) fun _ _ _ _ h ht => ⟨ht, h.pool_eq, h.demotions_eq, h.pool⟩

theorem sim_onPool {m : Py BlockPool α} (hm : Py.Keeps P m) :
    Py.Sim (Pair K P) Eq (onPool m) (onPool m) := by
  have hpool : Py.Sim (fun p p' => p' = p ∧ P p) Eq m m := by
    rintro p p' ⟨rfl, hp⟩
    have h := hm p' hp
    cases hrun : m.run p' with
    | ok a q =>
        rw [hrun] at h
        exact .ok rfl ⟨rfl, h⟩
    | error e q =>
        rw [hrun] at h
        exact .error e ⟨rfl, h⟩
  exact hpool.onPart (fun _ _ h => ⟨h.pool_eq, h.pool⟩) fun _ _ _ _ h hp =>
    ⟨h.trees, hp.1, h.demotions_eq, hp.2⟩

theorem sim_onBoth {m : Py (RadixTree × BlockPool) α} (hm : Py.Sim (RadixTree.Beside K P) Eq m m) :
    Py.Sim (Pair K P) Eq (onBoth m) (onBoth m) :=
  hm.onPart (fun _ _ h => ⟨h.trees, h.pool_eq, h.pool⟩) fun _ _ _ _ h hs =>
    ⟨hs.1, hs.2.1, h.demotions_eq, hs.2.2⟩

theorem leads_matchPrefixPath {τ : Time} {T : List Token}
    (hK : ∀ t t', K t t' → RadixTree.SameShape t t')
    (hK' : ∀ t t', K t t' → K' (t.matchPrefixPath τ T).2 (t'.matchPrefixPath τ T).2) :
    Py.Leads (Pair K P) (Pair K' P) Eq (matchPrefixPath τ T) (matchPrefixPath τ T) := fun _ _ h =>
  .ok ((hK _ _ h.trees).matchPrefixPath_eq τ τ T).symm
    ⟨hK' _ _ h.trees, h.pool_eq, h.demotions_eq, h.pool⟩

theorem sim_matchPrefixPath (τ : Time) (T : List Token) :
    Py.Sim SameShape Eq (matchPrefixPath τ T) (matchPrefixPath τ T) :=
  leads_matchPrefixPath (fun _ _ h => h) fun _ _ h => h.matchPrefixPath τ τ T

/-! ### The demotion loop -/

section Demotion

variable (hfree : ∀ ids, Py.Keeps P (BlockPool.free ids))
include hfree

theorem sim_freeBlock (bid : BlockId) :
    Py.Sim (Pair (RadixTree.Twins aged held now) P) Eq (freeBlock bid) (freeBlock bid) := by
  refine (sim_onPool (hfree _)).bind_eq fun _ => .get_bind fun c c' h => ?_
  rw [h.pool_eq]
  exact (sim_onTree (RadixTree.sim_purgeBlockIds _ _)).bind_eq fun _ => .pure rfl

variable (hmove : ∀ b s d, Py.Keeps P (BlockPool.move b s d))
include hmove

theorem sim_demoteBlock (bid : BlockId) :
    Py.Sim (Pair (RadixTree.Twins aged held now) P) Eq (demoteBlock bid) (demoteBlock bid) := by
  refine .get_bind fun c c' h => ?_
  rw [h.pool_eq]
  have hfreeBlock : Py.Sim (Pair (RadixTree.Twins aged held now) P) Eq (freeBlock bid)
      (freeBlock bid) := sim_freeBlock hfree bid
  dsimp only
  cases c.pool.tierOf bid with
  | none => exact .pure rfl
  | some current =>
      dsimp only
      split
      · exact .raise _
      · cases current with
        | gpu =>
            dsimp only
            split
            · exact sim_onPool (hmove _ _ _)
            · split
              · exact sim_onPool (hmove _ _ _)
              · exact hfreeBlock
        | cpu =>
            dsimp only
            split
            · exact sim_onPool (hmove _ _ _)
            · exact hfreeBlock
        | disk => exact hfreeBlock

theorem sim_demoteRecorded (bid : BlockId) :
    Py.Sim (Pair (RadixTree.Twins aged held now) P) Eq (demoteRecorded bid)
      (demoteRecorded bid) := by
  refine .get_bind fun c c' h => ?_
  rw [h.pool_eq]
  refine (sim_demoteBlock hfree hmove bid).bind_eq fun _ => .modify fun d d' hd => ?_
  exact ⟨hd.trees, hd.pool_eq, by rw [hd.demotions_eq, hd.pool_eq], hd.pool⟩

variable (hheld : ∀ p, P p → p.Pins held)
include hheld

theorem sim_demoteOnce {τ : Time} (hτ : now ≤ RadixTree.renewedTime τ) (need capacity : ℕ) :
    Py.Sim (Pair (RadixTree.Twins True held now) P) Eq (demoteOnce τ need capacity)
      (demoteOnce τ need capacity) := by
  refine .get_bind fun c c' h => ?_
  rw [h.pool_eq]
  have hpinned : ∀ b, held b → decide (c.pool.pinCountOf b > 0) = true := fun b hb =>
    decide_eq_true (hheld _ h.pool b hb)
  refine (sim_onTree (RadixTree.sim_demoteLru (fun _ => hτ) 1 _ hpinned)).bind_eq fun demoted => ?_
  split
  · exact .raise _
  · exact .forM (fun bids => .forM (sim_demoteRecorded hfree hmove) bids) demoted

/-- **The demotion loop** on trees with the same ages. -/
theorem sim_demotionLoop {clock : ℕ → Time} (hclock : ∀ k, now ≤ RadixTree.renewedTime (clock k))
    (need capacity : ℕ) : ∀ fuel : ℕ,
    Py.Sim (Pair (RadixTree.Twins True held now) P) Eq (demotionLoop clock need capacity fuel)
      (demotionLoop clock need capacity fuel) := by
  intro fuel
  induction fuel with
  | zero => exact .raise _
  | succ fuel ih =>
      refine .get_bind fun c c' h => ?_
      rw [h.pool_eq]
      split
      · exact (sim_demoteOnce hfree hmove hheld (hclock fuel) need capacity).bind_eq fun _ => ih
      · exact .pure rfl

theorem sim_makeRoom {clock : ℕ → Time} (hclock : ∀ k, now ≤ RadixTree.renewedTime (clock k))
    (gpuBlocks totalBlocks : ℕ) :
    Py.Sim (Pair (RadixTree.Twins True held now) P) Eq (makeRoom gpuBlocks clock totalBlocks)
      (makeRoom gpuBlocks clock totalBlocks) := by
  rw [makeRoom]
  split
  · exact .raise _
  · refine .get_bind fun c c' h => ?_
    have hfuel : c'.demotionFuel = c.demotionFuel := by rw [demotionFuel, h.pool_eq, demotionFuel]
    rw [hfuel]
    exact sim_demotionLoop hfree hmove hheld hclock _ _ _

end Demotion

/-- Where there is nothing to demote, the ages do not matter. -/
theorem sim_makeRoom_idle {gpuBlocks totalBlocks : ℕ} (clock : ℕ → Time)
    (hidle : ∀ p, P p → p.Idle gpuBlocks totalBlocks) :
    Py.Sim (Pair K P) Eq (makeRoom gpuBlocks clock totalBlocks)
      (makeRoom gpuBlocks clock totalBlocks) := by
  intro c c' h
  rw [makeRoom]
  split
  · exact .error _ h
  · next hbig =>
      have hfits := (hidle _ h.pool).resolve_left hbig
      simp only [EStateM.run_bind, EStateM.run_get, demotionFuel, demotionLoop, h.pool_eq,
        if_neg (not_lt.2 hfits)]
      exact .ok rfl h

/-! ### Admissions -/

section Admit

variable {bs gpuBlocks k : ℕ} {clock : ℕ → Time} {T aligned : List Token}
  (hfree : ∀ ids, Py.Keeps P (BlockPool.free ids))
include hfree

theorem sim_prepareMatched (hroom : Py.Sim (Pair (RadixTree.Twins aged held now) P) Eq
      (makeRoom gpuBlocks clock k) (makeRoom gpuBlocks clock k)) (path : List BlockId) :
    Py.Sim (Pair (RadixTree.Twins aged held now) P) Eq
      (prepareMatched gpuBlocks clock aligned k path)
      (prepareMatched gpuBlocks clock aligned k path) := by
  refine .get_bind fun c c' h => ?_
  rw [h.pool_eq]
  dsimp only
  split
  · exact .pure rfl
  · refine (sim_onBoth (RadixTree.sim_purgePathWithAnyDead _ hfree aligned)).bind_eq fun _ => ?_
    exact hroom.bind_eq fun _ => .pure rfl

/-- What comes before the insertion goes the same way if the demotion loop does on the trees in
which the prompt has been looked up. -/
theorem leads_admitPrepare (hT : alignedTokens bs T = (aligned, k))
    (hK : ∀ t t', K t t' → RadixTree.SameShape t t')
    (hwalk : ∀ t t', K t t' → RadixTree.Twins aged held now
      (t.matchPrefixPath (clock 0) aligned).2 (t'.matchPrefixPath (clock 0) aligned).2)
    (hroom : Py.Sim (Pair (RadixTree.Twins aged held now) P) Eq
      (makeRoom gpuBlocks (fun j => clock (j + 2)) k)
      (makeRoom gpuBlocks (fun j => clock (j + 2)) k)) :
    Py.Leads (Pair K P) SameShape Eq (admitPrepare bs gpuBlocks clock T)
      (admitPrepare bs gpuBlocks clock T) := by
  simp only [admitPrepare, hT]
  split
  · exact .pure rfl fun _ _ h => h.sameShape hK
  · have hsame : ∀ c c', Pair (RadixTree.Twins aged held now) P c c' → SameShape c c' :=
      fun _ _ h => h.sameShape fun _ _ ht => ht.shape
    refine .bind (leads_matchPrefixPath hK hwalk) ?_ hsame
    rintro ⟨matched, path⟩ _ rfl
    dsimp only
    split
    · exact Py.Leads.mono (sim_prepareMatched hfree hroom path) (fun _ _ h => h) hsame
    · exact Py.Leads.mono (hroom.bind_eq fun _ => .pure rfl) (fun _ _ h => h) hsame

/-- **An admission** goes the same way if the demotion loop does. -/
theorem leads_admitTokens (hT : alignedTokens bs T = (aligned, k))
    (hK : ∀ t t', K t t' → RadixTree.SameShape t t')
    (hwalk : ∀ t t', K t t' → RadixTree.Twins aged held now
      (t.matchPrefixPath (clock 0) aligned).2 (t'.matchPrefixPath (clock 0) aligned).2)
    (hroom : Py.Sim (Pair (RadixTree.Twins aged held now) P) Eq
      (makeRoom gpuBlocks (fun j => clock (j + 2)) k)
      (makeRoom gpuBlocks (fun j => clock (j + 2)) k)) :
    Py.Leads (Pair K P) SameShape Eq (admitTokens bs gpuBlocks clock T)
      (admitTokens bs gpuBlocks clock T) := by
  refine .bind (leads_admitPrepare hfree hT hK hwalk hroom) ?_ fun _ _ h => h
  rintro toInsert _ rfl
  split
  · exact (sim_onBoth (RadixTree.sim_insert (fun _ _ _ => trivial) (clock 1) _)).bind_eq fun _ =>
      .pure rfl
  · exact Py.Sim.pure rfl

end Admit

/-! ### Materializations -/

section Materialize

variable {bs gpuBlocks k : ℕ} {clock : ℕ → Time} {τ : Time} {T aligned : List Token}
  {R R' : NodeCache → NodeCache → Prop} {Q : ℕ → Prop}

/-- Related caches, beside the same list of retained blocks. -/
def Retaining (R : NodeCache → NodeCache → Prop) (s s' : NodeCache × List BlockId) : Prop :=
  R s.1 s'.1 ∧ s'.2 = s.2

theorem leads_beside {V : α → α → Prop} {m : Py NodeCache α} (hm : Py.Leads R R' V m m) :
    Py.Leads (Retaining R) (Retaining R') V (beside m) (beside m) :=
  hm.onPart (fun _ _ h => h.1) fun _ _ _ _ h hc => ⟨hc, h.2⟩

theorem sim_retainBlocks (hpin : ∀ ids, Py.Keeps P (BlockPool.pin ids)) (bids : List BlockId) :
    Py.Sim (Pair K P) Eq (retainBlocks bids) (retainBlocks bids) := by
  rw [retainBlocks]
  split
  · exact .pure rfl
  · exact sim_onPool (hpin bids)

theorem sim_livePrefixBlockIds (hK : ∀ t t', K t t' → RadixTree.SameShape t t')
    (hwalk : ∀ t t', K t t' → K (t.matchPrefixPath τ aligned).2 (t'.matchPrefixPath τ aligned).2) :
    Py.Sim (Pair K P) Eq (livePrefixBlockIds bs τ aligned k)
      (livePrefixBlockIds bs τ aligned k) := by
  refine Py.Sim.bind_eq (leads_matchPrefixPath hK hwalk) fun v => .get_bind fun c c' h => ?_
  rw [h.pool_eq]
  exact .pure rfl

theorem leads_retainPrefix (hlive : Py.Leads R R' (fun l l' => l = l' ∧ Q l.length)
      (livePrefixBlockIds bs τ aligned k) (livePrefixBlockIds bs τ aligned k))
    (hretain : ∀ l, Py.Sim R' Eq (retainBlocks l) (retainBlocks l)) :
    Py.Leads (Retaining R) (Retaining R') (fun n n' => n = n' ∧ Q n)
      (retainPrefix bs τ aligned k) (retainPrefix bs τ aligned k) := by
  refine .bind (leads_beside hlive) ?_ fun _ _ h => h
  rintro l _ ⟨rfl, hl⟩
  have hmodify : Py.Sim (Retaining R') (fun n n' => n = n' ∧ Q n)
      (do
        modify fun s => (s.1, s.2 ++ l)
        pure l.length)
      (do
        modify fun s => (s.1, s.2 ++ l)
        pure l.length) :=
    (Py.Sim.modify fun _ _ h => ⟨h.1, by rw [h.2]⟩).bind_eq fun _ => .pure ⟨rfl, hl⟩
  exact Py.Sim.bind_eq (leads_beside (hretain l)) fun _ => hmodify

theorem sim_pinPath : Py.Sim (Retaining SameShape) Eq (pinPath bs τ aligned k)
    (pinPath bs τ aligned k) := by
  refine Py.Sim.bind_eq (leads_beside (sim_matchPrefixPath τ aligned)) fun v => ?_
  dsimp only
  split
  · exact .raise _
  · refine .get_bind fun s s' h => ?_
    rw [h.1.pool_eq]
    split
    · exact .raise _
    · refine .get_bind fun u u' hu => ?_
      rw [hu.2]
      have hpin : ∀ ids, Py.Sim SameShape Eq (retainBlocks ids) (retainBlocks ids) :=
        sim_retainBlocks fun _ _ _ => trivial
      refine Py.Sim.bind_eq (leads_beside (hpin _)) fun _ => ?_
      exact (Py.Sim.modify fun _ _ hw => ⟨hw.1, by rw [hw.2]⟩).bind_eq fun _ => .pure rfl

theorem leads_materializeBody (hlive : Py.Leads R R' (fun l l' => l = l' ∧ Q l.length)
      (livePrefixBlockIds bs (clock 0) aligned k) (livePrefixBlockIds bs (clock 0) aligned k))
    (hretain : ∀ l, Py.Sim R' Eq (retainBlocks l) (retainBlocks l))
    (hR' : ∀ c c', R' c c' → SameShape c c')
    (hgo : ∀ n, Q n → Py.Leads R' SameShape Eq
      (admitMissing bs gpuBlocks (fun j => clock (j + 2)) aligned n k)
      (admitMissing bs gpuBlocks (fun j => clock (j + 2)) aligned n k)) :
    Py.Leads (Retaining R) (Retaining SameShape) Eq (materializeBody bs gpuBlocks clock aligned k)
      (materializeBody bs gpuBlocks clock aligned k) := by
  refine .bind (leads_retainPrefix hlive hretain) ?_ fun _ _ h => ⟨hR' _ _ h.1, h.2⟩
  rintro n _ ⟨rfl, hn⟩
  refine .bind (leads_beside (hgo n hn)) (fun _ _ _ => ?_) fun _ _ h => h
  exact Py.Sim.bind_eq sim_pinPath fun ids => .pure rfl

theorem sim_releaseBlocks (bids : List BlockId) :
    Py.Sim SameShape Eq (releaseBlocks bids) (releaseBlocks bids) := by
  rw [releaseBlocks]
  split
  · exact .pure rfl
  · exact sim_onPool fun _ _ => trivial

/-- The `except` clause adds nothing that access times decide. -/
theorem leads_materialize_of_body
    (hbody : Py.Leads (Retaining R) (Retaining SameShape) Eq
      (materializeBody bs gpuBlocks clock aligned k)
      (materializeBody bs gpuBlocks clock aligned k)) :
    Py.Leads R SameShape Eq (materialize bs gpuBlocks clock aligned k)
      (materialize bs gpuBlocks clock aligned k) := by
  intro c c' h
  have hrun := hbody (c, []) (c', []) ⟨h, rfl⟩
  cases hr : (materializeBody bs gpuBlocks clock aligned k).run (c, []) with
  | ok r s =>
      cases hr' : (materializeBody bs gpuBlocks clock aligned k).run (c', []) with
      | ok r' s' =>
          rw [hr, hr'] at hrun
          cases hrun with
          | ok hv hs =>
              rw [run_materialize_ok hr, run_materialize_ok hr']
              exact .ok hv hs.1
      | error e s' =>
          rw [hr, hr'] at hrun
          cases hrun
  | error e s =>
      cases hr' : (materializeBody bs gpuBlocks clock aligned k).run (c', []) with
      | ok r' s' =>
          rw [hr, hr'] at hrun
          cases hrun
      | error e' s' =>
          rw [hr, hr'] at hrun
          cases hrun with
          | error e hs =>
              rw [run_materialize_error hr, run_materialize_error hr', hs.2]
              exact ((sim_releaseBlocks s.2).bind_eq fun _ => .raise e) _ _ hs.1

end Materialize

/-! ### Lookups -/

theorem sim_lookup (model : ModelConfig) (bw : BandwidthConfig) (τ : Time) (T : List Token) :
    Py.Sim SameShape Eq (lookup model bw τ T) (lookup model bw τ T) := by
  refine (sim_matchPrefixPath τ T).bind_eq fun v => ?_
  dsimp only
  split
  · exact .pure rfl
  · refine .get_bind fun c c' h => ?_
    rw [h.pool_eq]
    split
    · exact .pure rfl
    · exact .pure rfl

/-- A lookup touches nodes and does nothing else. -/
theorem keeps_lookup (c : NodeCache) (model : ModelConfig) (bw : BandwidthConfig) (τ : Time)
    (T : List Token) : Py.Keeps (SameShape c) (lookup model bw τ T) := by
  have hwalk : Py.Keeps (SameShape c) (matchPrefixPath τ T) := fun d hd =>
    hd.trans ⟨RadixTree.sameShape_matchPrefixPath d.tree τ T, rfl, rfl, trivial⟩
  refine hwalk.bind fun v => ?_
  dsimp only
  split
  · exact .pure _
  · refine Py.Keeps.get.bind fun d => ?_
    split
    · exact .pure _
    · exact .pure _

/-! ### Prompts that are there in full -/

/-- The tree matches the prompt of `k` full blocks in full, and all its blocks are allocated. -/
def HoldsAll (bs : ℕ) (aligned : List Token) (k : ℕ) (c : NodeCache) : Prop :=
  k ≤ (c.walk aligned).1 / bs ∧
    (c.pool.tiersOf ((c.walk aligned).2.take k)).entries.length = k

section Complete

variable {bs gpuBlocks k : ℕ} {T aligned : List Token} {c c' : NodeCache}

theorem SameShape.holdsAll (h : SameShape c c') (hc : c.HoldsAll bs aligned k) :
    c'.HoldsAll bs aligned k := by
  rw [HoldsAll, walk, h.pool_eq, h.trees.matchPrefixPath_eq 0 0 aligned]
  exact hc

/-- Then an admission walks the tree and does nothing else. -/
theorem HoldsAll.run_admitTokens (hc : c.HoldsAll bs aligned k)
    (hT : alignedTokens bs T = (aligned, k)) (gpuBlocks : ℕ) (clock : ℕ → Time) :
    ∃ t', RadixTree.SameShape c.tree t' ∧
      (admitTokens bs gpuBlocks clock T).run c = .ok () { c with tree := t' } := by
  obtain ⟨hmatched, hlive⟩ := hc
  rcases Nat.eq_zero_or_pos k with h0 | hpos
  · have hprepare : (admitPrepare bs gpuBlocks clock T).run c = .ok false c := by
      simp only [admitPrepare, hT, if_pos h0]
      rfl
    refine ⟨c.tree, .refl _, ?_⟩
    rw [admitTokens, Py.run_bind_ok hprepare]
    rfl
  · have hprepare : (admitPrepare bs gpuBlocks clock T).run c =
        .ok false { c with tree := (c.tree.matchPrefixPath (clock 0) aligned).2 } := by
      simp only [admitPrepare, hT, if_neg hpos.ne']
      rw [Py.run_bind_ok (run_matchPrefixPath_walk c (clock 0) aligned)]
      simp only [ge_iff_le, if_pos hmatched, prepareMatched, EStateM.run_bind, EStateM.run_get,
        if_pos hlive]
      rfl
    refine ⟨_, RadixTree.sameShape_matchPrefixPath c.tree (clock 0) aligned, ?_⟩
    rw [admitTokens, Py.run_bind_ok hprepare]
    rfl

/-- Then the reusable prefix is the whole prompt. -/
theorem HoldsAll.run_livePrefixBlockIds (hc : c.HoldsAll bs aligned k) (τ : Time) :
    ((c.walk aligned).2.take k).length = k ∧
      (livePrefixBlockIds bs τ aligned k).run c = .ok ((c.walk aligned).2.take k)
        { c with tree := (c.tree.matchPrefixPath τ aligned).2 } := by
  obtain ⟨hmatched, hlive⟩ := hc
  have hcount := c.pool.length_entries_tiersOf_le ((c.walk aligned).2.take k)
  have hle : ((c.walk aligned).2.take k).countP c.pool.live ≤
      ((c.walk aligned).2.take k).length := List.countP_le_length
  have htake : ((c.walk aligned).2.take k).length ≤ k := List.length_take_le ..
  have hlen : ((c.walk aligned).2.take k).length = k := by omega
  have hall : ∀ b ∈ (c.walk aligned).2.take k, c.pool.live b = true :=
    List.countP_eq_length.1 (by omega)
  refine ⟨hlen, ?_⟩
  rw [livePrefixBlockIds, Py.run_bind_ok (run_matchPrefixPath_walk c τ aligned)]
  simp only [EStateM.run_bind, EStateM.run_get, Nat.min_eq_right hmatched]
  have hwhile : ((c.walk aligned).2.take k).takeWhile (fun b => (c.pool.tierOf b).isSome) =
      (c.walk aligned).2.take k := List.takeWhile_eq_self_iff.2 hall
  rw [hwhile]
  rfl

/-- Caches of one shape stay so when their trees change to others of that shape. -/
theorem SameShape.withTree (h : SameShape c c') {t t' : RadixTree}
    (ht : RadixTree.SameShape c.tree t) (ht' : RadixTree.SameShape c'.tree t') :
    SameShape { c with tree := t } { c' with tree := t' } :=
  ⟨(ht.symm.trans h.trees).trans ht', h.pool_eq, h.demotions_eq, trivial⟩

end Complete

/-! ### What makes an admission go the same way -/

/-- The trees have one shape, and the same ages after a walk along the prompt. -/
def WalkAged (held : BlockId → Prop) (now τ : Time) (aligned : List Token) (t t' : RadixTree) :
    Prop :=
  RadixTree.SameShape t t' ∧ RadixTree.SameAges held now (t.matchPrefixPath τ aligned).2
    (t'.matchPrefixPath τ aligned).2

/-- An earlier walk along the prompt does not matter. -/
theorem WalkAged.walk {τ : Time} {aligned : List Token} {t t' : RadixTree}
    (h : WalkAged held now τ aligned t t') (τ' : Time) :
    WalkAged held now τ aligned (t.matchPrefixPath τ' aligned).2
      (t'.matchPrefixPath τ' aligned).2 := by
  refine ⟨h.1.matchPrefixPath τ' τ' aligned, ?_⟩
  rw [RadixTree.matchPrefixPath_again, RadixTree.matchPrefixPath_again]
  exact h.2

/-- What makes the admission of a prompt of `k` full blocks go the same way on two caches that
differ in access times only: the prompt is there in full; or there is nothing to demote; or, when
the prompt has been looked up at the start of the admission, of any two nodes without a pinned block
the same one is older in both trees, and the access times in which the trees differ lie before those
that the demotion loop sets. -/
inductive AdmitsAlike (bs gpuBlocks : ℕ) (clock : ℕ → Time) (aligned : List Token) (k : ℕ)
    (c c' : NodeCache) : Prop
  | complete : c.HoldsAll bs aligned k → AdmitsAlike bs gpuBlocks clock aligned k c c'
  | idle : c.pool.Idle gpuBlocks k → AdmitsAlike bs gpuBlocks clock aligned k c c'
  | aged (now : Time) : (∀ j, now ≤ RadixTree.renewedTime (clock (j + 2))) →
      RadixTree.SameAges (fun b => 0 < c.pool.pinCountOf b) now
        (c.tree.matchPrefixPath (clock 0) aligned).2
        (c'.tree.matchPrefixPath (clock 0) aligned).2 →
      AdmitsAlike bs gpuBlocks clock aligned k c c'

section

variable {bs gpuBlocks k : ℕ} {clock : ℕ → Time} {T aligned : List Token} {c c' : NodeCache}

theorem leads_admitTokens_idle (hT : alignedTokens bs T = (aligned, k)) (clock : ℕ → Time) :
    Py.Leads (Pair RadixTree.SameShape (BlockPool.Idle gpuBlocks k)) SameShape Eq
      (admitTokens bs gpuBlocks clock T) (admitTokens bs gpuBlocks clock T) := by
  have hwalk : ∀ t t', RadixTree.SameShape t t' → RadixTree.Twins False (fun _ => False) 0
      (t.matchPrefixPath (clock 0) aligned).2 (t'.matchPrefixPath (clock 0) aligned).2 :=
    fun _ _ h => ⟨h.matchPrefixPath _ _ _, False.elim⟩
  exact leads_admitTokens (BlockPool.keeps_free_idle gpuBlocks k) hT (fun _ _ h => h) hwalk
    (sim_makeRoom_idle _ fun _ h => h)

theorem leads_admitTokens_aged (hT : alignedTokens bs T = (aligned, k))
    (hclock : ∀ j, now ≤ RadixTree.renewedTime (clock (j + 2))) :
    Py.Leads (Pair (WalkAged held now (clock 0) aligned) (BlockPool.Pins held)) SameShape Eq
      (admitTokens bs gpuBlocks clock T) (admitTokens bs gpuBlocks clock T) :=
  leads_admitTokens BlockPool.keeps_free_pins hT (fun _ _ h => h.1)
    (fun _ _ h => ⟨h.1.matchPrefixPath _ _ _, fun _ => h.2⟩)
    (sim_makeRoom BlockPool.keeps_free_pins BlockPool.keeps_move_pins (fun _ h => h) hclock _ _)

/-- **An admission** goes the same way on caches that admit the prompt alike. -/
theorem alike_admitTokens (h : SameShape c c') (hT : alignedTokens bs T = (aligned, k))
    (ha : AdmitsAlike bs gpuBlocks clock aligned k c c') :
    Py.Alike SameShape Eq ((admitTokens bs gpuBlocks clock T).run c)
      ((admitTokens bs gpuBlocks clock T).run c') := by
  cases ha with
  | complete hall =>
      obtain ⟨t, ht, hrun⟩ := hall.run_admitTokens hT gpuBlocks clock
      obtain ⟨t', ht', hrun'⟩ := (h.holdsAll hall).run_admitTokens hT gpuBlocks clock
      rw [hrun, hrun']
      exact .ok rfl (h.withTree ht ht')
  | idle hidle =>
      exact leads_admitTokens_idle hT clock c c' ⟨h.trees, h.pool_eq, h.demotions_eq, hidle⟩
  | aged now hclock hages =>
      exact leads_admitTokens_aged hT hclock c c'
        ⟨⟨h.trees, hages⟩, h.pool_eq, h.demotions_eq, fun _ hb => hb⟩

theorem leads_admitMissing {R : NodeCache → NodeCache → Prop}
    (hgo : Py.Leads R SameShape Eq (admitTokens bs gpuBlocks clock aligned)
      (admitTokens bs gpuBlocks clock aligned))
    (hR : ∀ c c', R c c' → SameShape c c') (n : ℕ) :
    Py.Leads R SameShape Eq (admitMissing bs gpuBlocks clock aligned n k)
      (admitMissing bs gpuBlocks clock aligned n k) := by
  rw [admitMissing]
  split
  · exact hgo
  · exact .pure rfl hR

/-- A materialization of a prompt that is not there in full goes the way its admission goes. -/
theorem leads_materialize (hK : ∀ t t', K t t' → RadixTree.SameShape t t')
    (hwalk : ∀ t t', K t t' → K (t.matchPrefixPath (clock 0) aligned).2
      (t'.matchPrefixPath (clock 0) aligned).2)
    (hpin : ∀ ids, Py.Keeps P (BlockPool.pin ids))
    (hgo : Py.Leads (Pair K P) SameShape Eq
      (admitTokens bs gpuBlocks (fun j => clock (j + 2)) aligned)
      (admitTokens bs gpuBlocks (fun j => clock (j + 2)) aligned)) :
    Py.Leads (Pair K P) SameShape Eq (materialize bs gpuBlocks clock aligned k)
      (materialize bs gpuBlocks clock aligned k) := by
  have hR : ∀ c c', Pair K P c c' → SameShape c c' := fun _ _ h => h.sameShape hK
  have hlive : Py.Leads (Pair K P) (Pair K P) (fun l l' => l = l' ∧ True)
      (livePrefixBlockIds bs (clock 0) aligned k) (livePrefixBlockIds bs (clock 0) aligned k) :=
    fun c c' h => (sim_livePrefixBlockIds hK hwalk c c' h).mono (fun _ _ hs => hs) fun _ _ hl =>
      ⟨hl, trivial⟩
  exact leads_materialize_of_body (leads_materializeBody (Q := fun _ => True) hlive
    (sim_retainBlocks hpin) hR fun n _ => leads_admitMissing hgo hR n)

/-- A materialization of a prompt that is there in full admits nothing. -/
theorem leads_materialize_complete :
    Py.Leads (fun c c' => SameShape c c' ∧ c.HoldsAll bs aligned k) SameShape Eq
      (materialize bs gpuBlocks clock aligned k) (materialize bs gpuBlocks clock aligned k) := by
  have hlive : Py.Leads (fun c c' => SameShape c c' ∧ c.HoldsAll bs aligned k) SameShape
      (fun l l' => l = l' ∧ l.length = k)
      (livePrefixBlockIds bs (clock 0) aligned k) (livePrefixBlockIds bs (clock 0) aligned k) := by
    rintro c c' ⟨h, hall⟩
    obtain ⟨hlen, hrun⟩ := hall.run_livePrefixBlockIds (clock 0)
    obtain ⟨-, hrun'⟩ := (h.holdsAll hall).run_livePrefixBlockIds (clock 0)
    have hwalk : c'.walk aligned = c.walk aligned := h.trees.matchPrefixPath_eq 0 0 aligned
    rw [hrun, hrun', hwalk]
    exact .ok ⟨rfl, hlen⟩ (h.withTree (RadixTree.sameShape_matchPrefixPath ..)
      (RadixTree.sameShape_matchPrefixPath ..))
  have hskip : ∀ n, n = k → Py.Leads SameShape SameShape Eq
      (admitMissing bs gpuBlocks (fun j => clock (j + 2)) aligned n k)
      (admitMissing bs gpuBlocks (fun j => clock (j + 2)) aligned n k) := by
    rintro n rfl
    rw [admitMissing, if_neg (lt_irrefl n)]
    exact Py.Sim.pure rfl
  exact leads_materialize_of_body (leads_materializeBody (Q := fun n => n = k) hlive
    (sim_retainBlocks fun _ _ _ => trivial) (fun _ _ h => h) hskip)

/-- **A materialization** goes the same way on caches that admit the prompt alike. -/
theorem alike_materialize (h : SameShape c c') (hT : alignedTokens bs aligned = (aligned, k))
    (ha : AdmitsAlike bs gpuBlocks (fun j => clock (j + 2)) aligned k c c') :
    Py.Alike SameShape Eq ((materialize bs gpuBlocks clock aligned k).run c)
      ((materialize bs gpuBlocks clock aligned k).run c') := by
  cases ha with
  | complete hall => exact leads_materialize_complete c c' ⟨h, hall⟩
  | idle hidle =>
      exact leads_materialize (fun _ _ ht => ht) (fun _ _ ht => ht.matchPrefixPath _ _ _)
        (BlockPool.keeps_pin_idle gpuBlocks k) (leads_admitTokens_idle hT _) c c'
        ⟨h.trees, h.pool_eq, h.demotions_eq, hidle⟩
  | aged now hclock hages =>
      exact leads_materialize (fun _ _ ht => ht.1) (fun _ _ ht => ht.walk _)
        BlockPool.keeps_pin_pins (leads_admitTokens_aged hT hclock) c c'
        ⟨⟨h.trees, hages⟩, h.pool_eq, h.demotions_eq, fun _ hb => hb⟩

end

end NodeCache

end NanoKVRouter
