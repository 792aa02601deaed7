/-
**The block tables of the active requests.**

The pins of a pool are exactly its active block tables: a materialization that fails leaves no pin
behind, a release takes away what the materialization took, and no other call touches a pin or a
pinned block.  A materialization fails with `RuntimeError` exactly in a collision, which is a fault
of the program.  The prompt of an active request stays found as long as the node that ends it owns
a block of the table; a table pins the first blocks of the path only, so the node may own none.

Main definitions:

* `NodeCache.Collides` — the condition of a collision, on the tree and the pool;
* `CacheManager.Active` — the request has a block table on the node;
* `CacheManager.Op.Releases`, `CacheManager.Op.Materializes` — the call releases the request; the
  call materializes it and returns;
* `CacheManager.Anchored` — the node that ends the prompt owns a block of the table.

Main results:

* `CacheManager.materialize_declared_iff` — **a materialization fails in its declared ways** unless
  it collides;
* `CacheManager.active_run_iff` — **the active requests are those materialized and not released**;
* `CacheManager.pins_are_tables` — **pins are exactly the active block tables**;
* `CacheManager.active_prompt_found` — **an anchored prompt stays found**.
-/

import NanoKVRouter.CacheHits

set_option relaxedAutoImplicit false
set_option autoImplicit false

namespace NanoKVRouter

/-! ### Collisions on the tree and the pool -/

namespace NodeCache

/-- The tree matches the prompt of `k` full blocks, some of its first blocks are freed, and the
first of these is not the first block of its node, under which the tree would index the node. -/
def Collides (c : NodeCache) (bs : ℕ) (P : List Token) (k : ℕ) : Prop :=
  0 < k ∧ k ≤ (c.walk P).1 / bs ∧
    ∃ b, ((c.walk P).2.take k).find? (fun b => !c.pool.live b) = some b ∧ b ∉ c.tree.nodes.keys

variable {c : NodeCache} {s : CacheState} {bs k : ℕ} {P : List Token}

/-- The tree indexes its nodes under their first blocks. -/
theorem Represents.mem_keys_iff (h : c.Represents bs s) {b : BlockId} :
    b ∈ c.tree.nodes.keys ↔ ∃ l, (s.trie.items l).head? = some b := by
  obtain ⟨⟨-, full, hv⟩, -⟩ := h
  constructor
  · intro hb
    obtain ⟨a, ha⟩ := PyDict.mem_keys.1 hb
    refine ⟨full a, ?_⟩
    rw [hv.items_full (PyDict.mem_values.2 ⟨b, ha⟩)]
    exact hv.wf.index_head b a ha
  · rintro ⟨l, hl⟩
    obtain ⟨bids, hbids, -⟩ := PathTrie.exists_of_mem_items (List.mem_of_head? hl)
    obtain ⟨a, ha, rfl⟩ := hv.exists_addr (l := l) (by rw [hbids]; rfl)
    obtain ⟨b', rest, hrest, hmem⟩ := hv.wf.exists_head ha
    rw [hv.items_full ha, hrest, List.head?_cons, Option.some_inj] at hl
    exact PyDict.mem_keys.2 ⟨a, hl ▸ hmem⟩

/-- The first freed block of a walk is the first freed block of its first node with one. -/
theorem find?_path_eq {l : List Token} (hl : s.FirstDead P l) :
    (s.trie.path P).find? (fun b => !s.pool.live b) =
      (s.trie.items l).find? fun b => !s.pool.live b := by
  have habove : (s.trie.above l).find? (fun b => !s.pool.live b) = none := by
    rw [List.find?_eq_none]
    intro b hb
    simp [hl.above_live b hb]
  rw [PathTrie.path_split_at s.trie hl.ne_nil hl.isPrefix, List.append_assoc, List.find?_append,
    habove, Option.none_or, List.find?_append]
  obtain ⟨d, hd, hdead⟩ := hl.dead
  have hsome : ((s.trie.items l).find? fun b => !s.pool.live b).isSome := by
    rw [List.find?_isSome]
    exact ⟨d, hd, by simp [hdead]⟩
  obtain ⟨x, hx⟩ := Option.isSome_iff_exists.1 hsome
  rw [hx, Option.some_or]

/-- The collisions of the abstract cache are those of the tree and the pool. -/
theorem collides_iff (h : c.Represents bs s) (hi : s.Inv) (hbs : 0 < bs)
    (hP : P.length = k * bs) : c.Collides bs P k ↔ 0 < k ∧ s.Collision P k := by
  rw [Collides, h.walk_eq, h.pool]
  refine and_congr_right fun hk => ?_
  have hne := aligned_ne_nil (alignedTokens_self hbs hP) hbs hk
  have hnode := CacheState.le_matched_div_iff (s := s) hbs hP hne
  have hprefix : ∀ {b}, ((s.trie.path P).take k).find? (fun b => !s.pool.live b) = some b →
      (s.trie.path P).find? (fun b => !s.pool.live b) = some b := by
    intro b hb
    rw [← List.take_append_drop k (s.trie.path P), List.find?_append, hb, Option.some_or]
  constructor
  · rintro ⟨hle, b, hb, hkey⟩
    have hdead : s.pool.live b = false := by simpa using List.find?_some hb
    have hmem := List.mem_of_find?_eq_some hb
    obtain ⟨l, hl⟩ := CacheState.exists_firstDead ⟨b, List.mem_of_mem_take hmem, hdead⟩
    refine ⟨⟨hnode.1 hle, b, hmem, hdead⟩, l, hl, ?_⟩
    have hfind := hprefix hb
    rw [find?_path_eq hl] at hfind
    cases hitems : s.trie.items l with
    | nil =>
        rw [hitems] at hfind
        simp at hfind
    | cons x xs =>
        refine ⟨x, rfl, ?_⟩
        by_contra hx
        rw [Bool.not_eq_true] at hx
        rw [hitems, List.find?_cons_of_pos (by simp [hx]), Option.some_inj] at hfind
        exact hkey (h.mem_keys_iff.2 ⟨l, by rw [hitems, ← hfind]; rfl⟩)
  · rintro ⟨⟨hsome, d, hd, hdead⟩, l, hl, x, hx, hxlive⟩
    have hfind : (((s.trie.path P).take k).find? fun b => !s.pool.live b).isSome := by
      rw [List.find?_isSome]
      exact ⟨d, hd, by simp [hdead]⟩
    obtain ⟨b, hb⟩ := Option.isSome_iff_exists.1 hfind
    refine ⟨hnode.2 hsome, b, hb, fun hkey => ?_⟩
    have hbl := hprefix hb
    rw [find?_path_eq hl] at hbl
    obtain ⟨l', hl'⟩ := h.mem_keys_iff.1 hkey
    have hbdead : s.pool.live b = false := by simpa using List.find?_some hb
    obtain rfl := hi.distinct.unique l l' b (List.mem_of_find?_eq_some hbl) (List.mem_of_head? hl')
    rw [hx, Option.some_inj] at hl'
    rw [hl', hbdead] at hxlive
    simp at hxlive

end NodeCache

namespace CacheManager

variable {cm : CacheManager} {n : NodeId} {c : NodeCache} {s : CacheState} {r : RequestId}
  {nodeIds : List NodeId} {model : ModelConfig} {nodeConfig : NodeConfig}
  {bandwidth : BandwidthConfig}

/-! ### The declared failures -/

/-- **A materialization fails in its declared ways**, unless it collides. -/
theorem materialize_declared_iff (h : Reachable nodeIds model nodeConfig bandwidth cm)
    (hc : cm.caches.get? n = some c) (hr : cm.blockTables.get? (n, r) = none) (clock : ℕ → Time)
    (T : List Token) :
    ((materializeRequest clock r T n).run cm).isOk = true ∨
        (∃ msg, ((materializeRequest clock r T n).run cm).error? = some (.memoryError msg)) ↔
      ¬ c.Collides cm.model.blockSize (NodeCache.alignedTokens cm.model.blockSize T).1
        (T.length / cm.model.blockSize) := by
  obtain ⟨s, hs⟩ := h.inv.node n c hc
  have hT : NodeCache.alignedTokens cm.model.blockSize T =
    ((NodeCache.alignedTokens cm.model.blockSize T).1, T.length / cm.model.blockSize) := rfl
  rw [NodeCache.collides_iff hs.represents hs.inv cm.model.one_le_blockSize
    (NodeCache.length_aligned hT)]
  obtain ⟨c', s', -, -, -, hout⟩ := materializeRequest_spec (r := r) clock hc hr hs hT
  generalize (materializeRequest clock r T n).run cm = out at hout ⊢
  cases hout with
  | ok t hno _ _ _ => simpa [EStateM.Result.isOk] using hno
  | full msg hno _ => simpa [EStateM.Result.error?] using hno
  | collision msg hk hcol _ => simp [EStateM.Result.isOk, EStateM.Result.error?, hk, hcol]

/-- Two blocks of the first prompt are on the CPU tier and pinned, the other two are freed. -/
def halfFreed : CacheManager :=
  (oneNode unitBlocks 4 2 0).run [.admitAt 1 [1, 2, 3, 4], .admitAt 2 [11, 12, 13, 14],
    .materialize (fun _ => 3) "a" [1, 2] "n"]

theorem reachable_halfFreed : Reachable ["n"] unitBlocks
    { gpuBlocks := 4, cpuBlocks := 2, diskBlocks := 0 } .defaults halfFreed :=
  Reachable.init.run _

/-- The request for the pinned blocks has split them off the freed ones, so that the first freed
block is the first of its node. -/
theorem materialize_declared_iff_halfFreed :
    ∃ c, halfFreed.caches.get? "n" = some c ∧
      ((((materializeRequest (fun _ => 4) "b" [1, 2, 3, 4] "n").run halfFreed).isOk = true ∨
          ∃ msg, ((materializeRequest (fun _ => 4) "b" [1, 2, 3, 4] "n").run halfFreed).error? =
            some (.memoryError msg)) ↔
        ¬ c.Collides 1 [1, 2, 3, 4] 4) ∧
      ((c.walk [1, 2, 3, 4]).2.map c.pool.tierOf = [some .cpu, some .cpu, none, none] ∧
        (c.walk [1, 2, 3, 4]).2.map c.pool.pinCountOf = [1, 1, 0, 0]) := by
  have hstate : (halfFreed.caches.get? "n").map (fun c =>
      ((c.walk [1, 2, 3, 4]).2.map c.pool.tierOf, (c.walk [1, 2, 3, 4]).2.map c.pool.pinCountOf)) =
        some ([some .cpu, some .cpu, none, none], [1, 1, 0, 0]) := by decide +kernel
  obtain ⟨c, hc, hwalk⟩ := Option.map_eq_some_iff.1 hstate
  have hbs : halfFreed.model.blockSize = 1 := by decide +kernel
  have hiff := materialize_declared_iff (r := "b") reachable_halfFreed hc (by decide +kernel)
    (fun _ => 4) [1, 2, 3, 4]
  rw [hbs] at hiff
  exact ⟨c, hc, hiff, (Prod.mk.inj hwalk).1, (Prod.mk.inj hwalk).2⟩

/-- The admission of the second prompt leaves two blocks of the first one on the CPU tier and frees
the other two; materializing the first prompt pins the former and then tries to free them. -/
theorem materialize_declared_fails :
    Reachable ["n"] unitBlocks { gpuBlocks := 4, cpuBlocks := 2, diskBlocks := 0 } .defaults
        ((oneNode unitBlocks 4 2 0).run [.admitAt 1 [1, 2, 3, 4],
          .admitAt 2 [11, 12, 13, 14]]) ∧
      ((materializeRequest (fun _ => 3) "a" [1, 2, 3, 4] "n").run
        ((oneNode unitBlocks 4 2 0).run [.admitAt 1 [1, 2, 3, 4],
          .admitAt 2 [11, 12, 13, 14]])).error? =
        some (.runtimeError "Block 0 is pinned and cannot be freed") :=
  ⟨Reachable.init.run _, by decide +kernel⟩

/-! ### The life of a table -/

/-- The call releases the request on the node. -/
def Op.Releases (r : RequestId) (n : NodeId) : Op → Prop
  | .release r' n' => r' = r ∧ n' = n
  | _ => False

theorem blockTables_onNode {α : Type} (m : Py NodeCache α) :
    ((onNode n m).run cm).state.blockTables = cm.blockTables := by
  cases hc : cm.caches.get? n with
  | none =>
      rw [run_onNode_unknown m hc]
      rfl
  | some c =>
      rw [state_onNode m hc]
      rfl

/-- What a materialization does to the tables: it adds one, or raises and changes none. -/
theorem blockTables_materialize (h : cm.Inv) (clock : ℕ → Time) (r : RequestId) (T : List Token)
    (n : NodeId) :
    (∃ t cm', (materializeRequest clock r T n).run cm = .ok t cm' ∧
        cm.blockTables.get? (n, r) = none ∧ cm'.blockTables = cm.blockTables.set (n, r) t) ∨
      ∃ e cm', (materializeRequest clock r T n).run cm = .error e cm' ∧
        cm'.blockTables = cm.blockTables := by
  cases hc : cm.caches.get? n with
  | none => exact Or.inr ⟨_, cm, run_materializeRequest_unknown clock r T hc, rfl⟩
  | some c =>
      cases ht : cm.blockTables.get? (n, r) with
      | some t =>
          obtain ⟨msg, hrun⟩ := run_materializeRequest_again clock T hc ht
          exact Or.inr ⟨_, cm, hrun, rfl⟩
      | none =>
          obtain ⟨s, hs⟩ := h.node n c hc
          obtain ⟨c', s', -, -, -, hout⟩ := materializeRequest_spec (r := r) clock hc ht hs
            (Prod.mk.eta (p := NodeCache.alignedTokens cm.model.blockSize T))
          generalize (materializeRequest clock r T n).run cm = out at hout
          cases hout with
          | full msg _ _ => exact Or.inr ⟨_, _, rfl, rfl⟩
          | collision msg _ _ _ => exact Or.inr ⟨_, _, rfl, rfl⟩
          | ok t _ _ _ _ => exact Or.inl ⟨t, _, rfl, rfl, rfl⟩

/-- The request has a block table on the node. -/
def Active (cm : CacheManager) (r : RequestId) (n : NodeId) : Prop :=
  (cm.blockTables.get? (n, r)).isSome = true

/-- The call materializes the request on the node and returns. -/
def Op.Materializes (cm : CacheManager) (r : RequestId) (n : NodeId) : Op → Prop
  | .materialize clock r' T n' =>
      (r' = r ∧ n' = n) ∧ ((materializeRequest clock r' T n').run cm).isOk = true
  | _ => False

/-- **A release** returns exactly for an active request, and drops its table and no other. -/
theorem release_iff (h : cm.Inv) (r : RequestId) (n : NodeId) :
    (cm.Active r n ∧ ∃ cm', (releaseRequest r n).run cm = .ok () cm' ∧
        cm'.blockTables = cm.blockTables.erase (n, r)) ∨
      ¬ cm.Active r n ∧ ∃ msg, (releaseRequest r n).run cm = .error (.keyError msg) cm := by
  cases ht : cm.blockTables.get? (n, r) with
  | none => exact Or.inr ⟨by simp [Active, ht], run_releaseRequest_none (Or.inr ht)⟩
  | some t =>
      obtain ⟨c, hc⟩ := h.table_node n r t ht
      obtain ⟨s, hs⟩ := h.node n c hc
      obtain ⟨q, hrun, -⟩ := NodeCache.releaseBlocks_spec hs.represents hs.inv
        (h.table_nodup n r t ht) fun b hb => hs.pinned_of_table ht hb
      exact Or.inl ⟨by simp [Active, ht], _, run_releaseRequest hc ht hrun, rfl⟩

/-- What a call does to the table of a request: it adds it, drops it, or leaves it as it is. -/
theorem get?_table_apply (h : cm.Inv) (op : Op) (r : RequestId) (n : NodeId) :
    (op.Materializes cm r n ∧ cm.blockTables.get? (n, r) = none ∧ (cm.apply op).Active r n) ∨
      (op.Releases r n ∧ ¬ (cm.apply op).Active r n) ∨
      (¬ op.Materializes cm r n ∧ ¬ op.Releases r n ∧
        (cm.apply op).blockTables.get? (n, r) = cm.blockTables.get? (n, r)) := by
  cases op with
  | admitTokens clock T n' =>
      refine Or.inr (Or.inr ⟨id, id, ?_⟩)
      change ((onNode n'
        (NodeCache.admitTokens cm.model.blockSize cm.nodeConfig.gpuBlocks clock T)).run
        cm).state.blockTables.get? (n, r) = _
      rw [blockTables_onNode]
  | lookup now request n' =>
      refine Or.inr (Or.inr ⟨id, id, ?_⟩)
      change ((onNode n' (NodeCache.lookup cm.model cm.bandwidth now request.tokenIds)).run
        cm).state.blockTables.get? (n, r) = _
      rw [blockTables_onNode]
  | materialize clock r' T n' =>
      have happly : cm.apply (.materialize clock r' T n') =
        ((materializeRequest clock r' T n').run cm).state := rfl
      rcases blockTables_materialize h clock r' T n' with
        ⟨t, cm', hrun, hnew, htables⟩ | ⟨e, cm', hrun, htables⟩
      · rw [Active, happly, hrun, EStateM.Result.state_ok, htables]
        by_cases heq : r' = r ∧ n' = n
        · obtain ⟨rfl, rfl⟩ := heq
          rw [PyDict.get?_set_self]
          exact Or.inl ⟨⟨⟨rfl, rfl⟩, by rw [hrun]; rfl⟩, hnew, rfl⟩
        · refine Or.inr (Or.inr ⟨fun hm => heq hm.1, id, ?_⟩)
          exact PyDict.get?_set_of_ne _ _ fun hkey => heq ⟨(Prod.mk.inj hkey).2.symm,
            (Prod.mk.inj hkey).1.symm⟩
      · refine Or.inr (Or.inr ⟨fun hm => ?_, id, ?_⟩)
        · have hok := hm.2
          rw [hrun] at hok
          simp [EStateM.Result.isOk] at hok
        · rw [happly, hrun, EStateM.Result.state_error, htables]
  | release r' n' =>
      have happly : cm.apply (.release r' n') = ((releaseRequest r' n').run cm).state := rfl
      rcases release_iff h r' n' with ⟨-, cm', hrun, htables⟩ | ⟨hnot, msg, hrun⟩
      · rw [Active, happly, hrun, EStateM.Result.state_ok, htables]
        by_cases heq : r' = r ∧ n' = n
        · obtain ⟨rfl, rfl⟩ := heq
          rw [PyDict.get?_erase_self]
          exact Or.inr (Or.inl ⟨⟨rfl, rfl⟩, by simp⟩)
        · refine Or.inr (Or.inr ⟨id, heq, ?_⟩)
          exact PyDict.get?_erase_of_ne _ fun hkey => heq ⟨(Prod.mk.inj hkey).2.symm,
            (Prod.mk.inj hkey).1.symm⟩
      · rw [Active, happly, hrun, EStateM.Result.state_error]
        by_cases heq : r' = r ∧ n' = n
        · obtain ⟨rfl, rfl⟩ := heq
          exact Or.inr (Or.inl ⟨⟨rfl, rfl⟩, hnot⟩)
        · exact Or.inr (Or.inr ⟨id, heq, rfl⟩)

/-- **A table stays** until its request is released. -/
theorem table_apply (h : cm.Inv) {t : RequestBlockTable}
    (ht : cm.blockTables.get? (n, r) = some t) {op : Op} (hop : ¬ op.Releases r n) :
    (cm.apply op).blockTables.get? (n, r) = some t := by
  rcases get?_table_apply h op r n with ⟨-, hnew, -⟩ | ⟨hrel, -⟩ | ⟨-, -, hsame⟩
  · rw [ht] at hnew
    simp at hnew
  · exact absurd hrel hop
  · rw [hsame, ht]

/-- The calls of a run keep the invariant. -/
theorem Inv.run (ops : List Op) : ∀ {cm : CacheManager}, cm.Inv → (cm.run ops).Inv := by
  induction ops with
  | nil => exact fun h => h
  | cons op ops ih => exact fun h => ih (apply_spec h op).1

/-- A call makes a request active by materializing it, and ends it by releasing it. -/
theorem active_apply_iff (h : cm.Inv) (op : Op) (r : RequestId) (n : NodeId) :
    (cm.apply op).Active r n ↔
      op.Materializes cm r n ∨ cm.Active r n ∧ ¬ op.Releases r n := by
  rcases get?_table_apply h op r n with ⟨hmat, -, hnow⟩ | ⟨hrel, hnot⟩ | ⟨hmat, hrel, hsame⟩
  · exact iff_of_true hnow (Or.inl hmat)
  · refine iff_of_false hnot ?_
    rintro (hmat | ⟨-, hno⟩)
    · cases op with
      | release r' n' => exact hmat
      | admitTokens _ _ _ | lookup _ _ _ | materialize _ _ _ _ => exact hrel
    · exact hno hrel
  · rw [Active, hsame]
    exact ⟨fun hactive => Or.inr ⟨hactive, hrel⟩, fun hor => (hor.resolve_left hmat).1⟩

/-- **The active requests of a run** are those that were active or have been materialized, and have
not been released since. -/
theorem active_run_iff (r : RequestId) (n : NodeId) (ops : List Op) {cm : CacheManager}
    (h : cm.Inv) :
    (cm.run ops).Active r n ↔
      (cm.Active r n ∧ ∀ op ∈ ops, ¬ op.Releases r n) ∨
        ∃ earlier op later, ops = earlier ++ op :: later ∧ op.Materializes (cm.run earlier) r n ∧
          ∀ op' ∈ later, ¬ op'.Releases r n := by
  induction ops using List.reverseRecOn with
  | nil => simp [run]
  | append_singleton ops op ih =>
      have hrun : cm.run (ops ++ [op]) = (cm.run ops).apply op := by
        rw [run, List.foldl_append]
        rfl
      rw [hrun, active_apply_iff (h.run ops), ih]
      constructor
      · -- the last call materializes the request, or does not release it
        rintro (hmat | ⟨⟨hactive, hno⟩ | ⟨earlier, op', later, rfl, hmat, hno⟩, hop⟩)
        · exact Or.inr ⟨ops, op, [], rfl, hmat, by simp⟩
        · refine Or.inl ⟨hactive, fun op' hop' => ?_⟩
          rcases List.mem_append.1 hop' with hop' | hop'
          · exact hno op' hop'
          · exact List.mem_singleton.1 hop' ▸ hop
        · refine Or.inr ⟨earlier, op', later ++ [op], by simp, hmat, fun op'' hop'' => ?_⟩
          rcases List.mem_append.1 hop'' with hop'' | hop''
          · exact hno op'' hop''
          · exact List.mem_singleton.1 hop'' ▸ hop
      · rintro (⟨hactive, hno⟩ | ⟨earlier, op', later, heq, hmat, hno⟩)
        · exact Or.inr ⟨Or.inl ⟨hactive, fun op' hop' => hno op' (List.mem_append_left _ hop')⟩,
            hno op (by simp)⟩
        · -- the call that materializes it is the last one, or lies before it
          rcases List.eq_nil_or_concat later with rfl | ⟨later', last, rfl⟩
          · obtain ⟨rfl, hop⟩ := List.append_inj' heq rfl
            obtain rfl := (List.cons.inj hop).1
            exact Or.inl hmat
          · rw [List.concat_eq_append] at heq hno
            rw [← List.cons_append, ← List.append_assoc] at heq
            obtain ⟨rfl, hop⟩ := List.append_inj' heq rfl
            obtain rfl := (List.cons.inj hop).1
            exact Or.inr ⟨Or.inr ⟨earlier, op', later', rfl, hmat, fun op'' hop'' =>
              hno op'' (List.mem_append_left _ hop'')⟩, hno op (by simp)⟩

/-- **The blocks of an active table** stay on their tiers. -/
theorem tierOf_table_run {t : RequestBlockTable} (ops : List Op) :
    ∀ {cm : CacheManager} {c : NodeCache}, cm.Inv → cm.caches.get? n = some c →
    cm.blockTables.get? (n, r) = some t → (∀ op ∈ ops, ¬ op.Releases r n) →
    ∃ c', (cm.run ops).caches.get? n = some c' ∧
      (cm.run ops).blockTables.get? (n, r) = some t ∧
      ∀ b ∈ t.blockIds, c'.pool.tierOf b = c.pool.tierOf b := by
  induction ops with
  | nil =>
      intro cm c _ hc ht _
      exact ⟨c, hc, ht, fun _ _ => rfl⟩
  | cons op ops ih =>
      intro cm c h hc ht hops
      obtain ⟨s, hs⟩ := h.node n c hc
      obtain ⟨hinv, hm⟩ := apply_spec h op
      obtain ⟨c₁, s₁, hc₁, hs₁, hsafe, -⟩ := hm.node n c s hc hs
      have ht₁ := table_apply h ht (hops op (List.mem_cons_self ..))
      obtain ⟨c', hc', ht', htier⟩ := ih hinv hc₁ ht₁ fun op' hop' =>
        hops op' (List.mem_cons_of_mem _ hop')
      refine ⟨c', hc', ht', fun b hb => ?_⟩
      rw [htier b hb, hs₁.represents.pool, hs.represents.pool]
      exact hsafe.tierOf_pinned b (hs.pinned_of_table ht hb)

/-! ### Pins -/

/-- **The pins of a known node** count its active tables. -/
theorem Inv.pinCountOf_eq (h : cm.Inv) (hc : cm.caches.get? n = some c) (b : BlockId) :
    c.pool.pinCountOf b = cm.tableCount n b := by
  obtain ⟨s, hs⟩ := h.node n c hc
  rw [hs.represents.pool, hs.pin_eq]

/-- A failed materialization leaves all pins as they were. -/
theorem pin_eq_of_materialize_error (h : cm.Inv) {clock : ℕ → Time} {r : RequestId}
    {T : List Token} {n : NodeId} {e : PyErr} {cm' : CacheManager}
    (hrun : (materializeRequest clock r T n).run cm = .error e cm') {n' : NodeId}
    {c c' : NodeCache} (hc : cm.caches.get? n' = some c) (hc' : cm'.caches.get? n' = some c')
    (b : BlockId) : c'.pool.pinCountOf b = c.pool.pinCountOf b := by
  have hinv := (materialize_moves h clock r T n).1
  rw [hrun] at hinv
  rw [hinv.pinCountOf_eq hc', h.pinCountOf_eq hc]
  rcases blockTables_materialize h clock r T n with ⟨t, cm'', hrun', -⟩ | ⟨e', cm'', hrun', htables⟩
  · rw [hrun] at hrun'
    simp at hrun'
  · rw [hrun, EStateM.Result.error.injEq] at hrun'
    rw [EStateM.Result.state_error, tableCount, hrun'.2, htables, tableCount]

/-- Without active requests there are no pins. -/
theorem Inv.tableCount_eq_zero (hnone : ∀ r n, ¬ cm.Active r n) (n : NodeId) (b : BlockId) :
    cm.tableCount n b = 0 := by
  rw [tableCount, List.countP_eq_zero]
  rintro ⟨⟨n', r'⟩, t⟩ hmem
  refine absurd ?_ (hnone r' n')
  rw [Active, PyDict.get?_eq_some_iff.2 hmem]
  rfl

/-- **Pins are exactly the active block tables.**  A release returns exactly for an active request
and drops its table, and the active requests of a run are those materialized and not released since;
the pin count and the reference count of a block are the number of active tables of the node that
list it; until its request is released, a table stays and so do its blocks, allocated and on their
tiers; a failed materialization leaves all pins as they were; and after every active request has been
released there are no pins. -/
theorem pins_are_tables (h : Reachable nodeIds model nodeConfig bandwidth cm) :
    (∀ r n, (cm.Active r n ∧ ∃ cm', (releaseRequest r n).run cm = .ok () cm' ∧
        cm'.blockTables = cm.blockTables.erase (n, r)) ∨
      ¬ cm.Active r n ∧ ∃ msg, (releaseRequest r n).run cm = .error (.keyError msg) cm) ∧
    (∀ r n ops, (cm.run ops).Active r n ↔
      (cm.Active r n ∧ ∀ op ∈ ops, ¬ Op.Releases r n op) ∨
        ∃ earlier op later, ops = earlier ++ op :: later ∧ op.Materializes (cm.run earlier) r n ∧
          ∀ op' ∈ later, ¬ Op.Releases r n op') ∧
    (∀ n c b, cm.caches.get? n = some c → c.pool.live b = true →
      c.pool.pinCountOf b = cm.tableCount n b ∧ c.pool.refCountOf b = cm.tableCount n b) ∧
    (∀ n r t c ops, cm.blockTables.get? (n, r) = some t → cm.caches.get? n = some c →
      (∀ op ∈ ops, ¬ Op.Releases r n op) →
      ∃ c', (cm.run ops).caches.get? n = some c' ∧
        (cm.run ops).blockTables.get? (n, r) = some t ∧
        ∀ b ∈ t.blockIds, c.pool.live b = true ∧ c'.pool.tierOf b = c.pool.tierOf b) ∧
    (∀ clock r T n e cm', (materializeRequest clock r T n).run cm = .error e cm' →
      ∀ n' c c', cm.caches.get? n' = some c → cm'.caches.get? n' = some c' →
        ∀ b, c'.pool.pinCountOf b = c.pool.pinCountOf b) ∧
    (∀ ops, (∀ op ∈ ops, ∃ r n, op = .release r n) →
      (∀ r n, cm.Active r n → Op.release r n ∈ ops) →
      ∀ n c b, (cm.run ops).caches.get? n = some c →
        c.pool.pinCountOf b = 0 ∧ c.pool.refCountOf b = 0) := by
  have hinv := h.inv
  have href : ∀ {cm : CacheManager}, cm.Inv → ∀ n c b, cm.caches.get? n = some c →
      c.pool.refCountOf b = cm.tableCount n b := by
    intro cm hinv n c b hc
    obtain ⟨s, hs⟩ := hinv.node n c hc
    rw [hs.represents.pool, hs.inv.pool_wf.ref_eq_pin, hs.pin_eq]
  refine ⟨release_iff hinv, fun r n ops => active_run_iff r n ops hinv, ?_, ?_, ?_, ?_⟩
  · intro n c b hc _
    exact ⟨hinv.pinCountOf_eq hc b, href hinv n c b hc⟩
  · intro n r t c ops ht hc hops
    obtain ⟨c', hc', ht', htier⟩ := tierOf_table_run ops hinv hc ht hops
    refine ⟨c', hc', ht', fun b hb => ⟨?_, htier b hb⟩⟩
    obtain ⟨s, hs⟩ := hinv.node n c hc
    rw [hs.represents.pool]
    exact hs.inv.pool_wf.live_of_pinned (hs.pinned_of_table ht hb)
  · intro clock r T n e cm' hrun n' c c' hc hc' b
    exact pin_eq_of_materialize_error hinv hrun hc hc' b
  · -- releases alone make no request active, and each active one is released
    intro ops hrel hall n c b hc
    have hinv' := hinv.run ops
    have hnone : ∀ r n, ¬ (cm.run ops).Active r n := by
      intro r n hactive
      rcases (active_run_iff r n ops hinv).1 hactive with ⟨hactive, hno⟩ | ⟨_, op, _, heq, hmat, -⟩
      · exact hno _ (hall r n hactive) ⟨rfl, rfl⟩
      · obtain ⟨r', n', rfl⟩ := hrel op (by rw [heq]; simp)
        exact hmat
    have hzero := Inv.tableCount_eq_zero hnone n b
    exact ⟨by rw [hinv'.pinCountOf_eq hc, hzero]; rfl, by rw [href hinv' n c b hc, hzero]; rfl⟩

theorem pins_are_tables_one :
    ∃ c, ((oneNode unitBlocks 4 2 0).run
        [.materialize (fun _ => 1) "a" [1, 2] "n"]).caches.get? "n" = some c ∧
      c.pool.live 0 = true ∧ c.pool.pinCountOf 0 = 1 := by
  have hlive : (((oneNode unitBlocks 4 2 0).run
      [.materialize (fun _ => 1) "a" [1, 2] "n"]).caches.get? "n").map
        (fun c => c.pool.live 0) = some true := by decide +kernel
  obtain ⟨c, hc, hlive⟩ := Option.map_eq_some_iff.1 hlive
  refine ⟨c, hc, hlive, ?_⟩
  rw [((pins_are_tables (Reachable.init.run _)).2.2.1 "n" c 0 hc hlive).1]
  decide +kernel

/-! ### The prompt of an active request -/

/-- Blocks of a walk that are pinned make as many blocks at its start allocated. -/
theorem live_of_pinned_sublist {pinned live : BlockId → Bool}
    (hpl : ∀ b, pinned b = true → live b = true) : ∀ {L X : List BlockId}, L.Sublist X →
    X.Pairwise (fun c b => pinned b = true → live c = true) → (∀ b ∈ L, pinned b = true) →
    ∀ b ∈ X.take L.length, live b = true := by
  intro L X hsub
  induction hsub with
  | slnil => intro _ _ b hb; simp at hb
  | @cons L X x hsub ih =>
      intro hpair hpin b hb
      obtain ⟨hx, hpair⟩ := List.pairwise_cons.1 hpair
      cases L with
      | nil => simp at hb
      | cons y L =>
          rw [List.length_cons, List.take_succ_cons] at hb
          rcases List.mem_cons.1 hb with rfl | hb
          · exact hx y (hsub.subset (List.mem_cons_self ..)) (hpin y (List.mem_cons_self ..))
          · refine ih hpair hpin b ?_
            exact (List.take_prefix_take_left (Nat.le_succ _)).subset hb
  | @cons_cons L X x hsub ih =>
      intro hpair hpin b hb
      obtain ⟨-, hpair⟩ := List.pairwise_cons.1 hpair
      rw [List.length_cons, List.take_succ_cons] at hb
      rcases List.mem_cons.1 hb with rfl | hb
      · exact hpl b (hpin b (List.mem_cons_self ..))
      · exact ih hpair (fun c hc => hpin c (List.mem_cons_of_mem _ hc)) b hb

/-- The node that ends the prompt cut to full blocks owns a block of the table, or the prompt has no
full block. -/
def Anchored (cm : CacheManager) (n : NodeId) (T : List Token) (t : RequestBlockTable) : Prop :=
  T.length / cm.model.blockSize = 0 ∨
    ∃ c, cm.caches.get? n = some c ∧
      ∃ b ∈ t.blockIds, b ∈ (c.tree.node (c.tree.walkEnd T.length RadixTree.root
        (NodeCache.alignedTokens cm.model.blockSize T).1)).blockIds

/-- Before each of the calls the prompt is anchored. -/
def AnchoredRun (n : NodeId) (T : List Token) (t : RequestBlockTable) :
    CacheManager → List Op → Prop
  | _, [] => True
  | cm, op :: ops => cm.Anchored n T t ∧ AnchoredRun n T t (cm.apply op) ops

/-- What holds of the prompt of an active request along an anchored run. -/
structure Held (cm : CacheManager) (n : NodeId) (r : RequestId) (T P : List Token) (k : ℕ)
    (t : RequestBlockTable) (s : CacheState) : Prop where
  table : cm.blockTables.get? (n, r) = some t
  length_eq : t.blockIds.length = k
  sublist : t.blockIds.Sublist (s.trie.path P)
  node : 0 < k → (s.trie P).isSome

/-- The first blocks of a held prompt are allocated. -/
theorem Held.live {T P : List Token} {k : ℕ} {t : RequestBlockTable} (h : Held cm n r T P k t s)
    (hs : NodeInv cm n c s) : ∀ b ∈ (s.trie.path P).take k, s.pool.live b = true := by
  rw [← h.length_eq]
  exact live_of_pinned_sublist (fun b => hs.inv.pool_wf.live_of_pinned) h.sublist
    (hs.inv.pin_closed P) fun b hb => hs.pinned_of_table h.table hb

/-- A prompt without full blocks is found in full. -/
theorem foundInFull_of_zero (hc : cm.caches.get? n = some c)
    (hs : c.Represents cm.model.blockSize s) {T : List Token}
    (h0 : T.length / cm.model.blockSize = 0) : cm.FoundInFull n T := by
  refine (foundInFull_iff hc hs T).2 ?_
  have hle : s.trie.matched T / cm.model.blockSize ≤ T.length / cm.model.blockSize :=
    CacheState.matched_div_le rfl cm.model.one_le_blockSize
  rw [h0] at hle ⊢
  rw [CacheState.hitBlocks, CacheState.head, Nat.le_zero.1 hle]
  simp

theorem Held.foundInFull {T P : List Token} {k : ℕ} {t : RequestBlockTable}
    (h : Held cm n r T P k t s) (hc : cm.caches.get? n = some c) (hs : NodeInv cm n c s)
    (hT : NodeCache.alignedTokens cm.model.blockSize T = (P, k)) : cm.FoundInFull n T := by
  have hk : T.length / cm.model.blockSize = k := congrArg Prod.snd hT
  rcases Nat.eq_zero_or_pos k with h0 | hpos
  · exact foundInFull_of_zero hc hs.represents (hk.trans h0)
  · rw [foundInFull_iff hc hs.represents, hk]
    exact (CacheState.hitBlocks_eq_iff hs.represents cm.model.one_le_blockSize hT
      (h.node hpos)).2 (h.live hs)

/-- **A call before which the prompt is anchored** keeps it held. -/
theorem Held.step {T P : List Token} {k : ℕ} {t : RequestBlockTable} (h : Held cm n r T P k t s)
    (hinv : cm.Inv) (hc : cm.caches.get? n = some c) (hs : NodeInv cm n c s)
    (hT : NodeCache.alignedTokens cm.model.blockSize T = (P, k)) {op : Op}
    (hop : ¬ op.Releases r n) (hanch : cm.Anchored n T t) :
    ∃ c' s', (cm.apply op).caches.get? n = some c' ∧ NodeInv (cm.apply op) n c' s' ∧
      Held (cm.apply op) n r T P k t s' := by
  obtain ⟨-, hm⟩ := apply_spec hinv op
  obtain ⟨c', s', hc', hs', hsafe, -⟩ := hm.node n c s hc hs
  have hpinned : ∀ b ∈ t.blockIds, s.pool.pinned b = true := fun b hb =>
    hs.pinned_of_table h.table hb
  refine ⟨c', s', hc', hs', table_apply hinv h.table hop, h.length_eq,
    hsafe.pinned_sublist _ _ h.sublist hpinned, fun hk => ?_⟩
  rcases hanch with h0 | ⟨c₀, hc₀, b, hb, hend⟩
  · have : T.length / cm.model.blockSize = k := congrArg Prod.snd hT
    omega
  · rw [hc, Option.some_inj] at hc₀
    subst hc₀
    rw [hT] at hend
    obtain ⟨⟨-, full, hv⟩, -⟩ := hs.represents
    have hlen : P.length ≤ T.length := (NodeCache.aligned_prefix hT).length_le
    have hfull := hv.wf.full_root
    obtain ⟨hmem, hwalk⟩ := hv.full_walkEnd T.length (RadixTree.member_root _) hlen
      (Or.inr (by rw [hfull]; exact h.node hk))
    rw [hfull, List.nil_append] at hwalk
    refine hsafe.isSome_of_pinned P b ?_ (hpinned b hb)
    -- the root owns no block, so the walk ends in an indexed node
    rcases hmem with hroot | hval
    · rw [hroot, hv.wf.root_blockIds] at hend
      simp at hend
    · rw [← hwalk, hv.items_full hval]
      exact hend

theorem Held.run {T P : List Token} {k : ℕ} {t : RequestBlockTable} (ops : List Op) :
    ∀ {cm : CacheManager} {c : NodeCache} {s : CacheState}, Held cm n r T P k t s → cm.Inv →
    cm.caches.get? n = some c → NodeInv cm n c s →
    NodeCache.alignedTokens cm.model.blockSize T = (P, k) → (∀ op ∈ ops, ¬ op.Releases r n) →
    AnchoredRun n T t cm ops → (cm.run ops).FoundInFull n T := by
  induction ops with
  | nil =>
      intro cm c s h _ hc hs hT _ _
      exact h.foundInFull hc hs hT
  | cons op ops ih =>
      intro cm c s h hinv hc hs hT hops hanch
      obtain ⟨hinv', hm⟩ := apply_spec hinv op
      obtain ⟨c', s', hc', hs', h'⟩ := h.step hinv hc hs hT (hops op (List.mem_cons_self ..))
        hanch.1
      exact ih h' hinv' hc' hs' (hm.model_eq ▸ hT)
        (fun op' hop' => hops op' (List.mem_cons_of_mem _ hop')) hanch.2

/-- **An anchored prompt stays found**: after a materialization, in every run of other calls before
each of which the prompt is anchored, up to the release of the request. -/
theorem active_prompt_found (h : Reachable nodeIds model nodeConfig bandwidth cm)
    {clock : ℕ → Time} {T : List Token} {t : RequestBlockTable}
    (hok : ((materializeRequest clock r T n).run cm).isOk = true)
    (ht : (cm.apply (.materialize clock r T n)).blockTables.get? (n, r) = some t) (ops : List Op)
    (hops : ∀ op ∈ ops, ¬ op.Releases r n)
    (hanch : AnchoredRun n T t (cm.apply (.materialize clock r T n)) ops) :
    ((cm.apply (.materialize clock r T n)).run ops).FoundInFull n T := by
  have hinv := h.inv
  have hm := (apply_spec hinv (.materialize clock r T n)).2
  have hT : NodeCache.alignedTokens cm.model.blockSize T =
    ((NodeCache.alignedTokens cm.model.blockSize T).1, T.length / cm.model.blockSize) := rfl
  generalize (NodeCache.alignedTokens cm.model.blockSize T).1 = P at hT
  cases hc : cm.caches.get? n with
  | none =>
      rw [run_materializeRequest_unknown clock r T hc] at hok
      simp [EStateM.Result.isOk] at hok
  | some c =>
      cases hnew : cm.blockTables.get? (n, r) with
      | some t' =>
          obtain ⟨msg, hrun⟩ := run_materializeRequest_again clock T hc hnew
          rw [hrun] at hok
          simp [EStateM.Result.isOk] at hok
      | none =>
          obtain ⟨s, hs⟩ := hinv.node n c hc
          obtain ⟨c', s', hrep, hsafe, -, hout⟩ := materializeRequest_spec (r := r) clock hc hnew hs
            hT
          generalize hrun : (materializeRequest clock r T n).run cm = out at hout hok
          cases hout with
          | full msg _ _ => simp [EStateM.Result.isOk] at hok
          | collision msg _ _ _ => simp [EStateM.Result.isOk] at hok
          | ok t' hno hids hfull hpin =>
              have happly : cm.apply (.materialize clock r T n) =
                  cm.update n c' (cm.blockTables.set (n, r) t') := by
                rw [apply, hrun]
                rfl
              obtain rfl : t' = t := by
                rw [happly] at ht
                exact Option.some_inj.1 ((PyDict.get?_set_self ..).symm.trans ht)
              obtain ⟨c₁, s₁, hc₁, hs₁, -⟩ := hm.node n c s hc hs
              have hget : (cm.apply (.materialize clock r T n)).caches.get? n = some c' := by
                rw [happly]
                exact PyDict.get?_set_self ..
              obtain rfl : c₁ = c' := Option.some_inj.1 (hc₁.symm.trans hget)
              obtain rfl : s₁ = s' := by
                have := hs₁.represents
                rw [hm.model_eq] at this
                exact hrep.unique this
              have hheld : Held (cm.apply (.materialize clock r T n)) n r T P
                  (T.length / cm.model.blockSize) t' s₁ := by
                refine ⟨ht, ?_, ?_, fun hk => (hfull hk).node⟩
                · rw [hids, List.length_take]
                  rcases Nat.eq_zero_or_pos (T.length / cm.model.blockSize) with h0 | hk
                  · rw [h0, Nat.zero_min]
                  · exact Nat.min_eq_left (hrep.le_length_path cm.model.one_le_blockSize
                      (NodeCache.length_aligned hT) (hfull hk).node)
                · rw [hids]
                  exact List.take_sublist _ _
              exact hheld.run ops (apply_spec hinv _).1 hc₁ hs₁ (hm.model_eq ▸ hT) hops hanch

theorem active_prompt_found_one :
    (((oneNode unitBlocks 4 2 0).apply (.materialize (fun _ => 1) "a" [1, 2] "n")).run
      [.admitAt 2 [3]]).FoundInFull "n" [1, 2] := by
  have hend : (((oneNode unitBlocks 4 2 0).apply
      (.materialize (fun _ => 1) "a" [1, 2] "n")).caches.get? "n").map
        (fun c => decide (0 ∈ (c.tree.node (c.tree.walkEnd 2 RadixTree.root [1, 2])).blockIds)) =
      some true := by decide +kernel
  obtain ⟨c, hc, hmem⟩ := Option.map_eq_some_iff.1 hend
  refine active_prompt_found (r := "a") (t := ⟨"a", "n", [0, 1], 0, 2⟩) .init (by decide +kernel)
    (by decide +kernel) [.admitAt 2 [3]] ?_ ⟨Or.inr ⟨c, hc, 0, by decide, ?_⟩, trivial⟩
  · intro op hop
    rw [List.mem_singleton.1 hop]
    exact id
  · exact of_decide_eq_true hmem

/-- The edge of four tokens is split at three, so the table of the second prompt holds the two blocks
of the upper node and none of the leaf, which the next admission frees. -/
theorem active_prompt_found_fails :
    Reachable ["n"] pairBlocks { gpuBlocks := 5, cpuBlocks := 0, diskBlocks := 0 } .defaults
        ((oneNode pairBlocks 5 0 0).run [.admitAt 1 [1, 2, 3, 4]]) ∧
      ((materializeRequest (fun _ => 2) "a" [1, 2, 3, 5] "n").run
        ((oneNode pairBlocks 5 0 0).run [.admitAt 1 [1, 2, 3, 4]])).isOk = true ∧
      ¬ ((oneNode pairBlocks 5 0 0).run [.admitAt 1 [1, 2, 3, 4],
        .materialize (fun _ => 2) "a" [1, 2, 3, 5] "n",
        .admitAt 3 [9, 9, 9, 9]]).FoundInFull "n" [1, 2, 3, 5] :=
  ⟨Reachable.init.run _, by decide +kernel, fun h => absurd h.matchedTokens_eq (by decide +kernel)⟩

end CacheManager

end NanoKVRouter
