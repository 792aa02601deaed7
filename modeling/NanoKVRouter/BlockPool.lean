/-
**The block pool: which tier a block lives on.**

A pool knows the blocks of one node: for each tier the set of the blocks allocated there, and for
each block its tier, its reference count and its pin count.  The operations check all their
arguments before they change anything, and raise on an unknown tier, an unknown, duplicate or
pinned block, and a full tier.

Fresh ids are UUIDs in the source; here a pool counts the ids it has handed out, so that a fresh
id differs from all earlier ones by construction.

Main definitions:

* `TierState`, `BlockPool` — the bookkeeping of a tier and of the pool;
* `BlockPool.allocate`, `BlockPool.free`, `BlockPool.move` (with `promote` and `demote`),
  `BlockPool.pin`, `BlockPool.unpin` — the operations;
* `BlockPool.tierOf`, `BlockPool.tiersOf`, `BlockPool.pinCountOf`, `BlockPool.refCountOf`,
  `BlockPool.used`, `BlockPool.stats` — the queries.
-/

import NanoKVRouter.Config
import NanoKVRouter.PyDict
import NanoKVRouter.PyState
import Mathlib.Data.Finset.Card

set_option relaxedAutoImplicit false
set_option autoImplicit false

namespace NanoKVRouter

/-- A block id: the number of ids its pool had handed out before it. -/
abbrev BlockId : Type := ℕ

/-- The bookkeeping of one tier. -/
structure TierState where
  capacity : ℕ
  allocated : Finset BlockId
deriving DecidableEq

namespace TierState

/-- The number of blocks allocated on the tier. -/
def used (s : TierState) : ℕ := s.allocated.card

/-- The number of free slots of the tier. -/
def free (s : TierState) : ℤ := (s.capacity : ℤ) - s.used

end TierState

/-- The block pool of one node. -/
structure BlockPool where
  tiers : Tier → TierState
  blockTier : PyDict BlockId Tier
  refCount : PyDict BlockId ℤ
  pinCount : PyDict BlockId ℤ
  minted : ℕ

namespace BlockPool

/-- An empty pool with the capacities of the configuration. -/
def init (cfg : NodeConfig) : BlockPool where
  tiers := fun t => { capacity := cfg.blocks t, allocated := ∅ }
  blockTier := PyDict.empty
  refCount := PyDict.empty
  pinCount := PyDict.empty
  minted := 0

/-! ### Queries -/

/-- The tier of a block, or nothing if it is not allocated. -/
def tierOf (p : BlockPool) (b : BlockId) : Option Tier := p.blockTier.get? b

/-- Enter the tier of a block, if it is allocated. -/
def addTier (p : BlockPool) (d : PyDict BlockId Tier) (b : BlockId) : PyDict BlockId Tier :=
  match p.tierOf b with
  | some t => d.set b t
  | none => d

/-- The tiers of the allocated blocks of a list; freed blocks are left out. -/
def tiersOf (p : BlockPool) (ids : List BlockId) : PyDict BlockId Tier :=
  ids.foldl p.addTier PyDict.empty

/-- The number of active requests that pin a block. -/
def pinCountOf (p : BlockPool) (b : BlockId) : ℤ := p.pinCount.getD b 0

/-- The number of active requests that reference a block. -/
def refCountOf (p : BlockPool) (b : BlockId) : ℤ := p.refCount.getD b 0

/-- The state of a tier given by name. -/
def requireTier (name : String) : Py BlockPool Tier :=
  match Tier.ofName name with
  | some t => pure t
  | none => Py.raise (.valueError s!"Unknown tier {name}. Valid: gpu, cpu, disk")

/-- The number of blocks allocated on a tier. -/
def used (p : BlockPool) (t : Tier) : ℕ := (p.tiers t).used

/-- The free slots of a tier, as `stats` reports them. -/
def freeSlots (p : BlockPool) (t : Tier) : ℤ := (p.tiers t).free

/-! ### Allocation -/

/-- The ids the next allocation of `n` blocks hands out. -/
def freshIds (p : BlockPool) (n : ℕ) : List BlockId := List.range' p.minted n

/-- Record one fresh block on a tier. -/
def addBlock (t : Tier) (p : BlockPool) (b : BlockId) : BlockPool :=
  { p with
    blockTier := p.blockTier.set b t
    refCount := p.refCount.set b 0
    pinCount := p.pinCount.set b 0 }

/-- The pool with `s` as the state of tier `t`. -/
def setTier (p : BlockPool) (t : Tier) (s : TierState) : BlockPool :=
  { p with tiers := Function.update p.tiers t s }

/-- Allocate fresh block ids on a tier. -/
def allocate (n : ℕ) (tier : String) : Py BlockPool (List BlockId) := do
  let t ← requireTier tier
  let p ← get
  let state := p.tiers t
  if (n : ℤ) > state.free then
    Py.raise (.memoryError (s!"Tier {tier}: requested {n} blocks, only {state.free} free " ++
      s!"(capacity {state.capacity})"))
  let ids := p.freshIds n
  let p := p.setTier t { state with allocated := state.allocated ∪ ids.toFinset }
  set { ids.foldl (addBlock t) p with minted := p.minted + n }
  pure ids

/-! ### Freeing -/

/-- The checking loop of `free`: the tier of each block, or the first complaint. -/
def checkFree (p : BlockPool) : PyDict BlockId Tier → List BlockId →
    Except PyErr (PyDict BlockId Tier)
  | tiers, [] => .ok tiers
  | tiers, b :: ids =>
      if tiers.contains b then
        .error (.valueError s!"Duplicate block id {b} in free()")
      else
        match p.tierOf b with
        | none => .error (.keyError s!"Block {b} is not allocated")
        | some t =>
            if p.pinCountOf b > 0 then
              .error (.runtimeError s!"Block {b} is pinned and cannot be freed")
            else
              checkFree p (tiers.set b t) ids

/-- Forget one block of tier `t`. -/
def dropBlock (p : BlockPool) (b : BlockId) (t : Tier) : BlockPool :=
  { p with
    tiers := Function.update p.tiers t
      { p.tiers t with allocated := (p.tiers t).allocated.erase b }
    blockTier := p.blockTier.erase b
    refCount := p.refCount.erase b
    pinCount := p.pinCount.erase b }

/-- Release blocks back to their owning tiers. -/
def free (ids : List BlockId) : Py BlockPool Unit := do
  let p ← get
  match p.checkFree PyDict.empty ids with
  | .error e => Py.raise e
  | .ok tiers => set (tiers.entries.foldl (fun q e => q.dropBlock e.1 e.2) p)

/-! ### Moving between tiers -/

/-- Move one block between tiers, checking source, pin and capacity in that order. -/
def move (b : BlockId) (fromTier toTier : String) : Py BlockPool Unit := do
  let src ← requireTier fromTier
  let dst ← requireTier toTier
  let p ← get
  if p.tierOf b ≠ some src then
    Py.raise (.keyError s!"Block {b} is not on {fromTier}")
  if p.pinCountOf b > 0 then
    Py.raise (.runtimeError s!"Block {b} is pinned and cannot be moved")
  if (p.tiers dst).free < 1 then
    Py.raise (.memoryError s!"Tier {toTier} is full (capacity {(p.tiers dst).capacity})")
  let p := p.setTier src { p.tiers src with allocated := (p.tiers src).allocated.erase b }
  let p := p.setTier dst { p.tiers dst with allocated := insert b (p.tiers dst).allocated }
  set { p with blockTier := p.blockTier.set b dst }

/-- Move a block toward a faster tier: `move` under another name. -/
def promote (b : BlockId) (fromTier toTier : String) : Py BlockPool Unit := move b fromTier toTier

/-- Move a block toward a slower tier: `move` under another name. -/
def demote (b : BlockId) (fromTier toTier : String) : Py BlockPool Unit := move b fromTier toTier

/-! ### Pinning -/

/-- Count one more active request on a block. -/
def pinOne (p : BlockPool) (b : BlockId) : BlockPool :=
  { p with
    refCount := p.refCount.set b (p.refCountOf b + 1)
    pinCount := p.pinCount.set b (p.pinCountOf b + 1) }

/-- Count one active request less on a block. -/
def unpinOne (p : BlockPool) (b : BlockId) : BlockPool :=
  { p with
    refCount := p.refCount.set b (p.refCountOf b - 1)
    pinCount := p.pinCount.set b (p.pinCountOf b - 1) }

/-- Retain blocks for an active request. -/
def pin (ids : List BlockId) : Py BlockPool Unit := do
  let p ← get
  match ids.find? fun b => !p.blockTier.contains b with
  | some b => Py.raise (.keyError s!"Block {b} is not allocated")
  | none => set (ids.foldl pinOne p)

/-- What `unpin` has against one block of its list. -/
def unpinError (p : BlockPool) (b : BlockId) : Option PyErr :=
  if !p.blockTier.contains b then
    some (.keyError s!"Block {b} is not allocated")
  else if p.pinCountOf b ≤ 0 ∨ p.refCountOf b ≤ 0 then
    some (.runtimeError s!"Block {b} is not pinned")
  else
    none

/-- Release blocks of an active request. -/
def unpin (ids : List BlockId) : Py BlockPool Unit := do
  let p ← get
  match ids.findSome? p.unpinError with
  | some e => Py.raise e
  | none => set (ids.foldl unpinOne p)

end BlockPool

end NanoKVRouter
