/-
**The prefix tree over token sequences.**

A node of the tree is a Python object that others point to: its parent, its children by their
first token, and the index of the tree by the node's first block.  The model keeps the objects: a
store maps addresses to nodes, the links are addresses, and a method updates the store as the
source updates its objects, in the same order, so that what an exception interrupts stays half
done here as it does there.

The clock, the minting of blocks, the pool's answers and its `free` are parameters, as they are in
the source; `π` is the state the callbacks work on.

Main definitions:

* `RadixNode`, `RadixTree` — the objects and the tree;
* `RadixTree.insert` — insert a token sequence, minting blocks and splitting an edge;
* `RadixTree.matchPrefix`, `RadixTree.matchPrefixPath` — the longest cached prefix;
* `RadixTree.purgeBlockIds`, `RadixTree.purgePathWithAnyDead` — removing nodes of freed blocks;
* `RadixTree.evictLru`, `RadixTree.evictLruWithLengths` — evicting least recently used leaves;
* `RadixTree.demoteLru` — selecting least recently used leaves for demotion.
-/

import NanoKVRouter.BlockPool
import NanoKVRouter.FloatRounding
import Mathlib.Data.List.MinMax
import Mathlib.Algebra.Order.Field.Rat

set_option relaxedAutoImplicit false
set_option autoImplicit false

namespace NanoKVRouter

/-- The identity of a tree node. -/
abbrev Addr : Type := ℕ

/-- A node of the tree. -/
structure RadixNode where
  key : List Token := []
  blockIds : List BlockId := []
  lastAccessTime : Time := 0
  refCount : ℤ := 0
  children : PyDict Token Addr := PyDict.empty
  parent : Option Addr := none

/-- The tree: the node objects, the address the next object gets, and the index of the non-root
nodes by their first block. -/
structure RadixTree where
  blockSize : ℕ
  node : Addr → RadixNode
  nextAddr : Addr
  nodes : PyDict BlockId Addr

/-- `xs[0]`. -/
def item0 {σ α : Type} : List α → Py σ α
  | [] => Py.raise (.indexError "list index out of range")
  | a :: _ => pure a

@[simp] theorem run_item0_cons {σ α : Type} (a : α) (as : List α) (s : σ) :
    (item0 (a :: as) : Py σ α).run s = .ok a s := rfl

namespace RadixTree

/-- The address of the root, which owns no block and is not in the index. -/
def root : Addr := 0

/-- An empty tree. -/
def init (blockSize : ℕ) : RadixTree where
  blockSize := max 1 blockSize
  node := fun _ => {}
  nextAddr := 1
  nodes := PyDict.empty

/-- Physical blocks needed for a node with the given key. -/
def nBlocks (t : RadixTree) (key : List Token) : ℕ :=
  if key = [] then 0 else (key.length + t.blockSize - 1) / t.blockSize

/-- Length of the common prefix of two token lists. -/
def cpLen : List Token → List Token → ℕ
  | a :: as, b :: bs => if a = b then cpLen as bs + 1 else 0
  | _, _ => 0

/-- Update the object at `a`. -/
def modifyNode (t : RadixTree) (a : Addr) (f : RadixNode → RadixNode) : RadixTree :=
  { t with node := Function.update t.node a (f (t.node a)) }

/-- `node.last_access_time = now`. -/
def touch (t : RadixTree) (a : Addr) (now : Time) : RadixTree :=
  t.modifyNode a fun n => { n with lastAccessTime := now }

/-- Create a node object. -/
def newNode (t : RadixTree) (n : RadixNode) : RadixTree :=
  { t with node := Function.update t.node t.nextAddr n, nextAddr := t.nextAddr + 1 }

/-- `self._nodes[b] = a`. -/
def index (t : RadixTree) (b : BlockId) (a : Addr) : RadixTree :=
  { t with nodes := t.nodes.set b a }

/-- `node.children[tok] = c`. -/
def setChild (t : RadixTree) (a : Addr) (tok : Token) (c : Addr) : RadixTree :=
  t.modifyNode a fun n => { n with children := n.children.set tok c }

/-- `node.children.pop(tok, None)`. -/
def dropChild (t : RadixTree) (a : Addr) (tok : Token) : RadixTree :=
  t.modifyNode a fun n => { n with children := n.children.erase tok }

/-- `self._nodes.pop(b, None)`. -/
def unindex (t : RadixTree) (b : BlockId) : RadixTree :=
  { t with nodes := t.nodes.erase b }

/-- `node.parent = None`. -/
def orphan (t : RadixTree) (a : Addr) : RadixTree :=
  t.modifyNode a fun n => { n with parent := none }

/-! ### Matching -/

/-- The loop of `match_prefix`: it stands on `node` with `rest` of the query still to match. -/
def matchPrefixLoop (now : Time) : ℕ → RadixTree → Addr → List Token → ℕ → List BlockId →
    (ℕ × List BlockId) × RadixTree
  | 0, t, _, _, bestPos, bestIds => ((bestPos, bestIds), t)
  | _ + 1, t, _, [], bestPos, bestIds => ((bestPos, bestIds), t)
  | fuel + 1, t, node, first :: rest, bestPos, bestIds =>
      match (t.node node).children.get? first with
      | none => ((bestPos, bestIds), t)
      | some child =>
          let cp := cpLen (first :: rest) (t.node child).key
          if cp < (t.node child).key.length then
            ((bestPos, bestIds), t)
          else
            matchPrefixLoop now fuel (t.touch child now) child ((first :: rest).drop cp)
              (bestPos + cp) (t.node child).blockIds

/-- Find the longest cached prefix: the matched length and the blocks of the deepest node. -/
def matchPrefix (t : RadixTree) (now : Time) (tokenIds : List Token) :
    (ℕ × List BlockId) × RadixTree :=
  if tokenIds = [] then
    ((0, (t.node root).blockIds), t)
  else
    matchPrefixLoop now tokenIds.length t root tokenIds 0 (t.node root).blockIds

/-- The loop of `match_prefix_path`. -/
def matchPathLoop (now : Time) : ℕ → RadixTree → Addr → List Token → ℕ → List BlockId →
    (ℕ × List BlockId) × RadixTree
  | 0, t, _, _, bestPos, pathBlockIds => ((bestPos, pathBlockIds), t)
  | _ + 1, t, _, [], bestPos, pathBlockIds => ((bestPos, pathBlockIds), t)
  | fuel + 1, t, node, first :: rest, bestPos, pathBlockIds =>
      match (t.node node).children.get? first with
      | none => ((bestPos, pathBlockIds), t)
      | some child =>
          let cp := cpLen (first :: rest) (t.node child).key
          if cp < (t.node child).key.length then
            ((bestPos, pathBlockIds), t)
          else
            matchPathLoop now fuel (t.touch child now) child ((first :: rest).drop cp)
              (bestPos + cp) (pathBlockIds ++ (t.node child).blockIds)

/-- Find the longest cached prefix: the matched length and the blocks of every node on the
path. -/
def matchPrefixPath (t : RadixTree) (now : Time) (tokenIds : List Token) :
    (ℕ × List BlockId) × RadixTree :=
  if tokenIds = [] then
    ((0, []), t)
  else
    matchPathLoop now tokenIds.length t root tokenIds 0 []

/-! ### Inserting -/

section Callbacks

variable {π : Type}

/-- Run a callback: it sees its own state only. -/
def callback {α : Type} (m : Py π α) : Py (RadixTree × π) α :=
  Py.onPart Prod.snd (fun p s => (s.1, p)) m

/-- Update the tree, leaving the callbacks' state alone. -/
def modifyTree (f : RadixTree → RadixTree) : Py (RadixTree × π) Unit :=
  modify fun s => (f s.1, s.2)

theorem run_callback_ok {α : Type} {m : Py π α} {a : α} {t : RadixTree} {p q : π}
    (h : m.run p = .ok a q) : (callback m).run (t, p) = .ok a (t, q) := by
  rw [callback, Py.run_onPart_ok h]

theorem run_callback_error {α : Type} {m : Py π α} {e : PyErr} {t : RadixTree} {p q : π}
    (h : m.run p = .error e q) : (callback m).run (t, p) = .error e (t, q) := by
  rw [callback, Py.run_onPart_error h]

@[simp] theorem run_modifyTree (f : RadixTree → RadixTree) (s : RadixTree × π) :
    (modifyTree f).run s = .ok () (f s.1, s.2) := by
  simp [modifyTree]

/-- No edge of `node` starts with the first token of `key`: create a fresh leaf. -/
def insertLeaf (mint : ℕ → Py π (List BlockId)) (now : Time) (node : Addr) (first : Token)
    (key : List Token) : Py (RadixTree × π) (List BlockId) := do
  let bids ← callback (mint ((← get).1.nBlocks key))
  let leaf := (← get).1.nextAddr
  modifyTree fun t => t.newNode
    { key := key, blockIds := bids, lastAccessTime := now, parent := some node }
  modifyTree fun t => t.setChild node first leaf
  let b ← item0 bids
  modifyTree fun t => t.index b leaf
  pure bids

/-- The fresh block that heads the lower half of an edge split after `cp` tokens; none is needed
unless the block at the split point is counted in both halves. -/
def mintChildHead (mint : ℕ → Py π (List BlockId)) (child : Addr) (cp : ℕ) :
    Py (RadixTree × π) (List BlockId) := do
  let t := (← get).1
  let bs := t.blockSize
  let nOld := (t.node child).blockIds.length
  let cpBlocks := (cp + bs - 1) / bs
  let tailBlocks := ((t.node child).key.length - cp + bs - 1) / bs
  if cpBlocks + tailBlocks > nOld then callback (mint 1) else pure []

/-- Split the edge from `node` to `child`, which `remaining` leaves after `cp` tokens. -/
def insertSplit (mint : ℕ → Py π (List BlockId)) (now : Time) (node : Addr) (first : Token)
    (child : Addr) (remaining : List Token) (cp : ℕ) : Py (RadixTree × π) (List BlockId) := do
  let t := (← get).1
  let oldKey := (t.node child).key
  let oldBlockIds := (t.node child).blockIds
  let cpBlocks := (cp + t.blockSize - 1) / t.blockSize
  -- nothing has changed yet: if the mint raises, the tree is as it was
  let newChildHead ← mintChildHead mint child cp
  let midBids := oldBlockIds.take cpBlocks
  let childKey := oldKey.drop cp
  let childBids := newChildHead ++ oldBlockIds.drop cpBlocks
  let mid := (← get).1.nextAddr
  modifyTree fun t => t.newNode
    { key := oldKey.take cp, blockIds := midBids, lastAccessTime := now, parent := some node }
  modifyTree fun t => t.modifyNode child fun n =>
    { n with key := childKey, blockIds := childBids, parent := some mid }
  let childFirst ← item0 childKey
  modifyTree fun t => t.setChild mid childFirst child
  modifyTree fun t => t.setChild node first mid
  let midHead ← item0 midBids
  modifyTree fun t => t.index midHead mid
  let childHead ← item0 childBids
  modifyTree fun t => t.index childHead child
  let tail := remaining.drop cp
  match tail with
  | [] => pure midBids
  | tailFirst :: _ =>
      let leafBids ← callback (mint ((← get).1.nBlocks tail))
      let leaf := (← get).1.nextAddr
      modifyTree fun t => t.newNode
        { key := tail, blockIds := leafBids, lastAccessTime := now, parent := some mid }
      let leafHead ← item0 leafBids
      modifyTree fun t => t.index leafHead leaf
      modifyTree fun t => t.setChild mid tailFirst leaf
      pure leafBids

/-- The loop of `insert`: it stands on `node` with `remaining` still to insert. -/
def insertLoop (mint : ℕ → Py π (List BlockId)) (now : Time) :
    ℕ → Addr → List Token → Py (RadixTree × π) (List BlockId)
  | 0, _, _ => Py.raise .outOfFuel
  | _ + 1, node, [] => do
      modifyTree fun t => t.touch node now
      pure ((← get).1.node node).blockIds
  | fuel + 1, node, first :: rest => do
      let t := (← get).1
      match (t.node node).children.get? first with
      | none => insertLeaf mint now node first (first :: rest)
      | some child =>
          let cp := cpLen (first :: rest) (t.node child).key
          if cp = (t.node child).key.length then
            modifyTree fun t => t.touch child now
            insertLoop mint now fuel child ((first :: rest).drop cp)
          else
            insertSplit mint now node first child (first :: rest) cp

/-- Insert a token sequence; the blocks of the node that ends it. -/
def insert (mint : ℕ → Py π (List BlockId)) (now : Time) (tokenIds : List Token) :
    Py (RadixTree × π) (List BlockId) := do
  if tokenIds = [] then
    pure ((← get).1.node root).blockIds
  else
    insertLoop mint now (tokenIds.length + 1) root tokenIds

/-! ### Purging -/

/-- Remove a node from its parent's children, if it has a parent. -/
def unlink (t : RadixTree) (a : Addr) (first : Token) : RadixTree :=
  match (t.node a).parent with
  | none => t
  | some p => (t.dropChild p first).orphan a

/-- One turn of `purge_block_ids`: remove the node if it is an unreferenced leaf that owned one of
the freed blocks and owns no allocated one. -/
def purgeOne (freed : List BlockId) (tierOf : BlockId → Option Tier) (a : Addr) :
    Py RadixTree ℕ := do
  let t ← get
  let n := t.node a
  if n.children.entries ≠ [] ∨ n.refCount > 0 then
    pure 0
  else if ¬ n.blockIds.any (freed.contains ·) then
    pure 0
  else if n.blockIds.any fun b => (tierOf b).isSome then
    pure 0
  else
    if n.parent.isSome then
      let first ← item0 n.key
      modify fun t => t.unlink a first
    let b ← item0 n.blockIds
    modify fun t => t.unindex b
    pure 1

/-- Remove the leaves that owned one of the freed blocks and own no allocated one. -/
def purgeBlockIds (freed : List BlockId) (tierOf : BlockId → Option Tier) : Py RadixTree ℕ := do
  if freed = [] then
    pure 0
  else
    -- the index is iterated over a snapshot, as it changes on the way
    (← get).nodes.values.foldlM (fun purged a => do pure (purged + (← purgeOne freed tierOf a))) 0

/-- Free the allocated blocks of a node, if it has any. -/
def freeAlive (tierOf : π → BlockId → Option Tier) (freeBlocks : List BlockId → Py π Unit)
    (a : Addr) : Py (RadixTree × π) Unit := do
  let (t, p) ← get
  let alive := (t.node a).blockIds.filter fun b => (tierOf p b).isSome
  if alive ≠ [] then callback (freeBlocks alive) else pure ()

/-- `self._nodes.pop(child.block_ids[0], None)`, if the node has blocks. -/
def unindexNode (t : RadixTree) (a : Addr) : RadixTree :=
  match (t.node a).blockIds with
  | [] => t
  | b :: _ => t.unindex b

/-- Recursively detach all descendants of a node, freeing their allocated blocks. -/
def purgeSubtreeAlive (tierOf : π → BlockId → Option Tier) (freeBlocks : List BlockId → Py π Unit) :
    ℕ → Addr → Py (RadixTree × π) ℕ
  | 0, _ => Py.raise .outOfFuel
  | fuel + 1, subtreeRoot => do
      let children := ((← get).1.node subtreeRoot).children.values
      let purged ← children.foldlM (fun purged child => do
        freeAlive tierOf freeBlocks child
        modifyTree fun t => t.unindexNode child
        modifyTree fun t => t.orphan child
        let below ← purgeSubtreeAlive tierOf freeBlocks fuel child
        pure (purged + 1 + below)) 0
      modifyTree fun t => t.modifyNode subtreeRoot fun n => { n with children := PyDict.empty }
      pure purged

/-- Remove the child of `node` under `first` and its subtree, freeing their allocated blocks. -/
def purgeNode (tierOf : π → BlockId → Option Tier) (freeBlocks : List BlockId → Py π Unit)
    (node : Addr) (first : Token) (child : Addr) : Py (RadixTree × π) ℕ := do
  freeAlive tierOf freeBlocks child
  modifyTree fun t => t.dropChild node first
  modifyTree fun t => t.unindexNode child
  modifyTree fun t => t.orphan child
  let below ← purgeSubtreeAlive tierOf freeBlocks (← get).1.nextAddr child
  pure (1 + below)

/-- The loop of `purge_path_with_any_dead`. -/
def purgePathLoop (tierOf : π → BlockId → Option Tier) (freeBlocks : List BlockId → Py π Unit) :
    ℕ → Addr → List Token → Py (RadixTree × π) ℕ
  | 0, _, _ => pure 0
  | _ + 1, _, [] => pure 0
  | fuel + 1, node, first :: rest => do
      let (t, p) ← get
      match (t.node node).children.get? first with
      | none => pure 0
      | some child =>
          let n := t.node child
          let cp := cpLen (first :: rest) n.key
          if n.refCount > 0 then
            pure 0
          else if cp < n.key.length then
            pure 0
          else if n.blockIds.any fun b => (tierOf p b).isNone then
            -- the node has at least one freed block: the path is severed here
            purgeNode tierOf freeBlocks node first child
          else
            purgePathLoop tierOf freeBlocks fuel child ((first :: rest).drop cp)

/-- Walk the path of a token sequence and remove the first node that has a freed block, with
everything below it; the number of nodes removed. -/
def purgePathWithAnyDead (tierOf : π → BlockId → Option Tier)
    (freeBlocks : List BlockId → Py π Unit) (tokenIds : List Token) : Py (RadixTree × π) ℕ :=
  purgePathLoop tierOf freeBlocks tokenIds.length root tokenIds

end Callbacks

/-! ### Demotion -/

/-- An unreferenced leaf without a pinned block: a candidate for demotion. -/
def isCandidate (t : RadixTree) (isPinned : Option (BlockId → Bool)) (a : Addr) : Bool :=
  (t.node a).children.entries.isEmpty && (t.node a).refCount = 0 &&
    !(match isPinned with
      | none => false
      | some f => (t.node a).blockIds.any f)

/-- The candidate with the least access time; the first of the index among equals. -/
def lruVictim (t : RadixTree) (isPinned : Option (BlockId → Bool)) : Option Addr :=
  (t.nodes.values.filter (t.isCandidate isPinned)).argmin fun a => (t.node a).lastAccessTime

/-- Take a leaf out of the tree: `del victim.parent.children[victim.key[0]]` and so on. -/
def removeZombie (victim : Addr) : Py RadixTree Unit := do
  let n := (← get).node victim
  match n.parent with
  | none => Py.raise (.assertionError "victim.parent is not None")
  | some p =>
      let first ← item0 n.key
      if !((← get).node p).children.contains first then
        Py.raise (.keyError s!"{first}")
      modify fun t => (t.dropChild p first).orphan victim
      let b ← item0 n.blockIds
      if !(← get).nodes.contains b then
        Py.raise (.keyError s!"{b}")
      modify fun t => t.unindex b

/-- The loop of `evict_lru` and of `evict_lru_with_lengths`, which differ in what they report of a
victim. -/
def evictLoop {α : Type} (report : RadixNode → α) : ℕ → List α → Py RadixTree (List α)
  | 0, evicted => pure evicted
  | nNodes + 1, evicted => do
      match (← get).lruVictim none with
      | none => pure evicted
      | some victim =>
          let entry := report ((← get).node victim)
          removeZombie victim
          evictLoop report nNodes (evicted ++ [entry])

/-- Evict up to `nNodes` cold, unreferenced leaves; their blocks, oldest first. -/
def evictLru (nNodes : ℕ) : Py RadixTree (List (List BlockId)) :=
  evictLoop (fun n => n.blockIds) nNodes []

/-- Like `evictLru`, but the key lengths of the evicted nodes. -/
def evictLruWithLengths (nNodes : ℕ) : Py RadixTree (List ℕ) :=
  evictLoop (fun n => n.key.length) nNodes []

/-- `clock() + 1e-9`, in double precision: late clocks absorb the step. -/
def renewedTime (now : Time) : Time := binary64.round (now + binary64.round (1 / 1000000000))

/-- The scan of `demote_lru`, with `scans` turns left; `clock k` is the clock when the `k`-th node
is selected. -/
def demoteScan (clock : ℕ → Time) (nNodes : ℕ) (tierOf : Option (BlockId → Option Tier))
    (isPinned : Option (BlockId → Bool)) :
    ℕ → List (List BlockId) → Py RadixTree (List (List BlockId))
  | 0, demoted => pure demoted
  | scans + 1, demoted => do
      if demoted.length < nNodes then
        let t ← get
        match t.lruVictim isPinned with
        | none => pure demoted
        | some victim =>
            let bids := (t.node victim).blockIds
            let zombie := match tierOf with
              | none => false
              | some f => bids.all fun b => (f b).isNone
            if zombie then
              removeZombie victim
              demoteScan clock nNodes tierOf isPinned scans demoted
            else
              -- advance the access time, so that repeated calls pick different nodes
              modify fun t => t.touch victim (renewedTime (clock demoted.length))
              demoteScan clock nNodes tierOf isPinned scans (demoted ++ [bids])
      else
        pure demoted

/-- Select least recently used leaves for tier demotion, without removing them from the tree. -/
def demoteLru (clock : ℕ → Time) (nNodes : ℕ) (tierOf : Option (BlockId → Option Tier))
    (isPinned : Option (BlockId → Bool)) : Py RadixTree (List (List BlockId)) := do
  -- bound the scan, in case many zombies exist
  let maxScans := (← get).nodes.entries.length + nNodes + 1
  demoteScan clock nNodes tierOf isPinned maxScans []

end RadixTree

end NanoKVRouter
