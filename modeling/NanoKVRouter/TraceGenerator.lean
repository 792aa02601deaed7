/-
**Prompts from the hash ids of a trace.**

A trace names the leading blocks of a prompt by hash ids.  The generator expands each id into the
tokens of one block, fills the blocks the ids do not cover and the rest of the prompt with random
tokens, and checks the length.  The random generator is a parameter: all that is used of it is that
a draw is a call, which may raise.

Where the ids cover every full block, a prompt cut to its full blocks is the expansion of some ids;
and two expansions part only between two blocks, because the first token of a block determines the
id.

Main definitions:

* `buildTokenIds` — the prompt of a record;
* `expandHashes` — the tokens of some hash ids;
* `TraceTokens` — the prompts of records whose ids cover every full block.

Main results:

* `TraceTokens.aligned` — such a prompt, cut to its full blocks, is an expansion;
* `lcp_expandHashes` — **two expansions part at a block boundary**.
-/

import NanoKVRouter.RadixTreeCalls
import NanoKVRouter.CacheAdmit

set_option relaxedAutoImplicit false
set_option autoImplicit false

namespace NanoKVRouter

/-! ### The generator -/

/-- The tokens of the block of a hash id. -/
def hashBlock (blockSize : ℕ) (hid : ℤ) : List Token :=
  (List.range blockSize).map fun (i : ℕ) => hid * blockSize + i

/-- The tokens of some hash ids. -/
def expandHashes (blockSize : ℕ) (hids : List ℤ) : List Token := hids.flatMap (hashBlock blockSize)

/-- `xs[:n]`; a negative bound counts from the end. -/
def sliceTo {α : Type} (xs : List α) (n : ℤ) : List α :=
  if n < 0 then xs.take (xs.length - n.natAbs) else xs.take n.toNat

section Build

variable {ρ : Type} (randint : ℤ → ℤ → Py ρ ℤ)

/-- Some tokens drawn from the random generator `randint`. -/
def randomTokens (vocabSize : ℤ) : ℕ → Py ρ (List Token)
  | 0 => pure []
  | n + 1 => do
      let tok ← randint 0 (vocabSize - 1)
      let toks ← randomTokens vocabSize n
      pure (tok :: toks)

/-- Some blocks of such tokens. -/
def randomBlocks (blockSize : ℕ) (vocabSize : ℤ) : ℕ → Py ρ (List Token)
  | 0 => pure []
  | n + 1 => do
      let block ← randomTokens randint vocabSize blockSize
      let blocks ← randomBlocks blockSize vocabSize n
      pure (block ++ blocks)

/-- `_build_token_ids`: synthesise the prompt of a record from its hash ids. -/
def buildTokenIds (hashIds : List ℤ) (inputLength : ℤ) (blockSize : ℕ) (vocabSize : ℤ) :
    Py ρ (List Token) := do
  let fullBlocks := inputLength / blockSize
  let tailLen := inputLength - fullBlocks * blockSize
  let nToExpand := min (hashIds.length : ℤ) fullBlocks
  let expanded := expandHashes blockSize (sliceTo hashIds nToExpand)
  let uncovered ← randomBlocks randint blockSize vocabSize (fullBlocks - nToExpand).toNat
  let tail ← randomTokens randint vocabSize tailLen.toNat
  let tokens := expanded ++ uncovered ++ tail
  if (tokens.length : ℤ) ≠ inputLength then
    Py.raise (.assertionError (s!"len(tokens)={tokens.length} != input_length={inputLength} " ++
      s!"(hash_ids={hashIds.length}, block_size={blockSize})"))
  else
    pure tokens

end Build

/-- The prompts the generator returns for records whose hash ids cover every full block, whatever
it draws. -/
def TraceTokens (blockSize : ℕ) (T : List Token) : Prop :=
  ∃ (ρ : Type) (randint : ℤ → ℤ → Py ρ ℤ) (hashIds : List ℤ) (inputLength vocabSize : ℤ)
    (rng rng' : ρ), inputLength / blockSize ≤ hashIds.length ∧
      (buildTokenIds randint hashIds inputLength blockSize vocabSize).run rng = .ok T rng'

/-! ### Expansions -/

section Expand

variable {bs : ℕ}

@[simp] theorem length_hashBlock (bs : ℕ) (hid : ℤ) : (hashBlock bs hid).length = bs := by
  rw [hashBlock, List.length_map, List.length_range]

@[simp] theorem expandHashes_nil (bs : ℕ) : expandHashes bs [] = [] := rfl

theorem expandHashes_cons (bs : ℕ) (hid : ℤ) (hids : List ℤ) :
    expandHashes bs (hid :: hids) = hashBlock bs hid ++ expandHashes bs hids :=
  List.flatMap_cons

/-- An expansion is as long as its ids say. -/
theorem length_expandHashes (bs : ℕ) (hids : List ℤ) :
    (expandHashes bs hids).length = hids.length * bs := by
  induction hids with
  | nil => simp
  | cons hid hids ih =>
      rw [expandHashes_cons, List.length_append, length_hashBlock, ih, List.length_cons,
        Nat.succ_mul, Nat.add_comm]

/-- The first token of a block is the first multiple of the block size in it. -/
theorem exists_hashBlock (hbs : 0 < bs) (hid : ℤ) :
    ∃ toks, hashBlock bs hid = hid * bs :: toks := by
  obtain ⟨n, rfl⟩ := Nat.exists_eq_add_one.2 hbs
  exact ⟨_, by rw [hashBlock, List.range_succ_eq_map, List.map_cons, Nat.cast_zero, add_zero]⟩

/-- **Two expansions part at a block boundary**: what they have in common is an expansion. -/
theorem lcp_expandHashes (hbs : 0 < bs) (hids : List ℤ) :
    ∀ hids', ∃ common,
      RadixTree.lcp (expandHashes bs hids) (expandHashes bs hids') = expandHashes bs common := by
  induction hids with
  | nil => exact fun hids' => ⟨[], List.prefix_nil.1 (RadixTree.lcp_isPrefix_left ..)⟩
  | cons hid hids ih =>
      intro hids'
      cases hids' with
      | nil => exact ⟨[], List.prefix_nil.1 (RadixTree.lcp_isPrefix_right ..)⟩
      | cons hid' hids' =>
          by_cases heq : hid = hid'
          · subst heq
            obtain ⟨common, hc⟩ := ih hids'
            exact ⟨hid :: common, by
              rw [expandHashes_cons, expandHashes_cons, RadixTree.lcp_append, hc, expandHashes_cons]⟩
          · -- the first tokens differ
            obtain ⟨toks, htoks⟩ := exists_hashBlock hbs hid
            obtain ⟨toks', htoks'⟩ := exists_hashBlock hbs hid'
            have hne : hid * (bs : ℤ) ≠ hid' * bs := fun h =>
              heq (Int.eq_of_mul_eq_mul_right (by omega) h)
            refine ⟨[], ?_⟩
            rw [expandHashes_cons, expandHashes_cons, htoks, htoks', RadixTree.lcp]
            simp [RadixTree.cpLen, hne]

/-- What the generator returns, where the ids cover the full blocks. -/
theorem TraceTokens.exists_append {T : List Token} (h : TraceTokens bs T) :
    ∃ hids tail, T = expandHashes bs hids ++ tail ∧ hids.length = T.length / bs := by
  obtain ⟨ρ, randint, hashIds, inputLength, vocabSize, rng, rng', hcover, hrun⟩ := h
  obtain ⟨uncovered, s₁, hun, hrest⟩ := Py.bind_eq_ok.1 hrun
  obtain ⟨tail, s₂, -, hend⟩ := Py.bind_eq_ok.1 hrest
  rw [min_eq_right hcover, Int.sub_self, Int.toNat_zero] at hun
  obtain ⟨rfl, -⟩ : [] = uncovered ∧ rng = s₁ := by cases hun; exact ⟨rfl, rfl⟩
  dsimp only at hend
  rw [min_eq_right hcover, List.append_nil] at hend
  split at hend
  · cases hend
  · rename_i hlen
    rw [not_not] at hlen
    obtain rfl : expandHashes bs (sliceTo hashIds (inputLength / bs)) ++ tail = T := by
      cases hend
      rfl
    -- the length is that of the record, so that it is not negative
    have hnn : 0 ≤ inputLength := hlen ▸ Int.natCast_nonneg _
    have hfull : 0 ≤ inputLength / bs := Int.ediv_nonneg hnn (Int.natCast_nonneg _)
    refine ⟨_, tail, rfl, ?_⟩
    have hdiv : (expandHashes bs (sliceTo hashIds (inputLength / bs)) ++ tail).length / bs =
        (inputLength / bs).toNat := by
      rw [← Int.toNat_natCast (_ / bs), Int.natCast_div, hlen]
    rw [hdiv, sliceTo, if_neg (not_lt.2 hfull), List.length_take]
    omega

/-- **A prompt of a trace**, cut to its full blocks, is the expansion of some hash ids. -/
theorem TraceTokens.aligned {T : List Token} (h : TraceTokens bs T) :
    ∃ hids, (NodeCache.alignedTokens bs T).1 = expandHashes bs hids := by
  obtain ⟨hids, tail, rfl, hlen⟩ := h.exists_append
  refine ⟨hids, ?_⟩
  rw [NodeCache.alignedTokens, ← hlen, ← length_expandHashes]
  exact List.take_left

end Expand

end NanoKVRouter
