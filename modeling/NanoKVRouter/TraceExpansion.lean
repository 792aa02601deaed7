/-
**The prompts of two records agree where their hash ids agree.**

A prompt is the expansion of the leading hash ids, one block each, and then tokens that are drawn;
it has the length that the record asks for, so that the check of the generator never fails.  The
first token of a block determines its id, because the ids are multiplied by the block size; so two
expansions have as many tokens in common as their ids have blocks in common.

Main definitions:

* `Draws` — a random generator that returns what it is asked for;
* `coveredBlocks` — the full blocks of a prompt that the hash ids cover.

Main results:

* `run_buildTokenIds` — **the generator returns a prompt of the length of the record**;
* `cpLen_expandHashes` — what two expansions have in common;
* `expansion_faithful` — **two prompts have in common what their hash ids have in common**.
-/

import NanoKVRouter.TraceGenerator

set_option relaxedAutoImplicit false
set_option autoImplicit false

namespace NanoKVRouter

open RadixTree

/-! ### Draws -/

/-- Every call of `randint` with these bounds returns, and it returns what `P` says. -/
def Draws {ρ : Type} (randint : ℤ → ℤ → Py ρ ℤ) (low high : ℤ) (P : Token → Prop) : Prop :=
  ∀ rng, ∃ tok rng', (randint low high).run rng = .ok tok rng' ∧ P tok

section Build

variable {ρ : Type} {randint : ℤ → ℤ → Py ρ ℤ} {vocabSize : ℤ} {P : Token → Prop} {bs : ℕ}

theorem run_randomTokens (hdraw : Draws randint 0 (vocabSize - 1) P) (n : ℕ) (rng : ρ) :
    ∃ toks rng', (randomTokens randint vocabSize n).run rng = .ok toks rng' ∧ toks.length = n ∧
      ∀ tok ∈ toks, P tok := by
  induction n generalizing rng with
  | zero => exact ⟨[], rng, rfl, rfl, fun _ h => absurd h List.not_mem_nil⟩
  | succ n ih =>
      obtain ⟨tok, rng₁, hrun, htok⟩ := hdraw rng
      obtain ⟨toks, rng₂, hrun', hlen, htoks⟩ := ih rng₁
      refine ⟨tok :: toks, rng₂, ?_, by rw [List.length_cons, hlen], ?_⟩
      · rw [randomTokens, Py.run_bind_ok hrun, Py.run_bind_ok hrun']
        rfl
      · intro t ht
        rcases List.mem_cons.1 ht with rfl | ht
        · exact htok
        · exact htoks t ht

theorem run_randomBlocks (hdraw : Draws randint 0 (vocabSize - 1) P) (n : ℕ) (rng : ρ) :
    ∃ toks rng', (randomBlocks randint bs vocabSize n).run rng = .ok toks rng' ∧
      toks.length = n * bs ∧ ∀ tok ∈ toks, P tok := by
  induction n generalizing rng with
  | zero => exact ⟨[], rng, rfl, by simp, fun _ h => absurd h List.not_mem_nil⟩
  | succ n ih =>
      obtain ⟨block, rng₁, hrun, hlen, hblock⟩ := run_randomTokens hdraw bs rng
      obtain ⟨blocks, rng₂, hrun', hlen', hblocks⟩ := ih rng₁
      refine ⟨block ++ blocks, rng₂, ?_, ?_, ?_⟩
      · rw [randomBlocks, Py.run_bind_ok hrun, Py.run_bind_ok hrun']
        rfl
      · rw [List.length_append, hlen, hlen', Nat.succ_mul, Nat.add_comm]
      · intro t ht
        rcases List.mem_append.1 ht with ht | ht
        · exact hblock t ht
        · exact hblocks t ht

/-- The full blocks of a prompt of `inputLength` tokens that the hash ids cover. -/
def coveredBlocks (bs : ℕ) (hashIds : List ℤ) (inputLength : ℕ) : ℕ :=
  min hashIds.length (inputLength / bs)

/-- **The generator returns a prompt of the length of the record**: the expansion of the hash ids
of the blocks that they cover, and then drawn tokens. -/
theorem run_buildTokenIds (hdraw : Draws randint 0 (vocabSize - 1) P) (hashIds : List ℤ)
    (inputLength : ℕ) (rng : ρ) :
    ∃ drawn rng', (buildTokenIds randint hashIds inputLength bs vocabSize).run rng =
        .ok (expandHashes bs (hashIds.take (coveredBlocks bs hashIds inputLength)) ++ drawn) rng' ∧
      (expandHashes bs (hashIds.take (coveredBlocks bs hashIds inputLength)) ++ drawn).length =
        inputLength ∧ ∀ tok ∈ drawn, P tok := by
  obtain ⟨n, hn⟩ : ∃ n, n = coveredBlocks bs hashIds inputLength := ⟨_, rfl⟩
  have hfull : (inputLength : ℤ) / bs = (inputLength / bs : ℕ) := (Int.natCast_div _ _).symm
  have hcover : min (hashIds.length : ℤ) ((inputLength : ℤ) / bs) = n := by
    rw [hfull, hn, coveredBlocks, Nat.cast_min]
  have hslice : sliceTo hashIds n = hashIds.take n := by
    rw [sliceTo, if_neg (by omega), Int.toNat_natCast]
  have hle : n ≤ inputLength / bs := hn ▸ Nat.min_le_right _ _
  have hle' : n ≤ hashIds.length := hn ▸ Nat.min_le_left _ _
  have huncovered : ((inputLength : ℤ) / bs - n).toNat = inputLength / bs - n := by omega
  have htail : ((inputLength : ℤ) - (inputLength : ℤ) / bs * bs).toNat =
      inputLength - inputLength / bs * bs := by
    have hmul : (inputLength : ℤ) / bs * bs = (inputLength / bs * bs : ℕ) := by
      rw [hfull, Nat.cast_mul]
    omega
  obtain ⟨uncovered, rng₁, hrun, hlen, huncov⟩ :=
    @run_randomBlocks _ _ _ _ bs hdraw (inputLength / bs - n) rng
  obtain ⟨tail, rng₂, hrun', hlen', htails⟩ :=
    run_randomTokens hdraw (inputLength - inputLength / bs * bs) rng₁
  rw [← hn]
  have hlength : (expandHashes bs (hashIds.take n) ++ uncovered ++ tail).length = inputLength := by
    rw [List.length_append, List.length_append, length_expandHashes, List.length_take, hlen, hlen',
      Nat.min_eq_left hle', ← Nat.add_mul, Nat.add_sub_cancel' hle]
    have := Nat.div_mul_le_self inputLength bs
    omega
  refine ⟨uncovered ++ tail, rng₂, ?_, by rw [← List.append_assoc, hlength], ?_⟩
  · rw [buildTokenIds, hcover, hslice, huncovered, htail, Py.run_bind_ok hrun,
      Py.run_bind_ok hrun', ← List.append_assoc]
    dsimp only
    rw [if_neg]
    · rfl
    · rw [hlength]
      exact not_not.2 rfl
  · intro t ht
    rcases List.mem_append.1 ht with ht | ht
    · exact huncov t ht
    · exact htails t ht

end Build

/-! ### What two prompts have in common -/

theorem cpLen_append (x a b : List Token) : cpLen (x ++ a) (x ++ b) = x.length + cpLen a b := by
  induction x with
  | nil => rw [List.nil_append, List.nil_append, List.length_nil, Nat.zero_add]
  | cons t x ih =>
      rw [List.cons_append, List.cons_append, cpLen, if_pos rfl, ih, List.length_cons]
      omega

/-- **Two expansions have as many tokens in common as their ids have blocks in common.** -/
theorem cpLen_expandHashes {bs : ℕ} (hbs : 0 < bs) (hids : List ℤ) :
    ∀ hids', cpLen (expandHashes bs hids) (expandHashes bs hids') = bs * cpLen hids hids' := by
  induction hids with
  | nil =>
      intro hids'
      cases hids' with
      | nil => rfl
      | cons hid' hids' => rfl
  | cons hid hids ih =>
      intro hids'
      cases hids' with
      | nil =>
          rw [expandHashes_cons, expandHashes_nil]
          cases hashBlock bs hid ++ expandHashes bs hids with
          | nil => rfl
          | cons t ts => rfl
      | cons hid' hids' =>
          rw [expandHashes_cons, expandHashes_cons]
          by_cases heq : hid = hid'
          · subst heq
            rw [cpLen_append, length_hashBlock, ih, cpLen, if_pos rfl, Nat.mul_succ, Nat.add_comm]
          · -- the first tokens differ
            obtain ⟨toks, htoks⟩ := exists_hashBlock hbs hid
            obtain ⟨toks', htoks'⟩ := exists_hashBlock hbs hid'
            have hne : hid * (bs : ℤ) ≠ hid' * bs := fun h =>
              heq (Int.eq_of_mul_eq_mul_right (by omega) h)
            rw [htoks, htoks', List.cons_append, List.cons_append, cpLen, if_neg hne, cpLen,
              if_neg heq, Nat.mul_zero]

/-- **Two prompts have in common what their hash ids have in common**: the generator returns
prompts of exactly the lengths of the records, and the blocks that the hash ids cover agree in as
many tokens as a block has for every id the two lists of ids have in common. -/
theorem expansion_faithful {ρ : Type} {randint : ℤ → ℤ → Py ρ ℤ} {vocabSize : ℤ}
    (hdraw : Draws randint 0 (vocabSize - 1) fun _ => True) {bs : ℕ} (hbs : 1 ≤ bs)
    (h₁ h₂ : List ℤ) (L₁ L₂ : ℕ) (rng₁ rng₂ : ρ) :
    ∃ T₁ T₂ rng₁' rng₂',
      (buildTokenIds randint h₁ L₁ bs vocabSize).run rng₁ = .ok T₁ rng₁' ∧
      (buildTokenIds randint h₂ L₂ bs vocabSize).run rng₂ = .ok T₂ rng₂' ∧
      T₁.length = L₁ ∧ T₂.length = L₂ ∧
      cpLen (T₁.take (coveredBlocks bs h₁ L₁ * bs)) (T₂.take (coveredBlocks bs h₂ L₂ * bs)) =
        bs * cpLen (h₁.take (coveredBlocks bs h₁ L₁)) (h₂.take (coveredBlocks bs h₂ L₂)) := by
  have htake : ∀ (h : List ℤ) (L : ℕ) (drawn : List Token),
      (expandHashes bs (h.take (coveredBlocks bs h L)) ++ drawn).take (coveredBlocks bs h L * bs) =
        expandHashes bs (h.take (coveredBlocks bs h L)) := by
    intro h L drawn
    have hle : coveredBlocks bs h L ≤ h.length := Nat.min_le_left _ _
    have hlen : (expandHashes bs (h.take (coveredBlocks bs h L))).length =
        coveredBlocks bs h L * bs := by
      rw [length_expandHashes, List.length_take, Nat.min_eq_left hle]
    rw [← hlen, List.take_left]
  obtain ⟨drawn₁, rng₁', hrun₁, hlen₁, -⟩ := @run_buildTokenIds _ _ _ _ bs hdraw h₁ L₁ rng₁
  obtain ⟨drawn₂, rng₂', hrun₂, hlen₂, -⟩ := @run_buildTokenIds _ _ _ _ bs hdraw h₂ L₂ rng₂
  refine ⟨_, _, rng₁', rng₂', hrun₁, hrun₂, hlen₁, hlen₂, ?_⟩
  rw [htake, htake]
  exact cpLen_expandHashes hbs _ _

/-- A random generator that counts up, for the small prompts below. -/
def countUp (low _high : ℤ) : Py ℕ ℤ := do
  let n ← get
  set (n + 1)
  pure (low + n)

/-- Two prompts in blocks of two tokens, whose ids agree in the first and part in the second. -/
theorem expansion_faithful_two :
    ∃ T₁ T₂ rng₁ rng₂,
      (buildTokenIds countUp [4, 7, 9] 5 2 100).run 0 = .ok T₁ rng₁ ∧
      (buildTokenIds countUp [4, 8] 7 2 100).run 10 = .ok T₂ rng₂ ∧
      T₁.length = 5 ∧ T₂.length = 7 ∧ cpLen (T₁.take 4) (T₂.take 4) = 2 := by
  have hdraw : Draws countUp 0 (100 - 1) fun _ => True := fun rng => ⟨_, _, rfl, trivial⟩
  exact expansion_faithful hdraw (by decide) [4, 7, 9] [4, 8] 5 7 0 10

end NanoKVRouter
