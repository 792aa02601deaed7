/-
**Making a request of a prompt.**

A request is stamped with a hash of the first block of its prompt, and the hash reads the tokens
packed into four bytes each.  A token that does not fit into four bytes makes the packing raise, so
that no request is made.  The tokens that are drawn fit as long as the vocabulary does; the tokens
of a hash id fit as long as the id times the block size does, and ids have no bound.

Main definitions:

* `structPack`, `hashPrefix` — the hash of a prompt; `makeRequest` — the request of a prompt;
* `FitsHash` — the first block of the prompt of a record fits.

Main results:

* `run_structPack_iff` — packing returns exactly if every token fits;
* `makes_request_iff` — **a request is made of a record, whatever is drawn, exactly if its first
  block fits**.
-/

import NanoKVRouter.Request
import NanoKVRouter.TraceExpansion

set_option relaxedAutoImplicit false
set_option autoImplicit false

namespace NanoKVRouter

/-! ### The hash of a prompt -/

/-- A token that the packing takes: four bytes, no sign. -/
def FitsU32 (tok : ℤ) : Prop := 0 ≤ tok ∧ tok ≤ 4294967295

instance (tok : ℤ) : Decidable (FitsU32 tok) := inferInstanceAs (Decidable (_ ∧ _))

/-- The four bytes of a token, the high one first. -/
def bigEndian (tok : Token) : List UInt8 :=
  [24, 16, 8, 0].map fun shift => UInt8.ofNat (tok.toNat >>> shift)

/-- `struct.pack` with one `I` for every value. -/
def structPack {σ : Type} : List Token → Py σ (List UInt8)
  | [] => pure []
  | tok :: toks => do
      if ¬ FitsU32 tok then
        Py.raise .structError
      let rest ← structPack toks
      pure (bigEndian tok ++ rest)

section Make

variable {σ : Type} (hexdigest : List UInt8 → String)

/-- `_hash_prefix`: hash the first `prefixLen` tokens.  `hexdigest` is the hex digest of SHA-256. -/
def hashPrefix (tokenIds : List Token) (prefixLen : ℕ) : Py σ String := do
  let data ← structPack (tokenIds.take prefixLen)
  pure (String.ofList ((hexdigest data).toList.take 8))

/-- What `make_request` makes: a request, and the fields that only the logs read. -/
structure StampedRequest extends Request where
  prefixHash : String
  priority : ℤ

/-- `make_request`: construct a request whose remaining fields come from the configuration;
`uuid4` is the identifier it is given. -/
def makeRequest (uuid4 : RequestId) (tokenIds : List Token) (arrivalTime : Time)
    (config : NanoKVConfig) (priority : ℤ) (expectedOutputLen : Option ℤ) :
    Py σ StampedRequest := do
  let prefixHash ← hashPrefix hexdigest tokenIds config.model.blockSize
  pure {
    requestId := uuid4
    tokenIds
    prefixHash
    expectedOutputLen := expectedOutputLen.getD config.workload.avgOutputLen
    arrivalTime
    sloTtft := config.slo.ttftTargetMs
    sloTbt := config.slo.tbtTargetMs
    priority }

end Make

/-! ### When a prompt is packed -/

section Pack

variable {σ : Type} {hexdigest : List UInt8 → String}

theorem run_structPack {toks : List Token} (hfits : ∀ tok ∈ toks, FitsU32 tok) (s : σ) :
    (structPack toks).run s = .ok (toks.flatMap bigEndian) s := by
  induction toks with
  | nil => rfl
  | cons tok toks ih =>
      have htok : ¬ ¬ FitsU32 tok := not_not.2 (hfits tok List.mem_cons_self)
      have hrest := ih fun t ht => hfits t (List.mem_cons_of_mem _ ht)
      rw [structPack, if_neg htok]
      dsimp only
      rw [Py.run_bind_ok hrest]
      rfl

theorem run_structPack_error {toks : List Token} {tok : Token} (hmem : tok ∈ toks)
    (hfit : ¬ FitsU32 tok) (s : σ) : (structPack toks).run s = .error .structError s := by
  induction toks with
  | nil => cases hmem
  | cons first toks ih =>
      rw [structPack]
      by_cases hfirst : FitsU32 first
      · rcases List.mem_cons.1 hmem with rfl | hmem
        · exact absurd hfirst hfit
        · rw [if_neg (not_not.2 hfirst)]
          dsimp only
          rw [Py.run_bind_error (ih hmem)]
      · rw [if_pos hfirst]
        rfl

/-- Packing returns exactly if every token fits. -/
theorem run_structPack_iff {toks : List Token} (s : σ) :
    (∃ bytes, (structPack toks).run s = .ok bytes s) ↔ ∀ tok ∈ toks, FitsU32 tok := by
  constructor
  · rintro ⟨bytes, hrun⟩ tok hmem
    by_contra hfit
    rw [run_structPack_error hmem hfit] at hrun
    cases hrun
  · exact fun hfits => ⟨_, run_structPack hfits s⟩

theorem run_hashPrefix {toks : List Token} {n : ℕ}
    (hfits : ∀ tok ∈ toks.take n, FitsU32 tok) (s : σ) :
    ∃ hash, (hashPrefix hexdigest toks n).run s = .ok hash s := by
  refine ⟨String.ofList ((hexdigest ((toks.take n).flatMap bigEndian)).toList.take 8), ?_⟩
  rw [hashPrefix, Py.run_bind_ok (run_structPack hfits s)]
  rfl

/-- The request that is made of a prompt whose first block fits. -/
theorem run_makeRequest {toks : List Token} {config : NanoKVConfig}
    (hfits : ∀ tok ∈ toks.take config.model.blockSize, FitsU32 tok) (uuid4 : RequestId)
    (arrivalTime : Time) (priority : ℤ) (expectedOutputLen : Option ℤ) (s : σ) :
    ∃ hash, (makeRequest hexdigest uuid4 toks arrivalTime config priority
        expectedOutputLen).run s =
      .ok {
        requestId := uuid4
        tokenIds := toks
        prefixHash := hash
        expectedOutputLen := expectedOutputLen.getD config.workload.avgOutputLen
        arrivalTime := arrivalTime
        sloTtft := config.slo.ttftTargetMs
        sloTbt := config.slo.tbtTargetMs
        priority := priority } s := by
  obtain ⟨hash, hrun⟩ := @run_hashPrefix _ hexdigest _ _ hfits s
  refine ⟨hash, ?_⟩
  rw [makeRequest, Py.run_bind_ok hrun]
  rfl

/-- A token of the first block that does not fit makes the call raise. -/
theorem run_makeRequest_error {toks : List Token} {config : NanoKVConfig} {tok : Token}
    (hmem : tok ∈ toks.take config.model.blockSize) (hfit : ¬ FitsU32 tok) (uuid4 : RequestId)
    (arrivalTime : Time) (priority : ℤ) (expectedOutputLen : Option ℤ) (s : σ) :
    (makeRequest hexdigest uuid4 toks arrivalTime config priority expectedOutputLen).run s =
      .error .structError s := by
  have hhash : (hashPrefix hexdigest toks config.model.blockSize).run s = .error .structError s := by
    rw [hashPrefix, Py.run_bind_error (run_structPack_error hmem hfit s)]
  rw [makeRequest, Py.run_bind_error hhash]

end Pack

/-! ### The records of which a request is made -/

/-- The values that `randint` returns. -/
def Between (low high tok : ℤ) : Prop := low ≤ tok ∧ tok ≤ high

/-- A request is made of the prompt of a record, whatever is drawn. -/
def MakesRequest (hexdigest : List UInt8 → String) (config : NanoKVConfig) (hashIds : List ℤ)
    (inputLength : ℕ) : Prop :=
  ∀ (ρ : Type) (randint : ℤ → ℤ → Py ρ ℤ),
    Draws randint 0 (config.generator.vocabSize - 1) (Between 0 (config.generator.vocabSize - 1)) →
    ∀ (uuid4 : RequestId) (arrivalTime : Time) (priority : ℤ) (expectedOutputLen : Option ℤ)
      (rng : ρ), ∃ toks rng₁ req rng₂,
        (buildTokenIds randint hashIds inputLength config.model.blockSize
          config.generator.vocabSize).run rng = .ok toks rng₁ ∧
        (makeRequest hexdigest uuid4 toks arrivalTime config priority expectedOutputLen).run rng₁ =
          .ok req rng₂

/-- The first block of the prompt of a record fits: that of its first hash id, or, where no id
covers a block, whatever is drawn. -/
def FitsHash (blockSize vocabSize : ℕ) (hashIds : List ℤ) (inputLength : ℕ) : Prop :=
  match hashIds.take (coveredBlocks blockSize hashIds inputLength) with
  | hid :: _ => (hid + 1) * blockSize ≤ 2 ^ 32
  | [] => inputLength = 0 ∨ vocabSize ≤ 2 ^ 32

theorem mem_hashBlock {bs : ℕ} {hid : ℤ} {tok : Token} :
    tok ∈ hashBlock bs hid ↔ ∃ i < bs, tok = hid * bs + (i : ℕ) := by
  rw [hashBlock, List.mem_map]
  constructor
  · rintro ⟨i, hi, rfl⟩
    exact ⟨i, List.mem_range.1 hi, rfl⟩
  · rintro ⟨i, hi, rfl⟩
    exact ⟨i, List.mem_range.2 hi, rfl⟩

/-- The tokens of a block fit exactly if its last token does. -/
theorem fits_hashBlock_iff {bs : ℕ} (hbs : 1 ≤ bs) {hid : ℤ} (hnn : 0 ≤ hid) :
    (∀ tok ∈ hashBlock bs hid, FitsU32 tok) ↔ (hid + 1) * bs ≤ 2 ^ 32 := by
  obtain ⟨n, rfl⟩ := Nat.exists_eq_add_one.2 hbs
  have hmul : 0 ≤ hid * (n + 1 : ℕ) := Int.mul_nonneg hnn (Int.natCast_nonneg _)
  have hsucc : (hid + 1) * (n + 1 : ℕ) = hid * (n + 1 : ℕ) + (n + 1 : ℕ) := by
    rw [Int.add_mul, Int.one_mul]
  rw [hsucc]
  constructor
  · intro h
    obtain ⟨-, hlast⟩ := h _ (mem_hashBlock.2 ⟨n, by omega, rfl⟩)
    omega
  · intro h tok hmem
    obtain ⟨i, hi, rfl⟩ := mem_hashBlock.1 hmem
    exact ⟨by omega, by omega⟩

section Records

variable {hexdigest : List UInt8 → String} {config : NanoKVConfig} {hashIds : List ℤ}
  {inputLength : ℕ}

/-- The first block of a prompt that starts with the block of a hash id. -/
theorem take_expandHashes_cons (bs : ℕ) (hid : ℤ) (hids : List ℤ) (drawn : List Token) :
    (expandHashes bs (hid :: hids) ++ drawn).take bs = hashBlock bs hid := by
  rw [expandHashes_cons, List.append_assoc, List.take_append_of_le_length (by simp),
    List.take_of_length_le (by simp)]

/-- Where the first block fits, so do its tokens, whatever is drawn. -/
theorem FitsHash.fits {bs vocabSize : ℕ} (hbs : 1 ≤ bs) (hids : List ℤ) (L : ℕ)
    (hnonneg : ∀ hid ∈ (hids.take (coveredBlocks bs hids L)).head?, 0 ≤ hid)
    (h : FitsHash bs vocabSize hids L) {drawn : List Token}
    (hlen : (expandHashes bs (hids.take (coveredBlocks bs hids L)) ++ drawn).length = L)
    (hdrawn : ∀ tok ∈ drawn, Between 0 (vocabSize - 1 : ℤ) tok) :
    ∀ tok ∈ (expandHashes bs (hids.take (coveredBlocks bs hids L)) ++ drawn).take bs,
      FitsU32 tok := by
  rw [FitsHash] at h
  cases hcov : hids.take (coveredBlocks bs hids L) with
  | nil =>
      rw [hcov] at h hlen
      intro tok hmem
      rw [expandHashes_nil, List.nil_append] at hmem hlen
      obtain ⟨hlow, hhigh⟩ := hdrawn tok (List.mem_of_mem_take hmem)
      rcases h with rfl | hvocab
      · rw [List.eq_nil_of_length_eq_zero hlen, List.take_nil] at hmem
        cases hmem
      · exact ⟨hlow, by omega⟩
  | cons hid hids' =>
      rw [hcov] at h hnonneg
      rw [take_expandHashes_cons]
      exact (fits_hashBlock_iff hbs (hnonneg hid rfl)).2 h

/-- **Where the first block fits a request is made.** -/
theorem FitsHash.makesRequest (hnonneg : ∀ hid ∈ hashIds, 0 ≤ hid)
    (h : FitsHash config.model.blockSize config.generator.vocabSize hashIds inputLength) :
    MakesRequest hexdigest config hashIds inputLength := by
  intro ρ randint hdraw uuid4 arrivalTime priority expectedOutputLen rng
  obtain ⟨drawn, rng₁, hrun, hlen, hdrawn⟩ :=
    @run_buildTokenIds _ _ _ _ config.model.blockSize hdraw hashIds inputLength rng
  have hfits := h.fits config.model.one_le_blockSize hashIds inputLength
    (fun hid hhead => hnonneg hid (List.mem_of_mem_take (List.mem_of_mem_head? hhead))) hlen hdrawn
  obtain ⟨hash, hmake⟩ := @run_makeRequest _ hexdigest _ _ hfits uuid4 arrivalTime priority
    expectedOutputLen rng₁
  exact ⟨_, rng₁, _, _, hrun, hmake⟩

/-- The random generator that draws the greatest token. -/
def drawHigh (_low high : ℤ) : Py Unit ℤ := pure high

/-- **Where the first block does not fit**, a request is not made of every draw. -/
theorem MakesRequest.fitsHash (hnonneg : ∀ hid ∈ hashIds, 0 ≤ hid)
    (h : MakesRequest hexdigest config hashIds inputLength) :
    FitsHash config.model.blockSize config.generator.vocabSize hashIds inputLength := by
  have hvocab := config.generator.one_le_vocabSize
  have hhigh : Draws drawHigh 0 (config.generator.vocabSize - 1)
      (· = (config.generator.vocabSize - 1 : ℤ)) := fun rng => ⟨_, rng, rfl, rfl⟩
  obtain ⟨drawn, rng₁, hrun, hlen, hdrawn⟩ :=
    @run_buildTokenIds _ _ _ _ config.model.blockSize hhigh hashIds inputLength ()
  obtain ⟨toks, rng₂, req, rng₃, hrun', hmake⟩ := h Unit drawHigh
    (fun rng => ⟨_, rng, rfl, by omega, le_refl _⟩) "" 0 0 none ()
  obtain ⟨rfl, -⟩ := EStateM.Result.ok.inj (hrun.symm.trans hrun')
  have hfits : ∀ tok ∈ (expandHashes config.model.blockSize (hashIds.take
      (coveredBlocks config.model.blockSize hashIds inputLength)) ++ drawn).take
        config.model.blockSize, FitsU32 tok := by
    intro tok hmem
    by_contra hfit
    rw [run_makeRequest_error hmem hfit] at hmake
    cases hmake
  rw [FitsHash]
  cases hids : hashIds.take (coveredBlocks config.model.blockSize hashIds inputLength) with
  | nil =>
      rw [hids, expandHashes_nil, List.nil_append] at hlen hfits
      cases drawn with
      | nil => exact Or.inl hlen.symm
      | cons tok drawn =>
          -- the first token is drawn
          obtain ⟨n, hn⟩ := Nat.exists_eq_add_one.2 config.model.one_le_blockSize
          rw [hn, List.take_succ_cons] at hfits
          obtain ⟨-, hle⟩ := hfits tok List.mem_cons_self
          rw [hdrawn tok List.mem_cons_self] at hle
          exact Or.inr (by omega)
  | cons hid hids' =>
      have hmem : hid ∈ hashIds := List.mem_of_mem_take (hids ▸ List.mem_cons_self)
      rw [hids, take_expandHashes_cons] at hfits
      exact (fits_hashBlock_iff config.model.one_le_blockSize (hnonneg hid hmem)).1 hfits

/-- **A request is made of a record, whatever is drawn, exactly if its first block fits.** -/
theorem makes_request_iff (hnonneg : ∀ hid ∈ hashIds, 0 ≤ hid) :
    MakesRequest hexdigest config hashIds inputLength ↔
      FitsHash config.model.blockSize config.generator.vocabSize hashIds inputLength :=
  ⟨MakesRequest.fitsHash hnonneg, FitsHash.makesRequest hnonneg⟩

end Records

/-- The default configuration with the blocks of the traces. -/
def traceBlocks : NanoKVConfig :=
  { NanoKVConfig.defaults with
    model := { ModelConfig.defaults with
      blockSize := 512
      one_le_blockSize := Nat.le_add_left 1 511 } }

/-- The largest id whose block of 512 tokens fits. -/
theorem makes_request_iff_largest :
    MakesRequest (fun _ => "00000000") traceBlocks [8388607, 3] 1000 ↔
      FitsHash 512 32000 [8388607, 3] 1000 :=
  makes_request_iff (by decide)

/-- No request is made of a record of one block whose hash id is 2²³. -/
theorem makes_request_fails :
    ¬ ∃ hexdigest, MakesRequest hexdigest traceBlocks [8388608] 512 := by
  rintro ⟨hexdigest, h⟩
  have hfits : ((8388608 : ℤ) + 1) * (512 : ℕ) ≤ 2 ^ 32 := h.fitsHash (by decide)
  exact absurd hfits (by decide)

end NanoKVRouter
