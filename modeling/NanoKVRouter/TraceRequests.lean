/-
**The requests of a trace.**

In every mode the prompt of a well-formed record has the length of the record, whatever is drawn, and
a request is made of it as long as its first block can be packed for the hash.  The next request of a
file is that of its next record: lines that are not JSON are skipped, and take no number.

Main definitions:

* `ReplayParams` — what stays the same in a replay;
* `TraceRecord.WellFormed`, `TraceRecord.Packs` — the records of which a request is made;
* `TraceGenerator.MadeFrom` — the request of a record.

Main results:

* `TraceGenerator.run_buildTokenIdsFromRecord` — **the prompt of a record**;
* `TraceGenerator.run_nextRequest` — **the next request of a file**.
-/

import NanoKVRouter.TraceReplay

set_option relaxedAutoImplicit false
set_option autoImplicit false

namespace NanoKVRouter

/-! ### Records of which a request is made -/

/-- What stays the same in a replay: the configuration, and the vocabulary of the synthesis model
where there is one. -/
structure ReplayParams where
  config : NanoKVConfig
  traceCfg : TraceConfig
  synthesisVocab : ℕ

namespace TraceRecord

/-- A record has the fields that its mode reads. -/
structure WellFormed (mode : PrefixMode) (record : TraceRecord) : Prop where
  inputLength : ∃ n : ℕ, record.inputLength = some (n : ℤ)
  outputLength : record.outputLength.isSome
  hashIds : mode = .hashIds → record.hashIds.isSome

/-- The first block of the prompt of a record can be packed for the hash: that of its first hash
id, or, where no id covers a block, whatever is drawn. -/
def Packs (P : ReplayParams) (record : TraceRecord) : Prop :=
  match P.traceCfg.prefixMode with
  | .none => record.inputLength = some 0 ∨ P.config.generator.vocabSize ≤ 2 ^ 32
  | .hashIds => ∀ hids ∈ record.hashIds, ∀ n : ℕ, record.inputLength = some (n : ℤ) →
      FitsHash P.config.model.blockSize P.config.generator.vocabSize hids n ∧
      ∀ hid ∈ (hids.take (coveredBlocks P.config.model.blockSize hids n)).head?, 0 ≤ hid
  | .synthesis => record.inputLength = some 0 ∨
      P.config.generator.vocabSize ≤ 2 ^ 32 ∧ P.synthesisVocab ≤ 2 ^ 32

end TraceRecord

theorem fitsU32_of_between {vocabSize : ℕ} (h : vocabSize ≤ 2 ^ 32) {tok : Token}
    (hb : Between 0 (vocabSize - 1 : ℤ) tok) : FitsU32 tok := by
  obtain ⟨hlow, hhigh⟩ := hb
  exact ⟨hlow, by omega⟩

namespace TraceGenerator

variable {ρ : Type} {P : ReplayParams} {gen gen' : TraceGenerator ρ}

/-- The generator plays a replay with these parameters. -/
structure Plays (P : ReplayParams) (gen : TraceGenerator ρ) : Prop where
  config : gen.config = P.config
  traceCfg : gen.traceCfg = P.traceCfg
  model : ∀ model ∈ gen.synthesisModel, model.Valid ∧ model.vocabSize = P.synthesisVocab

/-- A call has left the bookkeeping of the generator as it was. -/
structure SameBook (P : ReplayParams) (gen gen' : TraceGenerator ρ) : Prop where
  plays : gen'.Plays P
  idx : gen'.idx = gen.idx
  file : gen'.file = gen.file

theorem Plays.withRng (h : gen.Plays P) (rng : ρ) : SameBook P gen { gen with rng } :=
  ⟨⟨h.config, h.traceCfg, h.model⟩, rfl, rfl⟩

theorem run_onRng_ok {α : Type} {m : Py ρ α} {a : α} {rng : ρ} (h : m.run gen.rng = .ok a rng) :
    (onRng m).run gen = .ok a { gen with rng } :=
  Py.run_onPart_ok h

theorem run_assertLength {σ : Type} {tokens : List Token} {inputLength : ℤ}
    (h : (tokens.length : ℤ) = inputLength) (s : σ) :
    (assertLength tokens inputLength).run s = .ok tokens s := by
  rw [assertLength, if_pos h]
  rfl

/-- Some tokens of the vocabulary of the configuration. -/
theorem run_vocabTokens (rand : PyRandom ρ) (gen : TraceGenerator ρ) (n : ℕ) :
    ∃ toks rng', (randomTokens rand.randint gen.config.generator.vocabSize n).run gen.rng =
        .ok toks rng' ∧ toks.length = n ∧
      ∀ tok ∈ toks, Between 0 (gen.config.generator.vocabSize - 1 : ℤ) tok := by
  have := gen.config.generator.one_le_vocabSize
  exact run_randomTokens (rand.draws_randint 0 _ (by omega)) n gen.rng

section Requests

variable {rand : PyRandom ρ} {record : TraceRecord}

/-- The tokens of a prompt can be packed if all of them can, and if there are none. -/
theorem fits_prompt {toks : List Token} (hlen : record.inputLength = some (toks.length : ℤ))
    (h : record.inputLength = some 0 ∨ ∀ tok ∈ toks, FitsU32 tok) (n : ℕ) :
    ∀ tok ∈ toks.take n, FitsU32 tok := by
  intro tok hmem
  have hmem := List.mem_of_mem_take hmem
  rcases h with h0 | hfits
  · rw [hlen] at h0
    rw [List.eq_nil_of_length_eq_zero (Int.natCast_eq_zero.1 (Option.some.inj h0))] at hmem
    cases hmem
  · exact hfits tok hmem

/-- **The prompt of a record** has the length of the record, and its first block can be packed. -/
theorem run_buildTokenIdsFromRecord (hgen : gen.Plays P)
    (hwf : record.WellFormed P.traceCfg.prefixMode) (hpacks : record.Packs P) :
    ∃ toks gen', (buildTokenIdsFromRecord rand record).run gen = .ok toks gen' ∧
      SameBook P gen gen' ∧ record.inputLength = some (toks.length : ℤ) ∧
      ∀ tok ∈ toks.take P.config.model.blockSize, FitsU32 tok := by
  obtain ⟨n, hn⟩ := hwf.inputLength
  have hrequire : (TraceRecord.require "input_length" record.inputLength).run gen =
      .ok (n : ℤ) gen := by rw [hn]; rfl
  rw [buildTokenIdsFromRecord, Py.run_get_bind, Py.run_bind_ok hrequire]
  dsimp only
  rw [TraceRecord.Packs] at hpacks
  split
  · -- random tokens
    rename_i hmode
    rw [hgen.traceCfg] at hmode
    rw [hmode] at hpacks
    obtain ⟨toks, rng', hrun, hlen, htoks⟩ := run_vocabTokens rand gen n
    have hlen' : (toks.length : ℤ) = n := by rw [hlen]
    have hinput : record.inputLength = some (toks.length : ℤ) := by rw [hn, hlen]
    rw [hgen.config] at htoks
    rw [Int.toNat_natCast, Py.run_bind_ok (run_onRng_ok hrun), run_assertLength hlen']
    refine ⟨toks, _, rfl, hgen.withRng rng', hinput, fits_prompt hinput ?_ _⟩
    exact hpacks.imp_right fun hvocab tok hmem => fitsU32_of_between hvocab (htoks tok hmem)
  · -- the expansion of the hash ids
    rename_i hmode
    rw [hgen.traceCfg] at hmode
    rw [hmode] at hpacks
    obtain ⟨hids, hhids⟩ := Option.isSome_iff_exists.1 (hwf.hashIds hmode)
    obtain ⟨hfits, hnonneg⟩ := hpacks hids hhids n hn
    have hvocab := gen.config.generator.one_le_vocabSize
    obtain ⟨drawn, rng', hrun, hlen, hdrawn⟩ := @run_buildTokenIds _ _ _ _
      gen.config.model.blockSize
      (rand.draws_randint 0 (gen.config.generator.vocabSize - 1) (by omega)) hids n gen.rng
    rw [hhids]
    dsimp only
    rw [run_onRng_ok hrun]
    refine ⟨_, _, rfl, hgen.withRng rng', by rw [hn, hlen], ?_⟩
    rw [hgen.config] at hlen hdrawn ⊢
    exact hfits.fits P.config.model.one_le_blockSize hids n hnonneg hlen hdrawn
  · -- a prefix from the synthesis model, and random tokens
    rename_i hmode
    obtain ⟨hvalid, hvocab⟩ := hgen.model _ (Option.get_mem (gen.hasModel hmode))
    obtain ⟨pre, model', hpre, hvalid', hvocab', hprelen, hpretoks⟩ :=
      @PrefixSynthesisModel.run_assignPrefixTokens _ rand _ hvalid record.rawArrivalMs n
    obtain ⟨gen₁, hgen₁⟩ : ∃ gen₁ : TraceGenerator ρ, gen₁ =
        { gen with synthesisModel := some model', hasModel := fun _ => rfl } := ⟨_, rfl⟩
    have hsame : SameBook P gen gen₁ := by
      subst hgen₁
      refine ⟨⟨hgen.config, hgen.traceCfg, ?_⟩, rfl, rfl⟩
      intro model hmodel
      cases hmodel
      exact ⟨hvalid', hvocab'.trans hvocab⟩
    have hpart : (Py.onPart (fun _ => gen.synthesisModel.get (gen.hasModel hmode))
        (fun model gen => { gen with synthesisModel := some model, hasModel := fun _ => rfl })
        (PrefixSynthesisModel.assignPrefixTokens rand record.rawArrivalMs (n : ℤ))).run gen =
          .ok pre gen₁ := hgen₁ ▸ Py.run_onPart_ok hpre
    obtain ⟨suffix, rng', hrun, hlen, htoks⟩ := run_vocabTokens rand gen₁ (n - pre.length)
    have hsuffix : ((n : ℤ) - pre.length).toNat = n - pre.length := by omega
    have hlen' : ((pre ++ suffix).length : ℤ) = n := by
      rw [List.length_append, hlen]
      omega
    have hconfig : gen₁.config = gen.config := hsame.plays.config.trans hgen.config.symm
    rw [hconfig] at hrun htoks
    rw [Py.run_bind_ok hpart, hsuffix, Py.run_bind_ok (run_onRng_ok hrun), run_assertLength hlen']
    have hinput : record.inputLength = some ((pre ++ suffix).length : ℤ) := by rw [hn, hlen']
    rw [hgen.traceCfg] at hmode
    rw [hmode] at hpacks
    rw [hvocab] at hpretoks
    rw [hgen.config] at htoks
    refine ⟨pre ++ suffix, _, rfl, ⟨(hsame.plays.withRng rng').plays, hsame.idx, hsame.file⟩,
      hinput, fits_prompt hinput ?_ _⟩
    refine hpacks.imp_right fun hfits tok hmem => ?_
    rcases List.mem_append.1 hmem with hmem | hmem
    · exact fitsU32_of_between hfits.2 (hpretoks tok hmem)
    · exact fitsU32_of_between hfits.1 (htoks tok hmem)

/-- The request has the time and the lengths of the record. -/
structure MadeFrom (P : ReplayParams) (record : TraceRecord) (req : Request) : Prop where
  arrivalTime : req.arrivalTime = record.rawArrivalMs / P.traceCfg.speedup
  inputLength : record.inputLength = some (req.tokenIds.length : ℤ)
  outputLength : record.outputLength = some req.expectedOutputLen

variable {loads : String → Option TraceRecord} {hexdigest : List UInt8 → String}
  {uuid4 : RequestId}

/-- A request is made of a record whose first block can be packed. -/
theorem run_requestOf (hgen : gen.Plays P) (hwf : record.WellFormed P.traceCfg.prefixMode)
    (hpacks : record.Packs P) :
    ∃ req gen', (requestOf rand hexdigest uuid4 record).run gen = .ok req gen' ∧
      SameBook P gen gen' ∧ MadeFrom P record req.toRequest := by
  obtain ⟨toks, gen', hrun, hsame, hlen, hfits⟩ :=
    @run_buildTokenIdsFromRecord _ _ _ rand _ hgen hwf hpacks
  obtain ⟨out, hout⟩ := Option.isSome_iff_exists.1 hwf.outputLength
  have hrequire : (TraceRecord.require "output_length" record.outputLength).run gen' =
      .ok out gen' := by rw [hout]; rfl
  rw [← hgen.config] at hfits
  obtain ⟨hash, hmake⟩ := @run_makeRequest _ hexdigest _ _ hfits uuid4
    (record.rawArrivalMs / gen.traceCfg.speedup) 0 (some out) gen'
  have hrun' : (requestOf rand hexdigest uuid4 record).run gen =
      (makeRequest hexdigest uuid4 toks (record.rawArrivalMs / gen.traceCfg.speedup) gen.config 0
        (some out)).run gen' := by
    rw [requestOf, Py.run_get_bind]
    exact (Py.run_bind_ok hrun).trans (Py.run_bind_ok hrequire)
  have htime : record.rawArrivalMs / gen.traceCfg.speedup =
      record.rawArrivalMs / P.traceCfg.speedup := by rw [hgen.traceCfg]
  exact ⟨_, gen', hrun'.trans hmake, hsame, ⟨htime, hlen, hout⟩⟩

theorem run_closing_ok {α : Type} {m : Py (TraceGenerator ρ) α} {a : α}
    (h : m.run gen = .ok a gen') : (closing m).run gen = .ok a gen' := by
  change m gen = _ at h
  simp only [closing, EStateM.run, h]

/-- **The next request of a file**: nothing is left, or no more is asked for, and the file is closed;
or the request is made of the next record, and the lines before it are skipped. -/
theorem run_nextRequest (lines : List String) (hgen : gen.Plays P)
    (hwf : ∀ record ∈ lines.filterMap loads, record.WellFormed P.traceCfg.prefixMode)
    (hpacks : gen.capped = false → ∀ record ∈ (lines.filterMap loads).head?, record.Packs P) :
    ((gen.capped = true ∨ lines.filterMap loads = []) ∧
      ∃ gen', (nextRequest rand loads hexdigest uuid4 lines).run gen = .ok none gen' ∧
        gen'.Plays P ∧ gen'.idx = gen.idx ∧ gen'.file = none) ∨
    (gen.capped = false ∧ ∃ record rest req gen',
      lines.filterMap loads = record :: rest.filterMap loads ∧
      (nextRequest rand loads hexdigest uuid4 lines).run gen = .ok (some req) gen' ∧
      gen'.Plays P ∧ gen'.idx = gen.idx + 1 ∧ gen'.file = some rest ∧
      MadeFrom P record req.toRequest ∧ req.requestId = s!"trace-{gen.idx}") := by
  induction lines generalizing gen with
  | nil =>
      exact Or.inl ⟨Or.inr rfl, gen.close, rfl, ⟨hgen.config, hgen.traceCfg, hgen.model⟩, rfl, rfl⟩
  | cons line rest ih =>
      rw [nextRequest, Py.run_get_bind]
      cases hcap : gen.capped with
      | true =>
          rw [if_pos rfl]
          exact Or.inl ⟨Or.inl rfl, gen.close, rfl,
            ⟨hgen.config, hgen.traceCfg, hgen.model⟩, rfl, rfl⟩
      | false =>
          rw [if_neg Bool.false_ne_true, Py.run_modify_bind]
          obtain ⟨gen₁, hgen₁⟩ : ∃ gen₁ : TraceGenerator ρ,
            gen₁ = { gen with file := some rest } := ⟨_, rfl⟩
          have hplays : gen₁.Plays P := by
            rw [hgen₁]
            exact ⟨hgen.config, hgen.traceCfg, hgen.model⟩
          have hidx : gen₁.idx = gen.idx := by rw [hgen₁]
          have hcap₁ : gen₁.capped = false := by
            rw [hgen₁]
            exact hcap
          rw [← hgen₁]
          cases hload : loads line with
          | none =>
              -- a line that is not JSON
              rw [List.filterMap_cons_none hload] at hwf hpacks ⊢
              have hih := ih hplays hwf fun _ => hpacks hcap
              rw [hidx, hcap₁] at hih
              exact hih
          | some record =>
              rw [List.filterMap_cons_some hload] at hwf hpacks ⊢
              obtain ⟨req, gen₂, hrun, hsame, hmade⟩ := @run_requestOf _ _ _ rand _ hexdigest uuid4
                hplays (hwf record List.mem_cons_self) (hpacks hcap record rfl)
              dsimp only
              rw [Py.run_bind_ok (run_closing_ok hrun), Py.run_get_bind, Py.run_modify_bind]
              refine Or.inr ⟨rfl, record, rest, _, _, rfl, rfl,
                ⟨hsame.plays.config, hsame.plays.traceCfg, hsame.plays.model⟩, ?_, ?_,
                ⟨hmade.arrivalTime, hmade.inputLength, hmade.outputLength⟩, ?_⟩
              · change gen₂.idx + 1 = gen.idx + 1
                rw [hsame.idx, hidx]
              · exact hsame.file.trans (by rw [hgen₁])
              · rw [hsame.idx, hidx]

end Requests

end TraceGenerator

end NanoKVRouter
