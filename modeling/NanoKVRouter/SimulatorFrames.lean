/-
**What the handlers leave alone.**

The handlers write the engine and the books: the nodes and the maps of bookkeeping.  What says
nothing about either is kept by every call they make, apart from those on the cache manager and on
the transfer model, which only a few of them reach.

Main definitions:

* `Framed` — a property of the simulator that says nothing about the engine and the books.

Main results:

* `Framed.keeps_wakeBatchStep`, `Framed.keeps_completeOn` and so on — the calls that touch nothing
  else keep it;
* `Framed.keeps_onPrefillStart`, `Framed.keeps_onPrefillComplete` and so on — so do the handlers,
  if lookups and reservations keep it.
-/

import NanoKVRouter.PyRelations
import NanoKVRouter.Simulator

set_option relaxedAutoImplicit false
set_option autoImplicit false

namespace NanoKVRouter

variable {ς α β : Type}

/-- The property says nothing about the engine and the books. -/
structure Framed (P : Simulator ς → Prop) : Prop where
  engine : ∀ s eng, P s → P (eng, s.2)
  books : ∀ s b, P s → P (s.1, { s.2 with toBookkeeping := b })

section Calls

variable {P : Simulator ς → Prop}

theorem keeps_nodeOf (pool : List NodeId) (nodeId : NodeId) : Py.Keeps P (nodeOf pool nodeId) := by
  refine Py.Keeps.get.bind fun s => ?_
  dsimp only
  split
  · exact .raise _
  · exact .pure _

/-- The state a call on the cache leaves does not depend on what is made of its value. -/
theorem keeps_onCm_pure {m : Py CacheManager α} {f : α → β} (hm : Py.Keeps P (onCm m)) :
    Py.Keeps P (onCm do pure (f (← m))) := by
  intro s hs
  have h := hm s hs
  rw [onCm, Py.run_onPart] at h ⊢
  rw [EStateM.run_bind]
  cases hrun : m.run s.2.cm with
  | ok a t =>
      rw [hrun] at h
      exact h
  | error e t =>
      rw [hrun] at h
      exact h

end Calls

namespace Framed

variable {P : Simulator ς → Prop} (hP : Framed P)
include hP

/-! ### Calls -/

theorem keeps_onEngine (m : Py (SimulationEngine Payload) α) : Py.Keeps P (onEngine m) :=
  Py.Keeps.onPart (Q := fun _ => True) (fun _ _ => trivial) (fun _ _ => trivial)
    fun s eng hs _ => hP.engine s eng hs

theorem keeps_scheduleAt (t : Time) (p : Payload) : Py.Keeps P (scheduleAt t p) :=
  hP.keeps_onEngine _

theorem keeps_modifyBooks {f : Cluster ς → Cluster ς}
    (hf : ∀ c, f c = { c with toBookkeeping := (f c).toBookkeeping }) :
    Py.Keeps P (modifyCluster f) := by
  refine Py.Keeps.modify fun s hs => ?_
  rw [hf]
  exact hP.books s _ hs

theorem keeps_onNode (nodeId : NodeId) (m : Py MockEngineNode α) :
    Py.Keeps P (onNode nodeId m) := by
  refine Py.Keeps.get.bind fun s => ?_
  split
  · exact .raise _
  · exact Py.Keeps.onPart (Q := fun _ => True) (fun _ _ => trivial) (fun _ _ => trivial)
      fun s _ hs _ => hP.books s _ hs

theorem keeps_forget (r : RequestId) : Py.Keeps P (forget r) := hP.keeps_modifyBooks fun _ => rfl

theorem keeps_wakeBatchStep (nodeId : NodeId) (t : Time) :
    Py.Keeps P (wakeBatchStep nodeId t) := by
  refine Py.Keeps.get.bind fun s => ?_
  split
  · exact .raise _
  · split
    · exact (hP.keeps_scheduleAt _ _).bind fun _ => hP.keeps_onNode _ _
    · exact .pure _

theorem keeps_completeOn (nodeId : NodeId) (r : RequestId) :
    Py.Keeps P (completeOn nodeId r) := by
  refine (Py.Keeps.onExcept (hP.keeps_onNode _ _) (.pure _)).bind fun promoted => ?_
  split
  · exact .pure _
  · exact Py.Keeps.bind (hP.keeps_modifyBooks fun _ => rfl) fun _ => .pure _

theorem keeps_nextTransferId (r : RequestId) : Py.Keeps P (nextTransferId r) :=
  Py.Keeps.get.bind fun _ => Py.Keeps.bind (hP.keeps_modifyBooks fun _ => rfl) fun _ => .pure _

theorem keeps_emitTokens (nodeId : NodeId) (t : Time) : ∀ rs : List RequestId,
    Py.Keeps P (Wiring.emitTokens nodeId t rs) := by
  intro rs
  induction rs with
  | nil => exact .pure _
  | cons r rs ih =>
      refine Py.Keeps.get.bind fun s => ?_
      split
      · exact .raise _
      · split
        · exact .raise _
        · exact (hP.keeps_scheduleAt _ _).bind fun _ => ih

theorem keeps_emitCompletions (nodeId : NodeId) (t : Time) : ∀ rs : List RequestId,
    Py.Keeps P (Wiring.emitCompletions nodeId t rs) := by
  intro rs
  induction rs with
  | nil => exact .pure _
  | cons r rs ih => exact (hP.keeps_scheduleAt _ _).bind fun _ => ih

theorem keeps_emitPrefillComplete (nodeId : NodeId) (t : Time) (r : Option RequestId) :
    Py.Keeps P (Wiring.emitPrefillComplete nodeId t r) := by
  cases r with
  | none => exact .pure _
  | some r =>
      refine Py.Keeps.get.bind fun s => ?_
      split
      · exact .pure _
      · exact hP.keeps_scheduleAt _ _

/-! ### Handlers -/

theorem keeps_onDecodeBatchStep (w : Wiring ς) (nodeId : NodeId) :
    Py.Keeps P (w.onDecodeBatchStep nodeId) := by
  refine Py.Keeps.get.bind fun s => (keeps_nodeOf _ _).bind fun node =>
    (hP.keeps_onNode _ _).bind fun _ => ?_
  split
  · refine Py.Keeps.get.bind fun s => (keeps_nodeOf _ _).bind fun node =>
      (hP.keeps_onNode _ _).bind fun res => ?_
    exact Py.Keeps.bind (hP.keeps_modifyBooks fun _ => rfl) fun _ =>
      (hP.keeps_emitPrefillComplete _ _ _).bind fun _ => (keeps_nodeOf _ _).bind fun _ =>
      Py.Keeps.get.bind fun _ => (hP.keeps_emitTokens _ _ _).bind fun _ =>
      (hP.keeps_emitCompletions _ _ _).bind fun _ => hP.keeps_wakeBatchStep _ _
  · exact hP.keeps_modifyBooks fun _ => rfl

theorem keeps_startTransfer
    (htm : ∀ s tm, P s → P (s.1, { s.2 with transferModel := tm })) (w : Wiring ς)
    (r : RequestId) (req : Request) (decision : Assignment) :
    Py.Keeps P (w.startTransfer r req decision) := by
  refine Py.Keeps.get.bind fun s => ?_
  dsimp only
  exact Py.Keeps.bind (Py.Keeps.modify fun s hs => htm s _ hs) fun _ =>
    (hP.keeps_nextTransferId _).bind fun _ =>
    Py.Keeps.bind (hP.keeps_modifyBooks fun _ => rfl) fun _ =>
    (hP.keeps_scheduleAt _ _).bind fun _ => hP.keeps_scheduleAt _ _

section Lookups

variable (hlookup : ∀ now request nodeId,
  Py.Keeps P (onCm (CacheManager.lookup now request nodeId)))
include hlookup

omit hP in
theorem keeps_computeUncachedTokens (req : Request) (d : NodeId) :
    Py.Keeps P (computeUncachedTokens req d) :=
  Py.Keeps.get.bind fun _ =>
    (Py.Keeps.onExcept (keeps_onCm_pure (hlookup _ _ _)) (.pure _)).bind fun _ => .pure _

theorem keeps_startPrefill (req : Request) (r : RequestId) (p d : NodeId) (chunkSize : ℕ) :
    Py.Keeps P (Wiring.startPrefill req r p d chunkSize) :=
  ((Framed.keeps_computeUncachedTokens hlookup req d).bind fun _ => .pure _).bind fun _ =>
    Py.Keeps.get.bind fun _ => hP.keeps_scheduleAt _ _

theorem keeps_acceptArrival (w : Wiring ς) (req : Request) (decision : SchedulingDecision)
    (p : NodeId) : Py.Keeps P (w.acceptArrival req decision p) := by
  refine Py.Keeps.get.bind fun s => ?_
  dsimp only
  split
  · exact .raise _
  · refine (hlookup _ _ _).bind fun l => (hP.keeps_scheduleAt _ _).bind fun _ =>
      Py.Keeps.bind (hP.keeps_modifyBooks fun _ => rfl) fun _ => (keeps_nodeOf _ _).bind fun node =>
      (hP.keeps_onNode _ _).bind fun running => ?_
    split
    · exact hP.keeps_startPrefill hlookup _ _ _ _ _
    · exact .pure _

theorem keeps_onArrive (w : Wiring ς) (req : Request) (hsched : Py.Keeps P (w.schedule req)) :
    Py.Keeps P (w.onArrive req) := by
  refine hsched.bind fun decision => ?_
  split
  · exact Py.Keeps.get.bind fun _ => hP.keeps_scheduleAt _ _
  · exact hP.keeps_acceptArrival hlookup _ _ _ _

theorem keeps_onPrefillStart (w : Wiring ς) (r : RequestId) (p : NodeId) (req : Request) :
    Py.Keeps P (w.onPrefillStart r p req) := by
  refine (keeps_nodeOf _ _).bind fun _ => Py.Keeps.get.bind fun s =>
    (Framed.keeps_computeUncachedTokens hlookup _ _).bind fun uncached => Py.Keeps.get.bind fun t => ?_
  dsimp only
  split
  · exact (hP.keeps_onNode _ _).bind fun _ => hP.keeps_scheduleAt _ _
  · exact (hP.keeps_onNode _ _).bind fun _ => hP.keeps_wakeBatchStep _ _

theorem keeps_startPromoted (nodeId : NodeId) (q : RequestId) (chunkSize : ℕ) :
    Py.Keeps P (Wiring.startPromoted nodeId q chunkSize) := by
  refine Py.Keeps.get.bind fun s => ?_
  dsimp only
  split
  · exact (Framed.keeps_computeUncachedTokens hlookup _ _).bind fun _ =>
      (hP.keeps_onNode _ _).bind fun _ => hP.keeps_startPrefill hlookup _ _ _ _ _
  · exact .pure _

theorem keeps_onPrefillComplete
    (htm : ∀ s tm, P s → P (s.1, { s.2 with transferModel := tm })) (w : Wiring ς)
    (r : RequestId) (p : NodeId) (req : Request) : Py.Keeps P (w.onPrefillComplete r p req) := by
  refine (keeps_nodeOf _ _).bind fun node => Py.Keeps.get.bind fun s => ?_
  split
  · exact .pure _
  · refine (hP.keeps_completeOn _ _).bind fun promoted => ?_
    split
    · exact hP.keeps_startTransfer htm _ _ _ _
    · exact (hP.keeps_startPromoted hlookup _ _ _).bind fun _ =>
        hP.keeps_startTransfer htm _ _ _ _

end Lookups

section Cache

variable (hcm : ∀ {α : Type} (m : Py CacheManager α), Py.Keeps P (onCm m))
include hcm

theorem keeps_enterDecode (w : Wiring ς) (info : PendingTransfer) (d : NodeId) :
    Py.Keeps P (w.enterDecode info d) := by
  refine (keeps_nodeOf _ _).bind fun node => Py.Keeps.get.bind fun s => ?_
  dsimp only
  split
  · exact (hP.keeps_scheduleAt _ _).bind fun _ => hP.keeps_forget _
  · exact (Py.Keeps.onExcept (hcm _) (.pure _)).bind fun _ => (hP.keeps_onNode _ _).bind fun _ =>
      (hP.keeps_onNode _ _).bind fun _ =>
      Py.Keeps.bind (hP.keeps_modifyBooks fun _ => rfl) fun _ => hP.keeps_wakeBatchStep _ _

theorem keeps_onKvTransferComplete (w : Wiring ς) (transferId : String) :
    Py.Keeps P (w.onKvTransferComplete transferId) := by
  refine Py.Keeps.get.bind fun s => ?_
  split
  · exact .pure _
  · refine Py.Keeps.bind (hP.keeps_modifyBooks fun _ => rfl) fun _ =>
      Py.Keeps.get.bind fun s => ?_
    split
    · exact .pure _
    · exact hP.keeps_enterDecode hcm _ _ _

theorem keeps_onDecodeComplete (w : Wiring ς) (r : RequestId) (d : NodeId) :
    Py.Keeps P (w.onDecodeComplete r d) :=
  (keeps_nodeOf _ _).bind fun _ => (hP.keeps_completeOn _ _).bind fun _ =>
    (Py.Keeps.onExcept (hcm _) (.pure _)).bind fun _ => (hP.keeps_forget _).bind fun _ =>
    Py.Keeps.get.bind fun _ => hP.keeps_wakeBatchStep _ _

end Cache

end Framed

end NanoKVRouter
