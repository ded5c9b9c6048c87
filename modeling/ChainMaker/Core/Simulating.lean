import ChainMaker.Core.Soundness
import ChainMaker.Scheduler.Interleavings
import ChainMaker.Scheduler.WriteOrder

/-! `ValidateBlock` when `SimulateWithDag` answers with what one of its runs has left in the
snapshot. -/

namespace ChainMaker.Core
open List
open ChainMaker.Scheduler (TxScheduler Simulation SimEvent OrdersClashes ordersClashes_of_total
  NoCollision GraphInv TableInv SnapInv SimInv SerialRun applied applied_map_tx applied_map_rw
  applied_map_result)
open ChainMaker.Snapshot (DAG TxRWSet Parent)

variable {φ : Type} {v v' : Simulation} {sv : Services φ} {sim : Simulator} {block : Block}
  {env : Env φ} {txId : Bytes}

/-- The scheduler as the verifier uses it, with what a contract sees of a transaction beside its id,
and the result that it returns. -/
structure Simulator where
  scheduler : TxScheduler
  request : Transaction → Bytes
  result : Snapshot.Result → Result

def Block.graph (block : Block) : DAG := block.dag.getD ⟨[]⟩

namespace Simulator
variable (sim : Simulator)

def txs (block : Block) : List Snapshot.Transaction :=
  block.txs.map fun tx => ⟨tx.txId.getD [], sim.request tx⟩

def start (parent : Parent) (block : Block) : Simulation :=
  Simulation.start parent (sim.txs block) block.graph

def step : Simulation → SimEvent → Option Simulation := Simulation.step sim.scheduler

def rwSetMap (v : Simulation) : RWSetMap :=
  v.snapshot.txRWSetTable.foldl (fun sets rwSet => sets.insert rwSet.txId rwSet) ∅

def resultMap (v : Simulation) : GoMap Bytes Result :=
  v.snapshot.txResultMap.reverse.foldl (fun results p => results.insert p.1 (sim.result p.2)) ∅

end Simulator

open Simulator

def Services.simulated (sv : Services φ) (sim : Simulator) (v : Simulation) : Services φ :=
  { sv with simulateWithDag := fun _ => some (rwSetMap v, sim.resultMap v) }

lemma Services.simulated_simulateWithDag (sv : Services φ) (sim : Simulator) (v : Simulation)
    (block : Block) : (sv.simulated sim v).simulateWithDag block =
      some (rwSetMap v, sim.resultMap v) := rfl

lemma verifierTxs_congr {sets sets' : RWSetMap} {results results' : GoMap Bytes Result}
    (hsets : ∀ txId, sets.lookup txId = sets'.lookup txId)
    (hresults : ∀ txId, results.lookup txId = results'.lookup txId) :
    verifierTxs env (sv.simulated sim v) block sets results =
      verifierTxs env (sv.simulated sim v') block sets' results' := by
  refine congrArg (fun f => block.txs.mapM f) (funext fun tx => ?_)
  unfold verifyTx
  cases tx.txId with
  | none => rfl
  | some txId =>
    simp only [hsets, hresults]
    rfl

lemma isOk_bind_congr {ε α β γ : Type} {x : Except ε α} {f : α → Except ε β} {g : α → Except ε γ}
    (h : ∀ a, (f a).isOk = (g a).isOk) : (x >>= f).isOk = (x >>= g).isOk := by
  cases x with
  | error e => rfl
  | ok a => exact h a

lemma isOk_ite_congr {ε β γ : Type} {p : Prop} [Decidable p] {a b : Except ε β} {a' b' : Except ε γ}
    (ha : p → a.isOk = a'.isOk) (hb : ¬ p → b.isOk = b'.isOk) :
    (if p then a else b).isOk = (if p then a' else b').isOk := by
  split
  · next hp => exact ha hp
  · next hp => exact hb hp

lemma isOk_validateBlock_congr
    (hsets : isTxDuplicate block.txs = false →
      ∀ txId, (rwSetMap v).lookup txId = (rwSetMap v').lookup txId)
    (hresults : isTxDuplicate block.txs = false →
      ∀ txId, (sim.resultMap v).lookup txId = (sim.resultMap v').lookup txId) :
    (validateBlock env (sv.simulated sim v) block).isOk =
      (validateBlock env (sv.simulated sim v') block).isOk := by
  refine isOk_bind_congr fun _ => isOk_ite_congr (fun _ => rfl) fun _ => isOk_bind_congr fun _ =>
    isOk_ite_congr (fun _ => rfl) fun _ => isOk_ite_congr (fun _ => rfl) fun hduplicate => ?_
  have hdup : isTxDuplicate block.txs = false := Bool.eq_false_of_not_eq_true hduplicate
  have hcount : (rwSetMap v).keys.length = (rwSetMap v').keys.length := by
    refine ((perm_ext_iff_of_nodup (AList.keys_nodup _) (AList.keys_nodup _)).mpr
      fun txId => ?_).length_eq
    have hmem : ∀ sets : RWSetMap, txId ∈ sets.keys ↔ (sets.lookup txId).isSome :=
      fun sets => AList.lookup_isSome.symm
    rw [hmem, hmem, hsets hdup]
  have hverify : verifierTxs env (sv.simulated sim v) block (rwSetMap v) (sim.resultMap v) =
      verifierTxs env (sv.simulated sim v') block (rwSetMap v') (sim.resultMap v') :=
    verifierTxs_congr (hsets hdup) (hresults hdup)
  dsimp only [Services.simulated_simulateWithDag]
  rw [hverify, hcount]
  refine isOk_ite_congr (fun _ => rfl) fun _ => ?_
  cases verifierTxs env (sv.simulated sim v') block (rwSetMap v') (sim.resultMap v') with
  | error e => cases e <;> rfl
  | ok hashes => exact isOk_bind_congr fun _ => rfl

section Maps
variable {U : Set (Bytes × Bytes)} {sim : Simulator} {block : Block} {v v' : Simulation}

lemma txIds_txs (sim : Simulator) (hdup : isTxDuplicate block.txs = false) :
    (sim.txs block).map (·.txId) = block.txs.filterMap Transaction.txId := by
  obtain ⟨hids, -⟩ := txIds_of_isTxDuplicate hdup
  have hmap : (sim.txs block).map (·.txId) = (block.txs.map Transaction.txId).map (·.getD []) := by
    simp [txs, Function.comp_def]
  rw [hmap, hids, map_map]
  simp

lemma nodup_txIds (hgraph : GraphInv block.graph (sim.txs block) v)
    (hdup : isTxDuplicate block.txs = false) : (v.snapshot.txTable.map (·.txId)).Nodup := by
  have htxs : ((sim.txs block).map (·.txId)).Nodup :=
    txIds_txs sim hdup ▸ (txIds_of_isTxDuplicate hdup).2
  have hsome : (v.snapshot.txTable.map (·.txId)).map some =
      v.order.map fun i => ((sim.txs block).map (·.txId))[i]? := by
    have htable := congrArg (map (Option.map (·.txId))) hgraph.table
    simpa [Function.comp_def, getElem?_map] using htable
  refine Nodup.of_map some ?_
  rw [hsome]
  refine Nodup.map_on (fun i hi j hj heq => ?_) hgraph.dagOrder.nodup
  have hget : ∃ id, ((sim.txs block).map (·.txId))[i]? = some id := by
    have hmem : ((sim.txs block).map (·.txId))[i]? ∈ (v.snapshot.txTable.map (·.txId)).map some :=
      hsome ▸ mem_map_of_mem hi
    obtain ⟨id, -, hid⟩ := mem_map.mp hmem
    exact ⟨id, hid.symm⟩
  obtain ⟨id, hid⟩ := hget
  exact (List.getElem?_inj (List.getElem?_eq_some_iff.mp hid).1 htxs).mp heq

lemma lookup_rwSetMap (htables : TableInv U v) (hnodup : (v.snapshot.txTable.map (·.txId)).Nodup)
    {rwSet : TxRWSet} : (rwSetMap v).lookup txId = some rwSet ↔
      rwSet ∈ v.snapshot.txRWSetTable ∧ rwSet.txId = txId := by
  refine (GoMap.lookup_foldl_insert_iff TxRWSet.txId (fun rwSet => rwSet)
    (htables.ids ▸ hnodup)).trans ?_
  constructor
  · rintro ⟨rw, hrw, hid, rfl⟩
    exact ⟨hrw, hid⟩
  · rintro ⟨hrw, hid⟩
    exact ⟨rwSet, hrw, hid, rfl⟩

lemma lookup_resultMap (htables : TableInv U v) (hnodup : (v.snapshot.txTable.map (·.txId)).Nodup)
    {result : Result} : (sim.resultMap v).lookup txId = some result ↔
      ∃ p ∈ v.snapshot.txResultMap.reverse, p.1 = txId ∧ sim.result p.2 = result := by
  rw [resultMap, GoMap.lookup_foldl_insert_iff Prod.fst (fun p => sim.result p.2)
    (htables.resultIds ▸ hnodup)]

lemma lookup_maps_congr (sim : Simulator) (hsnap : SnapInv U v.snapshot)
    (hsnap' : SnapInv U v'.snapshot) (htables : TableInv U v) (htables' : TableInv U v')
    (hnodup : (v.snapshot.txTable.map (·.txId)).Nodup)
    (hperm : (applied v.snapshot).Perm (applied v'.snapshot)) (txId : Bytes) :
    (rwSetMap v).lookup txId = (rwSetMap v').lookup txId ∧
      (sim.resultMap v).lookup txId = (sim.resultMap v').lookup txId := by
  have hresults : ∀ {v : Simulation}, SnapInv U v.snapshot → TableInv U v →
      v.snapshot.txResultMap.reverse = (applied v.snapshot).map fun e => (e.1.txId, e.2.2) := by
    intro v hsnap htables
    have hfst : ((applied v.snapshot).map fun e => (e.1.txId, e.2.2)).map Prod.fst =
        v.snapshot.txTable.map (·.txId) := by
      rw [← applied_map_tx hsnap, map_map, map_map]
      rfl
    have hsnd : ((applied v.snapshot).map fun e => (e.1.txId, e.2.2)).map Prod.snd =
        v.snapshot.txResultMap.reverse.map (·.2) := by
      rw [← applied_map_result hsnap, map_map]
      rfl
    rw [zip_of_prod hfst hsnd]
    exact zip_of_prod htables.resultIds rfl
  have hnodup' : (v'.snapshot.txTable.map (·.txId)).Nodup := by
    have htx := (hperm.map (·.1)).map (·.txId)
    rw [applied_map_tx hsnap, applied_map_tx hsnap'] at htx
    exact htx.nodup_iff.mp hnodup
  have hrw := hperm.map (·.2.1)
  rw [applied_map_rw hsnap, applied_map_rw hsnap'] at hrw
  constructor
  · refine Option.ext fun rwSet => ?_
    rw [lookup_rwSetMap htables hnodup, lookup_rwSetMap htables' hnodup', hrw.mem_iff]
  · refine Option.ext fun result => ?_
    rw [lookup_resultMap htables hnodup, lookup_resultMap htables' hnodup', hresults hsnap htables,
      hresults hsnap' htables']
    refine exists_congr fun p => and_congr_left fun _ => ?_
    exact (hperm.map fun e => (e.1.txId, e.2.2)).mem_iff

end Maps

theorem validateBlock_agrees (env : Env φ) (sv : Services φ) (sim : Simulator) (parent : Parent)
    (block : Block) (hlen : block.graph.vertexes.length = block.txs.length)
    (U : Set (Bytes × Bytes)) (hcol : NoCollision U)
    (hvm : ∀ tx ∈ sim.txs block, (sim.scheduler.vm tx).AccessIn U)
    (hreads : ∀ a, sim.scheduler.failedReads a ⊆ a.fetched) (es es' : List SimEvent)
    (v v' : Simulation)
    (hmeets : Runs.Meets sim.step (OrdersClashes sim.scheduler block.graph)
      (sim.start parent block) es)
    (hrun : Runs.run sim.step (sim.start parent block) es = some v) (hret : v.returned = true)
    (hrun' : Runs.run sim.step (sim.start parent block) es' = some v')
    (hret' : v'.returned = true) :
    (∀ i < block.txs.length, ∃ e, v.appliedAt i = some e ∧ v'.appliedAt i = some e) ∧
      (validateBlock env (sv.simulated sim v) block).isOk =
        (validateBlock env (sv.simulated sim v') block).isOk := by
  have hserial := SerialRun.run hcol hreads hvm hmeets hrun
  have htxs : sim.txs block = [] → block.graph.vertexes = [] := by
    intro hnil
    rw [txs, map_eq_nil_iff] at hnil
    rw [hnil] at hlen
    exact length_eq_zero_iff.mp hlen
  have B := hserial.ordered (hserial.graph.perm_order htxs hret)
  have hinv := SimInv.run hcol B hrun
  have hinv' := SimInv.run hcol B hrun'
  refine ⟨fun i hi => ?_, ?_⟩
  · rw [← hlen] at hi
    obtain ⟨e, he, -⟩ := B.entry i hi
    exact ⟨e, (hinv.appliedAt_eq B hret hi).trans he, (hinv'.appliedAt_eq B hret' hi).trans he⟩
  have hmaps := fun hdup txId => lookup_maps_congr sim hinv.snap hinv'.snap
    (TableInv.run hcol hvm hrun) (TableInv.run hcol hvm hrun') (nodup_txIds hinv.graph hdup)
    (hinv.applied_perm B hret hinv' hret') txId
  exact isOk_validateBlock_congr (fun hdup txId => (hmaps hdup txId).1)
    fun hdup txId => (hmaps hdup txId).2

open CoreEngine (smallEnv agreeable)
open ChainMaker.Scheduler (failingScheduler)

def readingEnv : Env Snapshot.BlockHeader :=
  { smallEnv .tbft with
    calcRWSetHash := fun rwSet => rwSet.map fun rwSet =>
      rwSet.txId ++ rwSet.txReads.flatMap (·.value.getD []) }

def failingSimulator : Simulator where
  scheduler := failingScheduler
  request tx := (tx.payload.map (·.content)).getD []
  result result := ⟨result.code, result.contractResult, [], []⟩

def pairBlock (dag : DAG) (rwSetHash : Bytes) : Block where
  header := ⟨"chain1", 1, 7, [1], some [0], [1, 1, 2, 2], dag.vertexes.flatten.map UInt8.ofNat,
    1 :: rwSetHash, some [1, 1, 1, 2, 2], 0, 0, false, [], 2, some []⟩
  dag := some dag
  txs := [⟨some ⟨[1], [1]⟩, [], [], some ⟨0, [], [], [1]⟩⟩,
    ⟨some ⟨[2], [2]⟩, [], [], some ⟨0, [], [], rwSetHash⟩⟩]
  additionalData := none

def emptyState : Parent := ⟨[], fun _ _ => none⟩

theorem validateBlock_agrees_ordered :
    ∃ v v', Runs.run failingSimulator.step
      (failingSimulator.start emptyState (pairBlock ⟨[[], [0]]⟩ [2, 7]))
        [.submit 0, .exec 0, .apply 0, .done 0, .submit 0, .exec 0, .apply 0, .finish] = some v ∧
      Runs.run failingSimulator.step
        (failingSimulator.start emptyState (pairBlock ⟨[[], [0]]⟩ [2, 7]))
        [.submit 0, .exec 0, .apply 0, .done 0, .submit 0, .exec 0, .apply 0, .done 0,
          .finish] = some v' ∧
      (∀ i < 2, ∃ e, v.appliedAt i = some e ∧ v'.appliedAt i = some e) ∧
      (validateBlock readingEnv (agreeable.simulated failingSimulator v')
        (pairBlock ⟨[[], [0]]⟩ [2, 7])).isOk =
        true := by
  have htotal : ∀ i < (DAG.mk [[], [0]]).vertexes.length, ∀ j < (DAG.mk [[], [0]]).vertexes.length,
      i ≠ j → Relation.TransGen (DAG.mk [[], [0]]).Edge i j ∨
        Relation.TransGen (DAG.mk [[], [0]]).Edge j i := by
    have hedge : Relation.TransGen (DAG.mk [[], [0]]).Edge 1 0 := .single (by decide)
    intro i hi j hj hij
    change i < 2 at hi
    change j < 2 at hj
    rcases Nat.lt_or_gt_of_ne hij with hlt | hlt
    · obtain rfl : i = 0 := by omega
      obtain rfl : j = 1 := by omega
      exact .inr hedge
    · obtain rfl : i = 1 := by omega
      obtain rfl : j = 0 := by omega
      exact .inl hedge
  have hmeets : ∀ es, Runs.Meets failingSimulator.step
      (OrdersClashes failingSimulator.scheduler (pairBlock ⟨[[], [0]]⟩ [2, 7]).graph)
      (failingSimulator.start emptyState (pairBlock ⟨[[], [0]]⟩ [2, 7])) es :=
    Runs.Meets.of_invariant
      (I := GraphInv ⟨[[], [0]]⟩ (failingSimulator.txs (pairBlock ⟨[[], [0]]⟩ [2, 7])))
      (fun _ _ _ h hs => h.step hs) (fun _ e h => ordersClashes_of_total htotal h e) (.start _ _ _)
  refine ⟨_, _, Option.eq_some_of_isSome (by decide +kernel),
    Option.eq_some_of_isSome (by decide +kernel),
    (validateBlock_agrees readingEnv agreeable failingSimulator emptyState
      (pairBlock ⟨[[], [0]]⟩ [2, 7]) rfl {([], [1])} ?_ ?_ (fun _ => nil_subset _) _ _ _ _
      (hmeets _) (Option.eq_some_of_isSome _) (by decide +kernel) (Option.eq_some_of_isSome _)
      (by decide +kernel)).1, by decide +kernel⟩
  · rintro p rfl q rfl -
    rfl
  · intro tx htx
    dsimp only [failingSimulator, failingScheduler]
    split
    · exact ⟨rfl, trivial⟩
    refine ⟨rfl, fun value => ?_⟩
    dsimp only
    split <;> trivial

/-- The first transaction writes the key that the second one reads, and the graph has no edge. After
one run of the simulation its transactions have what the block says, after the other one the second
transaction has failed and the block is refused. -/
theorem validateBlock_disagrees :
    (pairBlock ⟨[[], []]⟩ [2, 7]).graph = ⟨[[], []]⟩ ∧
      isDagHashValid readingEnv (pairBlock ⟨[[], []]⟩ [2, 7]) = .ok () ∧
      ∃ v v', Runs.run failingSimulator.step
        (failingSimulator.start emptyState (pairBlock ⟨[[], []]⟩ [2, 7]))
          [.submit 0, .exec 0, .apply 0, .submit 0, .exec 0, .apply 0, .finish] = some v ∧
        v.returned = true ∧
        Runs.run failingSimulator.step
          (failingSimulator.start emptyState (pairBlock ⟨[[], []]⟩ [2, 7]))
          [.submit 1, .exec 0, .apply 0, .submit 0, .exec 0, .apply 0, .finish] = some v' ∧
        v'.returned = true ∧ v.appliedAt 1 ≠ v'.appliedAt 1 ∧
        (validateBlock readingEnv (agreeable.simulated failingSimulator v)
          (pairBlock ⟨[[], []]⟩ [2, 7])).isOk =
          true ∧
        (validateBlock readingEnv (agreeable.simulated failingSimulator v')
          (pairBlock ⟨[[], []]⟩ [2, 7])).isOk =
          false :=
  ⟨rfl, by decide +kernel, _, _, Option.eq_some_of_isSome (by decide +kernel), by decide +kernel,
    Option.eq_some_of_isSome (by decide +kernel), by decide +kernel, by decide +kernel,
    by decide +kernel, by decide +kernel⟩

end ChainMaker.Core
