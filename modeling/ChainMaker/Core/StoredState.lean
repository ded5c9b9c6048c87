import ChainMaker.Core.Simulating

/-! The state that a block's snapshot shows to the blocks above it, against the state that the store
has when the block is committed. -/

namespace ChainMaker.Core
open Option List Transaction
open ChainMaker.Scheduler (Simulation SimEvent NoCollision GraphInv TableInv WritesInOrder InOrder
  writesOf writePairs writesInOrder_of_chain)
open ChainMaker.Snapshot (DAG TxRWSet Parent Value)

variable {φ : Type} {U : Set (Bytes × Bytes)} {sim : Simulator} {block : Block} {v : Simulation}

section
variable (hgraph : GraphInv block.graph (sim.txs block) v)
include hgraph

variable (htables : TableInv U v)
include htables

lemma txId_at {k i : ℕ} (hi : v.order[k]? = some i) {rwSet : TxRWSet}
    (hrw : v.snapshot.txRWSetTable[k]? = some rwSet) :
    ((sim.txs block).map (·.txId))[i]? = some rwSet.txId := by
  have hids := congrArg (·[k]?) htables.ids
  have htable := congrArg (·[k]?) hgraph.table
  simp only [getElem?_map, hi, hrw, map_some] at hids htable ⊢
  obtain ⟨tx, htx, hid⟩ := map_eq_some_iff.mp hids.symm
  rw [htx, map_some] at htable
  rw [← some.inj htable, map_some, hid]

variable (hdup : isTxDuplicate block.txs = false)
include hdup

lemma perm_order_of_covered
    (hcovered : ∀ txId ∈ block.txs.filterMap Transaction.txId,
      ((Simulator.rwSetMap v).lookup txId).isSome) :
    v.order.Perm (range (block.txs.filterMap txId).length) := by
  have hids := txIds_txs sim hdup
  have hnodup := (txIds_of_isTxDuplicate hdup).2
  have hlen := htables.length_rws hgraph
  refine (perm_ext_iff_of_nodup hgraph.dagOrder.nodup nodup_range).mpr fun i => ?_
  rw [mem_range]
  constructor
  · intro hi
    obtain ⟨k, hk⟩ := getElem?_of_mem hi
    have hkrw := List.getElem?_eq_getElem (hlen ▸ (List.getElem?_eq_some_iff.mp hk).1)
    have hid := txId_at hgraph htables hk hkrw
    rw [hids] at hid
    exact (List.getElem?_eq_some_iff.mp hid).1
  · intro hi
    obtain ⟨rwSet, hlookup⟩ := isSome_iff_exists.mp (hcovered _ (getElem_mem hi))
    obtain ⟨hrw, hid⟩ := (lookup_rwSetMap htables (nodup_txIds hgraph hdup)).mp hlookup
    obtain ⟨k, hk⟩ := getElem?_of_mem hrw
    have hj := List.getElem?_eq_getElem
      (hlen ▸ (List.getElem?_eq_some_iff.mp hk).1 : k < v.order.length)
    have hjid := txId_at hgraph htables hj hk
    rw [hids, hid, ← List.getElem?_eq_getElem hi] at hjid
    have hji := (getElem?_inj hi hnodup).mp hjid.symm
    exact hji ▸ getElem_mem _

lemma lookup_rwSetMap_at {i : ℕ} (hi : i ∈ v.order) {txId : Bytes}
    (hid : (block.txs.filterMap Transaction.txId)[i]? = some txId) :
    (Simulator.rwSetMap v).lookup txId = v.snapshot.txRWSetTable[v.order.idxOf i]? := by
  have hk := getElem?_idxOf hi
  have hlt : v.order.idxOf i < v.snapshot.txRWSetTable.length :=
    htables.length_rws hgraph ▸ idxOf_lt_length_of_mem hi
  have hrw := getElem?_eq_getElem hlt
  have hat := txId_at hgraph htables hk hrw
  rw [txIds_txs sim hdup, hid] at hat
  rw [hrw]
  exact (lookup_rwSetMap htables (nodup_txIds hgraph hdup)).mpr
    ⟨getElem_mem hlt, (some.inj hat).symm⟩

lemma flatMap_rearranged (hperm : v.order.Perm (range (block.txs.filterMap txId).length)) :
    ((block.txs.filterMap txId).filterMap (Simulator.rwSetMap v).lookup).flatMap writesOf =
      (range (block.txs.filterMap txId).length).flatMap v.writesAt := by
  rw [flatMap_filterMap_elim, flatMap_def, flatMap_def]
  refine congrArg flatten (ext_getElem? fun i => ?_)
  rw [getElem?_map, getElem?_map]
  rcases lt_or_ge i (block.txs.filterMap txId).length with hi | hi
  · have hid := getElem?_eq_getElem hi
    have hmem : i ∈ v.order := hperm.mem_iff.mpr (mem_range.mpr hi)
    rw [hid, getElem?_range hi, map_some, map_some, lookup_rwSetMap_at hgraph htables hdup hmem hid]
    rfl
  · rw [getElem?_eq_none hi, getElem?_eq_none (by simpa using hi)]
    rfl

end

lemma rearrangeRWSet_eq (hdup : isTxDuplicate block.txs = false) (sets : RWSetMap) :
    rearrangeRWSet block (some sets) = some ((block.txs.filterMap txId).filterMap sets.lookup) := by
  have hmapM := mapM_eq_some_iff.mpr (txIds_of_isTxDuplicate hdup).1
  simp [rearrangeRWSet, hmapM]

theorem getKey_eq_stored (env : Env φ) (sv : Services φ) (sim : Simulator) (parent : Parent)
    (block : Block) (U : Set (Bytes × Bytes)) (hcol : NoCollision U)
    (hvm : ∀ tx ∈ sim.txs block, (sim.scheduler.vm tx).AccessIn U) (es : List SimEvent)
    (v : Simulation)
    (hmeets : Runs.Meets sim.step (WritesInOrder sim.scheduler) (sim.start parent block) es)
    (hrun : Runs.run sim.step (sim.start parent block) es = some v) (rwSetMap : Option RWSetMap)
    (events : Option EventMap)
    (hvalid : validateBlock env (sv.simulated sim v) block = .ok (rwSetMap, events))
    (rwSets : List TxRWSet) (hrearrange : rearrangeRWSet block rwSetMap = some rwSets)
    (contractName key : Bytes)
    (hwritten : ∃ rwSet ∈ v.snapshot.txRWSetTable, (contractName, key) ∈ writePairs rwSet)
    (store : Bytes × Bytes → Value) :
    v.snapshot.getKey contractName key =
      WriteLog.overlay store (rwSets.flatMap writesOf) (contractName, key) := by
  have hgraph : GraphInv block.graph (sim.txs block) v := .run hrun
  have htables : TableInv U v := .run hcol hvm hrun
  have hU : (contractName, key) ∈ U := by
    obtain ⟨rwSet, hrwSet, hmem⟩ := hwritten
    obtain ⟨w, hw, hpair⟩ := mem_map.mp hmem
    exact hpair ▸ htables.writes rwSet hrwSet w hw
  obtain ⟨-, hvalidates⟩ := validateBlock_ok hvalid
  cases hvalidates with
  | vacuum htxs =>
    -- Without transactions nothing was applied.
    obtain ⟨rwSet, hrwSet, -⟩ := hwritten
    obtain ⟨k, hk⟩ := getElem?_of_mem hrwSet
    have hlen := htables.length_rws hgraph
    have hi := List.getElem?_eq_getElem
      (hlen ▸ (List.getElem?_eq_some_iff.mp hk).1 : k < v.order.length)
    have hid := txId_at hgraph htables hi hk
    simp [Simulator.txs, htxs] at hid
  | @simulated sets results hashes htxs hdup hsimulate hcount hverify hdigests =>
    cases hsimulate
    have hsimulated := (mapM_finalizeTx hverify).1
    have hcovered : ∀ txId ∈ block.txs.filterMap Transaction.txId,
        ((Simulator.rwSetMap v).lookup txId).isSome := by
      intro txId htxId
      obtain ⟨tx, htx, htxId⟩ := mem_filterMap.mp htxId
      obtain ⟨txId', rwSet, -, -, -, htxId', hlookup, -⟩ := hsimulated tx htx
      cases htxId.symm.trans htxId'
      exact isSome_of_eq_some hlookup
    have hperm := perm_order_of_covered hgraph htables hdup hcovered
    rw [rearrangeRWSet_eq hdup] at hrearrange
    cases hrearrange
    have horder : InOrder v := .run hcol hvm hmeets hrun
    rw [flatMap_rearranged hgraph htables hdup hperm,
      ← horder.overlay_eq (htables.length_rws hgraph) hperm store]
    exact htables.last.getKey_eq hU hwritten store

open CoreEngine (smallEnv agreeable)

def writingSimulator : Simulator :=
  { failingSimulator with
    scheduler := ⟨fun tx => .put [] [1] (some tx.txId) (.done ⟨0, []⟩ .normal true),
      Scheduler.noFailedReads, false⟩ }

lemma ok_of_toOption {ε α : Type} {x : Except ε α} {a : α} (h : x.toOption = some a) :
    x = .ok a := by
  cases x with
  | error e => cases h
  | ok b => exact congrArg Except.ok (some.inj h)

def writtenTwice : List TxRWSet :=
  [⟨[1], [], [⟨[], [1], some [1]⟩]⟩, ⟨[2], [], [⟨[], [1], some [2]⟩]⟩]

theorem getKey_eq_stored_chain :
    ∃ v rwSetMap events, Runs.run writingSimulator.step
        (writingSimulator.start emptyState (pairBlock ⟨[[], [0]]⟩ [2]))
        [.submit 0, .exec 0, .apply 0, .done 0, .submit 0, .exec 0, .apply 0, .finish] = some v ∧
      validateBlock (smallEnv .tbft) (agreeable.simulated writingSimulator v)
        (pairBlock ⟨[[], [0]]⟩ [2]) =
        .ok (rwSetMap, events) ∧
      rearrangeRWSet (pairBlock ⟨[[], [0]]⟩ [2]) rwSetMap = some writtenTwice ∧
      v.snapshot.getKey [] [1] =
        WriteLog.overlay (fun _ => none) (writtenTwice.flatMap writesOf) ([], [1]) := by
  refine ⟨_, _, _, eq_some_of_isSome (by decide +kernel),
    ok_of_toOption (eq_some_of_isSome (by decide +kernel)), by decide +kernel, ?_⟩
  have hchain : ∀ i < (DAG.mk [[], [0]]).vertexes.length, ∀ j < i,
      Relation.TransGen (DAG.mk [[], [0]]).Edge i j := by
    intro i hi j hj
    change i < 2 at hi
    obtain rfl : i = 1 := by omega
    obtain rfl : j = 0 := by omega
    exact .single (by decide)
  refine getKey_eq_stored (smallEnv .tbft) agreeable
    writingSimulator emptyState (pairBlock ⟨[[], [0]]⟩ [2]) {([], [1])} ?_
      (fun _ _ => ⟨rfl, trivial⟩) _ _
    (Runs.Meets.of_invariant
      (I := GraphInv ⟨[[], [0]]⟩ (writingSimulator.txs (pairBlock ⟨[[], [0]]⟩ [2])))
      (fun _ _ _ h hs => h.step hs) (fun _ e h => writesInOrder_of_chain hchain h e)
        (.start _ _ _) _)
    (eq_some_of_isSome _) _ _ (ok_of_toOption (eq_some_of_isSome (by decide +kernel))) writtenTwice
    (by decide +kernel) [] [1] (by decide +kernel) _
  rintro p rfl q rfl -
  rfl

/-- Two transactions write one key and the graph has no edge. The simulation applies the second one
first, so that the snapshot has the value of the first, and the store gets that of the second. -/
theorem getKey_ne_stored :
    ∃ v rwSetMap events, Runs.run writingSimulator.step
        (writingSimulator.start emptyState (pairBlock ⟨[[], []]⟩ [2]))
        [.submit 1, .exec 0, .apply 0, .submit 0, .exec 0, .apply 0, .finish] = some v ∧
      v.returned = true ∧ (∃ rwSet ∈ v.snapshot.txRWSetTable, ([], [1]) ∈ writePairs rwSet) ∧
      validateBlock (smallEnv .tbft) (agreeable.simulated writingSimulator v)
        (pairBlock ⟨[[], []]⟩ [2]) =
        .ok (rwSetMap, events) ∧
      rearrangeRWSet (pairBlock ⟨[[], []]⟩ [2]) rwSetMap = some writtenTwice ∧
      v.snapshot.getKey [] [1] = some [1] ∧
      WriteLog.overlay (fun _ => none) (writtenTwice.flatMap writesOf) ([], [1]) = some [2] :=
  ⟨_, _, _, eq_some_of_isSome (by decide +kernel), by decide +kernel, by decide +kernel,
    ok_of_toOption (eq_some_of_isSome (by decide +kernel)), by decide +kernel⟩

end ChainMaker.Core
