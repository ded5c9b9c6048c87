import ChainMaker.Core.ProposalCache

/-! The checks that a block has to pass before it is cached (`block_helper.go`, `tx_helper.go`).
What the libraries compute and what the other modules answer are parameters. -/

namespace ChainMaker.Core
open ChainMaker.Snapshot (DAG TxRWSet Visit)

structure Env (φ : Type) where
  calcFingerPrint : Snapshot.BlockHeader → φ
  isEmptyBlock : Block → Bool
  calcBlockHash : Block → Option Bytes
  calcDagHash : Option DAG → Option Bytes
  calcRWSetHash : Option TxRWSet → Option Bytes
  calcRWSetRoot : List Transaction → Option Bytes
  calcTxHash : Transaction → Option Bytes
  calcTxRequestHash : Transaction → Option Bytes
  calcTxResultHash : Option Result → Option Bytes
  getMerkleRoot : List Bytes → Option Bytes
  canProposeEmptyBlock : ConsensusType → Bool
  chainId : String
  consensusType : ConsensusType
  enableSqlSupport : Bool
  blockTxCapacity : UInt32
  consensusMessageTurbo : Bool
  retryTime : ℕ

namespace Env
variable {φ : Type} (env : Env φ)

def fingerPrint (header : BlockHeader) : φ := env.calcFingerPrint header.fingerPrinted

def notSolo : Bool := env.consensusType ≠ .solo

end Env

structure Services (φ : Type) where
  visit : Visit φ
  recoverTxs : ℕ → List Bytes → GoMap Bytes Transaction
  getTxsByTxIds : List Bytes → GoMap Bytes Transaction × GoMap Bytes UInt64
  txExists : Bytes → Option Bool
  verifyTxWithoutPayload : Transaction → Bool
  verifyBlockSig : Block → Bool
  simulateWithDag : Block → Option (RWSetMap × GoMap Bytes Result)
  verifyBlockSignatures : Block → Bool

variable {φ : Type} (env : Env φ) (sv : Services φ)

/-! ### Transactions -/

inductive TxError where
  | duplicateInPending (txInPoolHeight txInBlockHeight : UInt64)
  | calcHash
  | txHash
  | duplicateInDB
  | acl
  | noRWSet
  | rwSetHash (expected got : Bytes)
  | result
  | panicked
deriving DecidableEq, Repr

def isTxHashValid (tx txInPool : Transaction) : Except TxError Unit :=
  match env.calcTxRequestHash txInPool, env.calcTxRequestHash tx with
  | some poolTxRawHash, some txRawHash => if txRawHash = poolTxRawHash then .ok ()
    else .error .txHash
  | _, _ => .error .calcHash

def validateTx (txsRet : GoMap Bytes Transaction) (txId : Bytes) (tx : Transaction)
    (blockHeight : UInt64) (block : Block) : Except TxError Unit :=
  match txsRet.lookup txId with
  | some txInPool =>
    if env.consensusType = .hotstuff ∧ blockHeight ≠ block.header.blockHeight ∧ blockHeight > 0 then
      .error (.duplicateInPending blockHeight block.header.blockHeight)
    else isTxHashValid env tx txInPool
  | none =>
    if sv.txExists txId ≠ some false then .error .duplicateInDB
    else if !sv.verifyTxWithoutPayload tx then .error .acl
    else .ok ()

def isTxRWSetValid (tx : Transaction) (rwSet : Option TxRWSet) (result : Option Result)
    (rwSetHash : Bytes) : Except TxError Result :=
  match rwSet, result with
  | some _, some result =>
    match tx.result with
    | none => .error .panicked
    | some own =>
      if own.rwSetHash = rwSetHash then .ok result
      else .error (.rwSetHash own.rwSetHash rwSetHash)
  | _, _ => .error .noRWSet

def verifyTxResult (tx : Transaction) (result : Result) : Except TxError Unit :=
  match env.calcTxResultHash tx.result, env.calcTxResultHash (some result) with
  | some txResultHash, some resultHash =>
    if txResultHash = resultHash then .ok () else .error .result
  | _, _ => .error .calcHash

def verifyTx (block : Block) (txRWSetMap : RWSetMap) (txResultMap : GoMap Bytes Result)
    (pool : GoMap Bytes Transaction × GoMap Bytes UInt64) (tx : Transaction) :
    Except TxError Bytes :=
  match tx.txId with
  | none => .error .panicked
  | some txId => do
    let _ ← validateTx env sv pool.1 txId tx ((pool.2.lookup txId).getD 0) block
    match env.calcRWSetHash (txRWSetMap.lookup txId) with
    | none => .error .calcHash
    | some rwSetHash =>
      let result ← isTxRWSetValid tx (txRWSetMap.lookup txId) (txResultMap.lookup txId) rwSetHash
      let _ ← verifyTxResult env tx { result with rwSetHash := rwSetHash }
      match env.calcTxHash tx with
      | none => .error .calcHash
      | some hash => .ok hash

def verifierTxs (block : Block) (txRWSetMap : RWSetMap) (txResultMap : GoMap Bytes Result) :
    Except TxError (List Bytes) :=
  let txIds := block.txs.filterMap Transaction.txId
  block.txs.mapM (verifyTx env sv block txRWSetMap txResultMap (sv.getTxsByTxIds txIds))

/-! ### Blocks -/

def isTxCountValid (block : Block) : Except CoreError Unit :=
  if block.header.txCount = UInt32.ofNat block.txs.length then .ok ()
  else .error (.txCount block.header.txCount block.txs.length)

def isHeightValid (block : Block) (currentHeight : UInt64) : Except CoreError Unit :=
  if currentHeight + 1 = block.header.blockHeight then .ok ()
  else .error (.height (currentHeight + 1) block.header.blockHeight)

def isPreHashValid (block : Block) (preHash : Option Bytes) : Except CoreError Unit :=
  if preHash.getD [] = block.header.preBlockHash.getD [] then .ok ()
  else .error (.preHash preHash block.header.preBlockHash)

def isBlockHashValid (block : Block) : Except CoreError Unit :=
  match env.calcBlockHash block with
  | none => .error .calcBlockHash
  | some hash =>
    if hash = block.header.blockHash.getD [] then .ok ()
      else .error (.blockHash block.header.blockHash hash)

/-- A transaction without a payload counts as a duplicate. -/
def isTxDuplicate (txs : List Transaction) : Bool :=
  txs.any (·.payload.isNone) || (txs.filterMap Transaction.txId).dedup.length < txs.length

def isMerkleRootValid (block : Block) (txHashes : List Bytes) : Except CoreError Unit :=
  if env.getMerkleRoot txHashes = some block.header.txRoot then .ok ()
  else .error (.txRoot block.header.txRoot (env.getMerkleRoot txHashes))

def isDagHashValid (block : Block) : Except CoreError Unit :=
  if env.calcDagHash block.dag = some block.header.dagHash then .ok ()
  else .error (.dag block.header.dagHash (env.calcDagHash block.dag))

def isRWSetHashValid (block : Block) : Except CoreError Unit :=
  match env.calcRWSetRoot block.txs with
  | none => .error .calcRWSetRoot
  | some rwSetRoot =>
    if rwSetRoot = block.header.rwSetRoot then .ok ()
    else .error (.rwSetRoot block.header.rwSetRoot rwSetRoot)

def checkBlockDigests (block : Block) (txHashes : List Bytes) : Except CoreError Unit := do
  isMerkleRootValid env block txHashes
  isDagHashValid env block
  isRWSetHashValid env block

def checkVacuumBlock (block : Block) : Except CoreError Unit :=
  if block.header.txCount = 0 ∧ !env.canProposeEmptyBlock env.consensusType then
    .error .txMustNotBeEmpty
  else .ok ()

def contractEvents (txs : List Transaction) (txResultMap : GoMap Bytes Result) : EventMap :=
  (txs.filterMap Transaction.txId).foldl
    (fun events txId =>
      events.insert txId (((txResultMap.lookup txId).map (·.contractEvent)).getD []))
    ∅

def validateBlock (block : Block) : Except CoreError (Option RWSetMap × Option EventMap) := do
  isBlockHashValid env block
  if !sv.verifyBlockSig block then
    throw (.signature block.header.blockHeight block.header.blockHash block.header.proposer
      block.header.signature)
  checkVacuumBlock env block
  if block.txs = [] then return (none, none)
  if isTxDuplicate block.txs then throw .txDuplicate
  match sv.simulateWithDag block with
  | none => throw .simulate
  | some (txRWSetMap, txResultMap) =>
    if block.header.txCount ≠ UInt32.ofNat txRWSetMap.keys.length then
      throw (.simulateTxCount block.header.txCount txRWSetMap.keys.length)
    match verifierTxs env sv block txRWSetMap txResultMap with
    | .error .panicked => throw .panicked
    | .error _ => throw (.verifyTxs block.header.blockHeight block.header.blockHash)
    | .ok txHashes =>
      checkBlockDigests env block txHashes
      return (some txRWSetMap, some (contractEvents block.txs txResultMap))

/-! The goroutines of `verifierTxs`. The transactions are split into batches, which are verified in
any order; the results are the same as those of one pass over the block. -/

open Option List

section Batches
variable {ε α β : Type} {verify : α → Except ε β} {batches : List (List α)}

def passedBatch (verify : α → Except ε β) (batches : List (List α)) (index : ℕ) :
    Option (List α × List β) :=
  batches[index]?.bind fun txs => match txs.mapM verify with
    | .ok hashes => some (txs, hashes)
    | .error _ => none

def verifyBatch (verify : α → Except ε β) (batches : List (List α))
    (resultTasks : GoMap ℕ (List α × List β)) (index : ℕ) : GoMap ℕ (List α × List β) :=
  match passedBatch verify batches index with
  | some result => resultTasks.insert index result
  | none => resultTasks

/-- `TxVerifyResultsMerge`; an index that is not in the map reads as an empty batch. -/
def txVerifyResultsMerge (resultTasks : GoMap ℕ (List α × List β)) (verifyBatchs : List (List α)) :
    Option (List β) :=
  let batch := fun i => (resultTasks.lookup i).getD ([], [])
  if resultTasks.keys.length < verifyBatchs.length then none
  else if (range resultTasks.keys.length).any fun i =>
    (batch i).1.length ≠ (batch i).2.length then none
  else some ((range resultTasks.keys.length).flatMap fun i => (batch i).2)

lemma lookup_foldl_verifyBatch (order ended : List ℕ) (resultTasks : GoMap ℕ (List α × List β))
    (h : ∀ i, resultTasks.lookup i = if i ∈ ended then passedBatch verify batches i else none)
    (i : ℕ) :
    (order.foldl (verifyBatch verify batches) resultTasks).lookup i =
      if i ∈ ended ++ order then passedBatch verify batches i else none := by
  induction order generalizing resultTasks ended with
  | nil => rw [foldl_nil, append_nil, h i]
  | cons j order ih =>
    rw [foldl_cons, ih (ended ++ [j]), append_assoc, singleton_append]
    intro i
    unfold verifyBatch
    by_cases hij : i = j
    · subst hij
      rw [if_pos (mem_append_right _ (mem_singleton_self i))]
      cases hpassed : passedBatch verify batches i with
      | none => simp [h i, hpassed]
      | some result => exact AList.lookup_insert resultTasks
    · have hmem : i ∈ ended ++ [j] ↔ i ∈ ended := by simp [hij]
      simp only [hmem]
      cases passedBatch verify batches j with
      | none => exact h i
      | some result => exact (AList.lookup_insert_ne hij).trans (h i)

lemma passedBatch_eq_some {i : ℕ} {result : List α × List β} :
    passedBatch verify batches i = some result ↔
      batches[i]? = some result.1 ∧ result.1.mapM verify = .ok result.2 := by
  unfold passedBatch
  rw [bind_eq_some_iff]
  constructor
  · rintro ⟨txs, htxs, hresult⟩
    split at hresult
    · next hashes hhashes =>
      cases hresult
      exact ⟨htxs, hhashes⟩
    · cases hresult
  · rintro ⟨htxs, hhashes⟩
    exact ⟨result.1, htxs, by rw [hhashes]⟩

section Merge
variable {order : List ℕ} (horder : order.Perm (range batches.length))
include horder

lemma lookup_verifyBatches (i : ℕ) :
    (order.foldl (verifyBatch verify batches) ∅).lookup i = passedBatch verify batches i := by
  rw [lookup_foldl_verifyBatch order [] ∅ (fun _ => rfl), nil_append]
  split
  · rfl
  · next hi =>
    rw [horder.mem_iff, mem_range, Nat.not_lt] at hi
    rw [passedBatch, getElem?_eq_none hi, bind_none]

lemma keys_verifyBatches :
    (order.foldl (verifyBatch verify batches) ∅).keys ⊆ range batches.length := by
  intro i hi
  obtain ⟨result, hresult⟩ := isSome_iff_exists.mp (AList.lookup_isSome.mpr hi)
  rw [lookup_verifyBatches horder] at hresult
  exact List.mem_range.mpr (List.getElem?_eq_some_iff.mp (passedBatch_eq_some.mp hresult).1).1

lemma merge_of_passed {bss : List (List β)} (h : batches.mapM (mapM verify) = .ok bss) :
    txVerifyResultsMerge (order.foldl (verifyBatch verify batches) ∅) batches =
      some bss.flatten := by
  have hlookup : ∀ i, (order.foldl (verifyBatch verify batches) ∅).lookup i = _ :=
    lookup_verifyBatches horder
  have hsubset : (order.foldl (verifyBatch verify batches) ∅).keys ⊆ _ := keys_verifyBatches horder
  generalize order.foldl (verifyBatch verify batches) ∅ = resultTasks at hlookup hsubset
  have hbatch : ∀ i < batches.length, ∃ txs hashes, resultTasks.lookup i = some (txs, hashes) ∧
      bss[i]? = some hashes ∧ hashes.length = txs.length := by
    intro i hi
    obtain ⟨hashes, hhashes, hmapM⟩ := getElem?_of_mapM h (getElem?_eq_getElem hi)
    refine ⟨batches[i], hashes, ?_, hhashes, length_of_mapM hmapM⟩
    exact (hlookup i).trans (passedBatch_eq_some.mpr ⟨getElem?_eq_getElem hi, hmapM⟩)
  have hkeys : resultTasks.keys.length = batches.length := by
    have hperm : resultTasks.keys.Perm (range batches.length) := by
      refine (perm_ext_iff_of_nodup resultTasks.keys_nodup nodup_range).mpr fun i => ?_
      refine ⟨fun hi => hsubset hi, fun hi => ?_⟩
      obtain ⟨txs, hashes, hi, -⟩ := hbatch i (mem_range.mp hi)
      exact AList.lookup_isSome.mp (hi ▸ rfl)
    rw [hperm.length_eq, length_range]
  unfold txVerifyResultsMerge
  dsimp only
  rw [hkeys, if_neg (Nat.lt_irrefl _), if_neg]
  · rw [flatMap_def]
    refine congrArg some (congrArg flatten (ext_getElem? fun i => ?_))
    by_cases hi : i < batches.length
    · obtain ⟨txs, hashes, hlookup, hhashes, -⟩ := hbatch i hi
      rw [getElem?_map, getElem?_range hi, map_some, hlookup, hhashes, getD_some]
    rw [getElem?_eq_none, getElem?_eq_none]
    · rw [length_of_mapM h]
      exact Nat.le_of_not_lt hi
    · rw [length_map, length_range]
      exact Nat.le_of_not_lt hi
  · rw [Bool.not_eq_true, List.any_eq_false]
    intro i hi
    obtain ⟨txs, hashes, hlookup, -, hlength⟩ := hbatch i (mem_range.mp hi)
    rw [decide_eq_true_eq, not_not, hlookup, getD_some]
    exact hlength.symm

lemma merge_verifyBatches_iff (hashes : List β) :
    txVerifyResultsMerge (order.foldl (verifyBatch verify batches) ∅) batches = some hashes ↔
      batches.flatten.mapM verify = .ok hashes := by
  constructor
  · intro h
    have hpassed : ∀ txs ∈ batches, ∃ hashes, txs.mapM verify = .ok hashes := by
      intro txs htxs
      obtain ⟨i, hi, rfl⟩ := mem_iff_getElem.mp htxs
      -- As many batches were entered as there are, so each of them was.
      have hperm : (order.foldl (verifyBatch verify batches) ∅).keys.Perm
          (range batches.length) := by
        refine (subperm_of_subset (AList.keys_nodup _)
          (keys_verifyBatches horder)).perm_of_length_le ?_
        rw [length_range]
        unfold txVerifyResultsMerge at h
        split at h
        · cases h
        · next hall => exact Nat.le_of_not_lt hall
      have hmem := hperm.mem_iff.mpr (mem_range.mpr hi)
      obtain ⟨result, hresult⟩ := isSome_iff_exists.mp (AList.lookup_isSome.mpr hmem)
      rw [lookup_verifyBatches horder, passedBatch_eq_some, getElem?_eq_getElem hi] at hresult
      exact ⟨result.2, some.inj hresult.1 ▸ hresult.2⟩
    obtain ⟨bss, hbss⟩ := mapM_of_forall hpassed
    rw [mapM_flatten hbss]
    rw [merge_of_passed horder hbss] at h
    exact congrArg _ (some.inj h)
  · intro h
    obtain ⟨bss, hbss⟩ := mapM_of_flatten h
    rw [merge_of_passed horder hbss]
    rw [mapM_flatten hbss] at h
    exact congrArg _ (Except.ok.inj h)

end Merge
end Batches

lemma verifierTxs_iff_batches {φ : Type} (env : Env φ) (sv : Services φ) (block : Block)
    (txRWSetMap : RWSetMap) (txResultMap : GoMap Bytes Result) {batches : List (List Transaction)}
    (hbatches : batches.flatten = block.txs) {order : List ℕ}
    (horder : order.Perm (range batches.length)) (hashes : List Bytes) :
    txVerifyResultsMerge (order.foldl (verifyBatch (verifyTx env sv block txRWSetMap txResultMap
        (sv.getTxsByTxIds (block.txs.filterMap Transaction.txId))) batches) ∅)
          batches = some hashes ↔
      verifierTxs env sv block txRWSetMap txResultMap = .ok hashes := by
  rw [merge_verifyBatches_iff horder, hbatches]
  rfl

end ChainMaker.Core
