import ChainMaker.Core.CommitFidelity

/-! What a block that the verifier accepts is known to be. -/

namespace ChainMaker.Core
open Option List CoreEngine
open ChainMaker.Snapshot (DAG TxRWSet)
variable {φ : Type} [DecidableEq φ] {env : Env φ} {sv : Services φ} {block : Block}
  {hashes : List Bytes} {sets : RWSetMap} {hash : Bytes}

/-! ### The body of a finished block -/

def finalizeBody (env : Env φ) (txs : List Transaction) (dag : Option DAG) (rwSetMap : RWSetMap) :
    Option (List Transaction × Bytes × Bytes × Bytes) := do
  let finalized ← txs.mapM (finalizeTx env rwSetMap)
  let txs := finalized.map (·.1)
  let txRoot ← env.getMerkleRoot (finalized.map (·.2))
  let rwSetRoot ← env.calcRWSetRoot txs
  let dagHash ← env.calcDagHash dag
  return (txs, txRoot, rwSetRoot, dagHash)

omit [DecidableEq φ] in
lemma finalizeBlock_eq_finalizeBody (header : BlockHeader) (txs : List Transaction) (dag : DAG)
    (rwSetMap : RWSetMap) : finalizeBlock env header txs dag rwSetMap =
      (finalizeBody env txs (some dag) rwSetMap).map fun (txs, txRoot, rwSetRoot, dagHash) =>
        ⟨{ header with txCount := UInt32.ofNat txs.length, txRoot, rwSetRoot, dagHash },
          some dag, txs, none⟩ := by
  simp [finalizeBlock, finalizeBody, Option.map_bind]

/-- The header has the digests that `FinalizeBlock` computes for the body, and the transactions have
the hashes that it gives them. -/
def Block.Finalized (env : Env φ) (block : Block) (rwSetMap : RWSetMap) : Prop :=
  finalizeBody env block.txs block.dag rwSetMap =
    some (block.txs, block.header.txRoot, block.header.rwSetRoot, block.header.dagHash)

/-! ### Transactions -/

def Env.ResultsDistinct (env : Env φ) : Prop :=
  ∀ result result' digest, env.calcTxResultHash result = some digest →
    env.calcTxResultHash result' = some digest → result = result'

/-- The transaction was simulated, and has the hash of its simulated read/write set and the digest
of its simulated result, so that it has this result unless digests collide. -/
def Transaction.Simulated (env : Env φ) (rwSetMap : RWSetMap) (results : GoMap Bytes Result)
    (tx : Transaction) : Prop :=
  ∃ txId rwSet result own digest, tx.txId = some txId ∧ rwSetMap.lookup txId = some rwSet ∧
    results.lookup txId = some result ∧ tx.result = some own ∧
    env.calcRWSetHash (some rwSet) = some own.rwSetHash ∧
    env.calcTxResultHash (some own) = some digest ∧
    env.calcTxResultHash (some { result with rwSetHash := own.rwSetHash }) = some digest ∧
    (env.ResultsDistinct → own = { result with rwSetHash := own.rwSetHash })

variable {tx : Transaction} {pool : GoMap Bytes Transaction × GoMap Bytes UInt64}

lemma isTxRWSetValid_ok {rwSet : Option TxRWSet} {result : Option Result} {rwSetHash : Bytes}
    {simulated : Result} (h : isTxRWSetValid tx rwSet result rwSetHash = .ok simulated) :
    ∃ set own, rwSet = some set ∧ result = some simulated ∧ tx.result = some own ∧
      own.rwSetHash = rwSetHash := by
  unfold isTxRWSetValid at h
  split at h
  · next set result =>
    split at h
    · cases h
    next own hown =>
    split at h
    · next heq =>
      cases h
      exact ⟨set, own, rfl, rfl, hown, heq⟩
    · cases h
  · cases h

omit [DecidableEq φ] in
lemma verifyTxResult_ok {result : Result} (h : verifyTxResult env tx result = .ok ()) :
    ∃ digest, env.calcTxResultHash tx.result = some digest ∧
      env.calcTxResultHash (some result) = some digest := by
  unfold verifyTxResult at h
  split at h
  · next txResultHash resultHash htx hresult =>
    split at h
    · next heq => exact ⟨resultHash, heq ▸ htx, hresult⟩
    · cases h
  · cases h

variable {rwSetMap : RWSetMap} {results : GoMap Bytes Result} {txs : List Transaction}

omit [DecidableEq φ] in
lemma simulated_of_verifyTx (h : verifyTx env sv block rwSetMap results pool tx = .ok hash) :
    tx.Simulated env rwSetMap results ∧ env.calcTxHash tx = some hash := by
  unfold verifyTx at h
  split at h
  · cases h
  next txId htxId =>
  obtain ⟨-, -, hvalidated⟩ := bind_ok.mp h
  split at hvalidated
  · cases hvalidated
  next rwSetHash hrwSetHash =>
  obtain ⟨result, hvalid, hchecked⟩ := bind_ok.mp hvalidated
  obtain ⟨⟨⟩, hresult, hhashed⟩ := bind_ok.mp hchecked
  obtain ⟨rwSet, own, hrwSet, hlookup, hown, rfl⟩ := isTxRWSetValid_ok hvalid
  obtain ⟨digest, htx, hdigest⟩ := verifyTxResult_ok hresult
  rw [hrwSet] at hrwSetHash
  rw [hown] at htx
  refine ⟨⟨txId, rwSet, result, own, digest, htxId, hrwSet, hlookup, hown, hrwSetHash, htx, hdigest,
    fun hdistinct => some.inj (hdistinct _ _ digest htx hdigest)⟩, ?_⟩
  cases hcalc : env.calcTxHash tx with
  | none => simp [hcalc] at hhashed
  | some hash' =>
    rw [hcalc] at hhashed
    exact congrArg some (Except.ok.inj hhashed)

omit [DecidableEq φ] in
/-- In whatever batches the transactions are verified, and in whatever order these end, there is no
error if and only if every transaction passes, and then the hashes are those of the transactions. -/
theorem verifierTxs_exact (env : Env φ) (sv : Services φ) (block : Block) (rwSetMap : RWSetMap)
    (results : GoMap Bytes Result) (batches : List (List Transaction))
    (hbatches : batches.flatten = block.txs) (order : List ℕ)
    (horder : order.Perm (range batches.length)) :
    let verify := verifyTx env sv block rwSetMap results
      (sv.getTxsByTxIds (block.txs.filterMap Transaction.txId))
    let returned := txVerifyResultsMerge (order.foldl (verifyBatch verify batches) ∅) batches
    (returned.isSome = true ↔ ∀ tx ∈ block.txs, ∃ hash, verify tx = .ok hash) ∧
      ∀ hashes, returned = some hashes → hashes.map some = block.txs.map env.calcTxHash := by
  intro verify returned
  have hreturned : ∀ hashes, returned = some hashes ↔ block.txs.mapM verify = .ok hashes :=
    verifierTxs_iff_batches env sv block rwSetMap results hbatches horder
  refine ⟨⟨fun hsome tx htx => ?_, fun hpass => ?_⟩, fun hashes h => ?_⟩
  · obtain ⟨hashes, h⟩ := isSome_iff_exists.mp hsome
    obtain ⟨i, hi⟩ := mem_iff_getElem?.mp htx
    obtain ⟨hash, -, hverify⟩ := getElem?_of_mapM ((hreturned hashes).mp h) hi
    exact ⟨hash, hverify⟩
  · obtain ⟨hashes, h⟩ := mapM_of_forall hpass
    rw [(hreturned hashes).mpr h]
    rfl
  · have hmapM := (hreturned hashes).mp h
    refine ext_getElem (by rw [length_map, length_map, length_of_mapM hmapM]) fun i hi hi' => ?_
    rw [length_map] at hi'
    obtain ⟨hash, hhash, hverify⟩ := getElem?_of_mapM hmapM (getElem?_eq_getElem hi')
    rw [getElem_map, getElem_map, (simulated_of_verifyTx hverify).2, ← hhash,
      getElem?_eq_getElem]

def twoTxs : Block := { blockOne [] none with txs := [smallTx 5, smallTx 6] }

theorem verifierTxs_exact_reversed :
    let simulated := (agreeable.simulateWithDag twoTxs).getD (∅, ∅)
    ∃ hashes, txVerifyResultsMerge ([1, 0].foldl (verifyBatch (verifyTx (smallEnv .tbft) agreeable
        twoTxs simulated.1 simulated.2 (∅, ∅)) [[smallTx 5], [smallTx 6]]) ∅)
        [[smallTx 5], [smallTx 6]] = some hashes ∧
      hashes.map some = twoTxs.txs.map (smallEnv .tbft).calcTxHash :=
  ⟨_, eq_some_of_isSome (by decide +kernel),
    (verifierTxs_exact (smallEnv .tbft) agreeable twoTxs _ _ [[smallTx 5], [smallTx 6]] rfl [1, 0]
      (.swap 0 1 [])).2 _ (eq_some_of_isSome _)⟩

omit [DecidableEq φ] in
lemma finalizeTx_of_simulated (h : tx.Simulated env rwSetMap results)
    (hhash : env.calcTxHash tx = some hash) : finalizeTx env rwSetMap tx = some (tx, hash) := by
  obtain ⟨txId, rwSet, result, own, digest, htxId, hrwSet, -, hown, hrwSetHash, -⟩ := h
  have htx : ({ tx with
      result := some { own with rwSetHash := own.rwSetHash } } : Transaction) = tx := by
    rw [← hown]
  unfold finalizeTx
  simp [htxId, hrwSet, hrwSetHash, hown, htx, hhash]

omit [DecidableEq φ] in
lemma mapM_finalizeTx (h : txs.mapM (verifyTx env sv block rwSetMap results pool) = .ok hashes) :
    (∀ tx ∈ txs, tx.Simulated env rwSetMap results) ∧
      txs.mapM (finalizeTx env rwSetMap) = some (txs.zip hashes) := by
  induction txs generalizing hashes with
  | nil =>
    exact ⟨nofun, rfl⟩
  | cons tx txs ih =>
    rw [mapM_cons] at h ⊢
    obtain ⟨hash, hhead, h⟩ := bind_ok.mp h
    obtain ⟨rest, htail, h⟩ := bind_ok.mp h
    cases h
    obtain ⟨hsimulated, hhash⟩ := simulated_of_verifyTx hhead
    obtain ⟨hall, hmapM⟩ := ih htail
    refine ⟨forall_mem_cons.mpr ⟨hsimulated, hall⟩, ?_⟩
    rw [finalizeTx_of_simulated hsimulated hhash, hmapM]
    rfl

/-! ### Blocks -/

inductive Validates (env : Env φ) (sv : Services φ) (block : Block) : Option RWSetMap → Prop
  | vacuum (htxs : block.txs = []) : Validates env sv block none
  | simulated {sets : RWSetMap} {results : GoMap Bytes Result} {hashes : List Bytes}
      (htxs : block.txs ≠ []) (hduplicate : isTxDuplicate block.txs = false)
      (hsimulate : sv.simulateWithDag block = some (sets, results))
      (hcount : block.header.txCount = UInt32.ofNat sets.keys.length)
      (hverify : verifierTxs env sv block sets results = .ok hashes)
      (hdigests : checkBlockDigests env block hashes = .ok ()) : Validates env sv block (some sets)

omit [DecidableEq φ] in
lemma validateBlock_ok {rwSetMap : Option RWSetMap} {events : Option EventMap}
    (h : validateBlock env sv block = .ok (rwSetMap, events)) :
    isBlockHashValid env block = .ok () ∧ Validates env sv block rwSetMap := by
  obtain ⟨⟨⟩, hhash, hhashed⟩ := bind_ok.mp h
  refine ⟨hhash, ?_⟩
  dsimp only at hhashed
  split at hhashed
  · cases hhashed
  obtain ⟨⟨⟩, -, hvacuum⟩ := bind_ok.mp hhashed
  split at hvacuum
  · next htxs =>
    cases hvacuum
    exact .vacuum htxs
  next htxs =>
  split at hvacuum
  · cases hvacuum
  next hduplicate =>
  split at hvacuum
  · cases hvacuum
  next sets results hsimulate =>
  split at hvacuum
  · cases hvacuum
  next hcount =>
  split at hvacuum
  · cases hvacuum
  · cases hvacuum
  next hashes hverify =>
  obtain ⟨⟨⟩, hdigests, hresult⟩ := bind_ok.mp hvacuum
  cases hresult
  exact .simulated htxs (Bool.eq_false_of_not_eq_true hduplicate) hsimulate (not_not.mp hcount)
    hverify hdigests

lemma txIds_of_isTxDuplicate (h : isTxDuplicate txs = false) :
    txs.map Transaction.txId = (txs.filterMap Transaction.txId).map some ∧
      (txs.filterMap Transaction.txId).Nodup := by
  obtain ⟨hpayload, hlength⟩ := Bool.or_eq_false_iff.mp h
  have hsome : ∀ l : List Transaction, l.any (·.payload.isNone) = false →
      l.map Transaction.txId = (l.filterMap Transaction.txId).map some := by
    intro l hl
    induction l with
    | nil => rfl
    | cons tx l ih =>
      rw [any_cons, Bool.or_eq_false_iff] at hl
      obtain ⟨payload, hpayload⟩ := isSome_iff_exists.mp (isNone_eq_false_iff.mp hl.1)
      have htxId : tx.txId = some payload.txId := by rw [Transaction.txId, hpayload, map_some]
      rw [map_cons, filterMap_cons_some htxId, map_cons, ih hl.2, htxId]
  have hids := hsome txs hpayload
  have hsame : (txs.filterMap Transaction.txId).length = txs.length := by
    have := congrArg length hids
    rw [length_map, length_map] at this
    exact this.symm
  refine ⟨hids, dedup_eq_self.mp ((dedup_sublist _).eq_of_length_le ?_)⟩
  rw [hsame]
  exact Nat.le_of_not_lt (of_decide_eq_false hlength)

structure Block.Sound (env : Env φ) (sv : Services φ) (block : Block) (rwSetMap : Option RWSetMap) :
    Prop where
  blockHash : env.calcBlockHash block = some (block.header.blockHash.getD [])
  txIds : ∃ txIds : List Bytes, block.txs.map Transaction.txId = txIds.map some ∧ txIds.Nodup
  txCount : block.header.txCount.toNat = block.txs.length
  covered : ∀ txId, txId ∈ (rwSetMap.getD ∅).keys ↔ ∃ tx ∈ block.txs, tx.txId = some txId
  simulated : block.txs ≠ [] → ∃ sets results, sv.simulateWithDag block = some (sets, results) ∧
    rwSetMap = some sets ∧ ∀ tx ∈ block.txs, tx.Simulated env sets results
  finalized : block.Finalized env (rwSetMap.getD ∅)

section
omit [DecidableEq φ]

lemma calcBlockHash_of_isBlockHashValid (h : isBlockHashValid env block = .ok ()) :
    env.calcBlockHash block = some (block.header.blockHash.getD []) := by
  unfold isBlockHashValid at h
  split at h
  · cases h
  next hash hhash =>
  split at h
  · next heq => exact heq ▸ hhash
  · cases h

lemma finalized_of_checkBlockDigests (hverify : verifierTxs env sv block sets results = .ok hashes)
    (hdigests : checkBlockDigests env block hashes = .ok ()) : block.Finalized env sets := by
  obtain ⟨-, hfinalize⟩ := mapM_finalizeTx hverify
  have hlength : hashes.length = block.txs.length := length_of_mapM hverify
  obtain ⟨⟨⟩, hmerkle, hrest⟩ := bind_ok.mp hdigests
  obtain ⟨⟨⟩, hdag, hrwSet⟩ := bind_ok.mp hrest
  have htxRoot : env.getMerkleRoot hashes = some block.header.txRoot := by
    unfold isMerkleRootValid at hmerkle
    split at hmerkle
    · next heq => exact heq
    · cases hmerkle
  have hdagHash : env.calcDagHash block.dag = some block.header.dagHash := by
    unfold isDagHashValid at hdag
    split at hdag
    · next heq => exact heq
    · cases hdag
  have hrwSetRoot : env.calcRWSetRoot block.txs = some block.header.rwSetRoot := by
    unfold isRWSetHashValid at hrwSet
    split at hrwSet
    · cases hrwSet
    next rwSetRoot hroot =>
    split at hrwSet
    · next heq => exact heq ▸ hroot
    · cases hrwSet
  have hfst : (block.txs.zip hashes).map (·.1) = block.txs := map_fst_zip (by omega)
  have hsnd : (block.txs.zip hashes).map (·.2) = hashes := map_snd_zip (by omega)
  unfold Block.Finalized finalizeBody
  simp [hfinalize, hfst, hsnd, htxRoot, hrwSetRoot, hdagHash]

lemma covered_of_count
    (hids : block.txs.map Transaction.txId = (block.txs.filterMap Transaction.txId).map some)
    (hnodup : (block.txs.filterMap Transaction.txId).Nodup)
    (hsimulated : ∀ tx ∈ block.txs, tx.Simulated env sets results)
    (hlength : sets.keys.length = block.txs.length) (txId : Bytes) :
    txId ∈ sets.keys ↔ ∃ tx ∈ block.txs, tx.txId = some txId := by
  have hsubset : block.txs.filterMap Transaction.txId ⊆ sets.keys := by
    intro txId htxId
    obtain ⟨tx, htx, htxId⟩ := mem_filterMap.mp htxId
    obtain ⟨txId', rwSet, -, -, -, htxId', hrwSet, -⟩ := hsimulated tx htx
    cases htxId.symm.trans htxId'
    exact AList.lookup_isSome.mp (hrwSet ▸ rfl)
  have hsame := congrArg length hids
  rw [length_map, length_map] at hsame
  have hperm : (block.txs.filterMap Transaction.txId).Perm sets.keys :=
    (subperm_of_subset hnodup hsubset).perm_of_length_le (by omega)
  rw [← hperm.mem_iff, mem_filterMap]

lemma hashes_of_finalized {finalized : List (Transaction × Bytes)}
    (h : txs.mapM (finalizeTx env sets) = some finalized)
    (hverify : (finalized.map (·.1)).mapM
      (verifyTx env sv block rwSetMap results pool) = .ok hashes) :
    finalized.map (·.2) = hashes := by
  induction txs generalizing finalized hashes with
  | nil =>
    cases h
    cases hverify
    rfl
  | cons tx txs ih =>
    simp only [mapM_cons, finalizeTx, bind_eq_bind, bind_assoc, bind_eq_some_iff] at h
    obtain ⟨_, -, _, -, _, -, hash, hhash, _, ⟨⟩, rest, htail, ⟨⟩⟩ := h
    rw [map_cons, mapM_cons] at hverify
    obtain ⟨hash', hhead, hverify⟩ := bind_ok.mp hverify
    obtain ⟨hashes, hrest, ⟨⟩⟩ := bind_ok.mp hverify
    have hsame := hhash.symm.trans (simulated_of_verifyTx hhead).2
    rw [map_cons, ih htail hrest, some.inj hsame]

/-- What `FinalizeBlock` makes has the count and the digests that the verifier checks. -/
theorem finalizeBlock_digests {header : BlockHeader} {dag : DAG}
    (h : finalizeBlock env header txs dag sets = some block)
    (hverify : verifierTxs env sv block rwSetMap results = .ok hashes) :
    isTxCountValid block = .ok () ∧ checkBlockDigests env block hashes = .ok () := by
  simp only [finalizeBlock, bind_eq_bind, bind_eq_some_iff] at h
  obtain ⟨finalized, hfinalized, _, htxRoot, _, hrwSetRoot, _, hdagHash, ⟨⟩⟩ := h
  obtain rfl := hashes_of_finalized hfinalized hverify
  unfold checkBlockDigests isMerkleRootValid isDagHashValid isRWSetHashValid
  rw [if_pos htxRoot, if_pos hdagHash, hrwSetRoot]
  exact ⟨if_pos rfl, if_pos rfl⟩

theorem finalizeBlock_digests_blockOne :
    checkBlockDigests (smallEnv .tbft) (blockOne [] none) [[5, 5]] = .ok () := by
  have h : finalizeBlock (smallEnv .tbft) (blockOne [] none).header [smallTx 5] ⟨[[]]⟩ ∅ =
    some (blockOne [] none) := rfl
  have hverify : verifierTxs (smallEnv .tbft) agreeable (blockOne [] none)
    (.singleton [5] ⟨[5], [], []⟩) (.singleton [5] ⟨0, [], [], []⟩) = .ok [[5, 5]] := rfl
  exact (finalizeBlock_digests h hverify).2

end

namespace CoreEngine
variable {c : CoreEngine φ} {lastBlock : Block}

theorem validate_sound_iff (env : Env φ) (sv : Services φ) (c : CoreEngine φ)
    (block lastBlock : Block) (rwSetMap : Option RWSetMap) (events : Option EventMap)
    (h : (c.validate env sv block lastBlock).1 = .ok (rwSetMap, events)) :
    block.Sound env sv rwSetMap ↔ block.txs.length < 2 ^ 32 ∧
      (rwSetMap.getD ∅).keys.length < 2 ^ 32 ∧ (block.txs = [] → block.Finalized env ∅) := by
  obtain ⟨hvalid, hvalidate⟩ := validate_ok h
  have hcount : block.header.txCount = UInt32.ofNat block.txs.length := by
    unfold isTxCountValid at hvalid
    split at hvalid
    · next heq => exact heq
    · cases hvalid
  obtain ⟨hhash, hvalidates⟩ := validateBlock_ok hvalidate
  have hblockHash := calcBlockHash_of_isBlockHashValid hhash
  have htoNat : block.txs.length < 2 ^ 32 → block.header.txCount.toNat = block.txs.length := by
    intro hlt
    rw [hcount, UInt32.toNat_ofNat']
    exact Nat.mod_eq_of_lt hlt
  cases hvalidates with
  | vacuum htxs =>
    constructor
    · intro hsound
      exact ⟨by rw [htxs]; decide, by decide, fun _ => hsound.finalized⟩
    · rintro ⟨hlt, -, hfinalized⟩
      refine ⟨hblockHash, ⟨[], by rw [htxs]; rfl, nodup_nil⟩, htoNat hlt, fun txId => ?_,
        fun hne => absurd htxs hne, hfinalized htxs⟩
      rw [htxs]
      exact iff_of_false (not_mem_nil) (fun ⟨_, htx, _⟩ => not_mem_nil htx)
  | @simulated sets results hashes htxs hduplicate hsimulate hsetCount hverify hdigests =>
    obtain ⟨hids, hnodup⟩ := txIds_of_isTxDuplicate hduplicate
    obtain ⟨hsimulated, -⟩ := mapM_finalizeTx hverify
    constructor
    · intro hsound
      have hlt : block.txs.length < 2 ^ 32 := hsound.txCount ▸ block.header.txCount.toNat_lt
      refine ⟨hlt, ?_, fun hnil => absurd hnil htxs⟩
      have hperm : sets.keys.Perm (block.txs.filterMap Transaction.txId) := by
        refine (perm_ext_iff_of_nodup sets.keys_nodup hnodup).mpr fun txId => ?_
        rw [mem_filterMap]
        exact hsound.covered txId
      have hsame := congrArg length hids
      rw [length_map, length_map] at hsame
      change sets.keys.length < 2 ^ 32
      rw [hperm.length_eq, ← hsame]
      exact hlt
    · rintro ⟨hlt, hltSets, -⟩
      rw [getD_some] at hltSets
      have hlength : sets.keys.length = block.txs.length := by
        have heq := congrArg UInt32.toNat (hsetCount.symm.trans hcount)
        rw [UInt32.toNat_ofNat', UInt32.toNat_ofNat'] at heq
        rwa [Nat.mod_eq_of_lt hltSets, Nat.mod_eq_of_lt hlt] at heq
      exact ⟨hblockHash, ⟨_, hids, hnodup⟩, htoNat hlt,
        covered_of_count hids hnodup hsimulated hlength,
        fun _ => ⟨sets, results, hsimulate, rfl, hsimulated⟩,
        finalized_of_checkBlockDigests hverify hdigests⟩

def vacantBlock (txRoot dagHash rwSetRoot : Bytes) : Block where
  header := ⟨"chain1", 1, 7, [1], some [0], txRoot, dagHash, rwSetRoot, some (1 :: txRoot),
    0, 0, false, [], 0, some []⟩
  dag := some ⟨[]⟩
  txs := []
  additionalData := none

theorem validate_sound_blockOne :
    ((start genesis).validate (smallEnv .hotstuff) agreeable
      (blockOne [] none) genesis).1.isOk = true ∧
      ∃ rwSetMap, (blockOne [] none).Sound (smallEnv .hotstuff) agreeable rwSetMap := by
  have hok : (((start genesis).validate (smallEnv .hotstuff) agreeable
      (blockOne [] none) genesis).1.map fun sets =>
        (sets.1.getD ∅).keys.length).toOption = some 1 := by decide +kernel
  obtain ⟨⟨rwSetMap, events⟩, hvalidate⟩ : ∃ sets,
      ((start genesis).validate (smallEnv .hotstuff) agreeable
        (blockOne [] none) genesis).1 = .ok sets := by
    generalize ((start genesis).validate (smallEnv .hotstuff) agreeable
      (blockOne [] none) genesis).1 =
      res at hok
    cases res with
    | error e => cases hok
    | ok sets => exact ⟨sets, rfl⟩
  rw [hvalidate] at hok
  refine ⟨isOk_iff.mpr ⟨_, hvalidate⟩, rwSetMap, (validate_sound_iff (smallEnv .hotstuff) agreeable
    (start genesis) (blockOne [] none) genesis rwSetMap events hvalidate).mpr
      ⟨by decide, ?_, nofun⟩⟩
  have hlength : (rwSetMap.getD ∅).keys.length = 1 := some.inj hok
  rw [hlength]
  decide

/-- The verifier of a chain that allows empty blocks accepts one with any digests. -/
theorem validate_not_sound :
    ((start genesis).validate (smallEnv .hotstuff) agreeable
      (vacantBlock [9] [9] [9]) genesis).1.isOk =
      true ∧
    finalizeBody (smallEnv .hotstuff) (vacantBlock [9] [9] [9]).txs
      (vacantBlock [9] [9] [9]).dag ∅ =
      some ([], [], [], []) := by
  decide +kernel
end CoreEngine
end ChainMaker.Core
