import ChainMaker.Core.Verifier

/-! The rest of the core engine: the committer (`AddBlock`, `CommitBlock`), the proposer and block
builder, the sync service's `validateAndCommitBlock`, and the engine as a machine that takes the
requests of the other modules one after the other. -/

namespace ChainMaker.Core
open Option
open ChainMaker.Snapshot (DAG TxRWSet Visit)

structure CommitServices where
  putBlock : Bool := true
  notifyBlockCommitted : Bool := true
  notifyChainConf : Bool := true
  monitorCommit : Bool := true
deriving DecidableEq

def rearrangeRWSet (block : Block) (rwSetMap : Option RWSetMap) : Option (List TxRWSet) :=
  match rwSetMap with
  | none => some []
  | some rwSetMap => (block.txs.mapM Transaction.txId).map fun txIds =>
    txIds.filterMap rwSetMap.lookup

def rearrangeContractEvent (block : Block) (conEventMap : Option EventMap) :
    Option (List ContractEvent) :=
  match conEventMap with
  | none => some []
  | some conEventMap =>
    (block.txs.mapM Transaction.txId).map fun txIds => (txIds.filterMap conEventMap.lookup).flatten

structure ProposeServices (φ : Type) where
  visit : Visit φ
  fetchTxBatch : List Transaction
  txExists : Bytes → Option Bool
  member : Option Bytes
  currentTime : ℤ
  defaultBlockVersion : UInt32
  isConfBlock : Block → Bool
  isConfigTx : Transaction → Bool
  schedule : BlockHeader → List Transaction → Option (List Transaction × DAG × RWSetMap × EventMap)

inductive ProcessedBlockStatus where
  | ok
  | dbErr
  | addErr
  | hasProcessed
  | validateFailed
deriving DecidableEq, Repr

namespace CoreEngine
variable {φ : Type} [DecidableEq φ] (env : Env φ) (sv : Services φ) (cs : CommitServices)
variable (c : CoreEngine φ) {txBatch : List Transaction}

/-! ### The committer -/

def isBlockLegal (blk : Block) : Except CoreError Unit :=
  match c.getLastCommittedBlock with
  | none => .error .noLastCommittedBlock
  | some lastBlock =>
    if lastBlock.header.blockHeight ≥ blk.header.blockHeight then .error .blockHadBeenCommited
    else if blk.header.blockHeight ≠ lastBlock.header.blockHeight + 1 then .error .heightNotNext
    else if blk.header.preBlockHash.getD [] ≠ lastBlock.header.blockHash.getD [] then
      .error (.prevHashInvalid blk.header.preBlockHash lastBlock.header.blockHash)
    else if env.calcBlockHash blk ≠ some (blk.header.blockHash.getD []) then
      .error (.blockHashInvalid (env.calcBlockHash blk) blk.header.blockHash)
    else .ok ()

def notifyCommitted (r : ℕ) (block : Block) (rwSet : List TxRWSet) (events : List ContractEvent) :
    Option (ℕ × List TxRWSet) × CoreEngine φ :=
  if !cs.notifyBlockCommitted then (none, c)
  else if !cs.notifyChainConf then (none, c)
  else
    let c := { c with lastCommittedBlock := some r }
    let c := if events = [] then c else
      c.output (.contractEventInfo block.header.chainId block.header.blockHeight events)
    (if cs.monitorCommit then some (r, rwSet) else none, c)

def syncWithTxPool (visit : Visit φ) (block : Block) (height : UInt64) :
    Option (List Transaction) := do
  let keepTxs ← block.txs.mapM Transaction.txId
  let others := ((c.proposalCache.getProposedBlocksAt visit height).filterMap
    c.heap.get).filter fun b =>
    b.header.blockHash.getD [] ≠ block.header.blockHash.getD []
  let _ ← (others.flatMap (·.txs)).mapM Transaction.txId
  return (others.flatMap (·.txs)).filter fun tx => tx.txId.all (!keepTxs.contains ·)

def commitBlock (p : BlockProposal) (height : UInt64) : Except CoreError Unit × CoreEngine φ :=
  match c.heap.get p.block with
  | none => (.error .panicked, c)
  | some block =>
    match rearrangeRWSet block p.rwSetMap, rearrangeContractEvent block p.contractEventInfoMap with
    | some rwSet, some events =>
      if !cs.putBlock then (.error .panicked, c)
      else
        let c := { c with store := (block, rwSet) :: c.store }
        let notified := c.notifyCommitted cs p.block block rwSet events
        let c := notified.2
        match c.syncWithTxPool sv.visit block height with
        | none => (.error .panicked, c)
        | some txRetry =>
          let c := c.output (.retryAndRemoveTxs txRetry block.txs)
          let c := { c with proposalCache := c.proposalCache.clearProposedBlockAt height }
          (.ok (), c.output (.blockInfo notified.1))
    | _, _ => (.error .panicked, c)

def checkLastProposedBlock (r : ℕ) (block : Block) :
    Except CoreError BlockProposal × CoreEngine φ :=
  match c.verifyBlock env sv r .syncVerify with
  | (.error e, c) => (.error e, c)
  | (.ok (), c) =>
    match c.getProposedBlock env block.header with
    | none => (.error (.blockNotVerified block.header.blockHeight block.header.blockHash), c)
    | some p => (.ok p, c)

/-- `AddBlock`. With message turbo the cached block takes over the header and the certificate. -/
def addBlock (r : ℕ) : Except CoreError Unit × CoreEngine φ :=
  match c.heap.get r with
  | none => (.error .panicked, c)
  | some block =>
    match c.isBlockLegal env block with
    | .error e => (.error e, c)
    | .ok () =>
      match c.getProposedBlock env block.header with
      | none =>
        match c.checkLastProposedBlock env sv r block with
        | (.error e, c) => (.error e, c)
        | (.ok p, c) => c.commitBlock sv cs p block.header.blockHeight
      | some p =>
        match c.heap.get p.block with
        | none => (.error .panicked, c)
        | some _ =>
          let c := if env.consensusMessageTurbo then
            { c with heap := c.heap.assign p.block r } else c
          c.commitBlock sv cs p block.header.blockHeight

def noteSynced (before : CoreEngine φ) : CoreEngine φ :=
  { c with
    log.synced := (c.store.take (c.store.length - before.store.length)).map (·.1) ++ c.log.synced }

def validateAndCommitBlock (r : ℕ) : ProcessedBlockStatus × CoreEngine φ :=
  match c.heap.get r with
  | none => (.validateFailed, c)
  | some block =>
    if c.currentHeight.any (· ≥ block.header.blockHeight) then (.hasProcessed, c)
    else
      match c.verifyBlock env sv r .syncVerify with
      | (.error .blockHadBeenCommited, c) => (.hasProcessed, c)
      | (.error _, c) => (.validateFailed, c)
      | (.ok (), c) =>
        match c.addBlock env sv cs r with
        | (.error .blockHadBeenCommited, c') => (.hasProcessed, c'.noteSynced c)
        | (.error _, c') => (.addErr, c'.noteSynced c)
        | (.ok (), c') => (.ok, c'.noteSynced c)

/-! ### The proposer -/

variable (ps : ProposeServices φ)

def finalizeTx (rwSetMap : RWSetMap) (tx : Transaction) : Option (Transaction × Bytes) := do
  let txId ← tx.txId
  let rwSetHash ← env.calcRWSetHash (some ((rwSetMap.lookup txId).getD ⟨txId, [], []⟩))
  let result ← tx.result
  let tx := { tx with result := some { result with rwSetHash := rwSetHash } }
  let hash ← env.calcTxHash tx
  return (tx, hash)

def finalizeBlock (header : BlockHeader) (txs : List Transaction) (dag : DAG)
    (rwSetMap : RWSetMap) :
    Option Block := do
  let finalized ← txs.mapM (finalizeTx env rwSetMap)
  let txs := finalized.map (·.1)
  let txRoot ← env.getMerkleRoot (finalized.map (·.2))
  let rwSetRoot ← env.calcRWSetRoot txs
  let dagHash ← env.calcDagHash (some dag)
  return ⟨{ header with txCount := UInt32.ofNat txs.length, txRoot, rwSetRoot, dagHash },
    some dag, txs, none⟩

def initNewBlock (lastBlock : Block) (proposer : Bytes) (isConfigBlock : Bool) : BlockHeader where
  chainId := env.chainId
  blockHeight := lastBlock.header.blockHeight + 1
  preBlockHash := lastBlock.header.blockHash
  preConfHeight :=
    if ps.isConfBlock lastBlock then lastBlock.header.blockHeight
      else lastBlock.header.preConfHeight
  blockVersion := ps.defaultBlockVersion
  blockTimestamp := ps.currentTime
  proposer := proposer
  isConfigBlock := isConfigBlock

def buildBlock (height : UInt64) (preHash : Option Bytes) (txBatch : List Transaction) :
    Option (Block × RWSetMap × EventMap) := do
  let lastBlock ← c.lastBlockOf ps.visit height preHash
  let member ← ps.member
  let isConfigBlock := txBatch.length = 1 && txBatch.all ps.isConfigTx
  let header := initNewBlock env ps lastBlock member isConfigBlock
  let (txs, dag, rwSetMap, events) ← ps.schedule header txBatch
  if !env.canProposeEmptyBlock env.consensusType && txs.isEmpty then none
  let block ← finalizeBlock env header txs dag rwSetMap
  return (block, rwSetMap, events)

def generateNewBlock (height : UInt64) (preHash : Option Bytes) (txBatch : List Transaction) :
    Except CoreError ℕ × CoreEngine φ :=
  match c.buildBlock env ps height preHash txBatch with
  | none => (.error .generate, c)
  | some (block, rwSetMap, events) =>
    let r := c.heap.next
    let c := { c with heap := c.heap.alloc block }
    let c := if rwSetMap.keys.length < txBatch.length then
      c.output (.retryAndRemoveTxs
        (txBatch.filter fun tx => tx.txId.all (rwSetMap.lookup · = none)) [])
      else c
    match c.proposalCache.setProposedBlock env.fingerPrint c.currentHeight r block.header
        (some rwSetMap) (some events) true with
    | .error e => (.error e, c)
    | .ok proposalCache =>
      (.ok r, { c with
        proposalCache := proposalCache.setProposedAt ps.visit block.header.blockHeight
        log.generated := ⟨r, block.txs, block.dag, some rwSetMap, [[]]⟩ :: c.log.generated })

def publish (r : ℕ) (rwSetMap : Option RWSetMap) : CoreEngine φ :=
  { c.output (.proposedBlock r rwSetMap) with log.published := r :: c.log.published }

def strip (tx : Transaction) : Transaction :=
  { tx with payload := tx.payload.map fun payload => ⟨payload.txId, []⟩ }

def txDuplicateCheck (batch : List Transaction) : List Transaction :=
  batch.filter fun tx => tx.txId.bind ps.txExists = some false

def proposeNew (height : UInt64) (preHash : Option Bytes) : CoreEngine φ :=
  let checkedBatch := txDuplicateCheck ps ps.fetchTxBatch
  if !env.canProposeEmptyBlock env.consensusType && checkedBatch.isEmpty then
    c.output (.retryAndRemoveTxs [] ps.fetchTxBatch)
  else
    let txCapacity := env.blockTxCapacity.toNat
    let c := if checkedBatch.length > txCapacity then
      c.output (.retryAndRemoveTxs (checkedBatch.drop txCapacity) []) else c
    match c.generateNewBlock env ps height preHash (checkedBatch.take txCapacity) with
    | (.error _, c) => c.output (.retryAndRemoveTxs (checkedBatch.take txCapacity) [])
    | (.ok r, c) =>
      match c.heap.get r with
      | none => c
      | some block =>
        let rwSetMap := (c.getProposedBlock env block.header).bind (·.rwSetMap)
        if env.consensusMessageTurbo then
          { c with heap := c.heap.share r block.dag (block.txs.map strip) none }.publish c.heap.next
            rwSetMap
        else c.publish r rwSetMap

def proposing (height : UInt64) (preHash : Option Bytes) : CoreEngine φ :=
  match c.proposalCache.getSelfProposedBlockAt ps.visit height with
  | none => c.proposeNew env ps height preHash
  | some r =>
    match c.heap.get r with
    | none => c
    | some selfProposedBlock =>
      if selfProposedBlock.header.preBlockHash.getD [] = preHash.getD [] then
        let c := { c with proposalCache := c.proposalCache.setProposedAt ps.visit height }
        c.publish r ((c.getProposedBlock env selfProposedBlock.header).bind (·.rwSetMap))
      else
        let proposalCache := c.proposalCache.clearTheBlock env.fingerPrint selfProposedBlock.header
        let c := { c with proposalCache }
        (c.output (.retryAndRemoveTxs [] selfProposedBlock.txs)).proposeNew env ps height preHash

/-! ### What the proposer changes -/

variable {env ps c} {c' c'' : CoreEngine φ} {height : UInt64} {preHash : Option Bytes}

/-- What the header of a block that `buildBlock` returns has from `initNewBlock`. -/
lemma header_buildBlock {block : Block} {rwSetMap : RWSetMap}
    {events : EventMap}
    (h : c.buildBlock env ps height preHash txBatch = some (block, rwSetMap, events)) :
    block.header.blockHash = none ∧
      ∃ lastBlock, c.lastBlockOf ps.visit height preHash = some lastBlock ∧
      block.header.blockHeight = lastBlock.header.blockHeight + 1 := by
  simp only [buildBlock, bind_eq_bind, bind_eq_some_iff, pure_def] at h
  obtain ⟨lastBlock, hlast, member, -, scheduled, -, h⟩ := h
  split at h
  · cases h
  obtain ⟨block', hblock', hpair⟩ := bind_eq_some_iff.mp h
  cases hpair
  simp only [finalizeBlock, bind_eq_bind, bind_eq_some_iff, pure_def, some.injEq] at hblock'
  obtain ⟨finalized, -, txRoot, -, rwSetRoot, -, dagHash, -, rfl⟩ := hblock'
  exact ⟨rfl, lastBlock, hlast, rfl⟩

inductive Proposes (env : Env φ) (c : CoreEngine φ) : CoreEngine φ → Prop
  | nothing {c' : CoreEngine φ} (h : Cuts c c') : Proposes env c c'
  | dropped {c' : CoreEngine φ} (block : Block)
      (h : Cuts { c with heap := c.heap.alloc block } c') :
      Proposes env c c'
  | again {c' : CoreEngine φ} (r : ℕ) (rwSetMap : Option RWSetMap) (h : Cuts c c') :
      Proposes env c (c'.publish r rwSetMap)
  | generated {c' : CoreEngine φ} (block : Block) (rwSetMap : RWSetMap) (r : ℕ)
      (hhash : block.header.blockHash = none)
      (hheap : c'.heap = c.heap.alloc block ∨ env.consensusMessageTurbo = true ∧ ∃ dag txs data,
        c'.heap = (c.heap.alloc block).share c.heap.next dag txs data)
      (hlast : c'.lastCommittedBlock = c.lastCommittedBlock) (hstore : c'.store = c.store)
      (hlog : c'.log = { c.log with
        generated := ⟨c.heap.next, block.txs, block.dag, some rwSetMap, [[]]⟩ :: c.log.generated
        published := r :: c.log.published })
      (heach : ∀ P : UInt64 → φ → ℕ → Option RWSetMap → Prop, c.proposalCache.Each P →
        P block.header.blockHeight (env.fingerPrint block.header) c.heap.next (some rwSetMap) →
        c'.proposalCache.Each P) : Proposes env c c'

lemma Cuts.proposes (h : Cuts c c') (h' : Proposes env c' c'') : Proposes env c c'' := by
  cases h' with
  | nothing h' => exact .nothing (h.trans h')
  | dropped block h' =>
    refine .dropped block
      ⟨?_, h'.lastCommittedBlock.trans h.lastCommittedBlock, h'.store.trans h.store,
      h'.log.trans h.log, h'.proposalCache.trans h.proposalCache⟩
    rw [h'.heap, h.heap]
  | again r rwSetMap h' => exact .again r rwSetMap (h.trans h')
  | generated block rwSetMap r hhash hheap hlast hstore hlog heach =>
    rw [h.heap] at hheap hlog
    rw [h.log] at hlog
    refine .generated block rwSetMap r hhash hheap (hlast.trans h.lastCommittedBlock)
      (hstore.trans h.store) hlog fun P hP hnew => heach P (hP.within h.proposalCache) ?_
    rwa [h.heap]

inductive Generates (env : Env φ) (c : CoreEngine φ) : Except CoreError ℕ → CoreEngine φ → Prop
  | failed {c' : CoreEngine φ} (e : CoreError) (h : Cuts c c') : Generates env c (.error e) c'
  | dropped {c' : CoreEngine φ} (e : CoreError) (block : Block)
      (h : Cuts { c with heap := c.heap.alloc block } c') : Generates env c (.error e) c'
  | cached {c' : CoreEngine φ} (block : Block) (rwSetMap : RWSetMap)
      (hhash : block.header.blockHash = none) (hheap : c'.heap = c.heap.alloc block)
      (hlast : c'.lastCommittedBlock = c.lastCommittedBlock) (hstore : c'.store = c.store)
      (hlog : c'.log = { c.log with
        generated := ⟨c.heap.next, block.txs, block.dag, some rwSetMap, [[]]⟩ :: c.log.generated })
      (heach : ∀ P : UInt64 → φ → ℕ → Option RWSetMap → Prop, c.proposalCache.Each P →
        P block.header.blockHeight (env.fingerPrint block.header) c.heap.next (some rwSetMap) →
        c'.proposalCache.Each P) : Generates env c (.ok c.heap.next) c'

lemma generateNewBlock_spec : Generates env c (c.generateNewBlock env ps height preHash txBatch).1
    (c.generateNewBlock env ps height preHash txBatch).2 := by
  unfold generateNewBlock
  split
  · exact .failed _ .refl
  next block rwSetMap events hbuild =>
  dsimp only
  generalize hc1 : (if rwSetMap.keys.length < txBatch.length then
    { c with heap := c.heap.alloc block }.output (.retryAndRemoveTxs
      (txBatch.filter fun tx => tx.txId.all (rwSetMap.lookup · = none)) [])
    else { c with heap := c.heap.alloc block } : CoreEngine φ) = c1
  have hcuts : Cuts { c with heap := c.heap.alloc block } c1 := hc1 ▸ Cuts.refl.outputIf _
  split
  · exact .dropped _ block hcuts
  next proposalCache hset =>
  refine .cached block rwSetMap (header_buildBlock hbuild).1 hcuts.heap hcuts.lastCommittedBlock
    hcuts.store ?_ fun P hP hnew => ?_
  · rw [hcuts.log]
  · exact ((hP.within hcuts.proposalCache).set hnew hset).within
      (ProposalCache.within_markProposedAt true)

lemma proposeNew_spec : Proposes env c (c.proposeNew env ps height preHash) := by
  unfold proposeNew
  dsimp only
  split
  · exact .nothing (Cuts.refl.output _)
  generalize txDuplicateCheck ps ps.fetchTxBatch = checkedBatch
  generalize hc1 : (if checkedBatch.length > env.blockTxCapacity.toNat then
    c.output (.retryAndRemoveTxs (checkedBatch.drop env.blockTxCapacity.toNat) []) else c) = c1
  have hcuts : Cuts c c1 := hc1 ▸ Cuts.refl.outputIf _
  refine hcuts.proposes ?_
  have hgen : Generates env c1 _ (c1.generateNewBlock env ps height preHash
      (checkedBatch.take env.blockTxCapacity.toNat)).2 := generateNewBlock_spec
  split
  · next hfailed =>
    rw [hfailed] at hgen
    cases hgen with
    | failed e h => exact .nothing (h.output _)
    | dropped e block h => exact .dropped block (h.output _)
  · next r c2 hok =>
    rw [hok] at hgen
    cases hgen with
    | cached block rwSetMap hhash hheap hlast hstore hlog heach =>
      have hget : c2.heap.get c1.heap.next = some block := hheap ▸ Heap.get_alloc_next block
      rw [hget]
      dsimp only
      split
      · next hturbo =>
        refine .generated block rwSetMap c2.heap.next hhash ?_ hlast hstore ?_ heach
        · exact .inr ⟨hturbo, _, _, _, congrArg (Heap.share · _ _ _ _) hheap⟩
        · change ({ c2.log with published := _ } : Log) = _
          rw [hlog]
      · refine .generated block rwSetMap c1.heap.next hhash (.inl hheap) hlast hstore ?_ heach
        change ({ c2.log with published := _ } : Log) = _
        rw [hlog]

lemma proposing_spec : Proposes env c (c.proposing env ps height preHash) := by
  unfold proposing
  split
  · exact proposeNew_spec
  next r _ =>
  split
  · exact .nothing .refl
  next selfProposedBlock _ =>
  split
  · refine .again r _ ⟨rfl, rfl, rfl, rfl, ?_⟩
    exact ProposalCache.within_markProposedAt true
  have hcleared : Cuts c { c with
      proposalCache := c.proposalCache.clearTheBlock env.fingerPrint selfProposedBlock.header } :=
    ⟨rfl, rfl, rfl, rfl, (ProposalCache.part_clearTheBlock _).within⟩
  exact (hcleared.output _).proposes proposeNew_spec

end CoreEngine

namespace CoreEngine
variable {φ : Type} [DecidableEq φ] (c : CoreEngine φ)

/-! ### The machine -/

def sign (r : ℕ) (consensusArgs hash signature : Bytes) : CoreEngine φ :=
  let headerOf := fun r : ℕ => c.heap.blocks[r]?.map (·.header)
  { c with
    heap := c.heap.modifyHeader r fun header =>
      { header with consensusArgs, blockHash := some hash, signature := some signature }
    log.generated := c.log.generated.map fun g =>
      if headerOf g.block = headerOf r then { g with hashes := hash :: g.hashes } else g }

end CoreEngine

/-- The requests that the engine gets, and what the other modules do to the blocks they share with
it. -/
inductive Event (φ : Type) where
  | receive (block : Block)
  | verifyBlock (sv : Services φ) (r : ℕ) (mode : VerifyMode)
  | proposing (ps : ProposeServices φ) (height : UInt64) (preHash : Option Bytes)
  | sign (r : ℕ) (consensusArgs hash signature : Bytes)
  | attach (r : ℕ) (additionalData : Option AdditionalData)
  | addBlock (sv : Services φ) (cs : CommitServices) (r : ℕ)
  | validateAndCommitBlock (sv : Services φ) (cs : CommitServices) (r : ℕ)
  | resetProposedAt (visit : Visit φ) (height : UInt64)
  | discardAboveHeight (visit : Visit φ) (baseHeight : UInt64)

namespace CoreEngine
variable {φ : Type} [DecidableEq φ] (env : Env φ)

/-- One request; a pointer that leads nowhere, or a block that was not proposed, cannot be asked
for. -/
def step (c : CoreEngine φ) (e : Event φ) : Option (CoreEngine φ) :=
  match e with
  | .receive block => some { c with heap := c.heap.alloc block }
  | .verifyBlock sv r mode => (c.heap.get r).map fun _ => (c.verifyBlock env sv r mode).2
  | .proposing ps height preHash => some (c.proposing env ps height preHash)
  | .sign r consensusArgs hash signature =>
    if r ∈ c.log.published then some (c.sign r consensusArgs hash signature) else none
  | .attach r additionalData =>
    (c.heap.get r).map fun _ => { c with heap := c.heap.setAdditionalData r additionalData }
  | .addBlock sv cs r => (c.heap.get r).map fun _ => (c.addBlock env sv cs r).2
  | .validateAndCommitBlock sv cs r =>
    (c.heap.get r).map fun _ => (c.validateAndCommitBlock env sv cs r).2
  | .resetProposedAt visit height =>
    some { c with proposalCache := c.proposalCache.resetProposedAt visit height }
  | .discardAboveHeight visit baseHeight =>
    let discarded := c.proposalCache.discardAboveHeight visit baseHeight
    let c' := { c with proposalCache := discarded.2 }
    some (if discarded.1 = [] then c' else c'.output (.retryAndRemoveTxs (c.txsOf discarded.1) []))

def start (lastBlock : Block) : CoreEngine φ where
  heap := (Heap.mk [] []).alloc lastBlock
  proposalCache := ∅
  lastCommittedBlock := some 0
  store := [(lastBlock, [])]
  outputs := []
  log := {}

end CoreEngine
end ChainMaker.Core
