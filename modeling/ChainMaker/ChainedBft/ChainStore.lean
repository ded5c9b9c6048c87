import ChainMaker.ChainedBft.BlockPool

/-! The chain store of a node: its block pool in front of the ledger, the commit of a branch, and
the safety rules that say when to vote, when to lock and when to commit. -/

namespace ChainMaker.ChainedBft

lemma getQCFromBlock_addQCtoBlock (b : Block) (q : QCBytes) :
    getQCFromBlock (addQCtoBlock b q) = some q := by
  simp [getQCFromBlock, addQCtoBlock, AList.lookup_insert]

inductive VerifyResult
  | ok
  | hadBeenCommitted
  | failed
deriving DecidableEq

/-- What the other modules of the node answer while a message is handled: the block verifier, the
block committer past its own checks of the chain, and the governance contract's read/write set,
which may fail. -/
structure Services where
  verifyBlock : Block → VerifyResult
  storeBlock : Block → Bool
  governmentArgs : Block → Option Bytes

structure ChainStore where
  ledger : List Block
  commitLevel : ℕ
  commitHeight : ℕ
  commitQuorumCert : QuorumCert
  blockPool : BlockPool

inductive AddResult
  | added (ledger : List Block)
  | hadBeenCommitted
  | failed

def addBlock (sv : Services) (ledger : List Block) (block : Block) : AddResult :=
  match ledger with
  | [] => .failed
  | last :: _ =>
    if block.header.blockHeight ≤ last.header.blockHeight then .hadBeenCommitted
    else if block.header.blockHeight ≠ u64 (last.header.blockHeight + 1) then .failed
    else if block.header.preBlockHash ≠ last.header.blockHash then .failed
    else if sv.storeBlock block then .added (block :: ledger)
    else .failed

lemma addBlock_added {sv : Services} {ledger ledger' : List Block} {b : Block}
    (h : addBlock sv ledger b = .added ledger') :
    ∃ last rest, ledger = last :: rest ∧ ledger' = b :: ledger ∧
      b.header.blockHeight = last.header.blockHeight + 1 ∧
      b.header.preBlockHash = last.header.blockHash := by
  unfold addBlock at h
  split at h
  · cases h
  rename_i last rest
  split_ifs at h with hlow hnext hpre
  push Not at hlow hnext hpre
  obtain rfl := AddResult.added.inj h
  refine ⟨last, rest, rfl, rfl, ?_, hpre⟩
  unfold u64 at hnext
  omega

namespace ChainStore
variable (cs : ChainStore)

def storeGetBlock (height : ℕ) : Option Block :=
  cs.ledger.find? (·.header.blockHeight = height)

def storeGetBlockByHash (hash : Bytes) : Option Block :=
  cs.ledger.find? (·.header.blockHash = hash)

def getBlock (id : Bytes) (height : ℕ) : Option Block :=
  (cs.blockPool.getBlockByID id).or (cs.storeGetBlock height)

def getBlockByHash (hash : Bytes) : Option Block :=
  (cs.blockPool.getBlockByID hash).or (cs.storeGetBlockByHash hash)

def getQC (id : Bytes) (height : ℕ) : Option QuorumCert :=
  match cs.blockPool.getQCByID id with
  | some qc => some qc
  | none => (cs.storeGetBlock height).bind fun block =>
      (getQCFromBlock block).bind fun qcData => unmarshalQC (some qcData)

def getRootLevel : Option ℕ := getLevelFromQc cs.blockPool.blockTree.rootBlock

def insertable (block : Block) : Bool :=
  match getLevelFromBlock block, unmarshalQC (getQCFromBlock cs.blockPool.blockTree.rootBlock),
      cs.blockPool.getBlockByID block.header.preBlockHash with
  | some curLevel, some rootBlockQc, some prevBlock =>
    rootBlockQc.level < curLevel &&
      u64 (prevBlock.header.blockHeight + 1) = block.header.blockHeight &&
      match unmarshalQC (getQCFromBlock prevBlock) with
      | some preQc => preQc.level < curLevel
      | none => false
  | _, _, _ => false

def insertBlock (block : Block) : Option ChainStore :=
  if (cs.blockPool.getBlockByID block.header.blockHash).isSome then some cs
  else if cs.insertable block then
    (cs.blockPool.insertBlock block).map fun blockPool => { cs with blockPool := blockPool }
  else none

/-- A certificate of another epoch is accepted, but not stored, if the block has one already. -/
def insertQC (epochId : ℕ) (qc : QuorumCert) : Option ChainStore :=
  if qc.epochId ≠ epochId then
    if (cs.getQC (bytes qc.blockId) qc.height).isSome then some cs else none
  else some { cs with blockPool := cs.blockPool.insertQC qc }

/-- The zero certificate is marshalled to no bytes, which counts as a missing one. -/
def updateCommitCacheInfo (bestBlock : Block) : Option ChainStore :=
  match getQCFromBlock bestBlock with
  | some (.cert qc) =>
    if qc = QuorumCert.zero then none
    else
      some { cs with
        commitHeight := bestBlock.header.blockHeight
        commitLevel := qc.level
        commitQuorumCert := qc }
  | _ => none

def commitLoop (sv : Services) : ChainStore → Option (Block × ℕ) → List Block →
    ChainStore × Option (Block × ℕ) × Bool
  | cs, last, [] => (cs, last, true)
  | cs, last, blk :: blocks =>
    match cs.blockPool.getQCByID blk.header.blockHash with
    | none => (cs, last, false)
    | some qc =>
      let newBlock := addQCtoBlock blk (.cert qc)
      match addBlock sv cs.ledger newBlock with
      | .added ledger =>
        commitLoop sv { cs with ledger := ledger } (some (newBlock, qc.level)) blocks
      | .hadBeenCommitted =>
        if (cs.storeGetBlock newBlock.header.blockHeight).any
            (·.header.blockHash = newBlock.header.blockHash) then
          commitLoop sv cs (some (newBlock, qc.level)) blocks
        else (cs, last, false)
      | .failed => (cs, last, false)

def commitBlock (sv : Services) (block : Block) : Option (ChainStore × Option (Block × ℕ)) :=
  match cs.blockPool.blockTree.branchFromRoot block with
  | none => some (cs, none)
  | some blocks =>
    match commitLoop sv cs none blocks with
    | (cs, last, false) => some (cs, last)
    | (cs, last, true) =>
      (cs.blockPool.pruneBlock block.header.blockHash).map fun blockPool =>
        ({ cs with blockPool := blockPool }, last)

/-- An error, in which case the commit information may have been updated, is `false`. -/
def insertCompletedBlock (block : Block) : Option (ChainStore × Bool) :=
  if block.header.blockHeight ≤ cs.commitHeight then some (cs, true)
  else
    match cs.updateCommitCacheInfo block with
    | none => some (cs, false)
    | some cs =>
      match cs.blockPool.insertBlock block with
      | none => some (cs, false)
      | some blockPool =>
        ((blockPool.insertQC cs.commitQuorumCert).pruneBlock block.header.blockHash).map
          fun blockPool => ({ cs with blockPool := blockPool }, true)

lemma updateCommitCacheInfo_some {cs cs' : ChainStore} {block : Block}
    (h : cs.updateCommitCacheInfo block = some cs') :
    getQCFromBlock block = some (.cert cs'.commitQuorumCert) ∧ cs'.ledger = cs.ledger ∧
      cs'.blockPool = cs.blockPool := by
  unfold updateCommitCacheInfo at h
  split at h
  · rename_i hqc
    split_ifs at h
    cases h
    exact ⟨hqc, rfl, rfl⟩
  · cases h

end ChainStore

structure SafetyRules where
  lastCommittedLevel : ℕ
  lastCommittedBlock : Option Block
  lastVoteMsg : Option (VoteData × SyncInfo)
  lastVoteLevel : ℕ
  lockedLevel : ℕ
  lockedBlock : Block

/-- The block that a certificate commits, with the level of its own certificate. The rule asks for
three certificates of consecutive heights. -/
def ChainStore.commitRules (cs : ChainStore) (qc : QuorumCert) : Option (Block × ℕ) :=
  if qc.newView then none
  else do
    let pool := cs.blockPool
    let qcBlock ← pool.getBlockByID (bytes qc.blockId)
    let parentBlock ← pool.getBlockByID qcBlock.header.preBlockHash
    let grandBlock ← pool.getBlockByID parentBlock.header.preBlockHash
    let parentQC ← pool.getQCByID parentBlock.header.blockHash
    let grandQC ← pool.getQCByID grandBlock.header.blockHash
    if qc.height = u64 (parentQC.height + 1) ∧ parentQC.height = u64 (grandQC.height + 1) then
      some (grandBlock, grandQC.level)
    else none

namespace SafetyRules
variable (sr : SafetyRules) (cs : ChainStore) {sr sr' : SafetyRules} {qc : QuorumCert}

def setLastVote (vote : VoteData × SyncInfo) (level : ℕ) : SafetyRules :=
  if level ≤ sr.lastVoteLevel then sr
  else { sr with lastVoteMsg := some vote, lastVoteLevel := level }

def setLastCommittedBlock (block : Block) (level : ℕ) : SafetyRules :=
  if level ≤ sr.lastCommittedLevel ∨
      sr.lastCommittedBlock.any (block.header.blockHeight ≤ ·.header.blockHeight) then sr
  else { sr with lastCommittedBlock := some block, lastCommittedLevel := level }

def climb : ℕ → Block → ℕ → Option Block
  | 0, _, _ => none
  | fuel + 1, currBlock, currHeight =>
    if sr.lockedBlock.header.blockHeight < currHeight then
      match cs.getBlockByHash currBlock.header.preBlockHash with
      | none => none
      | some next => climb fuel next next.header.blockHeight
    else some currBlock

def safeNode (block : Block) (height : ℕ) (justifyQc : QuorumCert) : Bool :=
  sr.lockedLevel < justifyQc.level ||
    (sr.climb cs (cs.blockPool.blockTree.idToNode.keys.length + cs.ledger.length + 2) block
      height).any (·.header.blockHash = sr.lockedBlock.header.blockHash)

/-- Locks the parent of the certified block. The source reads the level of the root's certificate
without asking whether there is one; `none` is a crash. -/
def updateLockedQC (qc : QuorumCert) : Option SafetyRules :=
  if qc.newView ∨ qc.blockId = none then some sr
  else
    let pool := cs.blockPool
    match pool.getBlockByID (bytes qc.blockId) with
    | none => some sr
    | some block =>
      match pool.getBlockByID block.header.preBlockHash,
          pool.getQCByID block.header.preBlockHash with
      | some prevBlock, some prevQC =>
        match pool.getQCByID pool.blockTree.rootBlock.header.blockHash with
        | none => none
        | some rootQC =>
          if prevQC.level ≤ rootQC.level ∨ prevQC.level ≤ sr.lockedLevel then some sr
          else some { sr with lockedLevel := prevQC.level, lockedBlock := prevBlock }
      | _, _ => some sr

lemma updateLockedQC_some {cs : ChainStore} (hsr : sr.updateLockedQC cs qc = some sr') :
    sr' = sr ∨ ∃ block prev prevQC, sr.lockedLevel < QuorumCert.level prevQC ∧
      cs.blockPool.getBlockByID (bytes qc.blockId) = some block ∧
      cs.blockPool.getBlockByID block.header.preBlockHash = some prev ∧
      cs.blockPool.getQCByID block.header.preBlockHash = some prevQC ∧
      sr' = { sr with lockedLevel := prevQC.level, lockedBlock := prev } := by
  simp only [updateLockedQC] at hsr
  split at hsr
  · exact .inl (Option.some.inj hsr).symm
  split at hsr
  · exact .inl (Option.some.inj hsr).symm
  rename_i block hblock
  split at hsr
  · rename_i prev prevQC hprev hprevQC
    split at hsr
    · cases hsr
    split_ifs at hsr with hlow
    · exact .inl (Option.some.inj hsr).symm
    · push Not at hlow
      exact .inr ⟨block, prev, prevQC, hlow.2, hblock, hprev, hprevQC, (Option.some.inj hsr).symm⟩
  · exact .inl (Option.some.inj hsr).symm

lemma updateLockedQC_lastVote {cs : ChainStore} (hsr : sr.updateLockedQC cs qc = some sr') :
    sr'.lastVoteLevel = sr.lastVoteLevel ∧ sr'.lastVoteMsg = sr.lastVoteMsg := by
  rcases updateLockedQC_some hsr with rfl | ⟨_, _, _, -, -, -, -, rfl⟩ <;> exact ⟨rfl, rfl⟩

lemma setLastCommittedBlock_lastVote (sr : SafetyRules) (block : Block) (level : ℕ) :
    (sr.setLastCommittedBlock block level).lastVoteLevel = sr.lastVoteLevel ∧
      (sr.setLastCommittedBlock block level).lastVoteMsg = sr.lastVoteMsg := by
  unfold setLastCommittedBlock
  split <;> exact ⟨rfl, rfl⟩

end SafetyRules
end ChainMaker.ChainedBft
