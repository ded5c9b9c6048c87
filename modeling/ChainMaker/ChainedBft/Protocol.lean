import ChainMaker.ChainedBft.Certificate
import ChainMaker.ChainedBft.ChainStore
import ChainMaker.ChainedBft.VotePool
import ChainMaker.Lib.Runs

/-! A Chained BFT node: its pacemaker, the state of its modules, and the checks of the messages it
receives. -/

namespace ChainMaker.ChainedBft
open Governance

inductive ConsStateType
  | newHeight
  | newLevel
  | propose
  | vote
deriving DecidableEq

structure Pacemaker where
  height : ℕ
  epochId : ℕ
  currentLevel : ℕ
  highestQCLevel : ℕ
  highestTCLevel : ℕ
  highestCommittedLevel : ℕ
  timeoutCertificate : Option QuorumCert

/-- A timeout of the pacemaker. Its duration is left open, as a timer may fire at any time. -/
structure TimerEvent where
  level : ℕ
  height : ℕ
  epochId : ℕ
deriving DecidableEq

namespace Pacemaker
variable (p : Pacemaker)

def updateTC (tc : QuorumCert) : Pacemaker :=
  match p.timeoutCertificate with
  | none => { p with timeoutCertificate := some tc }
  | some old => if old.level < tc.level then { p with timeoutCertificate := some tc } else p

def timer : TimerEvent := ⟨p.currentLevel, p.height, p.epochId⟩

def processCertificates (qc tc : Option QuorumCert) (hcLevel : ℕ) : Pacemaker × Bool :=
  let highestTCLevel := max p.highestTCLevel ((tc.map (·.level)).getD 0)
  let highestQCLevel := max p.highestQCLevel ((qc.map (·.level)).getD 0)
  let height := match qc with
    | some qc => if p.height ≤ qc.height then u64 (qc.height + 1) else p.height
    | none => p.height
  let newLevel := u64 (max highestQCLevel highestTCLevel + 1 : ℕ)
  let moved := { p with
    height := height
    highestQCLevel := highestQCLevel
    highestTCLevel := highestTCLevel
    highestCommittedLevel := max p.highestCommittedLevel hcLevel }
  if p.currentLevel < newLevel then ({ moved with currentLevel := newLevel }, true)
  else (moved, false)

end Pacemaker

structure Env where
  governance : GovernanceContract NodeId
  ac : AccessControl SignedData
  member : Member
  sign : SignedData → Bytes

def InvalidIndex : ℕ := 2 ^ 32 - 1

def MaxSyncBlockNum : ℕ := 10

namespace Env
variable (env : Env)

def committee : List Validator :=
  (validatorsOf env.governance.validators).insertionSort (·.index ≤ ·.index)

def getPeerByIndex (index : ℕ) : Option Validator := env.committee.find? (·.index = index)

def isValidIdx (index : ℕ) : Bool := (env.getPeerByIndex index).isSome

def min (qcHeight : ℕ) : ℕ :=
  if env.governance.nextSwitchHeight = qcHeight then env.governance.lastMinQuorumForQc
  else env.governance.minQuorumForQc

def getProposer (level : ℕ) : ℕ :=
  let validators := env.governance.validators
  ((validators[level / env.governance.nodeProposeRound % validators.length]?).map
    (u64 ·.index)).getD InvalidIndex

def isValidProposer (level index : ℕ) : Bool := env.getProposer level = index

def voteAc : AccessControl VoteData where
  orgNum := env.ac.orgNum
  verifySigner := fun signer v signature => env.ac.verifySigner signer (.vote v) signature
  role := env.ac.role

/-- `validateSignerAndSignature`. Any consensus node may have signed the message; a signature
without a signer, on which the provider would crash, is refused. -/
def validateSignerAndSignature (msg : ConsensusMsg) : Bool :=
  env.ac.verifyConsensusNode (SignEntry.endorsement msg.signEntry) (.payload msg.payload)

/-- The author is the peer of its index; the signature may be of any consensus node. -/
def validateVoteData (v : VoteData) : Bool :=
  match v.author, env.getPeerByIndex v.authorIdx with
  | some author, some peer => peer.nodeID = author &&
      env.voteAc.verifyConsensusNode (SignEntry.endorsement v.signature) v.message
  | _, _ => false

def countVote (qc : QuorumCert) (count : VoteCount) (v : VoteData) : Option VoteCount :=
  if ¬env.validateVoteData v ∨ v.height ≠ qc.height ∨ v.level ≠ qc.level ∨
      v.authorIdx ∈ count.voteIdxes then none
  else some
    { voteIdxes := v.authorIdx :: count.voteIdxes
      newViewNum := if v.newView then count.newViewNum + 1 else count.newViewNum
      votedBlockNum := if bytes v.blockId ≠ [] ∧ bytes v.blockId = bytes qc.blockId
        then count.votedBlockNum + 1 else count.votedBlockNum }

def countNumFromVotes (qc : QuorumCert) : Option VoteCount :=
  qc.votes.foldlM (env.countVote qc) ⟨0, 0, []⟩

def enoughVotes (qc : QuorumCert) (count : VoteCount) : Bool :=
  qc.level = 0 || env.min qc.height ≤ if qc.newView then count.newViewNum else count.votedBlockNum

/-- A certificate of the epoch before is not looked at. -/
def verifyJustifyQC (epochId : ℕ) (qc : QuorumCert) : Bool :=
  qc.newView = qc.blockId.isNone &&
    (epochId = u64 (qc.epochId + 1) ||
      qc.epochId = epochId && (env.countNumFromVotes qc).any (env.enoughVotes qc))

end Env

/-! The message handlers of a Chained BFT node (`protocol.go`). A handler holds the mutex of the
node while it runs, so it is one step. An error is only logged, so it ends the handler with the
state reached; a crash of the node is `none`. -/

/-- `created` records what the node has signed. -/
structure ConsensusChainedBftImpl where
  id : NodeId
  selfIndexInEpoch : ℕ
  commitHeight : ℕ
  state : ConsStateType
  paceMaker : Pacemaker
  safetyRules : SafetyRules
  chainStore : ChainStore
  msgPool : MsgPool
  timers : List TimerEvent
  created : List VoteData

inductive Event
  | consensusMsg (msg : ConsensusMsg)
  | firedEvent (te : TimerEvent)
  | blockInfo (height : ℕ)

namespace ConsensusChainedBftImpl
variable (env : Env) (sv : Services) (n : ConsensusChainedBftImpl)

/-- Only the state of the replication machine changes; a proposal is asked for elsewhere. -/
def processNewHeight : ConsensusChainedBftImpl :=
  if n.state = .newHeight ∧ env.isValidIdx n.selfIndexInEpoch then { n with state := .newLevel }
  else n

def updateLockedQC (qc : Option QuorumCert) : Option ConsensusChainedBftImpl :=
  match qc with
  | none => some n
  | some qc => (n.safetyRules.updateLockedQC n.chainStore qc).map fun sr =>
      { n with safetyRules := sr }

def advance (qc tc : Option QuorumCert) : ConsensusChainedBftImpl :=
  let (paceMaker, enterNewLevel) :=
    n.paceMaker.processCertificates qc tc n.safetyRules.lastCommittedLevel
  let n := { n with paceMaker := paceMaker }
  if enterNewLevel then
    ({ n with timers := paceMaker.timer :: n.timers, state := .newHeight }).processNewHeight env
  else n

def updateTC (tc : Option QuorumCert) : ConsensusChainedBftImpl :=
  match tc with
  | none => n
  | some tc => { n with paceMaker := n.paceMaker.updateTC tc }

def processCertificates (qc tc : Option QuorumCert) : Option ConsensusChainedBftImpl :=
  ((n.updateTC tc).updateLockedQC qc).map fun n => n.advance env qc tc

def setLastCommitted (last : Option (Block × ℕ)) : ConsensusChainedBftImpl :=
  match last with
  | none => n
  | some (block, level) =>
    { n with
      safetyRules := n.safetyRules.setLastCommittedBlock block level
      msgPool := n.msgPool.onBlockSealed block.header.blockHeight }

def commitBlocksByQC (qc : QuorumCert) : Option ConsensusChainedBftImpl :=
  match n.chainStore.commitRules qc with
  | none => some n
  | some (block, level) =>
    if n.chainStore.commitLevel < level then
      (n.chainStore.commitBlock sv block).map fun (cs, last) =>
        { n with chainStore := cs }.setLastCommitted last
    else some n

def insertQC (qc : QuorumCert) : Option ConsensusChainedBftImpl :=
  (n.chainStore.insertQC n.paceMaker.epochId qc).map fun cs => { n with chainStore := cs }

def storeQC (qc : QuorumCert) : Option ConsensusChainedBftImpl :=
  if qc.newView then some n else n.insertQC qc

def processQC (qc : QuorumCert) : Option (ConsensusChainedBftImpl × Bool) :=
  match n.storeQC qc with
  | none => some (n, false)
  | some n => (n.commitBlocksByQC sv qc).bind fun n =>
      (n.processCertificates env (some qc) none).map fun n => (n, true)

def needFetch (syncInfo : SyncInfo) : Option Bool :=
  let qc := syncInfo.highestQc
  match n.chainStore.getRootLevel with
  | none => none
  | some rootLevel =>
    if qc.level < rootLevel then none
    else if bytes qc.blockId = [] then some false
    else if u64 (n.paceMaker.height + MaxSyncBlockNum) < qc.height then none
    else
      match n.chainStore.getBlock (bytes qc.blockId) qc.height with
      | none => some true
      | some hasQCBlk =>
        if qc.height = 0 then some false
        else some (n.chainStore.getQC hasQCBlk.header.preBlockHash (u64 (qc.height - 1))).isNone

def validateProposer (msg : ConsensusMsg) (p : ProposalData) : Bool :=
  env.isValidProposer p.level p.proposerIdx && env.validateSignerAndSignature msg

def validateProposalMsg (msg : ConsensusMsg) (p : ProposalData) : Bool :=
  n.paceMaker.currentLevel ≤ p.level && p.epochId = n.paceMaker.epochId &&
    (n.msgPool.getProposal p.height p.level).isNone && validateProposer env msg p &&
    env.verifyJustifyQC n.paceMaker.epochId p.justifyQc &&
    bytes p.justifyQc.blockId = p.block.header.preBlockHash &&
    n.safetyRules.safeNode n.chainStore p.block p.height p.justifyQc

def validateBlock (p : ProposalData) : Bool :=
  (n.chainStore.getBlock p.block.header.preBlockHash (u64 (p.height - 1))).any
      (·.header.blockHash = bytes p.justifyQc.blockId) &&
    sv.verifyBlock p.block = .ok

def validateBlockConsensusArg (block : Block) : Option Bool :=
  match block.header.consensusArgs, sv.governmentArgs block with
  | .malformed, _ => some false
  | .missing, none => some false
  | .missing, some _ => none
  | .args _, none => some false
  | .args a, some txRWSet => some (txRWSet = a.consensusData)

def checkProposal (msg : ConsensusMsg) (p : ProposalData) (syncInfo : SyncInfo) : Bool :=
  n.validateProposalMsg env msg p && n.needFetch syncInfo = some false && n.validateBlock sv p

def syncInfo : SyncInfo := ⟨n.chainStore.blockPool.highestQC, n.paceMaker.timeoutCertificate⟩

def constructVote (height level : ℕ) (block : Option Block) : VoteData :=
  let v : VoteData :=
    { blockId := block.map (·.header.blockHash)
      height := height
      level := level
      author := some n.id
      authorIdx := n.selfIndexInEpoch
      newView := block.isNone
      epochId := n.paceMaker.epochId
      signature := none }
  { v with signature := some ⟨none, env.sign (.vote v)⟩ }

def sendVote (vote : VoteData × SyncInfo) (level : ℕ) : ConsensusChainedBftImpl :=
  { n with
    safetyRules := n.safetyRules.setLastVote vote level
    created := vote.1.message :: n.created }

def generateVoteAndSend (p : ProposalData) : ConsensusChainedBftImpl :=
  let n := { n with state := .vote }
  n.sendVote (n.constructVote env p.height p.level (some p.block), n.syncInfo) p.level

def insertBlock (block : Block) : Option ConsensusChainedBftImpl :=
  (n.chainStore.insertBlock block).map fun cs => { n with chainStore := cs }

def insertProposal (p : ProposalData) : Option ConsensusChainedBftImpl :=
  (n.msgPool.insertProposal p.height p.level p).map fun mp => { n with msgPool := mp }

/-- Steps 5 and 6 of `processProposal`: the proposal is stored and, if the node has not voted at
its level or above, voted for. -/
def acceptProposal (p : ProposalData) : ConsensusChainedBftImpl :=
  match n.insertProposal p with
  | none => n
  | some n =>
    match n.insertBlock p.block with
    | none => n
    | some n => if n.safetyRules.lastVoteLevel < p.level then n.generateVoteAndSend env p else n

def processProposal (msg : ConsensusMsg) (p : ProposalData) (syncInfo : SyncInfo) :
    Option ConsensusChainedBftImpl :=
  if n.checkProposal env sv msg p syncInfo then
    (validateBlockConsensusArg sv p.block).bind fun valid =>
      if valid then
        (n.processQC env sv p.justifyQc).map fun (n, done) =>
          if done then n.acceptProposal env p else n
      else some n
  else some n

def aggregateQC (height level : ℕ) (blockId : Option Bytes) (isNewView : Bool) : QuorumCert where
  blockId := blockId
  height := height
  level := level
  epochId := n.paceMaker.epochId
  newView := isNewView
  votes := n.msgPool.getQCVotes height level

def proposeIfLeader : ConsensusChainedBftImpl :=
  if env.isValidProposer n.paceMaker.currentLevel n.selfIndexInEpoch then
    { n with state := .propose }
  else n

def processVotes (v : VoteData) : Option ConsensusChainedBftImpl :=
  match n.msgPool.checkVotesDone v.height v.level with
  | none => some n
  | some (blockId, newView) =>
    let qc := n.aggregateQC v.height v.level blockId newView
    if newView then
      (n.processCertificates env none (some qc)).map fun n => n.proposeIfLeader env
    else if (n.chainStore.getBlockByHash (bytes blockId)).isNone then some n
    else
      match n.insertQC qc with
      | none => some n
      | some n => (n.processCertificates env (some qc) none).map fun n => n.proposeIfLeader env

def receivedVote (msg : ConsensusMsg) (v : VoteData) : VoteData :=
  { v with signature := v.signature.map fun s =>
      { s with signer := msg.signEntry.bind (·.signer) } }

/-- A vote without a signature, on which the source would crash, is refused. -/
def validateVoteMsg (msg : ConsensusMsg) (v : VoteData) : Bool :=
  env.validateSignerAndSignature msg && env.validateVoteData (receivedVote msg v)

def checkVote (msg : ConsensusMsg) (v : VoteData) (syncInfo : SyncInfo) : Bool :=
  n.paceMaker.currentLevel ≤ v.level && v.epochId = n.paceMaker.epochId &&
    validateVoteMsg env msg v &&
    (v.newView || env.getProposer (u64 (v.level + 1)) = n.selfIndexInEpoch) &&
    n.needFetch syncInfo = some false

def processSyncInfo (syncInfo : SyncInfo) : Option (Option ConsensusChainedBftImpl) :=
  let qc := syncInfo.highestQc
  match syncInfo.highestTc.filter (qc.level ≤ ·.level) with
  | none =>
    if env.verifyJustifyQC n.paceMaker.epochId qc then
      match n.insertQC qc with
      | none => some (some n)
      | some n => (n.processCertificates env (some qc) none).map some
    else some none
  | some tc =>
    if env.verifyJustifyQC n.paceMaker.epochId tc then
      (n.processCertificates env none (some tc)).map some
    else some none

def insertVote (v : VoteData) : Option ConsensusChainedBftImpl :=
  match n.msgPool.insertVote v.height v.level v with
  | .error _ => none
  | .ok mp => some { n with msgPool := mp }

def processVote (msg : ConsensusMsg) (v : VoteData) (syncInfo : SyncInfo) :
    Option ConsensusChainedBftImpl :=
  if n.checkVote env msg v syncInfo then
    match n.insertVote (receivedVote msg v) with
    | none => some n
    | some n => (n.processSyncInfo env syncInfo).bind fun
        | none => some n
        | some n => n.processVotes env v
  else some n

def checkPair (pair : BlockPair) (haveProcessBlocks : List Bytes) : Bool :=
  let qc := pair.qc
  let header := pair.block.header
  n.paceMaker.currentLevel ≤ qc.level && qc.epochId = n.paceMaker.epochId &&
    !haveProcessBlocks.contains header.blockHash &&
    (n.chainStore.getQC header.preBlockHash (u64 (qc.height - 1))).any fun preQC =>
      bytes preQC.blockId = header.preBlockHash &&
        env.verifyJustifyQC n.paceMaker.epochId qc && qc.height = header.blockHeight &&
        header.blockHash = bytes qc.blockId &&
        n.safetyRules.safeNode n.chainStore pair.block qc.height preQC

def verifyPairBlock (block : Block) : Bool :=
  match sv.verifyBlock block with
  | .ok => true
  | .hadBeenCommitted => (n.chainStore.storeGetBlock block.header.blockHeight).any
      (·.header.blockHash = block.header.blockHash)
  | .failed => false

def processBlockAndQC (pair : BlockPair) : Option ConsensusChainedBftImpl :=
  match n.insertBlock pair.block with
  | none => some n
  | some n => (n.processQC env sv pair.qc).map (·.1)

def processPair (s : ConsensusChainedBftImpl × List Bytes) (pair : BlockPair) :
    Option (ConsensusChainedBftImpl × List Bytes) :=
  let (n, done) := s
  if n.checkPair env pair done then
    let done := pair.block.header.blockHash :: done
    if n.verifyPairBlock sv pair.block then
      (validateBlockConsensusArg sv pair.block).bind fun valid =>
        if valid then (n.processBlockAndQC env sv pair).map fun n => (n, done)
        else some (n, done)
    else some (n, done)
  else some (n, done)

def sortPairs (blocks : List BlockPair) : List BlockPair :=
  blocks.insertionSort (·.block.header.blockHeight ≤ ·.block.header.blockHeight)

def processFetchResp (msg : ConsensusMsg) (authorIdx : ℕ) (blocks : List BlockPair) :
    Option ConsensusChainedBftImpl :=
  if (env.getPeerByIndex authorIdx).isSome && env.validateSignerAndSignature msg then
    (Runs.run (processPair env sv) (n, []) (sortPairs blocks)).map (·.1)
  else some n

def retryVote (last : VoteData) : VoteData :=
  let v := { last with newView := true, epochId := n.paceMaker.epochId, signature := none }
  { v with signature := some ⟨some env.member, env.sign (.vote v)⟩ }

def processLocalTimeout (height level : ℕ) : Option ConsensusChainedBftImpl :=
  if level ≠ n.paceMaker.currentLevel then some n
  else
    let n := { n with timers := n.paceMaker.timer :: n.timers }
    let sr := n.safetyRules
    let newView := (n.constructVote env height level none, n.syncInfo)
    if sr.lastVoteLevel = level then
      match sr.lastVoteMsg with
      | none => none
      | some (last, syncInfo) =>
        if last.height = height then some (n.sendVote (n.retryVote env last, syncInfo) level)
        else some (n.sendVote newView level)
    else some (n.sendVote newView level)

def onFiredEvent (te : TimerEvent) : Option ConsensusChainedBftImpl :=
  if te ∉ n.timers then none
  else if te.level < n.paceMaker.currentLevel ∨ te.epochId ≠ n.paceMaker.epochId then some n
  else n.processLocalTimeout env te.height te.level

/-- The contract does not change, so no epoch follows the current one. -/
def processBlockCommitted (block : Block) : Option ConsensusChainedBftImpl :=
  if block.header.blockHeight ≤ n.commitHeight then some n
  else
    (n.chainStore.insertCompletedBlock block).bind fun
      | (cs, false) => some { n with chainStore := cs }
      | (cs, true) =>
        let n := { n with
          chainStore := cs
          commitHeight := block.header.blockHeight
          msgPool := n.msgPool.onBlockSealed block.header.blockHeight
          safetyRules := n.safetyRules.setLastCommittedBlock block cs.commitLevel }
        n.processCertificates env (some cs.blockPool.highestQC) none

def validateVoteBasicInfo (v : VoteData) : Bool :=
  (v.newView || v.blockId.isSome) && v.author.isSome

def onConsensusMsg (msg : ConsensusMsg) : Option ConsensusChainedBftImpl :=
  match msg.payload with
  | .proposalMsg p syncInfo => n.processProposal env sv msg p syncInfo
  | .voteMsg v syncInfo =>
    if validateVoteBasicInfo v then n.processVote env msg v syncInfo else some n
  | .blockFetchRespMsg authorIdx blocks => n.processFetchResp env sv msg authorIdx blocks

def handle (e : Event) : Option ConsensusChainedBftImpl :=
  match e with
  | .consensusMsg msg => n.onConsensusMsg env sv msg
  | .firedEvent te => n.onFiredEvent env te
  | .blockInfo height => (n.chainStore.storeGetBlock height).bind fun block =>
      n.processBlockCommitted env block

variable {env n}

lemma checkPair_verified {pair : BlockPair} {done : List Bytes}
    (h : n.checkPair env pair done = true) :
    env.verifyJustifyQC n.paceMaker.epochId pair.qc = true := by
  simp only [checkPair, Bool.and_eq_true] at h
  obtain ⟨-, hpre⟩ := h
  obtain ⟨preQC, -, hpre⟩ := (Option.any_eq_true _ _).mp hpre
  simp only [Bool.and_eq_true] at hpre
  exact hpre.1.1.1.2

end ConsensusChainedBftImpl
end ChainMaker.ChainedBft
