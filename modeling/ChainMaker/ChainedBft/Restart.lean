import ChainMaker.ChainedBft.Changes
import ChainMaker.ChainedBft.Cluster

/-! A Chained BFT node with its log (`wal.go`): what it writes while it runs, and how it starts
again after a crash. Of its memory nothing is left then but the ledger and the log. -/

namespace ChainMaker.ChainedBft

structure WalEntry where
  msg : ConsensusMsg
  lastSnapshotIndex : ℕ

/-- The log behind the first `dropped` indices, which start at 1. -/
structure Wal where
  dropped : ℕ
  entries : List WalEntry

namespace Wal
variable (w : Wal)

def lastIndex : ℕ := w.dropped + w.entries.length

def read (index : ℕ) : Option WalEntry :=
  if index ≤ w.dropped then none else w.entries[index - w.dropped - 1]?

def write (e : WalEntry) : Wal := { w with entries := w.entries ++ [e] }

def truncateFront (index : ℕ) : Wal :=
  let k := index - w.dropped - 1
  ⟨w.dropped + k, w.entries.drop k⟩

end Wal

namespace ConsensusChainedBftImpl
variable (env : Env) (sv : Services) (n : ConsensusChainedBftImpl)

def beforeStore (msg : ConsensusMsg) (p : ProposalData) (syncInfo : SyncInfo) :
    Option ConsensusChainedBftImpl :=
  if n.checkProposal env sv msg p syncInfo ∧ validateBlockConsensusArg sv p.block = some true then
    (n.processQC env sv p.justifyQc).bind fun (n, done) => if done then some n else none
  else none

def storeProposal (p : ProposalData) : ConsensusChainedBftImpl :=
  match n.insertProposal p with
  | none => n
  | some n =>
    match n.insertBlock p.block with
    | none => n
    | some n => if n.safetyRules.lastVoteLevel < p.level then { n with state := .vote } else n

def replayProposal (msg : ConsensusMsg) (p : ProposalData) (syncInfo : SyncInfo) :
    Option ConsensusChainedBftImpl :=
  if n.checkProposal env sv msg p syncInfo then
    (validateBlockConsensusArg sv p.block).bind fun valid =>
      if valid then
        (n.processQC env sv p.justifyQc).map fun (n, done) => if done then n.storeProposal p else n
      else some n
  else some n

def proposalDone (msg : ConsensusMsg) (p : ProposalData) (syncInfo : SyncInfo) : Bool :=
  n.validateProposalMsg env msg p && n.needFetch syncInfo = some true ||
    (n.beforeStore env sv msg p syncInfo).any fun n =>
      (n.insertProposal p).any fun n => (n.insertBlock p.block).isSome

/-- An event while the log is being replayed. The loops of the node run already. -/
def handleReplaying (e : Event) : Option ConsensusChainedBftImpl :=
  match e with
  | .consensusMsg ⟨.proposalMsg p syncInfo, sign⟩ =>
    n.replayProposal env sv ⟨.proposalMsg p syncInfo, sign⟩ p syncInfo
  | e => n.handle env sv e

end ConsensusChainedBftImpl

structure Replica where
  node : ConsensusChainedBftImpl
  wal : Wal
  lastCommitWalIndex : ℕ
  proposalWalIndex : GoMap ℕ ℕ
  replay : Option (ℕ × ℕ)

/-- What a crash leaves. `created` is a record of what was signed, not data on a disk. -/
structure Disk where
  ledger : List Block
  wal : Wal
  created : List VoteData

namespace Replica
variable (env : Env) (sv : Services) (r : Replica)

def doneReplayWal : Bool := r.replay.isNone

def disk : Disk := ⟨r.node.chainStore.ledger, r.wal, r.node.created⟩

def saveWalEntry (msg : ConsensusMsg) : Replica :=
  { r with wal := r.wal.write ⟨msg, r.lastCommitWalIndex⟩ }

def addProposalWalIndexByReplay (proposalHeight walIndex : ℕ) : Replica :=
  if (r.proposalWalIndex.lookup proposalHeight).isSome then r
  else { r with proposalWalIndex := r.proposalWalIndex.insert proposalHeight walIndex }

def addProposalWalIndex (proposalHeight : ℕ) : Replica :=
  r.addProposalWalIndexByReplay proposalHeight (r.wal.lastIndex + 1)

def updateWalIndexAndTruncFile (commitHeight : ℕ) : Replica :=
  match r.proposalWalIndex.lookup (u64 (commitHeight + 1)) with
  | none => r
  | some nextProposalIndex =>
    { r with
      proposalWalIndex := r.proposalWalIndex.erase commitHeight
      lastCommitWalIndex := nextProposalIndex
      wal := if commitHeight % 5 = 0 then r.wal.truncateFront nextProposalIndex else r.wal }

/-- What an event makes the node write. A vote is written with the signer of its message, which
`validateVoteMsg` has put into it. -/
def logEvent (e : Event) : Replica :=
  match e with
  | .consensusMsg ⟨.proposalMsg p syncInfo, sign⟩ =>
    let msg : ConsensusMsg := ⟨.proposalMsg p syncInfo, sign⟩
    if r.doneReplayWal ∧ (r.node.beforeStore env sv msg p syncInfo).any fun n =>
        (n.insertProposal p).isSome then
      (r.addProposalWalIndex p.height).saveWalEntry msg
    else r
  | .consensusMsg ⟨.voteMsg v syncInfo, sign⟩ =>
    let msg : ConsensusMsg := ⟨.voteMsg v syncInfo, sign⟩
    let vote := ConsensusChainedBftImpl.receivedVote msg v
    if r.doneReplayWal ∧ ConsensusChainedBftImpl.validateVoteBasicInfo v ∧
        r.node.checkVote env msg v syncInfo ∧ (r.node.insertVote vote).isSome then
      (r.addProposalWalIndex v.height).saveWalEntry ⟨.voteMsg vote syncInfo, sign⟩
    else r
  | .blockInfo height =>
    if r.node.commitHeight < height ∧ (r.node.chainStore.storeGetBlock height).any fun block =>
        (r.node.chainStore.insertCompletedBlock block).any (·.2) then
      r.updateWalIndexAndTruncFile height
    else r
  | _ => r

def live (e : Event) : Option Replica :=
  (if r.doneReplayWal then r.node.handle env sv e else r.node.handleReplaying env sv e).map
    fun n => { r.logEvent env sv e with node := n }

def replayNext : Option Replica :=
  match r.replay with
  | none => none
  | some (index, last) =>
    if last < index then some { r with replay := none }
    else
      let next := { r with replay := some (index + 1, last) }
      match r.wal.read index with
      | some ⟨⟨.proposalMsg p syncInfo, sign⟩, _⟩ =>
        let msg : ConsensusMsg := ⟨.proposalMsg p syncInfo, sign⟩
        (r.node.replayProposal env sv msg p syncInfo).map fun n =>
          let next := { next with node := n }
          if r.node.proposalDone env sv msg p syncInfo then
            next.addProposalWalIndexByReplay p.height index
          else next
      | some ⟨⟨.voteMsg v syncInfo, sign⟩, _⟩ =>
        (r.node.processVote env ⟨.voteMsg v syncInfo, sign⟩ v syncInfo).map fun n =>
          { next with node := n }
      | _ => some next

end Replica

def openChainStore (ledger : List Block) : Option ChainStore :=
  match ledger with
  | [] => none
  | last :: rest =>
    let bestBlock := if last.header.blockHeight = 0 then initGenesisBlock last else last
    let pool := newBlockPool bestBlock QuorumCert.zero 20
    (ChainStore.updateCommitCacheInfo
      ⟨bestBlock :: rest, 0, 0, QuorumCert.zero, pool⟩ bestBlock).map fun cs =>
        { cs with blockPool := newBlockPool bestBlock cs.commitQuorumCert 20 }

def openNode (env : Env) (id : NodeId) (ledger : List Block) (created : List VoteData) :
    Option ConsensusChainedBftImpl :=
  (openChainStore ledger).map fun cs =>
    let bestBlock := cs.blockPool.blockTree.rootBlock
    let rules : SafetyRules := ⟨0, none, none, 0, cs.blockPool.highestQC.level, bestBlock⟩
    { id := id
      selfIndexInEpoch :=
        ((env.governance.members.find? (·.nodeId = id)).map (u64 ·.index)).getD InvalidIndex
      commitHeight := cs.commitHeight
      state := .newHeight
      paceMaker := ⟨cs.commitHeight, env.governance.epochId, 0, 0, 0, 0, none⟩
      safetyRules := match getLevelFromBlock bestBlock with
        | none => rules
        | some level => rules.setLastCommittedBlock bestBlock level
      chainStore := cs
      msgPool := newMsgPool env.governance.cachedLen env.governance.minQuorumForQc
      timers := []
      created := created }

def restart (env : Env) (id : NodeId) (d : Disk) : Option Replica :=
  (openNode env id d.ledger d.created).bind fun n =>
    match d.wal.read d.wal.lastIndex with
    | some entry =>
      let index := entry.lastSnapshotIndex
      some ⟨n, d.wal, index, ∅, some (index, d.wal.lastIndex)⟩
    | none =>
      (n.processCertificates env (some n.chainStore.blockPool.highestQC) none).map fun n =>
        ⟨n.proposeIfLeader env, d.wal, 1, ∅, none⟩

inductive Action
  | live (sv : Services) (e : Event)
  | replayNext (sv : Services)

def Replica.act (env : Env) (r : Replica) : Action → Option Replica
  | .live sv e => r.live env sv e
  | .replayNext sv => r.replayNext env sv

def ledgersBetween (old new : List Block) : List (List Block) :=
  (List.range (new.length - old.length + 1)).map fun k => new.drop (new.length - old.length - k)

/-- What is left by a crash while the node does something: blocks go to the ledger one by one, then
a message goes to the log, and last the vote is signed. -/
def Replica.stages (env : Env) (r : Replica) (a : Option Action) : List Disk :=
  match a.bind (r.act env) with
  | none => [r.disk]
  | some r' => r.disk ::
      (ledgersBetween r.disk.ledger r'.disk.ledger).map (fun l => { r.disk with ledger := l }) ++
        [{ r'.disk with created := r.node.created }, r'.disk]

inductive Life
  | up (r : Replica)
  | down (d : Disk)

inductive LifeEvent
  | act (a : Action)
  | crash (a : Option Action) (stage : ℕ)
  | restart

namespace Life

def created : Life → List VoteData
  | .up r => r.node.created
  | .down d => d.created

def step (env : Env) (id : NodeId) : Life → LifeEvent → Option Life
  | .up r, .act a => (r.act env a).map .up
  | .up r, .crash a stage => ((r.stages env a)[stage]?).map .down
  | .down d, .restart => (ChainedBft.restart env id d).map .up
  | _, _ => none

end Life
end ChainMaker.ChainedBft
