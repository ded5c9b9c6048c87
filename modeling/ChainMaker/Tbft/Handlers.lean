import ChainMaker.Tbft.Certificate

/-! The state of a TBFT node: the round it is in, its timers, its write-ahead log and the
messages it has queued for itself. -/

namespace ChainMaker.Tbft

inductive Step
  | newHeight
  | newRound
  | propose
  | prevote
  | precommit
  | commit
deriving DecidableEq

def Step.rank : Step → ℕ
  | .newHeight => 0
  | .newRound => 1
  | .propose => 2
  | .prevote => 3
  | .precommit => 4
  | .commit => 5

structure Proposal where
  voter : NodeId
  height : ℕ
  round : ℤ
  polRound : ℤ
  block : Block
  endorsement : Option EndorsementEntry

structure ProposalProto where
  voter : NodeId
  height : ℕ
  round : ℤ
  polRound : ℤ
  block : Option Block
  endorsement : Option EndorsementEntry

def ProposalProto.message (p : ProposalProto) : ProposalProto :=
  { p with
    endorsement := none
    block := p.block.map fun b => { b with additionalData := none } }

structure GossipState where
  id : NodeId
  height : ℕ
  round : ℤ
  roundVoteSet : Option RoundVoteSetProto

/-- A message of the network or of the node's own queue; a body that cannot be decoded is
`none`. -/
inductive TBFTMsg
  | propose (body : Option ProposalProto)
  | prevote (body : Option Vote)
  | precommit (body : Option Vote)
  | state (body : Option GossipState)
  | other

structure VerifyResult where
  verifiedBlock : Block
  success : Bool
  txsRwSet : Option Bytes

/-- A timeout; its duration is left open, as a timer may fire at any time. -/
structure TimeoutInfo where
  height : ℕ
  round : ℤ
  step : Step
deriving DecidableEq

structure TimeScheduler where
  ti : TimeoutInfo
  armed : Bool
  timeoutC : List TimeoutInfo

def newTimeSheduler : TimeScheduler := ⟨⟨0, 0, .newHeight⟩, false, []⟩

namespace TimeScheduler
variable (ts : TimeScheduler)

def addTimeoutInfo (t : TimeoutInfo) : TimeScheduler :=
  if t.height < ts.ti.height ∨
      t.height = ts.ti.height ∧ (t.round < ts.ti.round ∨
        t.round = ts.ti.round ∧ t.step.rank ≤ ts.ti.step.rank) then ts
  else { ts with ti := t, armed := true }

/-- The timer stays armed: the tick of a timer that was stopped too late fires the next timeout
early, and it fires again. -/
def fire : Option TimeScheduler :=
  if ts.armed then some { ts with timeoutC := ts.timeoutC ++ [ts.ti] } else none

end TimeScheduler

inductive WalData
  | timeout (ti : TimeoutInfo)
  | proposal (p : Proposal)
  | vote (v : Vote)

structure WalEntry where
  height : ℕ
  heightFirstIndex : ℕ
  data : WalData

/-- The log behind the first `dropped` indices, which start at 1. -/
structure Wal where
  dropped : ℕ
  entries : List WalEntry

namespace Wal
variable (w : Wal)

def lastIndex : ℕ := w.dropped + w.entries.length

def read (index : ℕ) : Option WalEntry :=
  if index ≤ w.dropped then none else w.entries[index - w.dropped - 1]?

def write (e : WalEntry) : Wal := { w with entries := w.entries ++ [e] }

def truncateFront (index : ℕ) : Wal :=
  let k := index - w.dropped - 1
  ⟨w.dropped + k, w.entries.drop k⟩

end Wal

/-- What a node reads besides its own state: the validators, its keys and the services it asks.
The validators are those of a chain configuration that does not change. -/
structure Env where
  validatorSet : ValidatorSet
  isDpos : Bool
  /-- The body of the block with the arguments of the DPoS contract. -/
  createDPoSRWSet : Block → Option Bytes
  verifyConsensusArgs : Block → Option Bytes → Bool
  signBlock : Block → Option (Bytes × Bytes)
  signVote : Vote → Option EndorsementEntry
  signProposal : Proposal → Option EndorsementEntry
  marshalVoteSet : VoteSetProto → Bytes
  ac : AccessControl Vote
  acProposal : AccessControl ProposalProto
  newMember : Member → Option Bytes
  trustMembers : List (Bytes × NodeId)
  getNodeUidByCertId : Bytes → Option NodeId

namespace Env
variable (env : Env)

/-- The node of a member: that of the trusted member of the same info, or the one the network
knows by its certificate. -/
def nodeUid (signer : Member) (certId : Bytes) : Option NodeId :=
  match env.trustMembers.find? fun m => m.1 = signer.memberInfo with
  | some (_, uid) => if uid = [] then env.getNodeUidByCertId certId else some uid
  | none => env.getNodeUidByCertId certId

def verifyVote (vote : Vote) : Bool :=
  env.ac.verifyConsensusNode vote.endorsement vote.message &&
    vote.endorsement.any fun e =>
      (env.newMember e.signer).any fun certId =>
        env.nodeUid e.signer certId = some vote.voter

def verifyProposal (p : ProposalProto) : Bool :=
  env.acProposal.verifyConsensusNode p.endorsement p.message

end Env

structure ConsensusTBFTImpl where
  id : NodeId
  height : ℕ
  round : ℤ
  step : Step
  proposal : Option Proposal
  verifingProposal : Option Proposal
  heightRoundVoteSet : HeightRoundVoteSet
  triggeredTimeoutPrecommit : Bool
  triggeredTimeoutPrevote : Bool
  timeScheduler : TimeScheduler
  internalMsgC : List TBFTMsg
  wal : Wal
  heightFirstIndex : ℕ
  created : List Vote
  committed : List Block

def newConsensus (env : Env) (id : NodeId) (wal : Wal) : ConsensusTBFTImpl where
  id := id
  height := 0
  round := 0
  step := .newHeight
  proposal := none
  verifingProposal := none
  heightRoundVoteSet := newHeightRoundVoteSet 0 0 env.validatorSet
  triggeredTimeoutPrecommit := false
  triggeredTimeoutPrevote := false
  timeScheduler := newTimeSheduler
  internalMsgC := []
  wal := wal
  heightFirstIndex := 0
  created := []
  committed := []

/-! The event handlers of a TBFT node. A handler that panics has no result. -/

def nilHash : Hash := some [78, 105, 108, 72, 97, 115, 104]

def isNilHash (hash : Hash) : Bool := hash.bytes.length = 0 || hash.bytes = nilHash.bytes

/-- Stores the certificate in a block. A block that has additional data without a map makes the
node write to a nil map. -/
def Block.attach (block : Block) (qc : Bytes) : Option Block :=
  match block.additionalData with
  | none =>
    some { block with additionalData := some ⟨some (AList.singleton tbftAddtionalDataKey qc)⟩ }
  | some ⟨none⟩ => none
  | some ⟨some extraData⟩ =>
    some { block with additionalData := some ⟨some (extraData.insert tbftAddtionalDataKey qc)⟩ }

namespace ConsensusTBFTImpl
variable (env : Env) (n : ConsensusTBFTImpl)

def isProposer (height : ℕ) (round : ℤ) : Bool :=
  (env.validatorSet.getProposer height round).getD [] = n.id

def saveWalEntry (data : WalData) : ConsensusTBFTImpl :=
  { n with wal := n.wal.write ⟨n.height, n.heightFirstIndex, data⟩ }

def saveUnless (replayMode : Bool) (data : WalData) : ConsensusTBFTImpl :=
  if replayMode then n else n.saveWalEntry data

def addTimeout (height : ℕ) (round : ℤ) (step : Step) : ConsensusTBFTImpl :=
  { n with timeScheduler := n.timeScheduler.addTimeoutInfo ⟨height, round, step⟩ }

def createVote (voteType : VoteType) (hash : Hash) (msg : Option Vote → TBFTMsg) :
    ConsensusTBFTImpl :=
  let vote : Vote := ⟨voteType, n.id, n.height, n.round, hash, none⟩
  let vote := { vote with endorsement := env.signVote vote }
  { n with
    internalMsgC := n.internalMsgC ++ [msg (some vote)]
    created := vote :: n.created }

def commitBlock (block : Block) : ConsensusTBFTImpl :=
  { n with committed := block :: n.committed }

def enterPropose (height : ℕ) (round : ℤ) : ConsensusTBFTImpl :=
  if n.height ≠ height ∨ n.round > round ∨ n.round = round ∧ n.step ≠ .newRound then n
  else { n with step := .propose }.addTimeout height round .prevote

def enterNewRound (height : ℕ) (round : ℤ) : ConsensusTBFTImpl :=
  if n.height > height ∨ n.round > round ∨ n.round = round ∧ n.step ≠ .newHeight then n
  else
    { n with
      height := height
      round := round
      step := .newRound
      triggeredTimeoutPrevote := false
      triggeredTimeoutPrecommit := false
      proposal := none
      verifingProposal := none }.enterPropose height round

def deleteWalEntry (num index : ℕ) : ConsensusTBFTImpl :=
  if num % 10 ≠ 0 then n else { n with wal := n.wal.truncateFront index }

def enterNewHeight (height : ℕ) (replayMode : Bool) : ConsensusTBFTImpl :=
  if n.height ≥ height then n
  else
    let n := if replayMode then n
      else { n with heightFirstIndex := n.wal.lastIndex + 1 }.deleteWalEntry height n.wal.lastIndex
    { n with
      height := height
      round := 0
      step := .newHeight
      proposal := none
      verifingProposal := none
      triggeredTimeoutPrevote := false
      triggeredTimeoutPrecommit := false
      heightRoundVoteSet := newHeightRoundVoteSet height 0 env.validatorSet }.enterNewRound height 0

def enterPrevote (height : ℕ) (round : ℤ) : ConsensusTBFTImpl :=
  if n.height ≠ height ∨ n.round > round ∨ n.round = round ∧ n.step ≠ .propose then n
  else
    let hash := (n.proposal.map (·.block.header.blockHash)).getD nilHash
    { n with step := .prevote }.createVote env .prevote hash .prevote

/-- The hash to precommit: the prevoted majority, or nil once there can be none; otherwise the
node panics. -/
def precommitHash : Option Hash :=
  let voteSet := n.heightRoundVoteSet.prevotes n.round
  match twoThirdsMajority voteSet with
  | some hash => some (some hash)
  | none =>
    if voteSet.any (·.hasTwoThirdsAny) || voteSet.any (·.hasTwoThirdsNoMajority) then some nilHash
    else none

def enterPrecommit (height : ℕ) (round : ℤ) : Option ConsensusTBFTImpl :=
  if n.height ≠ height ∨ n.round > round ∨ n.round = round ∧ n.step ≠ .prevote then some n
  else
    n.precommitHash.map fun hash =>
      { n with step := .precommit }.createVote env .precommit hash .precommit

def precommitCertificate : Bytes :=
  env.marshalVoteSet <| ((n.heightRoundVoteSet.precommits n.round).map (·.toProto)).getD
    ⟨.precommit, n.height, n.round, []⟩

def commitProposal (p : Proposal) : Option ConsensusTBFTImpl :=
  (p.block.attach (n.precommitCertificate env)).map fun block =>
    { n with proposal := some { p with block := block } }.commitBlock block

def enterCommit (height : ℕ) (round : ℤ) : Option ConsensusTBFTImpl :=
  if n.height ≠ height ∨ n.round > round ∨ n.round = round ∧ n.step ≠ .precommit then some n
  else
    let n := { n with step := .commit }
    let hash := twoThirdsMajority (n.heightRoundVoteSet.precommits n.round)
    if isNilHash hash then some (n.enterNewRound n.height (int32 (round + 1)))
    else
      match n.proposal with
      | none => none
      | some p =>
        if hash.bytes ≠ p.block.header.blockHash.bytes then none
        else n.commitProposal env p

def addPrevoteVote (vote : Vote) : Option ConsensusTBFTImpl :=
  if n.step ≠ .prevote then some n
  else
    let voteSet := n.heightRoundVoteSet.prevotes vote.round
    match twoThirdsMajority voteSet with
    | none =>
      if n.round = vote.round ∧ voteSet.any (·.hasTwoThirdsAny) then
        n.enterPrecommit env n.height n.round
      else if n.round = vote.round ∧ voteSet.any (·.hasTwoThirdsNoMajority) ∧
          ¬n.triggeredTimeoutPrevote then
        some { n.addTimeout n.height n.round .precommit with triggeredTimeoutPrevote := true }
      else some n
    | some hash =>
      if n.proposal.isSome ∨ isNilHash (some hash) then n.enterPrecommit env n.height n.round
      else some n

def addPrecommitVote (vote : Vote) : Option ConsensusTBFTImpl :=
  if n.step ≠ .precommit then some n
  else
    let voteSet := n.heightRoundVoteSet.precommits vote.round
    match twoThirdsMajority voteSet with
    | none =>
      if n.round = vote.round ∧ voteSet.any (·.hasTwoThirdsAny) then
        n.enterCommit env n.height n.round
      else if n.round = vote.round ∧ voteSet.any (·.hasTwoThirdsNoMajority) ∧
          ¬n.triggeredTimeoutPrecommit then
        some { n.addTimeout n.height n.round .commit with triggeredTimeoutPrecommit := true }
      else some n
    | some hash =>
      if isNilHash (some hash) ∨
          n.proposal.any (fun p => hash = p.block.header.blockHash.bytes) then
        n.enterCommit env n.height n.round
      else some n

def onVote (vote : Vote) : Option ConsensusTBFTImpl :=
  match vote.type with
  | .prevote => n.addPrevoteVote env vote
  | .precommit => n.addPrecommitVote env vote
  | .other _ => some n

/-- A vote that is refused may still have added its round. -/
def addVote (vote : Vote) (replayMode : Bool) : Option ConsensusTBFTImpl :=
  (n.heightRoundVoteSet.addVote vote).bind fun (hvs, res) =>
    let n := { n with heightRoundVoteSet := hvs }
    if res = .ok true then (n.saveUnless replayMode (.vote vote)).onVote env vote else some n

def createProposal (block : Block) : Option Proposal :=
  (if env.isDpos then env.createDPoSRWSet block else some block.body).bind fun body =>
    let block := { block with body := body }
    (env.signBlock block).bind fun (hash, sig) =>
      let header := { block.header with blockHash := some hash, signature := some sig }
      let proposal : Proposal :=
        ⟨n.id, n.height, n.round, -1, { block with header := header }, none⟩
      (env.signProposal proposal).map fun endorsement =>
        { proposal with endorsement := some endorsement }

def adoptProposal (p : Proposal) (replayMode : Bool) : ConsensusTBFTImpl :=
  { n with proposal := some p }.saveUnless replayMode (.proposal p)

def handleProposedBlock (block : Block) (replayMode : Bool) : ConsensusTBFTImpl :=
  if block.header.blockHeight ≠ n.height ∨ ¬n.isProposer env n.height n.round ∨
      n.step ≠ .propose then n
  else
    match n.createProposal env block with
    | none => n
    | some proposal => (n.adoptProposal proposal replayMode).enterPrevote env n.height n.round

/-- The proposal and the one that was verified are one object. -/
def shareProposal : ConsensusTBFTImpl := { n with verifingProposal := n.proposal }

def handleVerifyResult (r : VerifyResult) (replayMode : Bool) : Option ConsensusTBFTImpl :=
  let header := r.verifiedBlock.header
  match n.verifingProposal with
  | none => some n
  | some p =>
    let quorumHash := twoThirdsMajority (n.heightRoundVoteSet.precommits n.round)
    if n.height = header.blockHeight ∧ n.round = p.round ∧ ¬r.success then
      some { n with verifingProposal := none }
    else if p.block.header.blockHash.bytes = header.blockHash.bytes ∧
        quorumHash = some p.block.header.blockHash.bytes then
      ((n.adoptProposal p replayMode).commitProposal env p).map shareProposal
    else if n.step ≠ .propose ∨ p.block.header.blockHash.bytes ≠ header.blockHash.bytes then
      some { n with verifingProposal := none }
    else if env.isDpos ∧ ¬env.verifyConsensusArgs r.verifiedBlock r.txsRwSet then some n
    else some ((n.adoptProposal p replayMode).enterPrevote env n.height n.round)

def handleBlockHeight (height : ℕ) : ConsensusTBFTImpl :=
  if n.height > height then n else n.enterNewHeight env ((height + 1) % 2 ^ 64) false

def handleTimeout (ti : TimeoutInfo) (replayMode : Bool) : Option ConsensusTBFTImpl :=
  let n := n.saveUnless replayMode (.timeout ti)
  match ti.step with
  | .prevote => some (n.enterPrevote env ti.height ti.round)
  | .precommit => n.enterPrecommit env ti.height ti.round
  | .commit => n.enterCommit env ti.height ti.round
  | _ => some n

def canReceiveProposal (height : ℕ) (round : ℤ) : Bool :=
  n.height = height && n.round = round && n.step = .propose

/-- The proposer is that of the proposal's own height, while the round is entered by the height
of the block. -/
def procPropose (p : ProposalProto) : Option ConsensusTBFTImpl :=
  p.block.map fun block =>
    if ¬env.verifyProposal p ∨ ¬n.canReceiveProposal block.header.blockHeight p.round ∨
        (env.validatorSet.getProposer p.height p.round).getD [] ≠ p.voter ∨
        n.proposal.isSome ∨ n.verifingProposal.isSome then n
    else
      let proposal : Proposal := ⟨p.voter, p.height, p.round, p.polRound, block, p.endorsement⟩
      { n with verifingProposal := some proposal }

def procVote (last : Step) (vote : Vote) : Option ConsensusTBFTImpl :=
  if n.height ≠ vote.height ∨ n.round > vote.round ∨
      n.round = vote.round ∧ n.step.rank > last.rank then some n
  else if vote.voter ≠ n.id ∧ ¬env.verifyVote vote then some n
  else n.addVote env vote false

def procPrevote (vote : Vote) : Option ConsensusTBFTImpl := n.procVote env .prevote vote

def procPrecommit (vote : Vote) : Option ConsensusTBFTImpl := n.procVote env .precommit vote

/-- The votes of one validator in a peer's round, as messages for the node itself. Precommits
are queued as prevote messages too. -/
def votesOfPeer (voteSet : RoundVoteSet) (voter : NodeId) : List TBFTMsg :=
  (if n.step.rank < Step.precommit.rank then
    ((voteSet.prevotes.votes.lookup voter).map (TBFTMsg.prevote ∘ some)).toList else []) ++
  (if n.step.rank < Step.commit.rank then
    ((voteSet.precommits.votes.lookup voter).map (TBFTMsg.prevote ∘ some)).toList else [])

def updateVoteWithProto (voteSet : RoundVoteSet) : ConsensusTBFTImpl :=
  { n with internalMsgC :=
      n.internalMsgC ++ env.validatorSet.validators.flatMap (n.votesOfPeer voteSet) }

def procRecvState (g : GossipState) : Option ConsensusTBFTImpl :=
  if g.id = n.id ∨ ¬env.validatorSet.hasValidator g.id then some n
  else
    match g.roundVoteSet with
    | none => some n
    | some rvs =>
      (newRoundVoteSetFromProto rvs env.validatorSet).map fun voteSet =>
        if g.height = n.height ∧ g.round = n.round then n.updateVoteWithProto env voteSet else n

def handleConsensusMsg (msg : TBFTMsg) : Option ConsensusTBFTImpl :=
  match msg with
  | .propose body => body.bind (n.procPropose env)
  | .prevote body => body.bind (n.procPrevote env)
  | .precommit body => body.bind (n.procPrecommit env)
  | .state none => some n
  | .state (some g) => n.procRecvState env g
  | .other => some n

def replayEntry (entry : WalEntry) : Option ConsensusTBFTImpl :=
  match entry.data with
  | .timeout ti => n.handleTimeout env ti true
  | .proposal p =>
    if n.isProposer env n.height n.round then some (n.handleProposedBlock env p.block true)
    else { n with verifingProposal := some p }.handleVerifyResult env ⟨p.block, true, none⟩ true
  | .vote v => n.addVote env v true

def replayFrom (first count : ℕ) : Option ConsensusTBFTImpl :=
  (List.range' first count).foldlM (fun n i => (n.wal.read i).bind (n.replayEntry env)) n

def replayWal (currentHeight : ℕ) : Option ConsensusTBFTImpl :=
  match n.wal.read n.wal.lastIndex with
  | none => some (n.enterNewHeight env ((currentHeight + 1) % 2 ^ 64) false)
  | some last =>
    let n := { n with heightFirstIndex := last.heightFirstIndex }
    if currentHeight < (last.height + 2 ^ 64 - 1) % 2 ^ 64 then none
    else if currentHeight ≥ last.height then
      some (n.enterNewHeight env ((currentHeight + 1) % 2 ^ 64) false)
    else
      (n.enterNewHeight env last.height true).replayFrom env last.heightFirstIndex
        (n.wal.lastIndex + 1 - last.heightFirstIndex)

end ConsensusTBFTImpl

inductive Event
  | proposedBlock (block : Block)
  | verifyResult (r : VerifyResult)
  | blockHeight (height : ℕ)
  | externalMsg (msg : TBFTMsg)
  | internalMsg
  | timerFires
  | timeout

def ConsensusTBFTImpl.handle (env : Env) (n : ConsensusTBFTImpl) :
    Event → Option ConsensusTBFTImpl
  | .proposedBlock block => some (n.handleProposedBlock env block false)
  | .verifyResult r => n.handleVerifyResult env r false
  | .blockHeight height => some (n.handleBlockHeight env height)
  | .externalMsg msg => n.handleConsensusMsg env msg
  | .internalMsg =>
    match n.internalMsgC with
    | [] => none
    | msg :: rest => { n with internalMsgC := rest }.handleConsensusMsg env msg
  | .timerFires => n.timeScheduler.fire.map fun ts => { n with timeScheduler := ts }
  | .timeout =>
    match n.timeScheduler.timeoutC with
    | [] => none
    | ti :: rest =>
      { n with timeScheduler.timeoutC := rest }.handleTimeout env ti false

end ChainMaker.Tbft
