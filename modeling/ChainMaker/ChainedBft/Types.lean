import ChainMaker.AccessControl
import ChainMaker.Governance.Contract

/-! The data of Chained BFT: votes, certificates, blocks and the messages that carry them. Numbers
are `uint64` in the source, so an addition or subtraction that can leave the range wraps. -/

namespace ChainMaker.ChainedBft

abbrev NodeId := Bytes

def u64 (z : ℤ) : ℕ := (z % 2 ^ 64).toNat

/-- A byte slice that may be nil, as `bytes.Equal` and a conversion to a string see it. -/
def bytes (b : Option Bytes) : Bytes := b.getD []

structure SignEntry where
  signer : Option Member
  signature : Bytes
deriving DecidableEq

structure VoteData where
  blockId : Option Bytes
  height : ℕ
  level : ℕ
  author : Option NodeId
  authorIdx : ℕ
  newView : Bool
  epochId : ℕ
  signature : Option SignEntry
deriving DecidableEq

def VoteData.message (v : VoteData) : VoteData := { v with signature := none }

structure QuorumCert where
  blockId : Option Bytes
  height : ℕ
  level : ℕ
  epochId : ℕ
  newView : Bool
  votes : List VoteData
deriving DecidableEq

/-- Decoding no bytes gives the zero certificate. -/
def QuorumCert.zero : QuorumCert := ⟨none, 0, 0, 0, false, []⟩

/-- Bytes that should hold a certificate, named by the certificate where they decode to one. -/
inductive QCBytes
  | cert (qc : QuorumCert)
  | malformed
deriving DecidableEq

/-- `BlockHeaderConsensusArgs`; the data is the marshalled read/write set of the governance
contract. -/
structure ConsensusArgs where
  level : ℕ
  consensusData : Bytes
deriving DecidableEq

/-- The consensus arguments of a header: missing, bytes that do not decode, or decoded. -/
inductive ArgsBytes
  | missing
  | malformed
  | args (a : ConsensusArgs)
deriving DecidableEq

structure Header where
  blockHeight : ℕ
  blockHash : Bytes
  preBlockHash : Bytes
  consensusArgs : ArgsBytes
deriving DecidableEq

/-- A block; of the additional data only the map `ExtraData` is read, and it may be missing. -/
structure Block where
  header : Header
  body : Bytes
  extraData : Option (GoMap Bytes (Option QCBytes))

def qcKey : Bytes := [81, 67]

def getQCFromBlock (block : Block) : Option QCBytes :=
  block.extraData.bind fun extraData => (extraData.lookup qcKey).join

def unmarshalQC : Option QCBytes → Option QuorumCert
  | none => some QuorumCert.zero
  | some (.cert qc) => some qc
  | some .malformed => none

def addQCtoBlock (block : Block) (qc : QCBytes) : Block :=
  { block with extraData := some ((block.extraData.getD ∅).insert qcKey (some qc)) }

def getLevelFromBlock (block : Block) : Option ℕ :=
  match block.header.consensusArgs with
  | .missing => some 0
  | .malformed => none
  | .args a => some a.level

def getLevelFromQc (block : Block) : Option ℕ :=
  (unmarshalQC (getQCFromBlock block)).map (·.level)

structure Validator where
  nodeID : NodeId
  index : ℕ
deriving DecidableEq

def validatorsOf (members : List (Governance.GovernanceMember NodeId)) : List Validator :=
  members.map fun m => ⟨m.nodeId, u64 m.index⟩

structure SyncInfo where
  highestQc : QuorumCert
  highestTc : Option QuorumCert

structure ProposalData where
  level : ℕ
  height : ℕ
  epochId : ℕ
  block : Block
  proposer : NodeId
  proposerIdx : ℕ
  justifyQc : QuorumCert

structure BlockPair where
  block : Block
  qc : QuorumCert

/-- The payloads that a node acts on, past the nil checks of `ValidateMessageBasicInfo`. A request
for blocks changes nothing at the node that answers it. -/
inductive ConsensusPayload
  | proposalMsg (proposalData : ProposalData) (syncInfo : SyncInfo)
  | voteMsg (voteData : VoteData) (syncInfo : SyncInfo)
  | blockFetchRespMsg (authorIdx : ℕ) (blocks : List BlockPair)

structure ConsensusMsg where
  payload : ConsensusPayload
  signEntry : Option SignEntry

inductive SignedData
  | vote (v : VoteData)
  | payload (p : ConsensusPayload)

end ChainMaker.ChainedBft
