import ChainMaker.Ac.CertOrganizations
import ChainMaker.Ac.KeyHistory
import ChainMaker.Ac.PublicMajority
import ChainMaker.ChainedBft.Coordinates
import ChainMaker.ChainedBft.Counters
import ChainMaker.ChainedBft.HighestCert
import ChainMaker.ChainedBft.LockRules
import ChainMaker.ChainedBft.VoteLocks
import ChainMaker.ChainedBft.VoteOrder
import ChainMaker.Core.CutBlocks
import ChainMaker.Core.Duplicates
import ChainMaker.Core.HandOff
import ChainMaker.Core.SelfProposed
import ChainMaker.Core.StoredState
import ChainMaker.Core.SyncCertificate
import ChainMaker.Dpos.Election
import ChainMaker.Dpos.EpochWrites
import ChainMaker.Governance.Members
import ChainMaker.Raft.Applying
import ChainMaker.Rpc.CallDepth
import ChainMaker.Rpc.Subscription
import ChainMaker.Scheduler.Completion
import ChainMaker.Scheduler.DagQueue
import ChainMaker.Scheduler.FinishSignal
import ChainMaker.Scheduler.SnapshotChain
import ChainMaker.Scheduler.SnapshotLocks
import ChainMaker.Snapshot.Pipeline
import ChainMaker.Sync.Bookkeeping
import ChainMaker.Sync.Commits
import ChainMaker.Sync.PeerMessages
import ChainMaker.Tbft.CommitCertificate
import ChainMaker.Tbft.CommitOnce
import ChainMaker.Tbft.DecodingOrder
import ChainMaker.Tbft.DposReplay
import ChainMaker.Tbft.Proposals
import ChainMaker.Tbft.Relay
import ChainMaker.Tbft.TimeSched
