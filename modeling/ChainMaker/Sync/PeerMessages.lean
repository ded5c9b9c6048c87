import ChainMaker.Sync.Server

/-! What the bytes of a peer make the sync service do: the handler answers or queues a task, the
scheduler decodes the payload of the task, and the processor takes the blocks. -/

namespace ChainMaker.Sync
open List
open ChainMaker.Core (Block)

inductive MsgType where
  | nodeStatusReq
  | nodeStatusResp
  | blockSyncReq
  | blockSyncResp
  | unknown (type : ℤ)
deriving DecidableEq

structure SyncMsg where
  type : MsgType
  payload : Bytes

structure BlockHeightBCM where
  blockHeight : UInt64
  archivedHeight : UInt64

structure BlockSyncReq where
  blockHeight : UInt64
  batchSize : UInt64
  withRwset : Bool

/-- The oneof in a `SyncBlockBatch`. A block of a batch is `none` where its header is missing. -/
inductive BatchData where
  | blockBatch (batches : List (Option Block))
  | blockinfoBatch

/-- What `proto.Unmarshal` makes of bytes, `none` for an error; a `SyncBlockBatch` may come without
data. -/
structure Codec where
  syncMsg : Bytes → Option SyncMsg
  blockHeightBCM : Bytes → Option BlockHeightBCM
  blockSyncReq : Bytes → Option BlockSyncReq
  syncBlockBatch : Bytes → Option (Option BatchData)

inductive PeerError where
  | serviceHasStoped
  | unmarshal
  | currentHeight
  | store
  | send
  | notSupport (type : MsgType)

/-- What the handler finds of the node: the store's two lookups give `none` for an error and
`some false` for a height without block. -/
structure Host where
  started : Bool
  currentHeight : Option UInt64
  getBlock : UInt64 → Option Bool
  getBlockWithRWSets : UInt64 → Option Bool
  sendMsg : MsgType → UInt64 → Bool

inductive PeerTask where
  | nodeStatus (msg : NodeStatusMsg)
  | syncedBlock (payload : Bytes) (sender : String)

section handler
variable (codec : Codec) (host : Host)

def sendFrom (get : UInt64 → Option Bool) : ℕ → UInt64 → Except PeerError Unit
  | 0, _ => .ok ()
  | n + 1, height =>
    match get height with
    | none => .error .store
    | some false => .ok ()
    | some true =>
      if host.sendMsg .blockSyncResp height then sendFrom get n (height + 1) else .error .send

def sendBlocks (req : BlockSyncReq) : Except PeerError Unit :=
  sendFrom host host.getBlock req.batchSize.toNat req.blockHeight

def sendInfos (req : BlockSyncReq) : Except PeerError Unit :=
  sendFrom host host.getBlockWithRWSets req.batchSize.toNat req.blockHeight

def handleNodeStatusReq : Except PeerError Unit :=
  match host.currentHeight with
  | none => .error .currentHeight
  | some height => if host.sendMsg .nodeStatusResp height then .ok () else .error .send

def handleBlockReq (payload : Bytes) : Except PeerError Unit :=
  match codec.blockSyncReq payload with
  | none => .error .unmarshal
  | some req => if req.withRwset then sendInfos host req else sendBlocks host req

/-- The task that a message of type `SYNC_BLOCK_MSG` gives the scheduler. -/
def blockSyncMsgHandler (sender : String) (msg : Bytes) : Except PeerError (Option PeerTask) :=
  if !host.started then .error .serviceHasStoped
  else
    match codec.syncMsg msg with
    | none => .error .unmarshal
    | some syncMsg =>
      match syncMsg.type with
      | .nodeStatusReq => (handleNodeStatusReq host).map fun _ => none
      | .nodeStatusResp =>
        match codec.blockHeightBCM syncMsg.payload with
        | none => .error .unmarshal
        | some bcm => .ok (some (.nodeStatus ⟨bcm.blockHeight, bcm.archivedHeight, sender⟩))
      | .blockSyncReq => (handleBlockReq codec host syncMsg.payload).map fun _ => none
      | .blockSyncResp => .ok (some (.syncedBlock syncMsg.payload sender))
      | .unknown type => .error (.notSupport (.unknown type))

/-- The scheduler's handler on the bytes of a peer. It panics (`none`) where `GetBlockBatch` gives
no batch to read, and at a block without header; a panic ends the process with all it has done
before. -/
def PeerTask.handle (sch : Scheduler) (m : Moment) (height : UInt64) :
    PeerTask → Option (Except SyncError (Option ReceivedBlocks) × Scheduler)
  | .nodeStatus msg => some (sch.handler m height (.nodeStatus msg))
  | .syncedBlock payload sender =>
    match codec.syncBlockBatch payload with
    | none => some (sch.handler m height (.syncedBlock ⟨none, sender⟩))
    | some (some (.blockBatch batches)) =>
      (batches.mapM id).map fun blks => sch.handler m height (.syncedBlock ⟨some blks, sender⟩)
    | some (some .blockinfoBatch) | some none => none

/-- A message on its way through the handler, the scheduler and the processor, each in the state
that its turn finds. -/
def deliver (sender : String) (msg : Bytes) (sch : Scheduler) (m : Moment) (height : UInt64)
    (pro : Processor) (lastCommitBlockHeight : UInt64) : Option (Scheduler × Processor) :=
  match blockSyncMsgHandler codec host sender msg with
  | .error _ | .ok none => some (sch, pro)
  | .ok (some task) => (task.handle codec sch m height).map fun handled =>
      (handled.2, (Scheduler.outOf handled.1).elim pro
        (pro.handleReceivedBlocks lastCommitBlockHeight))

end handler

variable {codec : Codec} {host : Host} {sender : String} {msg : Bytes}
  {sch : Scheduler} {m : Moment}
variable {height lastCommitBlockHeight : UInt64} {pro : Processor}

/-- The bytes are no `SyncBlockBatch`, or a batch of blocks that all have a header. -/
def Codec.Readable (codec : Codec) (payload : Bytes) : Prop :=
  ∀ data, codec.syncBlockBatch payload = some data →
    ∃ blks : List Block, data = some (.blockBatch (blks.map some))

lemma handle_syncedBlock_isSome {payload : Bytes} :
    ((PeerTask.syncedBlock payload sender).handle codec sch m height).isSome ↔
      codec.Readable payload := by
  unfold PeerTask.handle Codec.Readable
  dsimp only
  cases codec.syncBlockBatch payload with
  | none => simp
  | some data =>
    obtain _ | batches | _ := data
    · simp
    · simp [Option.isSome_iff_exists (x := batches.mapM id), mapM_eq_some_iff]
    · simp

theorem deliver_isSome_iff :
    (deliver codec host sender msg sch m height pro lastCommitBlockHeight).isSome ↔
      (host.started = true → ∀ payload, codec.syncMsg msg = some ⟨.blockSyncResp, payload⟩ →
        codec.Readable payload) := by
  unfold deliver blockSyncMsgHandler
  cases host.started with
  | false => simp
  | true =>
    cases codec.syncMsg msg with
    | none => simp
    | some syncMsg =>
      obtain ⟨type, payload⟩ := syncMsg
      dsimp only
      cases type with
      | blockSyncResp => simp [handle_syncedBlock_isSome]
      | nodeStatusReq => cases handleNodeStatusReq host <;> simp [Except.map]
      | nodeStatusResp => cases codec.blockHeightBCM payload <;> simp [PeerTask.handle]
      | blockSyncReq => cases handleBlockReq codec host payload <;> simp [Except.map]
      | unknown type => simp

/-- An answer without payload decodes to a `SyncBlockBatch` without data. -/
theorem deliver_panics :
    deliver
      { syncMsg := fun msg => if msg = [8, 3] then some ⟨.blockSyncResp, []⟩ else none
        blockHeightBCM := fun _ => none
        blockSyncReq := fun _ => none
        syncBlockBatch := fun payload => if payload = [] then some none else none }
      ⟨true, some 0, fun _ => none, fun _ => none, fun _ _ => true⟩ "peer" [8, 3]
      (.newScheduler 0 10 5 3 3) ⟨0, 0, true⟩ 0 .newProcessor 0 = none := rfl

end ChainMaker.Sync
