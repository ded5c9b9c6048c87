import ChainMaker.Sync.Scheduler

/-! The processor of the sync service, and the service as a whole: two routines, each with its tasks
and an unbuffered channel for what its handler returns, the loop that carries the one's results to
the other, and the core engine, in which consensus commits blocks at any time. -/

namespace ChainMaker.Sync
open Option
open ChainMaker.Core (Block Committer CoreEngine CoreError Env ProcessedBlockStatus Turn)

structure BlockWithPeerInfo where
  id : String
  blk : Block

inductive ProcessorTask where
  | receivedBlocks (msg : ReceivedBlocks)
  | processBlock
  | dataDetection

structure Processor where
  queue : GoMap UInt64 BlockWithPeerInfo
  hasCommitBlock : UInt64

namespace Processor

def newProcessor : Processor := ⟨∅, 0⟩

variable (pro : Processor)

def enqueue (lastCommitBlockHeight : UInt64) (sender : String) (blk : Block) : Processor :=
  if blk.header.blockHeight ≤ lastCommitBlockHeight then pro
  else if blk.header.blockHeight ∈ pro.queue then pro
  else { pro with queue := pro.queue.insert blk.header.blockHeight ⟨sender, blk⟩ }

def handleReceivedBlocks (lastCommitBlockHeight : UInt64) (msg : ReceivedBlocks) : Processor :=
  msg.blks.foldl (fun pro blk => pro.enqueue lastCommitBlockHeight msg.sender blk) pro

def handleDataDetection (lastCommitBlockHeight : UInt64) : Processor :=
  let old := pro.queue.keys.filter (· < lastCommitBlockHeight + 1)
  { pro with queue := old.foldl (fun m height => m.erase height) pro.queue }

def processed (pendingBlockHeight : UInt64) (status : ProcessedBlockStatus) : Processor where
  queue := pro.queue.erase pendingBlockHeight
  hasCommitBlock :=
    if status = .ok ∨ status = .hasProcessed then pro.hasCommitBlock + 1 else pro.hasCommitBlock

end Processor

/-- What `handleProcessBlockMsg` does next with the block it has found: `validateAndCommitBlock`
looks at the ledger, verifies the block, and adds it. -/
inductive TaskStage where
  | check
  | verify
  | add
  | adding
deriving DecidableEq, Repr

structure Processing where
  pendingBlockHeight : UInt64
  info : BlockWithPeerInfo
  block : ℕ
  stage : TaskStage

/-- What the processor has done that matters outside: the height it read for a task, the answers of
`VerifyBlock`, and the blocks it handed to `AddBlock`. -/
inductive Act where
  | read (height : UInt64)
  | verified (block : ℕ) (res : Except CoreError Unit)
  | addBlock (block : ℕ) (height : UInt64)
deriving DecidableEq

structure Server (φ : Type) where
  committer : Committer φ
  scheduler : Scheduler
  processor : Processor
  schedulerTasks : List SchedulerTask
  processorTasks : List ProcessorTask
  schedulerOut : Option ReceivedBlocks
  processorOut : Option ProcessedBlockResp
  processing : Option Processing
  acts : List Act

inductive Ticker where
  | processBlock
  | schedule
  | liveness
  | dataDetect
deriving DecidableEq, Repr

inductive Event (φ : Type) where
  | core (t : Turn φ)
  | tick (ticker : Ticker)
  | nodeStatusResp (msg : NodeStatusMsg)
  | blockSyncResp (msg : SyncedBlockMsg)
  | schedule (k : ℕ) (m : Moment)
  | process (k : ℕ)
  /-- The processor goes on with its block. What `VerifyBlock` answers, if that is the step, is left
  open; what it does to the proposal cache are turns of the core engine. -/
  | work (verified : Except CoreError Unit)
  | carryBlocks
  | carryResp

namespace Server
variable {φ : Type} [DecidableEq φ] (env : Env φ) (s : Server φ)

def start (lastBlock : Block) (maxNum batchesize : UInt64) (timeOut reqTimeThreshold : ℕ) :
    Server φ where
  committer := Committer.start (CoreEngine.start lastBlock)
  scheduler := Scheduler.newScheduler lastBlock.header.blockHeight maxNum batchesize timeOut
    reqTimeThreshold
  processor := Processor.newProcessor
  schedulerTasks := []
  processorTasks := []
  schedulerOut := none
  processorOut := none
  processing := none
  acts := []

def tick : Ticker → Server φ
  | .processBlock => { s with processorTasks := .processBlock :: s.processorTasks }
  | .schedule => { s with schedulerTasks := .schedule :: s.schedulerTasks }
  | .liveness => { s with schedulerTasks := .liveness :: s.schedulerTasks }
  | .dataDetect => { s with
      processorTasks := .dataDetection :: s.processorTasks
      schedulerTasks := .dataDetection :: s.schedulerTasks }

def schedule (m : Moment) (height : UInt64) (task : SchedulerTask) (rest : List SchedulerTask) :
    Server φ :=
  let handled := s.scheduler.handler m height task
  { s with
    scheduler := handled.2, schedulerTasks := rest, schedulerOut := Scheduler.outOf handled.1 }

def handleProcessBlockMsg (lastCommitBlockHeight : UInt64) : Server φ :=
  let pendingBlockHeight := lastCommitBlockHeight + 1
  match s.processor.queue.lookup pendingBlockHeight with
  | none => { s with acts := .read lastCommitBlockHeight :: s.acts }
  | some info =>
    let heap := s.committer.engine.heap
    { s with
      acts := .read lastCommitBlockHeight :: s.acts
      committer := { s.committer with
        engine := { s.committer.engine with heap := heap.alloc info.blk } }
      processing := some ⟨pendingBlockHeight, info, heap.next, .check⟩ }

def process (height : UInt64) (task : ProcessorTask) (rest : List ProcessorTask) : Server φ :=
  let s := { s with processorTasks := rest }
  match task with
  | .receivedBlocks msg => { s with processor := s.processor.handleReceivedBlocks height msg }
  | .processBlock => s.handleProcessBlockMsg height
  | .dataDetection => { s with processor := s.processor.handleDataDetection height }

def goTo (t : Processing) (stage : TaskStage) : Server φ :=
  { s with processing := some { t with stage } }

def finish (t : Processing) (status : ProcessedBlockStatus) : Option (Server φ) :=
  (s.committer.engine.heap.heightOf t.block).map fun height =>
    { s with
      processor := s.processor.processed t.pendingBlockHeight status
      processorOut := some ⟨height, status, t.info.id⟩
      processing := none }

def statusOf (failed : ProcessedBlockStatus) : CoreError → ProcessedBlockStatus
  | .blockHadBeenCommited => .hasProcessed
  | _ => failed

def work (verified : Except CoreError Unit) (t : Processing) : Option (Server φ) :=
  match t.stage with
  | .check =>
    (s.committer.engine.heap.heightOf t.block).bind fun height =>
      if s.committer.engine.currentHeight.any (· ≥ height) then s.finish t .hasProcessed
      else some (s.goTo t .verify)
  | .verify =>
    let s := { s with acts := .verified t.block verified :: s.acts }
    match verified with
    | .error e => s.finish t (statusOf .validateFailed e)
    | .ok () => some (s.goTo t .add)
  | .add =>
    (s.committer.engine.heap.heightOf t.block).bind fun height =>
      (s.committer.step env (.call .sync t.block)).map fun committer =>
        { s with committer, acts := .addBlock t.block height :: s.acts }.goTo t .adding
  | .adding =>
    -- The call has returned once another one or none has the lock.
    if s.committer.holder.any (·.caller = .sync) then none
    else
      match s.committer.returned.find? (·.1 = .sync) with
      | none => none
      | some (_, _, .error e) => s.finish t (statusOf .addErr e)
      | some (_, _, .ok ()) => s.finish t .ok

def step (e : Event φ) : Option (Server φ) :=
  match e with
  | .core (.call .sync _) => none
  | .core t => (s.committer.step env t).map fun committer => { s with committer }
  | .tick ticker => some (s.tick ticker)
  | .nodeStatusResp msg => some { s with schedulerTasks := .nodeStatus msg :: s.schedulerTasks }
  | .blockSyncResp msg => some { s with schedulerTasks := .syncedBlock msg :: s.schedulerTasks }
  | .schedule k m =>
    match s.schedulerOut, s.committer.engine.currentHeight, s.schedulerTasks[k]? with
    | none, some height, some task => some (s.schedule m height task (s.schedulerTasks.eraseIdx k))
    | _, _, _ => none
  | .process k =>
    match s.processorOut, s.processing, s.committer.engine.currentHeight, s.processorTasks[k]? with
    | none, none, some height, some task =>
      some (s.process height task (s.processorTasks.eraseIdx k))
    | _, _, _, _ => none
  | .work verified => s.processing.bind (s.work env verified)
  | .carryBlocks => s.schedulerOut.map fun msg =>
      { s with schedulerOut := none, processorTasks := .receivedBlocks msg :: s.processorTasks }
  | .carryResp => s.processorOut.map fun msg =>
      { s with processorOut := none, schedulerTasks := .processedBlockResp msg :: s.schedulerTasks }

/-! ### What an event does -/

variable {env s} {s' : Server φ} {t : Processing} {verified : Except CoreError Unit}

inductive Works (env : Env φ) (s : Server φ) (verified : Except CoreError Unit) (t : Processing) :
    Server φ → Prop
  | checked (hstage : t.stage = .check) : Works env s verified t (s.goTo t .verify)
  | verified (hstage : t.stage = .verify) (hok : verified = .ok ()) :
      Works env s verified t ({ s with acts := .verified t.block verified :: s.acts }.goTo t .add)
  | called {height : UInt64} {committer : Committer φ} (hstage : t.stage = .add)
      (hheight : s.committer.engine.heap.heightOf t.block = some height)
      (hcall : s.committer.step env (.call .sync t.block) = some committer) :
      Works env s verified t
        ({ s with committer, acts := .addBlock t.block height :: s.acts }.goTo t .adding)
  | finished {acts : List Act} {status : ProcessedBlockStatus} {s' : Server φ}
      (hacts : acts = s.acts ∨ acts = .verified t.block verified :: s.acts)
        (hstatus : status ≠ .dbErr)
      (h : { s with acts }.finish t status = some s') : Works env s verified t s'

lemma statusOf_ne_dbErr {failed : ProcessedBlockStatus} (h : failed ≠ .dbErr) (e : CoreError) :
    statusOf failed e ≠ .dbErr := by
  unfold statusOf
  split
  · nofun
  · exact h

lemma works_of_work (h : s.work env verified t = some s') : Works env s verified t s' := by
  unfold work at h
  cases hstage : t.stage with
  | check =>
    rw [hstage] at h
    obtain ⟨height, hheight, h⟩ := bind_eq_some_iff.mp h
    split at h
    · exact .finished (.inl rfl) (by decide) h
    cases h
    exact .checked hstage
  | verify =>
    rw [hstage] at h
    cases hverified : verified with
    | error e =>
      rw [hverified] at h
      exact .finished (.inr rfl) (statusOf_ne_dbErr (by decide) e) h
    | ok u =>
      rw [hverified] at h
      cases h
      exact .verified hstage rfl
  | add =>
    rw [hstage] at h
    obtain ⟨height, hheight, h⟩ := bind_eq_some_iff.mp h
    obtain ⟨committer, hcall, rfl⟩ := map_eq_some_iff.mp h
    exact .called hstage hheight hcall
  | adding =>
    rw [hstage] at h
    dsimp only at h
    split at h
    · cases h
    split at h
    · cases h
    · exact .finished (.inl rfl) (statusOf_ne_dbErr (by decide) _) h
    · exact .finished (.inl rfl) (by decide) h

inductive Moves (env : Env φ) (s : Server φ) : Event φ → Server φ → Prop
  | core {t : Turn φ} {committer : Committer φ} (h : s.committer.step env t = some committer) :
      Moves env s (.core t) { s with committer }
  | tick (ticker : Ticker) : Moves env s (.tick ticker) (s.tick ticker)
  | nodeStatusResp (msg : NodeStatusMsg) :
      Moves env s (.nodeStatusResp msg) { s with
        schedulerTasks := .nodeStatus msg :: s.schedulerTasks }
  | blockSyncResp (msg : SyncedBlockMsg) :
      Moves env s (.blockSyncResp msg) { s with
        schedulerTasks := .syncedBlock msg :: s.schedulerTasks }
  | schedule {k : ℕ} {m : Moment} {height : UInt64} {task : SchedulerTask}
      (hout : s.schedulerOut = none) (hheight : s.committer.engine.currentHeight = some height)
      (htask : s.schedulerTasks[k]? = some task) :
      Moves env s (.schedule k m) (s.schedule m height task (s.schedulerTasks.eraseIdx k))
  | process {k : ℕ} {height : UInt64} {task : ProcessorTask} (hout : s.processorOut = none)
      (hidle : s.processing = none) (hheight : s.committer.engine.currentHeight = some height)
      (htask : s.processorTasks[k]? = some task) :
      Moves env s (.process k) (s.process height task (s.processorTasks.eraseIdx k))
  | work {verified : Except CoreError Unit} {t : Processing} {s' : Server φ}
      (ht : s.processing = some t) (h : Works env s verified t s') : Moves env s (.work verified) s'
  | carryBlocks {msg : ReceivedBlocks} (h : s.schedulerOut = some msg) :
      Moves env s .carryBlocks
        { s with schedulerOut := none, processorTasks := .receivedBlocks msg :: s.processorTasks }
  | carryResp {msg : ProcessedBlockResp} (h : s.processorOut = some msg) :
      Moves env s .carryResp
        { s with
          processorOut := none, schedulerTasks := .processedBlockResp msg :: s.schedulerTasks }

lemma moves_of_step {e : Event φ} (h : s.step env e = some s') : Moves env s e s' := by
  cases e with
  | core t =>
    have hcore : (s.committer.step env t).map
        (fun committer => { s with committer }) = some s' := by
      cases t with
      | call caller r =>
        cases caller with
        | consensus => exact h
        | sync => cases h
      | receive | sign | attach | changeCache | next => exact h
    obtain ⟨committer, hcommitter, rfl⟩ := map_eq_some_iff.mp hcore
    exact .core hcommitter
  | tick ticker => exact some.inj h ▸ .tick ticker
  | nodeStatusResp msg => exact some.inj h ▸ .nodeStatusResp msg
  | blockSyncResp msg => exact some.inj h ▸ .blockSyncResp msg
  | schedule k m =>
    unfold step at h
    dsimp only at h
    split at h
    · next height task hout hheight htask => exact some.inj h ▸ .schedule hout hheight htask
    · cases h
  | process k =>
    unfold step at h
    dsimp only at h
    split at h
    · next height task hout hidle hheight htask =>
      exact some.inj h ▸ .process hout hidle hheight htask
    · cases h
  | work verified =>
    obtain ⟨t, ht, h⟩ := bind_eq_some_iff.mp h
    exact .work ht (works_of_work h)
  | carryBlocks =>
    obtain ⟨msg, hmsg, rfl⟩ := map_eq_some_iff.mp h
    exact .carryBlocks hmsg
  | carryResp =>
    obtain ⟨msg, hmsg, rfl⟩ := map_eq_some_iff.mp h
    exact .carryResp hmsg

end Server
end ChainMaker.Sync
