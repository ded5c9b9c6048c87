import ChainMaker.Core.LedgerHeight

/-! The scheduler of the sync service: it asks peers for blocks and hands on what they send. -/

namespace ChainMaker.Sync
open List AList
open ChainMaker.Core (Block ProcessedBlockStatus)

inductive BlockState where
  | newBlock
  | pendingBlock
  | receivedBlock
deriving DecidableEq, Repr

structure NodeStatusMsg where
  blockHeight : UInt64
  archivedHeight : UInt64
  sender : String

/-- What a peer sends for a request; `none` where the bytes are no batch of blocks. -/
structure SyncedBlockMsg where
  batch : Option (List Block)
  sender : String

structure ReceivedBlocks where
  blks : List Block
  sender : String

structure ProcessedBlockResp where
  height : UInt64
  status : ProcessedBlockStatus
  sender : String

inductive SchedulerTask where
  | nodeStatus (msg : NodeStatusMsg)
  | liveness
  | schedule
  | syncedBlock (msg : SyncedBlockMsg)
  | processedBlockResp (msg : ProcessedBlockResp)
  | dataDetection

/-- What a handler returns as its error; the routine logs it. -/
inductive SyncError where
  | unmarshal
  | send
  /-- "query db failed in processor" -/
  | queryDb
  /-- "failed add block to chain" -/
  | addBlock
deriving DecidableEq, Repr

/-- What a task finds besides the ledger: the time, the height at the second look of
`handleNodeStatus` at the ledger, and whether a request gets out. -/
structure Moment where
  now : ℕ
  lastHeight : UInt64
  sent : Bool

structure Scheduler where
  peers : GoMap String UInt64
  blockStates : GoMap UInt64 BlockState
  pendingTime : GoMap UInt64 ℕ
  pendingBlocks : GoMap UInt64 String
  receivedBlocks : GoMap UInt64 String
  lastRequest : ℕ
  pendingRecvHeight : UInt64
  maxPendingBlocks : UInt64
  batchesizeInEachReq : UInt64
  peerReqTimeout : ℕ
  reqTimeThreshold : ℕ

def heightsFrom (first last stop : UInt64) : List UInt64 :=
  ((range' first.toNat (stop.toNat - first.toNat)).map UInt64.ofNat).takeWhile (· ≤ last)

namespace Scheduler

def newScheduler (currHeight maxNum batchesize : UInt64) (timeOut reqTimeThreshold : ℕ) :
    Scheduler where
  peers := ∅
  blockStates := ∅
  pendingTime := ∅
  pendingBlocks := ∅
  receivedBlocks := ∅
  lastRequest := 0
  pendingRecvHeight := currHeight + 1
  maxPendingBlocks := maxNum
  batchesizeInEachReq := batchesize
  peerReqTimeout := timeOut
  reqTimeThreshold := reqTimeThreshold

variable (sch : Scheduler) {sender : String} {height : UInt64} {state : BlockState} {blk : Block}

def isPeerArchivedTooHeight (localHeight peerArchivedHeight : UInt64) : Bool :=
  peerArchivedHeight ≠ 0 ∧ localHeight ≤ peerArchivedHeight

def addPendingBlocksAndUpdatePendingHeight (lastHeight peerHeight : UInt64) : Scheduler :=
  if UInt64.ofNat sch.blockStates.keys.length > sch.maxPendingBlocks then sch
  else if lastHeight ≥ peerHeight then sch
  else
    let heights := heightsFrom sch.pendingRecvHeight peerHeight
      (sch.pendingRecvHeight + sch.maxPendingBlocks)
    let add := fun (states : GoMap UInt64 BlockState) i =>
      if i ∈ states then states else states.insert i .newBlock
    { sch with blockStates := heights.foldl add sch.blockStates }

def handleNodeStatus (localHeight lastHeight : UInt64) (msg : NodeStatusMsg) : Scheduler :=
  let archived := isPeerArchivedTooHeight localHeight msg.archivedHeight
  if (sch.peers.lookup msg.sender).any fun old => old > msg.blockHeight || archived then
    { sch with peers := sch.peers.erase msg.sender }
  else if archived then sch
  else
    { sch with peers := sch.peers.insert msg.sender msg.blockHeight
      }.addPendingBlocksAndUpdatePendingHeight lastHeight msg.blockHeight

def handleDataDetection (lastHeight : UInt64) : Scheduler :=
  let old := sch.blockStates.keys.filter (· < lastHeight)
  { sch with
    blockStates := (old.foldl (fun m height => m.erase height) sch.blockStates).insert
      (lastHeight + 1) .newBlock
    pendingBlocks := old.foldl (fun m height => m.erase height) sch.pendingBlocks
    receivedBlocks := old.foldl (fun m height => m.erase height) sch.receivedBlocks
    pendingTime := old.foldl (fun m height => m.erase height) sch.pendingTime
    pendingRecvHeight := lastHeight + 1 }

def handleLivinessMsg (now : ℕ) (lastHeight : UInt64) : Scheduler :=
  match sch.pendingTime.lookup sch.pendingRecvHeight with
  | none => sch
  | some reqTime =>
    if now - reqTime > sch.peerReqTimeout then
      let id := (sch.pendingBlocks.lookup sch.pendingRecvHeight).getD ""
      { sch with
        blockStates := if lastHeight < sch.pendingRecvHeight then
          sch.blockStates.insert sch.pendingRecvHeight .newBlock else sch.blockStates
        peers := sch.peers.erase id
        pendingTime := sch.pendingTime.erase sch.pendingRecvHeight
        pendingBlocks := sch.pendingBlocks.erase sch.pendingRecvHeight }
    else sch

def maxHeight : UInt64 := sch.peers.values.foldl max 0

def isNeedSync (now : ℕ) (currHeight : UInt64) : Bool :=
  currHeight + 1 < sch.maxHeight ||
    (currHeight + 1 = sch.maxHeight && now - sch.lastRequest > sch.reqTimeThreshold)

def maxUint64 : UInt64 := UInt64.ofNat (2 ^ 64 - 1)

def nextHeightToReq : UInt64 × Scheduler :=
  let min := ((sch.blockStates.entries.filter (·.2 = .newBlock)).map (·.1)).foldl min maxUint64
  if min = maxUint64 ∨ min < sch.pendingRecvHeight then
    (maxUint64, { sch with blockStates := sch.blockStates.erase min })
  else (min, sch)

def getHeight (pendingHeight : UInt64) : List String :=
  (sch.peers.entries.filter (·.2 ≥ pendingHeight)).map (·.1)

def getPendingReqInPeer (peer : String) : ℕ := sch.pendingBlocks.values.count peer

def selectPeer (pendingHeight : UInt64) : String :=
  let peers := sch.getHeight pendingHeight
  match (peers.map sch.getPendingReqInPeer).min? with
  | none => ""
  | some min =>
    ((peers.filter fun peer => sch.getPendingReqInPeer peer = min).mergeSort
      fun a b => decide (a ≤ b)).headD ""

def handleScheduleMsg (now : ℕ) (currHeight : UInt64) (sent : Bool) :
    Except SyncError (Option ReceivedBlocks) × Scheduler :=
  if !sch.isNeedSync now currHeight then (.ok none, sch)
  else
    let next := sch.nextHeightToReq
    let sch := next.2
    if next.1 = maxUint64 then (.ok none, sch)
    else
      let peer := sch.selectPeer next.1
      if peer = "" then (.ok none, sch)
      else
        let heights := heightsFrom next.1 ((sch.peers.lookup peer).getD 0)
          (sch.batchesizeInEachReq + next.1)
        (if sent then .ok none else .error .send,
          { sch with
            lastRequest := now
            blockStates := heights.foldl (fun m i => m.insert i .pendingBlock) sch.blockStates
            pendingTime := heights.foldl (fun m i => m.insert i now) sch.pendingTime
            pendingBlocks := heights.foldl (fun m i => m.insert i peer) sch.pendingBlocks })

def receive (sender : String) (blk : Block) : Scheduler :=
  let height := blk.header.blockHeight
  let sch := { sch with
    pendingBlocks := sch.pendingBlocks.erase height, pendingTime := sch.pendingTime.erase height }
  if height ∈ sch.blockStates then
    { sch with
      blockStates := sch.blockStates.insert height .receivedBlock
      receivedBlocks := sch.receivedBlocks.insert height sender }
  else sch

def handleSyncedBlockMsg (msg : SyncedBlockMsg) :
    Except SyncError (Option ReceivedBlocks) × Scheduler :=
  match msg.batch with
  | none => (.error .unmarshal, sch)
  | some blks =>
    let needToProcess := blks.any fun blk => decide (blk.header.blockHeight ∈ sch.blockStates)
    (.ok (if needToProcess then some ⟨blks, msg.sender⟩ else none),
      blks.foldl (fun sch blk => sch.receive msg.sender blk) sch)

def handleProcessedBlockResp (msg : ProcessedBlockResp) :
    Except SyncError (Option ReceivedBlocks) × Scheduler :=
  let sch := { sch with receivedBlocks := sch.receivedBlocks.erase msg.height }
  let again := { sch with
    blockStates := sch.blockStates.insert msg.height .newBlock
    peers := sch.peers.erase msg.sender }
  match msg.status with
  | .ok | .hasProcessed =>
    (.ok none, { sch with
      blockStates := sch.blockStates.erase msg.height
      pendingRecvHeight :=
        if msg.height ≥ sch.pendingRecvHeight then msg.height + 1 else sch.pendingRecvHeight })
  | .validateFailed => (.ok none, again)
  | .dbErr => (.error .queryDb, sch)
  | .addErr => (.error .addBlock, again)

def handler (m : Moment) (height : UInt64) (task : SchedulerTask) :
    Except SyncError (Option ReceivedBlocks) × Scheduler :=
  match task with
  | .nodeStatus msg => (.ok none, sch.handleNodeStatus height m.lastHeight msg)
  | .liveness => (.ok none, sch.handleLivinessMsg m.now height)
  | .schedule => sch.handleScheduleMsg m.now height m.sent
  | .syncedBlock msg => sch.handleSyncedBlockMsg msg
  | .processedBlockResp msg => sch.handleProcessedBlockResp msg
  | .dataDetection => (.ok none, sch.handleDataDetection height)

/-! ### Which heights have a received block -/

def Fewer (states states' : GoMap UInt64 BlockState) : Prop :=
  ∀ height, states'.lookup height = some .receivedBlock → states.lookup height = some .receivedBlock

def Receives (sch : Scheduler) (out : Option ReceivedBlocks) (sch' : Scheduler) : Prop :=
  ∀ height, sch'.blockStates.lookup height = some .receivedBlock →
    sch.blockStates.lookup height = some .receivedBlock ∨
      ∃ msg ∈ out, ∃ blk ∈ msg.blks, blk.header.blockHeight = height

def outOf {α : Type} : Except SyncError (Option α) → Option α
  | .ok out => out
  | .error _ => none

variable {sch} {sch' : Scheduler}

lemma receives_of_fewer {out : Option ReceivedBlocks}
    (h : Fewer sch.blockStates sch'.blockStates) : Receives sch out sch' :=
  fun height hheight => .inl (h height hheight)

variable {height : UInt64}

lemma lookup_track (ks : List UInt64) (m : GoMap UInt64 BlockState) :
    (ks.foldl (fun m i => if i ∈ m then m else m.insert i .newBlock) m).lookup height =
      if height ∈ ks ∧ height ∉ m then some .newBlock else m.lookup height := by
  induction ks generalizing m with
  | nil => simp
  | cons x ks ih => grind [GoMap.lookup_insert_ite, mem_insert]

lemma mem_heightsFrom {first last stop : UInt64} (h : height ∈ heightsFrom first last stop) :
    first ≤ height := by
  obtain ⟨i, hi, rfl⟩ := mem_map.mp (takeWhile_subset _ h)
  have hrange := mem_range'_1.mp hi
  have hstop := stop.toNat_lt
  rw [UInt64.le_iff_toNat_le, UInt64.toNat_ofNat_of_lt' (show i < 2 ^ 64 by omega)]
  omega

/-- What `handleScheduleMsg` does: nothing, it drops a height, or it asks for some from the lowest
new one on. -/
inductive Requests (sch : Scheduler) : Scheduler → Prop
  | none : Requests sch sch
  | drop {first : UInt64}
      (hfirst : first = maxUint64 ∨ sch.blockStates.lookup first = some .newBlock) :
      Requests sch { sch with blockStates := sch.blockStates.erase first }
  | ask {first : UInt64} {heights : List UInt64} {now : ℕ} {peer : String}
      (hfirst : sch.blockStates.lookup first = some .newBlock)
        (hheights : ∀ h ∈ heights, first ≤ h) :
      Requests sch { sch with
        lastRequest := now
        blockStates := heights.foldl (fun m i => m.insert i .pendingBlock) sch.blockStates
        pendingTime := heights.foldl (fun m i => m.insert i now) sch.pendingTime
        pendingBlocks := heights.foldl (fun m i => m.insert i peer) sch.pendingBlocks }

lemma requests_handleScheduleMsg (now : ℕ) (currHeight : UInt64) (sent : Bool) :
    sch.Requests (sch.handleScheduleMsg now currHeight sent).2 := by
  have hmin : ∀ l : List UInt64, l.foldl min maxUint64 ∈ maxUint64 :: l := fun l => min?_mem rfl
  specialize hmin ((sch.blockStates.entries.filter (·.2 = .newBlock)).map (·.1))
  unfold handleScheduleMsg nextHeightToReq
  generalize foldl min maxUint64 _ = first at hmin
  have hnew : first = maxUint64 ∨ sch.blockStates.lookup first = some .newBlock := by
    refine (mem_cons.mp hmin).imp_right fun hmem => ?_
    obtain ⟨⟨_, _⟩, he, rfl⟩ := mem_map.mp hmem
    obtain ⟨he, hstate⟩ := mem_filter.mp he
    exact of_decide_eq_true hstate ▸ GoMap.mem_entries.mp he
  split
  · exact .none
  by_cases hnone : first = maxUint64 ∨ first < sch.pendingRecvHeight
  · rw [if_pos hnone]
    exact .drop hnew
  rw [if_neg hnone]
  have hfirst := hnew.resolve_left (not_or.mp hnone).1
  dsimp only
  split
  · exact .none
  split
  · exact .none
  · exact .ask hfirst fun _ => mem_heightsFrom

lemma fewer_handleNodeStatus (localHeight lastHeight : UInt64) (msg : NodeStatusMsg) :
    Fewer sch.blockStates (sch.handleNodeStatus localHeight lastHeight msg).blockStates := by
  unfold Fewer handleNodeStatus addPendingBlocksAndUpdatePendingHeight
  split_ifs <;> grind [lookup_track]

lemma fewer_handleLivinessMsg (now : ℕ) (lastHeight : UInt64) :
    Fewer sch.blockStates (sch.handleLivinessMsg now lastHeight).blockStates := by
  unfold Fewer handleLivinessMsg
  grind [GoMap.lookup_insert_ite]

lemma fewer_handleDataDetection (lastHeight : UInt64) :
    Fewer sch.blockStates (sch.handleDataDetection lastHeight).blockStates := by
  unfold Fewer handleDataDetection
  grind [GoMap.lookup_insert_ite, GoMap.lookup_foldl_erase]

lemma fewer_handleScheduleMsg (now : ℕ) (currHeight : UInt64) (sent : Bool) :
    Fewer sch.blockStates (sch.handleScheduleMsg now currHeight sent).2.blockStates := by
  have hrequests : sch.Requests (sch.handleScheduleMsg now currHeight sent).2 :=
    requests_handleScheduleMsg now currHeight sent
  generalize (sch.handleScheduleMsg now currHeight sent).2 = sch' at hrequests ⊢
  unfold Fewer
  cases hrequests with
  | none => exact fun _ => id
  | drop hfirst => grind [lookup_erase, lookup_erase_ne]
  | ask hfirst hheights =>
    simp only [GoMap.lookup_foldl_insert_const]
    grind

lemma fewer_handleProcessedBlockResp (msg : ProcessedBlockResp) :
    Fewer sch.blockStates (sch.handleProcessedBlockResp msg).2.blockStates := by
  unfold Fewer handleProcessedBlockResp
  cases msg.status <;> grind [lookup_erase, lookup_erase_ne, GoMap.lookup_insert_ite]

lemma lookup_handleProcessedBlockResp {msg : ProcessedBlockResp} (hmsg : msg.status ≠ .dbErr) :
    (sch.handleProcessedBlockResp msg).2.blockStates.lookup msg.height ≠ some .receivedBlock := by
  unfold handleProcessedBlockResp
  cases hstatus : msg.status with
  | ok | hasProcessed =>
    rw [lookup_erase]
    nofun
  | validateFailed | addErr =>
    rw [lookup_insert]
    nofun
  | dbErr => exact absurd hstatus hmsg

lemma mem_receive (h : height ∈ (sch.receive sender blk).blockStates) :
    height ∈ sch.blockStates := by
  unfold receive at h
  dsimp only at h
  split at h
  · next hmem =>
    obtain rfl | h := (mem_insert _).mp h
    · exact hmem
    · exact h
  · exact h

lemma lookup_receive (h : (sch.receive sender blk).blockStates.lookup height = some state) :
    sch.blockStates.lookup height = some state ∨ height ∈ sch.blockStates ∧
      blk.header.blockHeight = height := by
  have hmem : height ∈ sch.blockStates := by
    refine mem_receive (lookup_isSome.mp (Option.isSome_of_mem h))
  by_cases heq : blk.header.blockHeight = height
  · exact .inr ⟨hmem, heq⟩
  unfold receive at h
  dsimp only at h
  split at h
  · exact .inl (by rwa [lookup_insert_ne (Ne.symm heq)] at h)
  · exact .inl h

lemma lookup_foldl_receive {blks : List Block}
    (h : (blks.foldl (fun sch blk => sch.receive sender blk) sch).blockStates.lookup height =
      some state) : sch.blockStates.lookup height = some state ∨
      height ∈ sch.blockStates ∧ ∃ blk ∈ blks, blk.header.blockHeight = height := by
  induction blks generalizing sch with
  | nil => exact .inl h
  | cons blk blks ih =>
    obtain hbefore | ⟨hmem, blk', hblk', hheight⟩ := ih h
    · obtain hbefore | ⟨hmem, hheight⟩ := lookup_receive hbefore
      · exact .inl hbefore
      · exact .inr ⟨hmem, blk, mem_cons_self, hheight⟩
    · exact .inr ⟨mem_receive hmem, blk', mem_cons_of_mem _ hblk', hheight⟩

lemma receives_handleSyncedBlockMsg (msg : SyncedBlockMsg) :
    Receives sch (outOf (sch.handleSyncedBlockMsg msg).1) (sch.handleSyncedBlockMsg msg).2 := by
  unfold handleSyncedBlockMsg
  cases msg.batch with
  | none => exact receives_of_fewer fun _ => id
  | some blks =>
    intro height hheight
    obtain hbefore | ⟨hmem, blk, hblk, rfl⟩ := lookup_foldl_receive hheight
    · exact .inl hbefore
    have hneed : (blks.any fun blk => decide (blk.header.blockHeight ∈ sch.blockStates)) = true :=
      any_eq_true.mpr ⟨blk, hblk, decide_eq_true hmem⟩
    refine .inr ⟨⟨blks, msg.sender⟩, ?_, blk, hblk, rfl⟩
    dsimp only [outOf]
    rw [hneed, if_pos rfl]
    rfl

lemma receives_handler (m : Moment) (height : UInt64) (task : SchedulerTask) :
    Receives sch (outOf (sch.handler m height task).1) (sch.handler m height task).2 := by
  cases task with
  | nodeStatus msg => exact receives_of_fewer (fewer_handleNodeStatus height m.lastHeight msg)
  | liveness => exact receives_of_fewer (fewer_handleLivinessMsg m.now height)
  | schedule => exact receives_of_fewer (fewer_handleScheduleMsg m.now height m.sent)
  | syncedBlock msg => exact receives_handleSyncedBlockMsg msg
  | processedBlockResp msg => exact receives_of_fewer (fewer_handleProcessedBlockResp msg)
  | dataDetection => exact receives_of_fewer (fewer_handleDataDetection height)

end Scheduler
end ChainMaker.Sync
