import ChainMaker.Sync.Server

/-! Sync loses no block: a height the scheduler has as received is in the processor's queue, or in a
message between the two, until the ledger has passed it. -/

namespace ChainMaker.Sync
open Option List
open ChainMaker.Core (Block Committer Env ProcessedBlockStatus)

lemma mem_eraseIdx_of_ne {α : Type} {l : List α} {k : ℕ} {a b : α} (ha : a ∈ l)
    (hb : l[k]? = some b) (hne : a ≠ b) : a ∈ l.eraseIdx k := by
  obtain ⟨i, hi, rfl⟩ := mem_iff_getElem.mp ha
  refine mem_eraseIdx_iff_getElem.mpr ⟨i, hi, ?_, rfl⟩
  rintro rfl
  rw [getElem?_eq_getElem hi] at hb
  exact hne (some.inj hb)

namespace Processor
variable {pro : Processor} {last height : UInt64} {sender : String} {blk : Block}
variable {info : BlockWithPeerInfo} {msg : ReceivedBlocks}

def Keyed (pro : Processor) : Prop :=
  ∀ height info, pro.queue.lookup height = some info →
    info.blk.header.blockHeight = height ∧ height ≠ 0

lemma Keyed.enqueue (h : pro.Keyed) : (pro.enqueue last sender blk).Keyed := by
  unfold Processor.enqueue
  split
  · exact h
  next hlater =>
  split
  · exact h
  intro height info hinfo
  obtain ⟨rfl, rfl⟩ | hinfo := GoMap.lookup_insert_cases hinfo
  · refine ⟨rfl, fun hzero => hlater ?_⟩
    rw [hzero]
    exact UInt64.zero_le
  · exact h height info hinfo

lemma mem_enqueue_of_mem (h : height ∈ pro.queue) :
    height ∈ (pro.enqueue last sender blk).queue := by
  unfold enqueue
  split
  · exact h
  split
  · exact h
  · exact (AList.mem_insert _).mpr (.inr h)

lemma mem_enqueue (h : last < blk.header.blockHeight) :
    blk.header.blockHeight ∈ (pro.enqueue last sender blk).queue := by
  unfold enqueue
  rw [if_neg (UInt64.not_le.mpr h)]
  split
  · assumption
  · exact (AList.mem_insert _).mpr (.inl rfl)

lemma Keyed.handleReceivedBlocks (h : pro.Keyed) : (pro.handleReceivedBlocks last msg).Keyed := by
  unfold Processor.handleReceivedBlocks
  induction msg.blks generalizing pro with
  | nil => exact h
  | cons blk blks ih => exact ih h.enqueue

lemma mem_handleReceivedBlocks_of_mem (h : height ∈ pro.queue) :
    height ∈ (pro.handleReceivedBlocks last msg).queue := by
  unfold handleReceivedBlocks
  induction msg.blks generalizing pro with
  | nil => exact h
  | cons blk blks ih => exact ih (mem_enqueue_of_mem h)

lemma mem_handleReceivedBlocks (hblk : blk ∈ msg.blks) (hlast : last < blk.header.blockHeight) :
    blk.header.blockHeight ∈ (pro.handleReceivedBlocks last msg).queue := by
  obtain ⟨older, newer, hblks⟩ := append_of_mem hblk
  unfold handleReceivedBlocks
  rw [hblks, foldl_append, foldl_cons]
  generalize older.foldl _ pro = pro'
  have hmem : blk.header.blockHeight ∈ (pro'.enqueue last msg.sender blk).queue := mem_enqueue hlast
  change _ ∈ (handleReceivedBlocks _ last ⟨newer, msg.sender⟩).queue
  exact mem_handleReceivedBlocks_of_mem hmem

lemma lookup_handleDataDetection
    (h : (pro.handleDataDetection last).queue.lookup height = some info) :
    pro.queue.lookup height = some info := by
  unfold handleDataDetection at h
  rw [GoMap.lookup_foldl_erase] at h
  split_ifs at h
  exact h

lemma mem_handleDataDetection (h : height ∈ pro.queue) (hlast : last < height) :
    height ∈ (pro.handleDataDetection last).queue := by
  have hkept : ¬ height ∈ pro.queue.keys.filter (· < last + 1) := by
    intro hmem
    have hlt : height < last + 1 := of_decide_eq_true (mem_filter.mp hmem).2
    have hlast := UInt64.lt_iff_toNat_lt.mp hlast
    have hlt := UInt64.lt_iff_toNat_lt.mp hlt
    rw [UInt64.toNat_add, UInt64.toNat_one] at hlt
    omega
  rw [← AList.lookup_isSome] at h ⊢
  unfold handleDataDetection
  rwa [GoMap.lookup_foldl_erase, if_neg hkept]

lemma mem_processed {pending : UInt64} {status : ProcessedBlockStatus} (h : height ∈ pro.queue)
    (hne : height ≠ pending) : height ∈ (pro.processed pending status).queue := by
  exact AList.mem_erase.mpr ⟨hne, h⟩

end Processor

def Event.Completes {φ : Type} : Event φ → Prop
  | .core t => t.Completes
  | _ => True

namespace Server
variable {φ : Type} {env : Env φ} {s s' : Server φ} {strict : Prop} {e : Event φ} {t : Processing}
  {status : ProcessedBlockStatus}

section
variable [DecidableEq φ]

/-- The processor works at a block of its queue, and the block has the height it is looked up with.
-/
structure Tidy (strict : Prop) (s : Server φ) : Prop where
  level : Committer.Level strict s.committer
  keyed : s.processor.Keyed
  task : ∀ t, s.processing = some t →
    s.processor.queue.lookup t.pendingBlockHeight = some t.info ∧
      s.committer.engine.heap.heightOf t.block = some t.pendingBlockHeight

namespace Tidy

section
variable (h : Tidy strict s)
include h

lemma committer {committer : Committer φ} {acts : List Act}
    (hlevel : Committer.Level strict committer)
    (hclimbs : s.committer.engine.Climbs committer.engine) :
    Tidy strict { s with committer, acts } :=
  ⟨hlevel, h.keyed, fun t ht => ⟨(h.task t ht).1, hclimbs.blocks.heightOf (h.task t ht).2⟩⟩

lemma withActs (acts : List Act) : Tidy strict { s with acts } :=
  { h with }

lemma goTo (ht : s.processing = some t) (stage : TaskStage) : Tidy strict (s.goTo t stage) := by
  refine ⟨h.level, h.keyed, fun t' ht' => ?_⟩
  cases ht'
  exact h.task t ht

lemma finish (hfinish : s.finish t status = some s') : Tidy strict s' := by
  obtain ⟨height, -, rfl⟩ := map_eq_some_iff.mp hfinish
  refine ⟨h.level, fun height info hinfo => ?_, fun t' ht' => absurd ht'.symm (some_ne_none t')⟩
  refine h.keyed height info ?_
  have herase := GoMap.lookup_foldl_erase [t.pendingBlockHeight] s.processor.queue (k := height)
  split_ifs at herase
  · exact absurd (herase.symm.trans hinfo) nofun
  · exact herase.symm.trans hinfo

lemma process {height : UInt64} {task : ProcessorTask} {rest : List ProcessorTask}
    (hidle : s.processing = none) : Tidy strict (s.process height task rest) := by
  have hno : ∀ t, ¬ s.processing = some t := fun t ht => absurd (hidle.symm.trans ht) nofun
  cases task with
  | receivedBlocks msg =>
    exact ⟨h.level, h.keyed.handleReceivedBlocks, fun t ht => absurd ht (hno t)⟩
  | dataDetection =>
    exact ⟨h.level, fun height info hinfo =>
      h.keyed height info (Processor.lookup_handleDataDetection hinfo), fun t ht =>
        absurd ht (hno t)⟩
  | processBlock =>
    unfold Server.process handleProcessBlockMsg
    dsimp only
    split
    · exact { h with }
    next info hinfo =>
    refine ⟨(h.level.receive info.blk).1, h.keyed, fun t ht => ?_⟩
    cases ht
    refine ⟨hinfo, ?_⟩
    rw [← (h.keyed _ _ hinfo).1]
    exact Core.Heap.heightOf_eq (Core.Heap.get_alloc_next info.blk)

end

lemma step (he : strict → e.Completes) (h : Tidy strict s) (hstep : s.step env e = some s') :
    Tidy strict s' := by
  cases moves_of_step hstep with
  | core hcore =>
    obtain ⟨hlevel, hclimbs⟩ := h.level.step he hcore
    exact h.committer hlevel hclimbs
  | tick ticker => cases ticker <;> exact { h with }
  | nodeStatusResp | blockSyncResp | schedule | carryBlocks | carryResp =>
    exact { h with }
  | process hout hidle hheight htask => exact h.process hidle
  | work ht hworks =>
    cases hworks with
    | checked hstage => exact h.goTo ht .verify
    | verified hstage hok =>
      exact goTo (s := { s with acts := _ :: s.acts }) (h.withActs _) ht .add
    | called hstage hheight hcall =>
      obtain ⟨hlevel, hclimbs⟩ := h.level.step (fun _ => by trivial) hcall
      exact (h.committer hlevel hclimbs).goTo ht .adding
    | finished hacts hstatus hfinish => exact (h.withActs _).finish hfinish

end Tidy

lemma tidy_start (strict : Prop) (lastBlock : Block) (maxNum batchesize : UInt64)
    (timeOut reqTimeThreshold : ℕ) :
    Tidy strict (start lastBlock maxNum batchesize timeOut reqTimeThreshold : Server φ) :=
  ⟨Committer.level_start strict lastBlock, fun _ _ hinfo => (by cases hinfo),
    fun _ ht => (by cases ht)⟩

end

/-! ### What is on its way -/

def BlocksInTransit (s : Server φ) (msg : ReceivedBlocks) : Prop :=
  s.schedulerOut = some msg ∨ .receivedBlocks msg ∈ s.processorTasks

def RespInTransit (s : Server φ) (msg : ProcessedBlockResp) : Prop :=
  s.processorOut = some msg ∨ .processedBlockResp msg ∈ s.schedulerTasks

/-- The block of the height is in the queue of the processor or on its way there, or the answer for
it is on its way back. -/
def Held (s : Server φ) (height : UInt64) : Prop :=
  height ∈ s.processor.queue ∨
    (∃ msg, s.BlocksInTransit msg ∧ ∃ blk ∈ msg.blks, blk.header.blockHeight = height) ∨
    ∃ msg, s.RespInTransit msg ∧ msg.height = height

structure Kept (s : Server φ) : Prop where
  free : ∀ t, s.processing = some t → s.processorOut = none
  answers : ∀ msg, s.RespInTransit msg → msg.status ≠ .dbErr
  held : ∀ height l, s.committer.engine.currentHeight = some l → l < height →
    s.scheduler.blockStates.lookup height = some .receivedBlock → s.Held height

lemma Held.mono {height : UInt64} (h : s.Held height)
    (hqueue : height ∈ s.processor.queue → height ∈ s'.processor.queue)
    (hblocks : ∀ msg, s.BlocksInTransit msg → s'.BlocksInTransit msg)
    (hresp : ∀ msg, s.RespInTransit msg → s'.RespInTransit msg) : s'.Held height := by
  obtain hmem | ⟨msg, hmsg, hblk⟩ | ⟨msg, hmsg, hheight⟩ := h
  · exact .inl (hqueue hmem)
  · exact .inr (.inl ⟨msg, hblocks msg hmsg, hblk⟩)
  · exact .inr (.inr ⟨msg, hresp msg hmsg, hheight⟩)

namespace Kept

lemma addTasks {schedulerTasks : List SchedulerTask} {processorTasks : List ProcessorTask}
    (h : Kept s) (hblocks : ∀ msg, s.BlocksInTransit msg →
      ({ s with schedulerTasks, processorTasks } : Server φ).BlocksInTransit msg)
    (hresp : ∀ msg, s.RespInTransit msg ↔
      ({ s with schedulerTasks, processorTasks } : Server φ).RespInTransit msg) :
    Kept { s with schedulerTasks, processorTasks } :=
  ⟨h.free, fun msg hmsg => h.answers msg ((hresp msg).mpr hmsg), fun height l hl hlt hreceived =>
    (h.held height l hl hlt hreceived).mono id hblocks fun msg => (hresp msg).mp⟩

lemma tick (h : Kept s) (ticker : Ticker) : Kept (s.tick ticker) := by
  cases ticker with
  | processBlock | schedule | liveness | dataDetect =>
    exact h.addTasks (by simp [BlocksInTransit]) (by simp [RespInTransit])

lemma schedule {m : Moment} {height : UInt64} {task : SchedulerTask} {k : ℕ} (h : Kept s)
    (hout : s.schedulerOut = none) (htask : s.schedulerTasks[k]? = some task) :
    Kept (s.schedule m height task (s.schedulerTasks.eraseIdx k)) := by
  refine ⟨h.free, fun msg hmsg => h.answers msg (hmsg.imp_right mem_of_mem_eraseIdx), ?_⟩
  intro height' l hl hlt hreceived
  obtain hbefore | ⟨msg, hmsg, hblk⟩ := Scheduler.receives_handler m height task height' hreceived
  · -- What was received before is still held, unless the task was the answer for it.
    obtain hmem | ⟨msg, hmsg, hblk⟩ | ⟨msg, hmsg, hheight⟩ := h.held height' l hl hlt hbefore
    · exact .inl hmem
    · obtain hmsg | hmsg := hmsg
      · exact absurd (hout.symm.trans hmsg) nofun
      · exact .inr (.inl ⟨msg, .inr hmsg, hblk⟩)
    · by_cases heq : SchedulerTask.processedBlockResp msg = task
      · have hstatus := h.answers msg (.inr (heq ▸ mem_of_getElem? htask))
        subst heq hheight
        exact absurd hreceived (Scheduler.lookup_handleProcessedBlockResp hstatus)
      · exact .inr (.inr
          ⟨msg, hmsg.imp_right fun hmem => mem_eraseIdx_of_ne hmem htask heq, hheight⟩)
  · exact .inr (.inl ⟨msg, .inl hmsg, hblk⟩)

lemma process {height : UInt64} {task : ProcessorTask} {k : ℕ} (h : Kept s)
    (hout : s.processorOut = none) (hheight : s.committer.engine.currentHeight = some height)
    (htask : s.processorTasks[k]? = some task) :
    Kept (s.process height task (s.processorTasks.eraseIdx k)) := by
  -- The other tasks stay; what was in this one, if it brought blocks, has to get into the queue.
  have hheld : ∀ height', height < height' →
      s.scheduler.blockStates.lookup height' = some .receivedBlock → ∀ s' : Server φ,
      s'.schedulerOut = s.schedulerOut → s'.processorTasks = s.processorTasks.eraseIdx k →
      s'.processorOut = s.processorOut → s'.schedulerTasks = s.schedulerTasks →
      (height' ∈ s.processor.queue → height' ∈ s'.processor.queue) →
      (∀ msg, task = .receivedBlocks msg → (∃ blk ∈ msg.blks, blk.header.blockHeight = height') →
        height' ∈ s'.processor.queue) → s'.Held height' := by
    intro height' hlt hreceived s' hsout hptasks hpout hstasks hqueue hblocks
    obtain hmem | ⟨msg, hmsg, hblk⟩ | ⟨msg, hmsg, hresp⟩ :=
      h.held height' height hheight hlt hreceived
    · exact .inl (hqueue hmem)
    · by_cases heq : ProcessorTask.receivedBlocks msg = task
      · exact .inl (hblocks msg heq.symm hblk)
      refine .inr (.inl ⟨msg, ?_, hblk⟩)
      unfold BlocksInTransit
      rw [hsout, hptasks]
      exact hmsg.imp_right fun hmem => mem_eraseIdx_of_ne hmem htask heq
    · refine .inr (.inr ⟨msg, ?_, hresp⟩)
      unfold RespInTransit
      rwa [hpout, hstasks]
  cases task with
  | receivedBlocks msg =>
    refine ⟨fun _ _ => hout, h.answers, fun height' l hl hlt hreceived => ?_⟩
    cases hheight.symm.trans hl
    refine hheld height' hlt hreceived _
      rfl rfl rfl rfl Processor.mem_handleReceivedBlocks_of_mem ?_
    rintro _ ⟨⟩ ⟨blk, hblk, rfl⟩
    exact Processor.mem_handleReceivedBlocks hblk hlt
  | dataDetection =>
    refine ⟨fun _ _ => hout, h.answers, fun height' l hl hlt hreceived => ?_⟩
    cases hheight.symm.trans hl
    exact hheld height' hlt hreceived _ rfl rfl rfl rfl
      (fun hmem => Processor.mem_handleDataDetection hmem hlt) nofun
  | processBlock =>
    unfold Server.process handleProcessBlockMsg
    dsimp only
    split
    · refine ⟨fun _ _ => hout, h.answers, fun height' l hl hlt hreceived => ?_⟩
      cases hheight.symm.trans hl
      exact hheld height' hlt hreceived _ rfl rfl rfl rfl id nofun
    next info hinfo =>
    refine ⟨fun _ _ => hout, h.answers, fun height' l hl hlt hreceived => ?_⟩
    have hstays : s.committer.engine.Stays
        { s.committer.engine with heap := s.committer.engine.heap.alloc info.blk } :=
      ⟨.of_get fun _ _ hget => Core.Heap.get_alloc info.blk hget, rfl⟩
    obtain rfl := mem_unique (hstays.currentHeight hheight) hl
    exact hheld height' hlt hreceived _ rfl rfl rfl rfl id nofun

lemma finish (h : Kept s) (ht : s.processing = some t)
    (hheight : s.committer.engine.heap.heightOf t.block = some t.pendingBlockHeight)
    (hstatus : status ≠ .dbErr) (hfinish : s.finish t status = some s') : Kept s' := by
  obtain ⟨height, hheight', rfl⟩ := map_eq_some_iff.mp hfinish
  cases hheight.symm.trans hheight'
  have hnone := h.free t ht
  refine ⟨fun t' ht' => absurd ht'.symm (some_ne_none t'), fun msg hmsg => ?_,
    fun height l hl hlt hreceived => ?_⟩
  · obtain hmsg | hmsg := hmsg
    · cases hmsg
      exact hstatus
    · exact h.answers msg (.inr hmsg)
  · by_cases heq : height = t.pendingBlockHeight
    · exact .inr (.inr ⟨_, .inl rfl, heq.symm⟩)
    refine (h.held height l hl hlt hreceived).mono (fun hmem => Processor.mem_processed hmem heq)
      (fun _ hmsg => hmsg) fun msg hmsg => ?_
    obtain hmsg | hmsg := hmsg
    · exact absurd (hnone.symm.trans hmsg) nofun
    · exact .inr hmsg

lemma step [DecidableEq φ] (htidy : Tidy False s) (h : Kept s) (hstep : s.step env e = some s') :
    Kept s' := by
  obtain ⟨l, hl, -⟩ := htidy.level.reached
  have hclimbs : ∀ {committer : Committer φ}, s.committer.engine.Climbs committer.engine →
      ∀ l', committer.engine.currentHeight = some l' → l ≤ l' := by
    intro committer hclimbs l' hl'
    obtain ⟨l₁, hl₁, hle⟩ := hclimbs.currentHeight l hl
    cases hl'.symm.trans hl₁
    exact hle
  cases moves_of_step hstep with
  | core hcore =>
    have hclimbs := hclimbs (htidy.level.step nofun hcore).2
    exact ⟨h.free, h.answers, fun height l' hl' hlt =>
      h.held height l hl (UInt64.lt_of_le_of_lt (hclimbs l' hl') hlt)⟩
  | tick ticker => exact h.tick ticker
  | nodeStatusResp | blockSyncResp => exact h.addTasks (fun _ => id) (by simp [RespInTransit])
  | schedule hout hheight htask => exact h.schedule hout htask
  | process hout hidle hheight htask => exact h.process hout hheight htask
  | work ht hworks =>
    cases hworks with
    | checked | verified => exact ⟨fun _ _ => h.free _ ht, h.answers, h.held⟩
    | called hstage hheight hcall =>
      have hclimbs := hclimbs (htidy.level.step nofun hcall).2
      exact ⟨fun _ _ => h.free _ ht, h.answers, fun height l' hl' hlt =>
        h.held height l hl (UInt64.lt_of_le_of_lt (hclimbs l' hl') hlt)⟩
    | @finished acts status _ hacts hstatus hfinish =>
      have hkept : Kept { s with acts } := { h with }
      exact hkept.finish ht (htidy.task _ ht).2 hstatus hfinish
  | carryBlocks hmsg =>
    refine ⟨h.free, h.answers, fun height l hl hlt hreceived => ?_⟩
    refine (h.held height l hl hlt hreceived).mono id (fun msg hblocks => ?_) fun _ => id
    obtain hblocks | hblocks := hblocks
    · cases hmsg.symm.trans hblocks
      exact .inr mem_cons_self
    · exact .inr (mem_cons_of_mem _ hblocks)
  | carryResp hmsg =>
    refine ⟨fun _ _ => rfl, fun msg hresp => ?_, fun height l hl hlt hreceived => ?_⟩
    · obtain hresp | hresp := hresp
      · cases hresp
      obtain heq | hresp := mem_cons.mp hresp
      · cases heq
        exact h.answers _ (.inl hmsg)
      · exact h.answers msg (.inr hresp)
    · refine (h.held height l hl hlt hreceived).mono id (fun _ => id) fun msg hresp => ?_
      obtain hresp | hresp := hresp
      · cases hmsg.symm.trans hresp
        exact .inr mem_cons_self
      · exact .inr (mem_cons_of_mem _ hresp)

end Kept

lemma kept_start (lastBlock : Block) (maxNum batchesize : UInt64) (timeOut reqTimeThreshold : ℕ) :
    Kept (start lastBlock maxNum batchesize timeOut reqTimeThreshold : Server φ) where
  free := fun _ _ => rfl
  answers := by simp [RespInTransit, start]
  held := fun _ _ _ _ hreceived => by cases hreceived

theorem received_held [DecidableEq φ] (env : Env φ) (lastBlock : Block) (maxNum batchesize : UInt64)
    (timeOut reqTimeThreshold : ℕ) (es : List (Event φ)) (s : Server φ)
    (hrun : Runs.run (step env)
      (start lastBlock maxNum batchesize timeOut reqTimeThreshold) es = some s)
    (l height : UInt64) (hl : s.committer.engine.currentHeight = some l) (hlt : l < height)
    (hreceived : s.scheduler.blockStates.lookup height = some .receivedBlock) : s.Held height := by
  have hinv : Tidy False s ∧ Kept s := by
    refine Runs.run_induction_all (I := fun s => Tidy False s ∧ Kept s) (fun s e s' h hstep => ?_)
      ⟨tidy_start False lastBlock _ _ _ _, kept_start lastBlock _ _ _ _⟩ hrun
    exact ⟨h.1.step nofun hstep, h.2.step h.1 hstep⟩
  exact hinv.2.held height l hl hlt hreceived

open ChainMaker.Core.CoreEngine (agreeable blockOne genesis smallEnv)

def blockTwo : Block :=
  { blockOne [] none with header := { (blockOne [] none).header with blockHeight := 2 } }

def batchArrives : List (Event Snapshot.BlockHeader) :=
  [.nodeStatusResp ⟨2, 0, "peer"⟩, .schedule 0 ⟨0, 0, true⟩,
    .blockSyncResp ⟨some [blockTwo, blockOne [] none], "peer"⟩,
      .schedule 0 ⟨0, 0, true⟩, .carryBlocks,
    .process 0]

def blockOneAdded : List (Event Snapshot.BlockHeader) :=
  [.tick .processBlock, .process 0, .work (.ok ()),
    .core (.changeCache (.setProposedBlock 1 none none false)), .work (.ok ()), .work (.ok ())] ++
  replicate 7 (.core (.next agreeable {})) ++ [.work (.ok ())]

def startSmall : Server Snapshot.BlockHeader := start genesis 10 5 3 3

theorem received_held_blockTwo :
    ∃ s, Runs.run (step (smallEnv .tbft)) startSmall (batchArrives ++ blockOneAdded) = some s ∧
      s.committer.engine.currentHeight = some 1 ∧
      s.scheduler.blockStates.lookup 2 = some .receivedBlock ∧ s.Held 2 :=
  ⟨_, eq_some_of_isSome (by decide +kernel), by decide +kernel, by decide +kernel,
    received_held (smallEnv .tbft) genesis 10 5 3 3 _ _ (eq_some_of_isSome _) 1 2
      (by decide +kernel)
      (by decide) (by decide +kernel)⟩
end Server
end ChainMaker.Sync
