import ChainMaker.Sync.Scheduler

/-! The maps of the scheduler agree as long as no task touches a height that is in work for another
one. -/

namespace ChainMaker.Sync.Scheduler
open List GoMap AList

/-- A task with what it finds; `height` is that of the ledger. -/
structure Turn where
  moment : Moment
  height : UInt64
  task : SchedulerTask

def turn (sch : Scheduler) (t : Turn) : Option Scheduler :=
  some (sch.handler t.moment t.height t.task).2

variable (sch : Scheduler) (h : UInt64)

def AgreesAt : Prop :=
  (sch.pendingTime.lookup h).isSome = (sch.pendingBlocks.lookup h).isSome ∧
    ((sch.pendingBlocks.lookup h).isSome → sch.blockStates.lookup h = some .pendingBlock) ∧
    ((sch.receivedBlocks.lookup h).isSome → sch.blockStates.lookup h = some .receivedBlock)

/-- A request covers no received height, an answer is for no requested one, and the data detection
finds the ledger's height untracked and the next one not in work. -/
def Clear (l : UInt64) : SchedulerTask → Prop
  | .schedule => sch.blockStates.lookup maxUint64 = none ∧ ∀ e ∈ sch.blockStates.entries,
      ∀ e' ∈ sch.blockStates.entries, e.2 = .newBlock → e'.2 = .receivedBlock → e'.1 < e.1
  | .processedBlockResp msg => sch.pendingBlocks.lookup msg.height = none
  | .dataDetection => l < l + 1 ∧ sch.blockStates.lookup l = none ∧
      (sch.blockStates.lookup (l + 1)).getD .newBlock = .newBlock
  | _ => True

instance (l : UInt64) : ∀ task, Decidable (sch.Clear l task)
  | .schedule => inferInstanceAs (Decidable (_ ∧ _))
  | .processedBlockResp _ => inferInstanceAs (Decidable (_ = _))
  | .dataDetection => inferInstanceAs (Decidable (_ ∧ _ ∧ _))
  | .nodeStatus _ | .liveness | .syncedBlock _ => .isTrue trivial

/-- A received height stays so until its answer comes or the ledger is beyond it. -/
def Stays (l : UInt64) (task : SchedulerTask) (sch' : Scheduler) : Prop :=
  sch.blockStates.lookup h = some .receivedBlock →
    sch'.blockStates.lookup h = some .receivedBlock ∨
    (∃ msg, task = .processedBlockResp msg ∧ msg.height = h) ∨
    task = .dataDetection ∧ h < l ∧ sch'.blockStates.lookup h = none

variable {sch h} {l : UInt64}

def Keeps (sch sch' : Scheduler) (h : UInt64) : Prop :=
  sch'.AgreesAt h ∧ (sch.blockStates.lookup h = some .receivedBlock →
    sch'.blockStates.lookup h = some .receivedBlock)

lemma handleProcessedBlockResp_frame (sch : Scheduler) (msg : ProcessedBlockResp) :
    let sch' := (sch.handleProcessedBlockResp msg).2
    sch'.pendingBlocks = sch.pendingBlocks ∧ sch'.pendingTime = sch.pendingTime ∧
      sch'.receivedBlocks = sch.receivedBlocks.erase msg.height ∧
      ∀ h ≠ msg.height, sch'.blockStates.lookup h = sch.blockStates.lookup h := by
  unfold handleProcessedBlockResp
  cases msg.status with
  | ok | hasProcessed => exact ⟨rfl, rfl, rfl, fun h hne => lookup_erase_ne hne⟩
  | validateFailed | addErr => exact ⟨rfl, rfl, rfl, fun h hne => lookup_insert_ne hne⟩
  | dbErr => exact ⟨rfl, rfl, rfl, fun _ _ => rfl⟩

section
variable (hc : sch.AgreesAt h)
include hc

lemma keeps_handleNodeStatus (l' : UInt64) (msg : NodeStatusMsg) :
    sch.Keeps (sch.handleNodeStatus l l' msg) h := by
  unfold handleNodeStatus addPendingBlocksAndUpdatePendingHeight
  dsimp only
  split_ifs
  on_goal 5 =>
    unfold Keeps AgreesAt at *
    grind [lookup_track, lookup_isSome]
  all_goals exact ⟨hc, id⟩

lemma keeps_handleLivinessMsg (now : ℕ) : sch.Keeps (sch.handleLivinessMsg now l) h := by
  unfold Keeps AgreesAt handleLivinessMsg at *
  grind [lookup_erase, lookup_erase_ne, lookup_insert_ite]

lemma keeps_foldl_receive (sender : String) (blks : List Core.Block) :
    sch.Keeps (blks.foldl (fun sch blk => sch.receive sender blk) sch) h := by
  induction blks generalizing sch with
  | nil => exact ⟨hc, id⟩
  | cons blk blks ih =>
    have hstep : sch.Keeps (sch.receive sender blk) h := by
      unfold Keeps AgreesAt receive at *
      grind [lookup_isSome, lookup_erase, lookup_erase_ne, lookup_insert_ite]
    exact (ih hstep.1).imp_right (· ∘ hstep.2)

lemma keeps_requests {sch' : Scheduler} (hclear : sch.Clear l .schedule)
    (hrequests : sch.Requests sch') : sch.Keeps sch' h := by
  unfold Keeps AgreesAt Clear at *
  cases hrequests with
  | none => exact ⟨hc, id⟩
  | drop hfirst => grind [lookup_erase, lookup_erase_ne]
  | @ask first heights _ _ hfirst hheights =>
    have hcover : h ∈ heights → sch.blockStates.lookup h ≠ some .receivedBlock := by
      intro hmem hreceived
      exact UInt64.not_lt.mpr (hheights h hmem) (hclear.2 ⟨_, _⟩ (mem_entries.mpr hfirst)
        ⟨_, _⟩ (mem_entries.mpr hreceived) rfl rfl)
    simp only [lookup_foldl_insert_const]
    grind

/-- An answer changes the maps at its own height, which is not requested and no more received. -/
lemma AgreesAt.answer {k : UInt64} {sch' : Scheduler}
    (hrequested : sch.pendingBlocks.lookup k = none)
    (hblocks : sch'.pendingBlocks = sch.pendingBlocks) (htime : sch'.pendingTime = sch.pendingTime)
    (hreceived : sch'.receivedBlocks = sch.receivedBlocks.erase k)
    (hstates : ∀ h ≠ k, sch'.blockStates.lookup h = sch.blockStates.lookup h) :
    sch'.AgreesAt h := by
  rw [AgreesAt, hblocks, htime, hreceived]
  refine ⟨hc.1, ?_⟩
  by_cases heq : h = k
  · rw [heq, hrequested, lookup_erase]
    exact ⟨nofun, nofun⟩
  · rw [hstates h heq, lookup_erase_ne heq]
    exact hc.2

lemma AgreesAt.detect (hclear : sch.Clear l .dataDetection) :
    (sch.handleDataDetection l).AgreesAt h ∧
      sch.Stays h l .dataDetection (sch.handleDataDetection l) := by
  obtain ⟨hnext, -, hfree⟩ := hclear
  unfold AgreesAt Stays handleDataDetection
  simp only [lookup_foldl_erase, lookup_insert_ite]
  by_cases hold : h ∈ sch.blockStates.keys.filter (· < l)
  · -- below the ledger the height is dropped from every map
    have hlt : h < l := of_decide_eq_true (mem_filter.mp hold).2
    have hne : h ≠ l + 1 := UInt64.ne_of_lt (UInt64.lt_trans hlt hnext)
    simp [hold, hne, hlt]
  simp only [hold, if_false]
  by_cases heq : h = l + 1
  · -- the next height becomes a new one, and it was not in work before
    have hidle : ∀ state ≠ .newBlock, sch.blockStates.lookup h ≠ some state := by
      intro state hne hstate
      rw [← heq, hstate] at hfree
      exact hne hfree
    exact ⟨⟨hc.1, fun hsome => absurd (hc.2.1 hsome) (hidle _ (by decide)),
      fun hsome => absurd (hc.2.2 hsome) (hidle _ (by decide))⟩,
      fun hreceived => absurd hreceived (hidle _ (by decide))⟩
  · simp only [heq, if_false]
    exact ⟨hc, .inl⟩

lemma AgreesAt.turn {m : Moment} {task : SchedulerTask} (hclear : sch.Clear l task) :
    (sch.handler m l task).2.AgreesAt h ∧ sch.Stays h l task (sch.handler m l task).2 := by
  have hkept : sch.Keeps (sch.handler m l task).2 h → (sch.handler m l task).2.AgreesAt h ∧
      sch.Stays h l task (sch.handler m l task).2 :=
    fun hkeeps => hkeeps.imp_right fun hstays hreceived => .inl (hstays hreceived)
  cases task with
  | nodeStatus msg => exact hkept (keeps_handleNodeStatus hc _ msg)
  | liveness => exact hkept (keeps_handleLivinessMsg hc _)
  | schedule => exact hkept (keeps_requests hc hclear (requests_handleScheduleMsg ..))
  | syncedBlock msg =>
    refine hkept ?_
    unfold handler handleSyncedBlockMsg
    dsimp only
    cases msg.batch with
    | none => exact ⟨hc, id⟩
    | some blks => exact keeps_foldl_receive hc msg.sender blks
  | processedBlockResp msg =>
    obtain ⟨hblocks, htime, hreceived, hstates⟩ := handleProcessedBlockResp_frame sch msg
    refine ⟨hc.answer hclear hblocks htime hreceived hstates, fun hold => ?_⟩
    by_cases heq : msg.height = h
    · exact .inr (.inl ⟨msg, rfl, heq⟩)
    · exact .inl ((hstates h (Ne.symm heq)).trans hold)
  | dataDetection => exact hc.detect hclear

end

theorem maps_agree (currHeight maxNum batchesize : UInt64) (timeOut reqTimeThreshold : ℕ)
    (ts : List Turn) (sch : Scheduler)
    (hclear : Runs.Meets turn (fun sch t => sch.Clear t.height t.task)
      (newScheduler currHeight maxNum batchesize timeOut reqTimeThreshold) ts)
    (hrun : Runs.run turn (newScheduler currHeight maxNum batchesize timeOut reqTimeThreshold) ts =
      some sch) :
    (∀ h, sch.AgreesAt h) ∧ ∀ m l task, sch.Clear l task →
      (∀ h, sch.Stays h l task (sch.handler m l task).2) ∧
      (task = .dataDetection → ∀ h ∈ (sch.handler m l task).2.blockStates, l < h) := by
  have hagree : ∀ h, sch.AgreesAt h := by
    refine Runs.run_induction (I := fun sch => ∀ h, sch.AgreesAt h) (fun _ _ _ hc hP hs h => ?_)
      (fun h => ⟨rfl, nofun, nofun⟩) hclear hrun
    cases hs
    exact ((hc h).turn hP).1
  refine ⟨hagree, fun m l task hP => ⟨fun h => ((hagree h).turn hP).2, ?_⟩⟩
  rintro rfl h hmem
  obtain ⟨hlt, hl, -⟩ := hP
  rw [← lookup_isSome, handler, handleDataDetection, lookup_insert_ite, lookup_foldl_erase] at hmem
  grind [AList.lookup_isSome, AList.mem_keys]

def requested : List Turn :=
  [⟨⟨0, 0, true⟩, 0, .dataDetection⟩, ⟨⟨0, 0, true⟩, 0, .nodeStatus ⟨5, 0, "peer"⟩⟩,
    ⟨⟨9, 0, true⟩, 0, .schedule⟩]

theorem maps_agree_requested : ∃ sch, Runs.run turn (newScheduler 0 5 2 3 3) requested = some sch ∧
    sch.pendingBlocks.lookup 2 = some "peer" ∧ ∀ h, sch.AgreesAt h :=
  ⟨_, rfl, by decide +kernel, (maps_agree 0 5 2 3 3 requested _ (by decide +kernel) rfl).1⟩

/-- The ledger gets block 1 while blocks 1 and 2 are requested. -/
theorem maps_disagree : ∃ sch, Runs.run turn (newScheduler 0 5 2 3 3)
      (requested ++ [⟨⟨9, 1, true⟩, 1, .dataDetection⟩]) = some sch ∧
    (sch.pendingBlocks.lookup 2).isSome ∧ sch.blockStates.lookup 2 = some .newBlock ∧
    1 ∈ sch.blockStates :=
  ⟨_, rfl, by decide +kernel, by decide +kernel, by decide +kernel⟩

end ChainMaker.Sync.Scheduler
