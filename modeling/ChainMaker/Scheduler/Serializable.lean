import ChainMaker.Scheduler.Serial

/-! `Schedule` is serializable: in every state that it reaches, executing the applied
transactions one by one in the order of `txTable` gives what they were applied with. -/

namespace ChainMaker.Scheduler
open Schedule
open Option List ChainMaker.Snapshot

abbrev Applied := Transaction × TxRWSet × Result

def applied (s : SnapshotImpl) : List Applied :=
  s.txTable.zip (s.txRWSetTable.zip (s.txResultMap.reverse.map (·.2)))

/-- Each transaction was applied with what it gives after the ones before it. -/
def SerialLog (ts : TxScheduler) (parent : Parent) (log : List Applied) : Prop :=
  ∀ i e, log[i]? = some e →
    e.2.1 = getTxRWSet ts.failedReads e.1
      (serialExec ts.vm parent ((log.take i).map (·.2.1)) e.1) ∧
    e.2.2 = (serialExec ts.vm parent ((log.take i).map (·.2.1)) e.1).result

variable {ts : TxScheduler} {U : Set (Bytes × Bytes)} {s : SnapshotImpl} {x : Execution}
  {o : Outcome} {n : ℕ}

lemma forall_getElem?_append {α : Type} {P : ℕ → α → Prop} {log : List α} {a : α}
    (h : ∀ i e, log[i]? = some e → i < log.length → P i e) (ha : P log.length a) :
    ∀ i e, (log ++ [a])[i]? = some e → P i e := by
  intro i e he
  rcases lt_or_ge i log.length with hi | hi
  · rw [getElem?_append_left hi] at he
    exact h i e he hi
  have hlt := (List.getElem?_eq_some_iff.mp he).1
  simp only [length_append, length_singleton] at hlt
  obtain rfl : i = log.length := by omega
  simp only [getElem?_append_right le_rfl, Nat.sub_self, getElem?_cons_zero, some.injEq] at he
  exact he ▸ ha

lemma SerialLog.append {parent : Parent} {log : List Applied} (h : SerialLog ts parent log)
    {tx : Transaction} {o : Outcome} (ho : serialExec ts.vm parent (log.map (·.2.1)) tx = o) :
    SerialLog ts parent (log ++ [(tx, getTxRWSet ts.failedReads tx o, o.result)]) := by
  refine forall_getElem?_append (fun i e he hi => ?_) ?_
  · rw [take_append_of_le_length hi.le]
    exact h i e he
  · rw [take_left, ho]
    exact ⟨rfl, rfl⟩

section
variable (h : SnapInv U s)
include h

lemma applied_map_tx : (applied s).map (·.1) = s.txTable := by
  rw [applied, map_fst_zip]
  simp [h.len_rw, h.len_result]

lemma applied_map_rw : (applied s).map (·.2.1) = s.txRWSetTable := by
  have hzip : ((applied s).map (·.2)).map (·.1) = s.txRWSetTable := by
    rw [applied, map_snd_zip, map_fst_zip] <;> simp [h.len_rw, h.len_result]
  rwa [List.map_map] at hzip

lemma applied_map_result : (applied s).map (·.2.2) = s.txResultMap.reverse.map (·.2) := by
  have hzip : ((applied s).map (·.2)).map (·.2) = s.txResultMap.reverse.map (·.2) := by
    rw [applied, map_snd_zip, map_snd_zip] <;> simp [h.len_rw, h.len_result]
  rwa [List.map_map] at hzip

lemma length_applied : (applied s).length = s.txTable.length := by
  simp [applied, h.len_rw, h.len_result]

lemma applied_apply (tx : Transaction) (rw : TxRWSet) (res : Result) :
    applied (s.apply tx rw res) = applied s ++ [(tx, rw, res)] := by
  have hlen : s.txRWSetTable.length = (s.txResultMap.reverse.map (·.2)).length := by
    simp [h.len_rw, h.len_result]
  simp only [applied, SnapshotImpl.apply, reverse_cons, map_append, map_cons, map_nil]
  rw [zip_append hlen, zip_append (by simp [h.len_rw, h.len_result])]
  rfl

end

structure Footprint (U : Set (Bytes × Bytes)) (fetched : List TxRead) (rw : TxRWSet) : Prop where
  reads_mem : ∀ r ∈ rw.txReads, (r.contractName, r.key) ∈ U
  writes_mem : ∀ w ∈ rw.txWrites, (w.contractName, w.key) ∈ U
  reads_src : ∀ r ∈ rw.txReads, r ∈ fetched ∨
    ∃ w ∈ rw.txWrites, (w.contractName, w.key) = (r.contractName, r.key)
  fetched_mem : ∀ r ∈ fetched, ∃ r' ∈ rw.txReads,
    (r'.contractName, r'.key) = (r.contractName, r.key)

lemma footprint_getTxRWSet (hcol : NoCollision U) {failedReads : Access → List TxRead}
    (hwf : o.access.WF U) (hrec : Recorded failedReads o) (tx : Transaction) :
    Footprint U o.access.fetched (getTxRWSet failedReads tx o) := by
  unfold getTxRWSet
  split
  · refine ⟨fun r hr => ?_, fun w hw => ?_, fun r hr => ?_, fun r hr => ?_⟩
    · obtain ⟨fk, hfk⟩ := GoMap.mem_values.mp hr
      exact (hwf.read_key fk r hfk).2
    · obtain ⟨fk, hfk⟩ := GoMap.mem_values.mp hw
      exact (hwf.write_key fk w hfk).2
    · obtain ⟨fk, hfk⟩ := GoMap.mem_values.mp hr
      obtain ⟨hkey, hU⟩ := hwf.read_key fk r hfk
      refine (hwf.read_src fk r hfk).imp_right fun hw => ?_
      obtain ⟨w, hw⟩ := isSome_iff_exists.mp hw
      obtain ⟨hkey', hU'⟩ := hwf.write_key fk w hw
      exact ⟨w, GoMap.mem_values.mpr ⟨fk, hw⟩, hcol _ hU' _ hU (hkey'.trans hkey.symm)⟩
    · obtain ⟨hU, hsome⟩ := hwf.fetched_mem r hr
      obtain ⟨r', hr'⟩ := isSome_iff_exists.mp hsome
      obtain ⟨hkey', hU'⟩ := hwf.read_key _ r' hr'
      exact ⟨r', GoMap.mem_values.mpr ⟨_, hr'⟩, hcol _ hU' _ hU hkey'⟩
  · next hfail =>
    have hiff := hrec (by simpa using hfail)
    refine ⟨fun r hr => ?_, by simp, fun r hr => .inl ((hiff r).mp hr), fun r hr => ?_⟩
    · exact (hwf.fetched_mem r ((hiff r).mp hr)).1
    · exact ⟨r, (hiff r).mpr hr, rfl⟩

lemma ExecInv.fetched_current (hs : SnapInv U s) (hx : ExecInv U ts.vm s x)
    {rw : TxRWSet} (hrw : Footprint U x.access.fetched rw)
    (hok : s.txTable.length ≤ x.txExecSeq ∨ s.keyConflicted x.txExecSeq rw = false) :
    x.access.Agrees (stateAfter s.parent s.txRWSetTable) := by
  intro r hr
  obtain ⟨m, hm, hm', hv⟩ := hx.fetched r hr
  rw [hv]
  rcases hok with hlen | hconf
  · rw [← hs.len_rw] at hlen
    rw [take_of_length_le (hlen.trans hm)]
  obtain ⟨r', hr', hpair⟩ := hrw.fetched_mem r hr
  refine (hs.seq (r.contractName, r.key) (hpair ▸ hrw.reads_mem r' hr') m fun sv hsv => ?_).symm
  have hno := any_eq_false.mp hconf r' hr'
  rw [(Prod.mk.inj hpair).1, (Prod.mk.inj hpair).2, hsv] at hno
  simp only [decide_eq_true_eq, not_le] at hno
  exact hno.trans_le hm

lemma applyExecution_cases (failedReads : Access → List TxRead) (s : SnapshotImpl)
    (x : Execution) (o : Outcome) (applySpecialTx : Bool) :
    (applySpecialTx = false ∧ o.specialTxType = .iterator ∧
      (applyExecution failedReads s x o applySpecialTx).1 = true ∧
      (applyExecution failedReads s x o applySpecialTx).2.2 =
        { s with specialTxTable := s.specialTxTable ++ [x.tx] }) ∨
    ((applySpecialTx = false → o.specialTxType = .normal) ∧
      (o.specialTxType = .iterator ∨ s.txTable.length ≤ x.txExecSeq ∨
        s.keyConflicted x.txExecSeq (getTxRWSet failedReads x.tx o) = false) ∧
      (applyExecution failedReads s x o applySpecialTx).1 = true ∧
      (applyExecution failedReads s x o applySpecialTx).2.2 =
        s.apply x.tx (getTxRWSet failedReads x.tx o) o.result) ∨
    (s.keyConflicted x.txExecSeq (getTxRWSet failedReads x.tx o) = true ∧
      s.txTable.length > x.txExecSeq ∧ o.specialTxType = .normal ∧
      (applyExecution failedReads s x o applySpecialTx).1 = false ∧
      (applyExecution failedReads s x o applySpecialTx).2.2 = s) := by
  cases htype : o.specialTxType <;> cases applySpecialTx <;>
    simp only [applyExecution, SnapshotImpl.applyTxSimContext, htype] <;>
    by_cases hlen : s.txTable.length ≤ x.txExecSeq <;>
    cases hconf : s.keyConflicted x.txExecSeq (getTxRWSet failedReads x.tx o) <;>
    simp [hlen] <;> omega

lemma ExecInv.serialExec_eq (hx : ExecInv U ts.vm s x)
    (ho : x.outcome = some o) (hcur : x.access.Agrees (stateAfter s.parent s.txRWSetTable)) :
    serialExec ts.vm s.parent s.txRWSetTable x.tx = o := by
  rw [serialExec, hx.resume _ hcur]
  exact (Execution.outcome_exec ho _).1

lemma Footprint.current {fetched : List TxRead} {rw : TxRWSet} (h : Footprint U fetched rw)
    (hcur : ∀ r ∈ fetched, stateAfter s.parent s.txRWSetTable r.contractName r.key = r.value) :
    Current U s rw :=
  ⟨h.reads_mem, h.writes_mem, fun r hr => (h.reads_src r hr).imp_left fun hf => (hcur r hf).symm⟩

structure LogInv (ts : TxScheduler) (U : Set (Bytes × Bytes)) (parent : Parent)
    (s : SnapshotImpl) : Prop where
  snap : SnapInv U s
  parent_eq : s.parent = parent
  serial : SerialLog ts parent (applied s)
  footprint : ∀ i e, (applied s)[i]? = some e → Footprint U
    (serialExec ts.vm parent (((applied s).take i).map (·.2.1)) e.1).access.fetched e.2.1

lemma LogInv.apply (hcol : NoCollision U) {parent : Parent} (h : LogInv ts U parent s)
    {x : Execution} (hx : ExecInv U ts.vm s x) {o : Outcome} (ho : x.outcome = some o)
    (hrec : Recorded ts.failedReads o) (hok : s.txTable.length ≤ x.txExecSeq ∨
      s.keyConflicted x.txExecSeq (getTxRWSet ts.failedReads x.tx o) = false) :
    LogInv ts U parent (s.apply x.tx (getTxRWSet ts.failedReads x.tx o) o.result) := by
  have hacc : o.access = x.access := (Execution.outcome_exec ho fun _ _ => none).2
  have hfoot := footprint_getTxRWSet hcol (hacc ▸ hx.wf) hrec x.tx
  rw [hacc] at hfoot
  have hcur := hx.fetched_current h.snap hfoot hok
  have hexec : serialExec ts.vm parent ((applied s).map (·.2.1)) x.tx = o := by
    rw [applied_map_rw h.snap, ← h.parent_eq]
    exact hx.serialExec_eq ho hcur
  refine ⟨h.snap.apply hcol (hfoot.current hcur) _ _, h.parent_eq, ?_, ?_⟩
  · rw [applied_apply h.snap]
    exact h.serial.append hexec
  rw [applied_apply h.snap]
  refine forall_getElem?_append (fun i e he hi => ?_) ?_
  · rw [take_append_of_le_length hi.le]
    exact h.footprint i e he
  · rw [take_left, hexec, hacc]
    exact hfoot

lemma LogInv.of_tables_eq {parent : Parent} (h : LogInv ts U parent s)
    (special : List Transaction) (isSealed : Bool) :
    LogInv ts U parent { s with specialTxTable := special, isSealed := isSealed } :=
  { h with snap := { h.snap with } }

lemma ExecInv.of_tables_eq (hx : ExecInv U ts.vm s x)
    (special : List Transaction) (isSealed : Bool) :
    ExecInv U ts.vm { s with specialTxTable := special, isSealed := isSealed } x :=
  { hx with }

structure ScheduleInv (ts : TxScheduler) (U : Set (Bytes × Bytes)) (parent : Parent)
    (s : Schedule) : Prop where
  log : LogInv ts U parent s.snapshot
  queue : ∀ tx ∈ s.runningTxC, (ts.vm tx).AccessIn U
  specialTable : ∀ tx ∈ s.snapshot.specialTxTable, (ts.vm tx).AccessIn U
  specialQueue : ∀ tx ∈ s.specialTxC, (ts.vm tx).AccessIn U
  executing : ∀ x ∈ s.executing, ExecInv U ts.vm s.snapshot x ∧ (ts.vm x.tx).AccessIn U
  applying : ∀ p ∈ s.applying, ExecInv U ts.vm s.snapshot p.1 ∧ (ts.vm p.1.tx).AccessIn U ∧
    p.1.outcome = some p.2
  special : ∀ x, s.special = some x → ExecInv U ts.vm s.snapshot x ∧ (ts.vm x.tx).AccessIn U ∧
    x.txExecSeq = s.snapshot.txTable.length
  dagSealed : s.dag.isSome → s.snapshot.isSealed
  specialSealed : s.specialTxC ≠ [] ∨ s.special.isSome → s.dag.isSome

/-- The executions that `Schedule` applies keep their reads even if they fail. -/
def AppliesRecorded (ts : TxScheduler) (s : Schedule) : Event → Prop
  | .apply n => ∀ p, s.applying[n]? = some p → p.2.specialTxType = .normal →
    Recorded ts.failedReads p.2
  | .applySpecial => ∀ x o, s.special = some x → x.outcome = some o → Recorded ts.failedReads o
  | _ => True

namespace ScheduleInv
variable {parent : Parent} {s s' : Schedule}

lemma start {txBatch : List Transaction} (h : ∀ tx ∈ txBatch, (ts.vm tx).AccessIn U) :
    ScheduleInv ts U parent (Schedule.start parent txBatch) := by
  refine ⟨⟨.new U parent, rfl, ?_, ?_⟩, h, ?_, ?_, ?_, ?_, ?_, ?_, ?_⟩ <;>
    simp [Schedule.start, SerialLog, applied]

section
variable (h : ScheduleInv ts U parent s)
include h

lemma submit (hs : s.submit ts n = some s') : ScheduleInv ts U parent s' := by
  simp only [Schedule.submit, bind_eq_bind, bind_eq_some_iff] at hs
  obtain ⟨tx, htx, hs⟩ := hs
  have hin := h.queue tx (mem_of_getElem? htx)
  have hqueue : ∀ tx ∈ s.runningTxC.eraseIdx n, (ts.vm tx).AccessIn U :=
    fun tx htx => h.queue tx (mem_of_mem_eraseIdx htx)
  split at hs <;> obtain rfl := some.inj hs
  · exact { h with queue := hqueue }
  exact { h with
    queue := hqueue
    executing := forall_mem_concat h.executing ⟨.new h.log.snap hin, hin⟩ }

lemma exec (hs : s.exec n = some s') : ScheduleInv ts U parent s' := by
  simp only [Schedule.exec, bind_eq_bind, bind_eq_some_iff] at hs
  obtain ⟨x, hx, x', hnext, hs⟩ := hs
  cases hs
  obtain ⟨hinv, hin⟩ := h.executing x (mem_of_getElem? hx)
  refine { h with executing := forall_mem_set h.executing ?_ }
  exact ⟨(hinv.next h.log.snap hnext).1, Execution.next_tx hnext ▸ hin⟩

lemma check {n : ℕ} (hs : s.check n = some s') : ScheduleInv ts U parent s' := by
  simp only [Schedule.check, bind_eq_bind, bind_eq_some_iff] at hs
  obtain ⟨x, hx, o, ho, hs⟩ := hs
  obtain ⟨hinv, hin⟩ := h.executing x (mem_of_getElem? hx)
  have hexec : ∀ y ∈ s.executing.eraseIdx n,
      ExecInv U ts.vm s.snapshot y ∧ (ts.vm y.tx).AccessIn U :=
    fun y hy => h.executing y (mem_of_mem_eraseIdx hy)
  split at hs <;> obtain rfl := some.inj hs
  · exact { h with executing := hexec, queue := forall_mem_concat h.queue hin }
  · exact { h with
      executing := hexec
      applying := forall_mem_concat h.applying ⟨hinv, hin, ho⟩ }

lemma special_eq_none (hopen : s.snapshot.isSealed = false) : s.special = none := by
  by_contra hne
  have hdag := h.specialSealed (.inr (isSome_iff_ne_none.mpr hne))
  rw [h.dagSealed hdag] at hopen
  exact Bool.noConfusion hopen

end

lemma apply (hcol : NoCollision U) (h : ScheduleInv ts U parent s) {n : ℕ}
    (hrec : AppliesRecorded ts s (.apply n)) (hs : s.apply ts n = some s') :
    ScheduleInv ts U parent s' := by
  simp only [Schedule.apply, bind_eq_bind, bind_eq_some_iff] at hs
  obtain ⟨⟨x, o⟩, hp, hs⟩ := hs
  obtain ⟨hinv, hin, ho⟩ := h.applying (x, o) (mem_of_getElem? hp)
  split at hs
  · cases hs
    exact { h with }
  next hopen =>
  have hnone := h.special_eq_none (by simpa using hopen)
  have happlying : ∀ p ∈ s.applying.eraseIdx n, p ∈ s.applying := fun p hp => mem_of_mem_eraseIdx hp
  cases hs
  rcases applyExecution_cases ts.failedReads s.snapshot x o false with
    ⟨-, -, hres, hsnap⟩ | ⟨htype, hok, hres, hsnap⟩ | ⟨-, -, -, hres, hsnap⟩
  · simp only [hres, hsnap]
    exact ⟨h.log.of_tables_eq _ _, h.queue, forall_mem_concat h.specialTable hin, h.specialQueue,
      fun y hy => ⟨(h.executing y hy).1.of_tables_eq _ _, (h.executing y hy).2⟩,
      fun p hp => ⟨(h.applying p (happlying p hp)).1.of_tables_eq _ _,
        (h.applying p (happlying p hp)).2⟩, by simp [hnone], h.dagSealed, h.specialSealed⟩
  · have hnormal := htype rfl
    have hlog := h.log.apply hcol hinv ho (hrec _ hp hnormal)
      (hok.resolve_left (by simp [hnormal]))
    simp only [hres, hsnap]
    exact ⟨hlog, h.queue, h.specialTable, h.specialQueue,
      fun y hy => ⟨(h.executing y hy).1.apply _ _ _, (h.executing y hy).2⟩,
      fun p hp => ⟨(h.applying p (happlying p hp)).1.apply _ _ _,
        (h.applying p (happlying p hp)).2⟩, by simp [hnone], h.dagSealed, h.specialSealed⟩
  · simp only [hres, hsnap]
    exact { h with
      applying := fun p hp => h.applying p (happlying p hp)
      queue := forall_mem_concat h.queue hin }

section
variable (h : ScheduleInv ts U parent s)
include h

lemma finish (hs : s.finish = some s') : ScheduleInv ts U parent s' := by
  obtain ⟨-, hs⟩ := ite_none_left_eq_some.mp hs
  cases hs
  exact ⟨h.log.of_tables_eq _ _, h.queue, h.specialTable, h.specialQueue,
    fun y hy => ⟨(h.executing y hy).1.of_tables_eq _ _, (h.executing y hy).2⟩,
    fun p hp => ⟨(h.applying p hp).1.of_tables_eq _ _, (h.applying p hp).2⟩,
    fun x hx => ⟨(h.special x hx).1.of_tables_eq _ _, (h.special x hx).2⟩,
    fun _ => rfl, h.specialSealed⟩

lemma buildDag (hs : s.buildDag ts = some s') : ScheduleInv ts U parent s' := by
  obtain ⟨hc, hs⟩ := ite_none_right_eq_some.mp hs
  cases hs
  exact { h with
    specialQueue := h.specialTable
    dagSealed := fun _ => hc.1
    specialSealed := fun _ => rfl }

lemma startSpecial (hs : s.startSpecial ts = some s') : ScheduleInv ts U parent s' := by
  unfold Schedule.startSpecial at hs
  split at hs
  · next tx specialTxC hnone hqueue =>
    cases hs
    have hdag := h.specialSealed (.inl (by simp [hqueue]))
    have hin : ∀ tx' ∈ tx :: specialTxC, (ts.vm tx').AccessIn U :=
      fun tx' htx' => h.specialQueue tx' (hqueue ▸ htx')
    refine { h with
      specialQueue := fun tx' htx' => hin tx' (mem_cons_of_mem _ htx')
      special := fun x hx => ?_
      specialSealed := fun _ => hdag }
    cases hx
    exact ⟨.new h.log.snap (hin tx mem_cons_self), hin tx mem_cons_self, rfl⟩
  · simp at hs

lemma execSpecial (hs : s.execSpecial = some s') : ScheduleInv ts U parent s' := by
  simp only [Schedule.execSpecial, bind_eq_bind, bind_eq_some_iff] at hs
  obtain ⟨x, hx, x', hnext, hs⟩ := hs
  cases hs
  obtain ⟨hinv, hin, hseq⟩ := h.special x hx
  obtain ⟨hinv', hseq'⟩ := hinv.next h.log.snap hnext
  refine { h with
    special := fun y hy => ?_
    specialSealed := fun _ => h.specialSealed (.inr (by simp [hx])) }
  cases hy
  exact ⟨hinv', Execution.next_tx hnext ▸ hin, hseq'.trans hseq⟩

end

lemma applySpecial (hcol : NoCollision U) (h : ScheduleInv ts U parent s)
    (hrec : AppliesRecorded ts s .applySpecial) (hs : s.applySpecial ts = some s') :
    ScheduleInv ts U parent s' := by
  simp only [Schedule.applySpecial, bind_eq_bind, bind_eq_some_iff] at hs
  obtain ⟨x, hx, o, ho, dag, hdag, hs⟩ := hs
  obtain ⟨hinv, hin, hseq⟩ := h.special x hx
  have hsealed := h.dagSealed (by simp [hdag])
  rcases applyExecution_cases ts.failedReads s.snapshot x o true with
    ⟨hfalse, -⟩ | ⟨-, -, hres, hsnap⟩ | ⟨-, hlt, -⟩
  · exact absurd hfalse (by simp)
  · have hlog := h.log.apply hcol hinv ho (hrec x o hx ho) (.inl hseq.ge)
    simp only [hres, hsnap, if_true] at hs
    cases hs
    exact ⟨hlog, h.queue, h.specialTable, h.specialQueue,
      fun y hy => ⟨(h.executing y hy).1.apply _ _ _, (h.executing y hy).2⟩,
      fun p hp => ⟨(h.applying p hp).1.apply _ _ _, (h.applying p hp).2⟩, by simp,
      fun _ => hsealed, fun _ => rfl⟩
  · exact absurd hseq hlt.ne

lemma step (hcol : NoCollision U) {e : Event} (h : ScheduleInv ts U parent s)
    (hrec : AppliesRecorded ts s e) (hs : s.step ts e = some s') : ScheduleInv ts U parent s' := by
  unfold Schedule.step at hs
  split at hs
  · simp at hs
  cases e with
  | submit n => exact h.submit hs
  | exec n => exact h.exec hs
  | check n => exact h.check hs
  | apply n => exact h.apply hcol hrec hs
  | finish => exact h.finish hs
  | buildDag => exact h.buildDag hs
  | startSpecial => exact h.startSpecial hs
  | execSpecial => exact h.execSpecial hs
  | applySpecial => exact h.applySpecial hcol hrec hs

lemma run (hcol : NoCollision U) {txBatch : List Transaction}
    (hvm : ∀ tx ∈ txBatch, (ts.vm tx).AccessIn U) {es : List Event}
    (hrec : Runs.Meets (Schedule.step ts) (AppliesRecorded ts) (Schedule.start parent txBatch) es)
    (hrun : Runs.run (Schedule.step ts) (Schedule.start parent txBatch) es = some s) :
    ScheduleInv ts U parent s :=
  Runs.run_induction (fun _ _ _ h hr hs => h.step hcol hr hs) (.start hvm) hrec hrun

end ScheduleInv

theorem schedule_serializable (ts : TxScheduler) (parent : Parent) (txBatch : List Transaction)
    (U : Set (Bytes × Bytes)) (hcol : NoCollision U)
    (hvm : ∀ tx ∈ txBatch, (ts.vm tx).AccessIn U) (es : List Event)
    (hrec : Runs.Meets (Schedule.step ts) (AppliesRecorded ts) (Schedule.start parent txBatch) es)
    (s : Schedule)
    (hrun : Runs.run (Schedule.step ts) (Schedule.start parent txBatch) es = some s) :
    (applied s.snapshot).map (·.1) = s.snapshot.txTable ∧
      SerialLog ts parent (applied s.snapshot) := by
  have hinv := ScheduleInv.run hcol hvm hrec hrun
  refine ⟨?_, hinv.log.serial⟩
  rw [applied, map_fst_zip]
  simp [hinv.log.snap.len_rw, hinv.log.snap.len_result]

def appendScheduler : TxScheduler where
  vm tx := .get [] [1] fun v =>
    .put [] [1] (some (v.getD [] ++ tx.txId)) (.done ⟨0, []⟩ .normal true)
  failedReads := noFailedReads
  enableSqlSupport := false

def appendRun : List Event :=
  [.submit 0, .submit 0, .exec 0, .exec 1, .exec 0, .exec 1, .check 0, .check 0, .apply 1,
    .apply 0, .submit 0, .exec 0, .exec 0, .check 0, .apply 0, .finish, .buildDag]

/-- No execution of the run fails, so that all the reads are kept. -/
lemma appendRun_recorded : Runs.Meets (Schedule.step appendScheduler)
    (AppliesRecorded appendScheduler)
    (Schedule.start ⟨[], fun _ _ => none⟩ [⟨[1], []⟩, ⟨[2], []⟩]) appendRun := by
  refine Runs.Meets.mono (P := fun s _ => s.special.isNone = true ∧
    ∀ p ∈ s.applying, p.2.success = true) (fun s e ⟨hspecial, hsuccess⟩ => ?_) (by decide)
  cases e with
  | apply n => exact fun p hp _ hfails => by simp [hsuccess p (mem_of_getElem? hp)] at hfails
  | applySpecial => exact fun x o hx _ => by simp [hx] at hspecial
  | _ => trivial

theorem schedule_serializable_append :
    ∃ s, Runs.run (Schedule.step appendScheduler)
        (Schedule.start ⟨[], fun _ _ => none⟩ [⟨[1], []⟩, ⟨[2], []⟩]) appendRun = some s ∧
      s.snapshot.txTable = [⟨[2], []⟩, ⟨[1], []⟩] ∧
      SerialLog appendScheduler ⟨[], fun _ _ => none⟩ (applied s.snapshot) := by
  refine ⟨_, eq_some_of_isSome (by decide), by decide,
    (schedule_serializable appendScheduler _ _ {([], [1])} ?_ ?_ appendRun appendRun_recorded _
      (eq_some_of_isSome (by decide))).2⟩
  · rintro p rfl q rfl -
    rfl
  · exact fun tx _ => ⟨rfl, fun _ => ⟨rfl, trivial⟩⟩

end ChainMaker.Scheduler
