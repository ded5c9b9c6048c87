import ChainMaker.Scheduler.Verifier

/-! A verifier that simulates a scheduled block gives every transaction the read-write set and
the result that the proposer gave it. -/

namespace ChainMaker.Scheduler
open Option List ChainMaker.Snapshot Simulation

variable {ts : TxScheduler} {U : Set (Bytes × Bytes)} {parent : Parent} {txs : List Transaction}
  {d : DAG} {log : List Applied} {pos : ℕ → ℕ} {v v' : Simulation} {n : ℕ}

namespace SimInv

lemma start (U : Set (Bytes × Bytes)) (parent : Parent) (txs : List Transaction) (d : DAG)
    (log : List Applied) (pos : ℕ → ℕ) : SimInv ts U parent txs d log pos (start parent txs d) :=
  ⟨.start parent txs d, .new U parent, rfl, rfl, by simp [Simulation.start]⟩

section
variable (h : SimInv ts U parent txs d log pos v)
include h

lemma doneStep (hs : v.done n = some v') : SimInv ts U parent txs d log pos v' := by
  have hgraph := h.graph.doneStep hs
  obtain ⟨a, -, rfl⟩ := done_some hs
  exact { h with graph := hgraph }

lemma finishStep (hs : v.finish = some v') : SimInv ts U parent txs d log pos v' := by
  have hgraph := h.graph.finishStep hs
  obtain ⟨-, hs⟩ := ite_none_right_eq_some.mp hs
  cases hs
  exact { h with graph := hgraph, snap := { h.snap with } }

variable (hcol : NoCollision U) (B : OrderedBlock ts U parent txs d log pos)
include B

lemma submit (hs : v.submit ts n = some v') : SimInv ts U parent txs d log pos v' := by
  have hgraph := h.graph.submit hs
  obtain ⟨i, tx, hi, htx, rfl⟩ := submit_some hs
  refine { h with graph := hgraph, exec := forall_mem_concat h.exec ?_ }
  obtain ⟨e, he, htxe⟩ := B.entry i (h.graph.mem_range.mp (.inr (.inl (mem_of_getElem? hi))))
  rw [h.graph.mapping, htxe] at htx
  cases htx
  exact ⟨e, he, rfl, rfl⟩

lemma execStep (hs : v.exec n = some v') : SimInv ts U parent txs d log pos v' := by
  have hgraph := h.graph.exec hs
  obtain ⟨p, x, hp, hx, rfl⟩ := exec_some hs
  refine { h with graph := hgraph, exec := forall_mem_set h.exec ?_ }
  have hmem := mem_of_getElem? hp
  exact (h.exec p hmem).next (fun e he r hr => h.getKey_eq B hmem he hr) hx

include hcol

lemma apply {n : ℕ} (hs : v.apply ts n = some v') :
    SimInv ts U parent txs d log pos v' ∧ v'.order.length = v.order.length + 1 := by
  have hgraph := h.graph.apply hs
  cases apply_applies hs with
  | @applied i x o hx ho _ =>
    have hmem := mem_of_getElem? hx
    have hentry := (h.exec _ hmem).outcome_eq B.serial ho
    have hcur : Current U v.snapshot (getTxRWSet ts.failedReads x.tx o) := by
      refine (B.touches _ _ hentry).current fun r hr => ?_
      have hU := (B.touches _ _ hentry).fetched_mem r hr
      rw [← h.snap.getKey_eq _ hU, h.getKey_eq B hmem hentry hr]
      exact (Prog.exec_fetched _ _ _).2 (by simp [Access.Agrees]) r hr
    refine ⟨⟨hgraph, h.snap.apply hcol hcur _ _, h.parent_eq, ?_, fun q hq => ?_⟩, by simp⟩
    · rw [applied_apply h.snap, h.applied_eq, map_append, filterMap_append]
      simp [hentry]
    · exact h.exec q (mem_of_mem_eraseIdx hq)
  | @again i x o hx ho hconflict =>
    have hmem := mem_of_getElem? hx
    have hentry := (h.exec _ hmem).outcome_eq B.serial ho
    rw [h.not_keyConflicted hcol B hmem hentry] at hconflict
    exact absurd hconflict (by simp)

lemma step {e : SimEvent} (hs : v.step ts e = some v') : SimInv ts U parent txs d log pos v' := by
  unfold Simulation.step at hs
  split at hs
  · simp at hs
  cases e with
  | submit n => exact h.submit B hs
  | exec n => exact h.execStep B hs
  | apply n => exact (h.apply hcol B hs).1
  | done n => exact h.doneStep hs
  | finish => exact h.finishStep hs

end

lemma run (hcol : NoCollision U) (B : OrderedBlock ts U parent txs d log pos) {es : List SimEvent}
    (hrun : Runs.run (Simulation.step ts) (Simulation.start parent txs d) es = some v) :
    SimInv ts U parent txs d log pos v :=
  Runs.run_induction_all (fun _ _ _ h hs => h.step hcol B hs) (.start U parent txs d log pos) hrun

end SimInv

def CanReturn (ts : TxScheduler) (v : Simulation) : Prop :=
  ∃ es v', Runs.run (step ts) v es = some v' ∧ v'.returned = true

lemma CanReturn.of_step {e : SimEvent} (hs : v.step ts e = some v') (h : CanReturn ts v') :
    CanReturn ts v := by
  obtain ⟨es, w, hrun, hret⟩ := h
  exact ⟨e :: es, w, Runs.run_cons.mpr ⟨v', hs, hrun⟩, hret⟩

lemma Simulation.step_of_not_returned (h : v.returned = false) (e : SimEvent) :
    v.step ts e = match e with
      | .submit n => v.submit ts n
      | .exec n => v.exec n
      | .apply n => v.apply ts n
      | .done n => v.done n
      | .finish => v.finish := by
  simp only [step, h]
  rfl

namespace SimInv

lemma canReturn_of_executing (hcol : NoCollision U) (B : OrderedBlock ts U parent txs d log pos)
    (h : SimInv ts U parent txs d log pos v) (hret : v.returned = false) {m i : ℕ} {x : Execution}
    (hx : v.executing[m]? = some (i, x))
    (hnext : ∀ v', SimInv ts U parent txs d log pos v' → v'.order.length = v.order.length + 1 →
      CanReturn ts v') : CanReturn ts v := by
  obtain ⟨tx, txExecSeq, access, prog⟩ := x
  induction prog generalizing v access with
  | done result specialTxType success =>
    obtain ⟨v', hv'⟩ : ∃ v', v.apply ts m = some v' := by
      simp only [Simulation.apply, hx, bind_eq_bind, bind_some, Execution.outcome]
      split <;> exact ⟨_, rfl⟩
    obtain ⟨hinv, hlen⟩ := h.apply hcol B hv'
    exact .of_step ((step_of_not_returned hret (.apply m)).trans hv') (hnext v' hinv hlen)
  | put c k value next ih =>
    have hstep : v.exec m = some { v with
        executing := v.executing.set m (i, ⟨tx, txExecSeq, access.put c k value, next⟩) } := by
      simp [Simulation.exec, hx, Execution.next]
    have hlt := (List.getElem?_eq_some_iff.mp hx).1
    exact .of_step ((step_of_not_returned hret (.exec m)).trans hstep)
      (ih (h.execStep B hstep) hret hnext _ (getElem?_set_self hlt))
  | get c k next ih =>
    have hstep : v.exec m = some { v with
        executing := v.executing.set m (i, ⟨tx, txExecSeq,
          (access.get v.snapshot.getKey c k).2, next (access.get v.snapshot.getKey c k).1⟩) } := by
      simp [Simulation.exec, hx, Execution.next]
    have hlt := (List.getElem?_eq_some_iff.mp hx).1
    exact .of_step ((step_of_not_returned hret (.exec m)).trans hstep)
      (ih _ (h.execStep B hstep) hret hnext _ (getElem?_set_self hlt))

lemma canReturn_of_drained (h : SimInv ts U parent txs d log pos v) (hret : v.returned = false)
    (hnext : ∀ v', SimInv ts U parent txs d log pos v' → v'.returned = false → v'.order = v.order →
      v'.doneTxC = [] → CanReturn ts v') : CanReturn ts v := by
  induction hk : v.doneTxC.length generalizing v with
  | zero => exact hnext v h hret rfl (length_eq_zero_iff.mp hk)
  | succ k ih =>
    obtain ⟨a, done, hcons⟩ := exists_cons_of_length_eq_add_one hk
    have hstep : v.done 0 = some { v with
        doneTxC := done
        dagRemain := (popNextTxBatchFromDag (shrinkDag a v.dagRemain)).2
        runningTxC := v.runningTxC ++ (popNextTxBatchFromDag (shrinkDag a v.dagRemain)).1 } := by
      simp [Simulation.done, hcons]
    exact .of_step ((step_of_not_returned hret (.done 0)).trans hstep)
      (ih (h.doneStep hstep) hret hnext (by simpa [hcons] using hk))

lemma canReturn (hcol : NoCollision U) (B : OrderedBlock ts U parent txs d log pos)
    (hlen : d.vertexes.length = txs.length) (hback : ∀ i j, d.Edge i j → j < i)
    (h : SimInv ts U parent txs d log pos v) : CanReturn ts v := by
  induction hk : d.vertexes.length - v.order.length
    using Nat.strong_induction_on generalizing v with
  | _ k ih =>
    cases hret : v.returned with
    | true => exact ⟨[], v, rfl, hret⟩
    | false =>
      refine h.canReturn_of_drained hret fun w hw hwret hworder hdone => ?_
      by_cases hall : w.order.length = d.vertexes.length
      · have hne : d.vertexes ≠ [] := by
          intro hnil
          have htxs : txs = [] := length_eq_zero_iff.mp (by rw [← hlen, hnil]; rfl)
          simp [hw.graph.empty htxs] at hwret
        have hfin := hw.graph.finish.mpr ⟨hne, hall⟩
        refine ⟨[.finish], { w with snapshot := w.snapshot.doSeal, returned := true }, ?_, rfl⟩
        refine Runs.run_cons.mpr ⟨_, (step_of_not_returned hwret .finish).trans ?_, rfl⟩
        simp [finish, hfin]
      · have hlt : w.order.length < d.vertexes.length := by
          have := hw.graph.part.length_eq
          simp only [length_append, length_range] at this
          omega
        have hnext : ∀ u, SimInv ts U parent txs d log pos u → u.order.length = w.order.length + 1 →
            CanReturn ts u := by
          intro u hu hsucc
          exact ih (d.vertexes.length - u.order.length) (by rw [← hworder] at hk; omega) hu rfl
        have hex : ∃ i, i < d.vertexes.length ∧ i ∉ w.order := by
          by_contra! hno
          have hsub : range d.vertexes.length ⊆ w.order := fun i hi => hno i (mem_range.mp hi)
          have := (subperm_of_subset nodup_range hsub).length_le
          simp only [length_range] at this
          omega
        obtain ⟨hi, hnot⟩ := Nat.find_spec hex
        have hmin : ∀ j < Nat.find hex, j ∈ w.order := fun j hj => by
          by_contra hj'
          exact Nat.find_min hex hj ⟨hj.trans hi, hj'⟩
        rcases hw.graph.mem_range.mpr hi with hrem | hrun | hexe | hord
        · obtain ⟨p, hp, hpi⟩ := mem_map.mp hrem
          obtain ⟨hne, hmem⟩ := hw.graph.remain p hp
          obtain ⟨j, hj⟩ := Finset.nonempty_iff_ne_empty.mpr hne
          obtain ⟨hedge, hj⟩ := (hmem j).mp hj
          rw [hdone] at hj
          exact absurd (hmin j (hpi ▸ hback _ _ hedge)) (by simpa using hj)
        · obtain ⟨m, hm⟩ := getElem?_of_mem hrun
          obtain ⟨e, -, htx⟩ := B.entry _ hi
          have hstep : w.submit ts m = some { w with
              runningTxC := w.runningTxC.eraseIdx m
              executing := w.executing ++
                [(Nat.find hex, newExecution ts.vm w.snapshot e.1)] } := by
            simp [Simulation.submit, hm, hw.graph.mapping, htx]
          exact .of_step ((step_of_not_returned hwret (.submit m)).trans hstep)
            ((hw.submit B hstep).canReturn_of_executing hcol B hwret getElem?_concat_length hnext)
        · obtain ⟨q, hq, hqi⟩ := mem_map.mp hexe
          obtain ⟨m, hm⟩ := getElem?_of_mem hq
          exact hw.canReturn_of_executing hcol B hwret hm hnext
        · exact absurd hord hnot

lemma perm_order (B : OrderedBlock ts U parent txs d log pos)
    (h : SimInv ts U parent txs d log pos v) (hret : v.returned = true) :
    v.order.Perm (range d.vertexes.length) := by
  refine h.graph.perm_order (fun htxs => ?_) hret
  by_contra hne
  obtain ⟨e, -, htx⟩ := B.entry 0 (length_pos_iff.mpr hne)
  simp [htxs] at htx

end SimInv

theorem simulateWithDag_agrees (ts : TxScheduler) (parent : Parent) (txBatch : List Transaction)
    (U : Set (Bytes × Bytes)) (hcol : NoCollision U)
    (hvm : ∀ tx ∈ txBatch, (ts.vm tx).AccessIn U) (es : List Event) (s : Schedule)
    (hrec : Runs.Meets (Schedule.step ts) (AppliesRecorded ts) (Schedule.start parent txBatch) es)
    (hrun : Runs.run (Schedule.step ts) (Schedule.start parent txBatch) es = some s) (d : DAG)
    (hd : s.dag = some d) (fs : List SimEvent) (v : Simulation)
    (hsim : Runs.run (Simulation.step ts) (Simulation.start parent s.snapshot.txTable d) fs =
      some v) :
    (∀ e ∈ applied v.snapshot, e ∈ applied s.snapshot) ∧
      (v.returned = true → (applied v.snapshot).Perm (applied s.snapshot)) ∧ CanReturn ts v := by
  have B := scheduledBlock_of_run hcol hvm hrec hrun hd
  have htxs := applied_map_tx (ScheduleInv.run hcol hvm hrec hrun).log.snap
  rw [← htxs] at hsim
  have hinv := SimInv.run hcol B.ordered hsim
  refine ⟨fun e he => ?_, fun hret => ?_, hinv.canReturn hcol B.ordered (by simp [B.len]) B.lt⟩
  · rw [hinv.applied_eq] at he
    obtain ⟨i, -, hi⟩ := mem_filterMap.mp he
    exact mem_of_getElem? hi
  have htake := take_eq_filterMap_range (applied s.snapshot) le_rfl
  rw [take_length, ← B.len] at htake
  rw [hinv.applied_eq, htake]
  nth_rewrite 1 [← htake]
  rw [List.map_id]
  exact (hinv.perm_order B.ordered hret).filterMap _

theorem simulateWithDag_agrees_append :
    ∃ s d v, Runs.run (Schedule.step appendScheduler)
        (Schedule.start ⟨[], fun _ _ => none⟩ [⟨[1], []⟩, ⟨[2], []⟩]) appendRun = some s ∧
      s.dag = some d ∧
      Runs.run (Simulation.step appendScheduler)
        (Simulation.start ⟨[], fun _ _ => none⟩ s.snapshot.txTable d)
        [.submit 0, .exec 0, .exec 0, .apply 0, .done 0, .submit 0, .exec 0, .exec 0, .apply 0,
          .finish] = some v ∧
      v.returned = true ∧ (applied v.snapshot).Perm (applied s.snapshot) := by
  refine ⟨_, _, _, eq_some_of_isSome (by decide), eq_some_of_isSome (by decide),
    eq_some_of_isSome (by decide), by decide,
      (simulateWithDag_agrees appendScheduler _ _ {([], [1])}
      ?_ ?_ appendRun _ appendRun_recorded (eq_some_of_isSome (by decide)) _
      (eq_some_of_isSome (by decide)) _ _ (eq_some_of_isSome (by decide))).2.1 (by decide)⟩
  · rintro p rfl q rfl -
    rfl
  · exact fun tx _ => ⟨rfl, fun _ => ⟨rfl, trivial⟩⟩

def failingScheduler : TxScheduler where
  vm tx :=
    if tx.txId = [1] then .put [] [1] (some [7]) (.done ⟨0, []⟩ .normal true)
    else .get [] [1] fun value =>
      if value = none then .done ⟨1, []⟩ .normal false else .done ⟨0, []⟩ .normal true
  failedReads := noFailedReads
  enableSqlSupport := false

/-- The proposer applies the failed transaction before the write. Its read is not kept, so that
the graph has no edge, and the verifier may run the write first. -/
theorem simulateWithDag_disagrees :
    ∃ s v, Runs.run (Schedule.step failingScheduler)
        (Schedule.start ⟨[], fun _ _ => none⟩ [⟨[2], []⟩, ⟨[1], []⟩])
        [.submit 0, .exec 0, .check 0, .apply 0, .submit 0, .exec 0, .check 0, .apply 0, .finish,
          .buildDag] = some s ∧
      s.dag = some ⟨[[], []]⟩ ∧ s.snapshot.txTable = [⟨[2], []⟩, ⟨[1], []⟩] ∧
      Runs.run (Simulation.step failingScheduler)
        (Simulation.start ⟨[], fun _ _ => none⟩ [⟨[2], []⟩, ⟨[1], []⟩] ⟨[[], []]⟩)
        [.submit 1, .exec 0, .apply 0, .submit 0, .exec 0, .apply 0, .finish] = some v ∧
      v.returned = true ∧ s.snapshot.txResultMap.lookup [2] = some ⟨1, []⟩ ∧
      v.snapshot.txResultMap.lookup [2] = some ⟨0, []⟩ := by
  refine ⟨_, _, eq_some_of_isSome (by decide), by decide, by decide,
    eq_some_of_isSome (by decide), ?_⟩
  decide

end ChainMaker.Scheduler
