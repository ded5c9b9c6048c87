import ChainMaker.Scheduler.Serializable
import ChainMaker.Snapshot.DagExact

/-! The graph of a scheduled block orders every two transactions that touch one key, the
special transactions at its end included. -/

namespace ChainMaker.Scheduler
open Option List ChainMaker.Snapshot Relation Schedule SnapshotImpl

def readPairs (rw : TxRWSet) : List (Bytes × Bytes) :=
  rw.txReads.map fun r => (r.contractName, r.key)

def writePairs (rw : TxRWSet) : List (Bytes × Bytes) :=
  rw.txWrites.map fun w => (w.contractName, w.key)

def PairConflict (rw rw' : TxRWSet) : Prop :=
  (∃ p ∈ readPairs rw, p ∈ writePairs rw') ∨ (∃ p ∈ writePairs rw, p ∈ writePairs rw') ∨
    ∃ p ∈ writePairs rw, p ∈ readPairs rw'

lemma PairConflict.conflict {rw rw' : TxRWSet} (h : PairConflict rw rw') : Conflict rw rw' := by
  have hread : ∀ {rw : TxRWSet} {p : Bytes × Bytes}, p ∈ readPairs rw → p.2 ∈ rw.readKeys := by
    intro rw p hp
    obtain ⟨r, hr, rfl⟩ := mem_map.mp hp
    exact mem_map_of_mem hr
  have hwrite : ∀ {rw : TxRWSet} {p : Bytes × Bytes}, p ∈ writePairs rw → p.2 ∈ rw.writeKeys := by
    intro rw p hp
    obtain ⟨w, hw, rfl⟩ := mem_map.mp hp
    exact mem_map_of_mem hw
  rcases h with ⟨p, hp, hp'⟩ | ⟨p, hp, hp'⟩ | ⟨p, hp, hp'⟩
  · exact .inl ⟨p.2, hread hp, hwrite hp'⟩
  · exact .inr (.inl ⟨p.2, hwrite hp, hwrite hp'⟩)
  · exact .inr (.inr ⟨p.2, hwrite hp, hread hp'⟩)

structure DagInv (d : DAG) (rws : List TxRWSet) (hasFirstTx : Bool) : Prop where
  len : d.vertexes.length = rws.length
  lt : ∀ i j, d.Edge i j → j < i
  orders : ∀ i j rw rw', j < i → rws[i]? = some rw → rws[j]? = some rw' → PairConflict rw rw' →
    TransGen d.Edge i j
  last : hasFirstTx = true → rws ≠ [] ∧ ∀ j < rws.length - 1, TransGen d.Edge (rws.length - 1) j

lemma DAG.edge_append {vertexes : List (List ℕ)} {ns : List ℕ} {i j : ℕ} :
    (DAG.mk (vertexes ++ [ns])).Edge i j ↔
      (DAG.mk vertexes).Edge i j ∨ i = vertexes.length ∧ j ∈ ns := by
  unfold DAG.Edge
  rcases lt_trichotomy i vertexes.length with hi | rfl | hi
  · rw [getD_append _ _ _ _ hi]
    simp [hi.ne]
  · rw [getD_append_right _ _ _ _ le_rfl, getD_eq_default vertexes [] le_rfl]
    simp
  · rw [getD_eq_default _ _ (by simp; omega), getD_eq_default vertexes _ hi.le]
    simp [hi.ne']

lemma DagInv.build {s : SnapshotImpl} (hs : s.txRWSetTable.length = s.txTable.length)
    (isSql : Bool) : DagInv (s.buildDAG isSql) s.txRWSetTable false := by
  cases isSql with
  | false =>
    obtain ⟨hlen, hred⟩ := buildDAG_isReduction hs
    refine ⟨hlen.trans hs.symm, fun i j h => (hred.sub i j h).1, ?_, by simp⟩
    intro i j rw rw' hji hi hj hconf
    exact hred.le_transGen (wellFounded_swap_conflictBefore _)
      (.single ⟨hji, rw, rw', hi, hj, hconf.conflict⟩)
  | true =>
    have hedge : ∀ i j, (s.buildDAG true).Edge i j ↔ i < s.txTable.length ∧ j + 1 = i := by
      intro i j
      rcases lt_or_ge i s.txTable.length with hi | hi
      · simp only [DAG.Edge, buildDAG, if_true]
        rw [getD_eq_getElem _ _ (by simpa using hi), getElem_map, getElem_range]
        split <;> simp [hi] <;> omega
      · simp only [DAG.Edge, buildDAG, if_true]
        simp [hi.not_gt]
    refine ⟨by simp [buildDAG, hs], fun i j h => ?_, ?_, by simp⟩
    · have := (hedge i j).mp h
      omega
    intro i j rw rw' hji hi _ _
    have hlt : i < s.txTable.length := hs ▸ (List.getElem?_eq_some_iff.mp hi).1
    clear hi
    induction i, hji using Nat.le_induction with
    | base => exact .single ((hedge _ _).mpr ⟨hlt, rfl⟩)
    | succ i hi ih => exact .head ((hedge _ _).mpr ⟨hlt, rfl⟩) (ih (by omega))

lemma DagInv.special {d : DAG} {rws : List TxRWSet} {hasFirstTx : Bool}
    (h : DagInv d rws hasFirstTx) (rw : TxRWSet) :
    DagInv ⟨d.vertexes ++ [specialNeighbors hasFirstTx (rws.length + 1)]⟩ (rws ++ [rw]) true := by
  set d' : DAG := ⟨d.vertexes ++ [specialNeighbors hasFirstTx (rws.length + 1)]⟩ with hd
  have hedge : ∀ i j, d'.Edge i j ↔ d.Edge i j ∨ i = rws.length ∧
      j ∈ specialNeighbors hasFirstTx (rws.length + 1) := by
    intro i j
    rw [hd, DAG.edge_append, h.len]
  have hold : ∀ {i j}, TransGen d.Edge i j → TransGen d'.Edge i j :=
    fun hij => TransGen.mono (fun i j h => (hedge i j).mpr (.inl h)) _ _ hij
  have hlast : ∀ j < rws.length, TransGen d'.Edge rws.length j := by
    intro j hj
    cases hasFirstTx with
    | false =>
      exact .single ((hedge _ _).mpr (.inr ⟨rfl, by simpa [specialNeighbors] using hj⟩))
    | true =>
      have hstep : d'.Edge rws.length (rws.length - 1) :=
        (hedge _ _).mpr (.inr ⟨rfl, by simp [specialNeighbors]⟩)
      rcases Nat.lt_or_ge j (rws.length - 1) with hj' | hj'
      · exact .head hstep (hold ((h.last rfl).2 j hj'))
      obtain rfl : j = rws.length - 1 := by omega
      exact .single hstep
  refine ⟨by simp [hd, h.len], fun i j hij => ?_, ?_, fun _ => ⟨by simp, by simpa using hlast⟩⟩
  · rcases (hedge i j).mp hij with hij | ⟨rfl, hj⟩
    · exact h.lt i j hij
    cases hasFirstTx with
    | false => simpa [specialNeighbors] using hj
    | true =>
      have hpos := length_pos_iff.mpr (h.last rfl).1
      simp only [specialNeighbors, if_true, mem_singleton] at hj
      omega
  · intro i j rwi rwj hji hi hj hconf
    rcases lt_or_ge i rws.length with hlt | hge
    · rw [getElem?_append_left hlt] at hi
      rw [getElem?_append_left (hji.trans hlt)] at hj
      exact hold (h.orders i j rwi rwj hji hi hj hconf)
    have := (List.getElem?_eq_some_iff.mp hi).1
    simp only [length_append, length_singleton] at this
    obtain rfl : i = rws.length := by omega
    exact hlast j hji

structure BlockInv (s : Schedule) : Prop where
  dag : ∀ d, s.dag = some d → DagInv d s.snapshot.txRWSetTable s.hasFirstTx
  noFirst : s.dag = none → s.hasFirstTx = false

lemma BlockInv.of_eq {s s' : Schedule} (h : BlockInv s) (hd : s'.dag = s.dag)
    (hf : s'.hasFirstTx = s.hasFirstTx)
    (hrw : s'.snapshot.txRWSetTable = s.snapshot.txRWSetTable) : BlockInv s' :=
  ⟨fun d hd' => hf ▸ hrw ▸ h.dag d (hd ▸ hd'), fun hd' => hf ▸ h.noFirst (hd ▸ hd')⟩

variable {ts : TxScheduler} {U : Set (Bytes × Bytes)} {parent : Parent} {s s' : Schedule}

section
variable (hinv : ScheduleInv ts U parent s)
include hinv

lemma BlockInv.applySpecial (h : BlockInv s) (hs : s.applySpecial ts = some s') : BlockInv s' := by
  simp only [Schedule.applySpecial, bind_eq_bind, bind_eq_some_iff] at hs
  obtain ⟨x, hx, o, ho, dag, hdag, hs⟩ := hs
  rcases applyExecution_cases ts.failedReads s.snapshot x o true with
    ⟨hfalse, -⟩ | ⟨-, -, hres, hsnap⟩ | ⟨-, -, -, hres, hsnap⟩
  · exact absurd hfalse (by simp)
  · simp only [hres, hsnap, if_true] at hs
    cases hs
    refine ⟨fun d hd => ?_, by simp⟩
    cases hd
    have hsize : (s.snapshot.apply x.tx (getTxRWSet ts.failedReads x.tx o) o.result).getSnapshotSize
        = s.snapshot.txRWSetTable.length + 1 := by
      simp [getSnapshotSize, SnapshotImpl.apply, hinv.log.snap.len_rw]
    rw [hsize]
    exact (h.dag dag hdag).special _
  · simp only [hres, hsnap] at hs
    cases hs
    exact h.of_eq rfl rfl rfl

lemma BlockInv.apply (h : BlockInv s) {n : ℕ} (hs : s.apply ts n = some s') : BlockInv s' := by
  simp only [Schedule.apply, bind_eq_bind, bind_eq_some_iff] at hs
  obtain ⟨p, hp, hs⟩ := hs
  split at hs <;> obtain rfl := some.inj hs
  · exact h.of_eq rfl rfl rfl
  next hopen =>
  -- The snapshot is open, so that no graph has been built from it.
  refine ⟨fun d hd => ?_, h.noFirst⟩
  exact absurd (hinv.dagSealed (isSome_of_eq_some hd)) hopen

lemma BlockInv.step (h : BlockInv s) {e : Event} (hs : s.step ts e = some s') : BlockInv s' := by
  unfold Schedule.step at hs
  split at hs
  · simp at hs
  cases e with
  | submit n =>
    simp only [submit, bind_eq_bind, bind_eq_some_iff] at hs
    obtain ⟨tx, -, hs⟩ := hs
    split at hs <;> obtain rfl := some.inj hs <;> exact h.of_eq rfl rfl rfl
  | exec n =>
    simp only [exec, bind_eq_bind, bind_eq_some_iff] at hs
    obtain ⟨x, -, x', -, hs⟩ := hs
    exact some.inj hs ▸ h.of_eq rfl rfl rfl
  | check n =>
    simp only [check, bind_eq_bind, bind_eq_some_iff] at hs
    obtain ⟨x, -, o, -, hs⟩ := hs
    split at hs <;> obtain rfl := some.inj hs <;> exact h.of_eq rfl rfl rfl
  | apply n => exact h.apply hinv hs
  | finish =>
    obtain ⟨-, hs⟩ := ite_none_left_eq_some.mp hs
    exact some.inj hs ▸ h.of_eq rfl rfl rfl
  | buildDag =>
    obtain ⟨hc, hs⟩ := ite_none_right_eq_some.mp hs
    cases hs
    refine ⟨fun d hd => ?_, by simp⟩
    cases hd
    have hfirst := h.noFirst hc.2
    rw [hfirst]
    exact .build hinv.log.snap.len_rw _
  | startSpecial =>
    simp only [startSpecial] at hs
    split at hs
    · exact some.inj hs ▸ h.of_eq rfl rfl rfl
    · simp at hs
  | execSpecial =>
    simp only [execSpecial, bind_eq_bind, bind_eq_some_iff] at hs
    obtain ⟨x, -, x', -, hs⟩ := hs
    exact some.inj hs ▸ h.of_eq rfl rfl rfl
  | applySpecial => exact h.applySpecial hinv hs

end

structure ScheduledBlock (ts : TxScheduler) (U : Set (Bytes × Bytes)) (parent : Parent)
    (log : List Applied) (d : DAG) : Prop where
  serial : SerialLog ts parent log
  footprint : ∀ i e, log[i]? = some e → Footprint U
    (serialExec ts.vm parent ((log.take i).map (·.2.1)) e.1).access.fetched e.2.1
  len : d.vertexes.length = log.length
  lt : ∀ i j, d.Edge i j → j < i
  orders : ∀ i j e e', j < i → log[i]? = some e → log[j]? = some e' →
    PairConflict e.2.1 e'.2.1 → TransGen d.Edge i j

lemma scheduledBlock_of_run (hcol : NoCollision U) {txBatch : List Transaction}
    (hvm : ∀ tx ∈ txBatch, (ts.vm tx).AccessIn U) {es : List Event}
    (hrec : Runs.Meets (step ts) (AppliesRecorded ts) (start parent txBatch) es)
    (hrun : Runs.run (step ts) (start parent txBatch) es = some s) {d : DAG}
    (hd : s.dag = some d) : ScheduledBlock ts U parent (applied s.snapshot) d := by
  have hboth : ScheduleInv ts U parent s ∧ BlockInv s :=
    Runs.run_induction (I := fun s => ScheduleInv ts U parent s ∧ BlockInv s)
      (fun _ _ _ h hr hs => ⟨h.1.step hcol hr hs, h.2.step h.1 hs⟩)
      ⟨.start hvm, by simp [start], fun _ => rfl⟩ hrec hrun
  obtain ⟨hinv, hblock⟩ := hboth
  have hdag := hblock.dag d hd
  have hmap := applied_map_rw hinv.log.snap
  have hget : ∀ {i : ℕ} {e : Applied}, (applied s.snapshot)[i]? = some e →
      s.snapshot.txRWSetTable[i]? = some e.2.1 := by
    intro i e he
    rw [← hmap, getElem?_map, he]
    rfl
  refine ⟨hinv.log.serial, hinv.log.footprint, ?_, hdag.lt, ?_⟩
  · rw [hdag.len, ← hmap, length_map]
  · exact fun i j e e' hji hi hj => hdag.orders i j _ _ hji (hget hi) (hget hj)

end ChainMaker.Scheduler
