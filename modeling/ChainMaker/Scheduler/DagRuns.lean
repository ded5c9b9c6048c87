import ChainMaker.Scheduler.Serializable

/-! What holds in every run of `SimulateWithDag`, whatever graph the block has. -/

namespace ChainMaker.Scheduler
open Simulation
open ChainMaker.Snapshot Relation List

variable {ts : TxScheduler} {d : DAG} {txs : List Transaction} {v v' : Simulation} {n : ℕ} {i : ℕ}

/-- The transactions applied so far, as the graph allows: with each of them everything before
it, and in an order that the graph does not contradict. -/
structure DagOrder (d : DAG) (n : ℕ) (order : List ℕ) : Prop where
  nodup : order.Nodup
  lt : ∀ i ∈ order, i < n
  closed : ∀ i ∈ order, ∀ j, d.Edge i j → j ∈ order
  ordered : order.Pairwise fun a b => ¬ TransGen d.Edge a b

lemma DagOrder.closed_transGen {order : List ℕ} (h : DagOrder d n order) {i j : ℕ}
    (hi : i ∈ order) (hij : TransGen d.Edge i j) : j ∈ order := by
  induction hij with
  | single hij => exact h.closed i hi _ hij
  | tail _ hjk ih => exact h.closed _ ih _ hjk

lemma DagOrder.append {n i : ℕ} {order : List ℕ} (h : DagOrder d n order) (hi : i ∉ order)
    (hlt : i < n) (hpred : ∀ {j}, TransGen d.Edge i j → j ∈ order) :
    DagOrder d n (order ++ [i]) := by
  refine ⟨?_, forall_mem_concat h.lt hlt,
    forall_mem_concat (fun a ha j hj => ?_) fun j hj => ?_, ?_⟩
  · rw [← concat_eq_append]
    exact h.nodup.concat hi
  · exact mem_append_left _ (h.closed a ha j hj)
  · exact mem_append_left _ (hpred (.single hj))
  · refine pairwise_append.mpr ⟨h.ordered, pairwise_singleton _ _, ?_⟩
    intro a ha b hb hab
    obtain rfl := mem_singleton.mp hb
    exact hi (h.closed_transGen ha hab)

lemma popNextTxBatchFromDag_perm (l : List (ℕ × Finset ℕ)) :
    ((popNextTxBatchFromDag l).2.map (·.1) ++ (popNextTxBatchFromDag l).1).Perm (l.map (·.1)) := by
  rw [popNextTxBatchFromDag, ← map_append]
  refine Perm.map _ ?_
  have hneg : (l.filter fun p => p.2 = ∅) = l.filter fun p => !decide (p.2 ≠ ∅) := by simp
  rw [hneg]
  exact filter_append_perm _ _

lemma map_set_of_eq {α β : Type} {f : α → β} {l : List α} {a b : α}
    (ha : l[n]? = some a) (hf : f b = f a) : (l.set n b).map f = l.map f := by
  induction l generalizing n with
  | nil => rfl
  | cons x l ih =>
    cases n with
    | zero =>
      cases ha
      simp [hf]
    | succ n => simp [ih ha]

lemma applyExecution_true (failedReads : Access → List TxRead) (s : SnapshotImpl) (x : Execution)
    (o : Outcome) : applyExecution failedReads s x o true =
        (true, s.txTable.length + 1, s.apply x.tx (getTxRWSet failedReads x.tx o) o.result) ∨
      s.keyConflicted x.txExecSeq (getTxRWSet failedReads x.tx o) = true ∧
        applyExecution failedReads s x o true = (false, s.txTable.length, s) := by
  unfold applyExecution SnapshotImpl.applyTxSimContext
  simp only [Bool.not_true, Bool.false_and, Bool.false_eq_true, if_false]
  split
  · exact .inl rfl
  split
  · next hconflict => exact .inr ⟨hconflict, rfl⟩
  · exact .inl rfl

lemma Execution.next_txExecSeq {x x' : Execution} {s : SnapshotImpl} (h : x.next s = some x') :
    x'.txExecSeq = x.txExecSeq := by
  obtain ⟨tx, txExecSeq, access, prog⟩ := x
  cases prog with
  | done => simp [Execution.next] at h
  | get | put => exact Option.some.inj h ▸ rfl

inductive Applies (ts : TxScheduler) (v : Simulation) (n : ℕ) : Simulation → Prop
  | applied {i : ℕ} {x : Execution} {o : Outcome} (hx : v.executing[n]? = some (i, x))
      (ho : x.outcome = some o)
      (hok : (applyExecution ts.failedReads v.snapshot x o true).1 = true) : Applies ts v n { v with
        snapshot := v.snapshot.apply x.tx (getTxRWSet ts.failedReads x.tx o) o.result
        executing := v.executing.eraseIdx n
        finishC := v.finishC || decide (v.txBatchSize ≤ v.snapshot.txTable.length + 1)
        doneTxC := v.doneTxC ++ [i]
        order := v.order ++ [i] }
  | again {i : ℕ} {x : Execution} {o : Outcome} (hx : v.executing[n]? = some (i, x))
      (ho : x.outcome = some o)
      (hconflict : v.snapshot.keyConflicted x.txExecSeq (getTxRWSet ts.failedReads x.tx o) = true) :
      Applies ts v n { v with
        executing := v.executing.eraseIdx n
        finishC := v.finishC || decide (v.txBatchSize ≤ v.snapshot.txTable.length)
        runningTxC := v.runningTxC ++ [i] }

lemma Simulation.apply_applies (hs : v.apply ts n = some v') : Applies ts v n v' := by
  simp only [apply, Option.bind_eq_bind, Option.bind_eq_some_iff] at hs
  obtain ⟨⟨i, x⟩, hx, o, ho, hs⟩ := hs
  rcases applyExecution_true ts.failedReads v.snapshot x o with happly | ⟨hconflict, happly⟩
  · simp only [happly, if_true] at hs
    exact Option.some.inj hs ▸ .applied hx ho (by rw [happly])
  · simp only [happly, Bool.false_eq_true, if_false] at hs
    exact Option.some.inj hs ▸ .again hx ho hconflict

/-- Each transaction waits in the graph, is queued, runs, or is applied; it is started when
everything before it in the graph is applied. -/
structure GraphInv (d : DAG) (txs : List Transaction) (v : Simulation) : Prop where
  mapping : v.txMapping = txs
  size : v.txBatchSize = d.vertexes.length
  part : (v.dagRemain.map (·.1) ++ v.runningTxC ++ v.executing.map (·.1) ++ v.order).Perm
    (range d.vertexes.length)
  ready : ∀ i ∈ v.runningTxC, ∀ j, d.Edge i j → j ∈ v.order
  started : ∀ p ∈ v.executing, txs[p.1]? = some p.2.tx ∧ p.2.txExecSeq ≤ v.order.length ∧
    ∀ j, d.Edge p.1 j → j ∈ v.order.take p.2.txExecSeq
  dagOrder : DagOrder d d.vertexes.length v.order
  table : v.snapshot.txTable.map some = v.order.map (txs[·]?)
  done : v.doneTxC.Nodup ∧ v.doneTxC ⊆ v.order
  remain : ∀ p ∈ v.dagRemain, p.2 ≠ ∅ ∧ ∀ j, j ∈ p.2 ↔ d.Edge p.1 j ∧ (j ∉ v.order ∨ j ∈ v.doneTxC)
  finish : v.finishC = true ↔ d.vertexes ≠ [] ∧ v.order.length = d.vertexes.length
  returned : v.returned = true → v.order.length = d.vertexes.length ∨ txs = []
  empty : txs = [] → v.returned = true

namespace GraphInv

section
variable (h : GraphInv d txs v)
include h

lemma mem_range :
    i ∈ v.dagRemain.map (·.1) ∨ i ∈ v.runningTxC ∨ i ∈ v.executing.map (·.1) ∨ i ∈ v.order ↔
      i < d.vertexes.length := by
  rw [← List.mem_range, ← h.part.mem_iff]
  simp only [mem_append, or_assoc]

lemma size_eq : v.snapshot.txTable.length = v.order.length := by
  simpa using congrArg length h.table

lemma notMem_order (hi : i ∈ v.executing.map (·.1)) : i ∉ v.order := by
  have hnodup := h.part.nodup_iff.mpr nodup_range
  intro hio
  exact (nodup_append.mp hnodup).2.2 i (mem_append_right _ hi) i hio rfl

lemma pred {x : Execution} (hx : (i, x) ∈ v.executing) {j : ℕ} (hij : TransGen d.Edge i j) :
    j ∈ v.order.take x.txExecSeq := by
  obtain ⟨k, hik, hkj⟩ := TransGen.head'_iff.mp hij
  have hk := (h.started _ hx).2.2 k hik
  rcases reflTransGen_iff_eq_or_transGen.mp hkj with rfl | hkj
  · exact hk
  have hj := h.dagOrder.closed_transGen (mem_of_mem_take hk) hkj
  have hordered := h.dagOrder.ordered
  rw [← take_append_drop x.txExecSeq v.order] at hj hordered
  rcases mem_append.mp hj with hj | hj
  · exact hj
  · exact absurd hkj ((pairwise_append.mp hordered).2.2 k hk j hj)

end

lemma start (parent : Parent) (txs : List Transaction) (d : DAG) :
    GraphInv d txs (start parent txs d) := by
  have hpart : (adjacency d).map (·.1) = range d.vertexes.length := by
    simp [adjacency, Function.comp_def]
  have hmem : ∀ p ∈ adjacency d, p.2 = (d.vertexes.getD p.1 []).toFinset := by
    intro p hp
    obtain ⟨i, -, rfl⟩ := mem_map.mp hp
    rfl
  refine ⟨rfl, rfl, ?_, ?_, by simp [Simulation.start], ⟨nodup_nil, by simp [Simulation.start],
    by simp [Simulation.start], List.Pairwise.nil⟩, rfl, ⟨nodup_nil, by simp [Simulation.start]⟩,
    ?_, ?_, ?_, by simp [Simulation.start]⟩
  · rw [← hpart]
    simpa [Simulation.start] using popNextTxBatchFromDag_perm (Simulation.adjacency d)
  · intro i hi j hij
    obtain ⟨p, hp, rfl⟩ := mem_map.mp hi
    obtain ⟨hp, hempty⟩ := mem_filter.mp hp
    have hj : j ∈ p.2 := hmem p hp ▸ mem_toFinset.mpr hij
    rw [of_decide_eq_true hempty] at hj
    exact absurd hj (Finset.notMem_empty j)
  · intro p hp
    obtain ⟨hp, hne⟩ := mem_filter.mp hp
    refine ⟨of_decide_eq_true hne, fun j => ?_⟩
    rw [hmem p hp, mem_toFinset]
    simp [Simulation.start, DAG.Edge]
  · simp [Simulation.start, eq_comm]
  · intro hret
    exact .inr (by simpa [Simulation.start] using hret)

section
variable (h : GraphInv d txs v)
include h

lemma submit (hs : v.submit ts n = some v') : GraphInv d txs v' := by
  obtain ⟨i, tx, hi, htx, rfl⟩ := submit_some hs
  refine { h with
    part := ?_
    ready := fun a ha => h.ready a (mem_of_mem_eraseIdx ha)
    started := forall_mem_concat h.started ?_ }
  · refine Perm.trans (perm_iff_count.mpr fun a => ?_) h.part
    have hcount := (cons_eraseIdx_perm hi).count_eq a
    simp only [count_append, count_cons, map_append, map_cons, map_nil, count_nil] at hcount ⊢
    omega
  · have hsize : v.snapshot.getSnapshotSize = v.order.length := h.size_eq
    refine ⟨h.mapping ▸ htx, hsize.le, fun j hj => ?_⟩
    simpa [newExecution, hsize] using h.ready i (mem_of_getElem? hi) j hj

lemma exec (hs : v.exec n = some v') : GraphInv d txs v' := by
  obtain ⟨p, x, hp, hx, rfl⟩ := exec_some hs
  have hmap : (v.executing.set n (p.1, x)).map (·.1) = v.executing.map (·.1) := map_set_of_eq hp rfl
  refine { h with
    part := hmap ▸ h.part
    started := forall_mem_set h.started ?_ }
  have hstarted := h.started p (mem_of_getElem? hp)
  rw [← Execution.next_tx hx, ← Execution.next_txExecSeq hx] at hstarted
  exact hstarted

lemma apply {n : ℕ} (hs : v.apply ts n = some v') : GraphInv d txs v' := by
  cases apply_applies hs with
  | @applied i x o hx ho _ =>
    have hmem := mem_of_getElem? hx
    have hnot := h.notMem_order (mem_map_of_mem hmem)
    have hpart : (v.dagRemain.map (·.1) ++ v.runningTxC ++ (v.executing.eraseIdx n).map (·.1) ++
        (v.order ++ [i])).Perm (range d.vertexes.length) := by
      refine Perm.trans (perm_iff_count.mpr fun a => ?_) h.part
      have hcount := ((cons_eraseIdx_perm hx).map (·.1)).count_eq a
      simp only [count_append, count_cons, map_cons, count_nil] at hcount ⊢
      omega
    have hlen : v.order.length + 1 ≤ d.vertexes.length := by
      have := hpart.length_eq
      simp only [length_append, length_singleton, length_range] at this
      omega
    have hfinish : v.finishC = false := by
      rw [← Bool.not_eq_true, h.finish]
      omega
    refine ⟨h.mapping, h.size, hpart, fun a ha j hj => mem_append_left _ (h.ready a ha j hj),
      fun q hq => ?_, h.dagOrder.append hnot ?_
        fun hj => mem_of_mem_take (h.pred hmem hj), ?_, ⟨?_, ?_⟩, fun q hq => ?_, ?_, ?_,
      h.empty⟩
    · obtain ⟨htx, hseq, hedge⟩ := h.started q (mem_of_mem_eraseIdx hq)
      refine ⟨htx, hseq.trans (by simp), fun j hj => ?_⟩
      rw [take_append_of_le_length hseq]
      exact hedge j hj
    · exact h.mem_range.mp (.inr (.inr (.inl (mem_map_of_mem hmem))))
    · simp [SnapshotImpl.apply, h.table, (h.started _ hmem).1]
    · rw [← concat_eq_append]
      exact h.done.1.concat fun hi => hnot (h.done.2 hi)
    · exact append_subset.mpr ⟨fun j hj => mem_append_left _ (h.done.2 hj), subset_append_right _ _⟩
    · obtain ⟨hne, hmem⟩ := h.remain q hq
      refine ⟨hne, fun j => (hmem j).trans (and_congr_right fun _ => ?_)⟩
      by_cases hj : j = i
      · subst hj
        simp [hnot]
      · simp [hj]
    · have hvertexes : d.vertexes ≠ [] := by
        intro hnil
        rw [hnil] at hlen
        simp at hlen
      simp only [hfinish, h.size, h.size_eq, Bool.false_or, decide_eq_true_eq, length_append,
        length_singleton, hvertexes, ne_eq, not_false_eq_true, true_and]
      omega
    · intro hret
      rcases h.returned hret with hall | hnil
      · omega
      · exact .inr hnil
  | @again i x o hx ho hconflict =>
    have hmem := mem_of_getElem? hx
    have hlt : v.order.length < d.vertexes.length := by
      have hlength := h.part.length_eq
      have hpos := length_pos_of_mem hmem
      simp only [length_append, length_map, length_range] at hlength
      omega
    refine { h with
      part := ?_
      ready := forall_mem_concat h.ready fun j hj => ?_
      started := fun q hq => h.started q (mem_of_mem_eraseIdx hq)
      finish := ?_ }
    · refine Perm.trans (perm_iff_count.mpr fun a => ?_) h.part
      have hcount := ((cons_eraseIdx_perm hx).map (·.1)).count_eq a
      simp only [count_append, count_cons, map_cons, count_nil] at hcount ⊢
      omega
    · exact mem_of_mem_take ((h.started _ hmem).2.2 j hj)
    · have hsmall : decide (v.txBatchSize ≤ v.snapshot.txTable.length) = false := by
        rw [h.size, h.size_eq]
        exact decide_eq_false (Nat.not_le.mpr hlt)
      simp only [hsmall, Bool.or_false]
      exact h.finish

lemma doneStep (hs : v.done n = some v') : GraphInv d txs v' := by
  obtain ⟨a, ha, rfl⟩ := done_some hs
  have hperm : (a :: v.doneTxC.eraseIdx n).Perm v.doneTxC := cons_eraseIdx_perm ha
  have hdone : a ∉ v.doneTxC.eraseIdx n := (nodup_cons.mp (hperm.nodup_iff.mpr h.done.1)).1
  have hmem : ∀ q ∈ shrinkDag a v.dagRemain, ∀ j, j ∈ q.2 ↔
      d.Edge q.1 j ∧ (j ∉ v.order ∨ j ∈ v.doneTxC.eraseIdx n) := by
    intro q hq j
    obtain ⟨p, hp, rfl⟩ := mem_map.mp hq
    rw [Finset.mem_erase, (h.remain p hp).2, ← hperm.mem_iff, mem_cons]
    have hao : a ∈ v.order := h.done.2 (mem_of_getElem? ha)
    by_cases hj : j = a
    · subst hj
      simp [hao, hdone]
    · simp [hj]
  refine { h with
    part := ?_
    ready := fun i hi j hij => ?_
    done := ⟨(nodup_cons.mp (hperm.nodup_iff.mpr h.done.1)).2,
      fun j hj => h.done.2 (mem_of_mem_eraseIdx hj)⟩
    remain := fun q hq => ?_ }
  · refine Perm.trans (perm_iff_count.mpr fun b => ?_) h.part
    have hpop := (popNextTxBatchFromDag_perm (shrinkDag a v.dagRemain)).count_eq b
    have hshrink : (shrinkDag a v.dagRemain).map (·.1) = v.dagRemain.map (·.1) := by
      simp [shrinkDag, Function.comp_def]
    rw [hshrink] at hpop
    simp only [count_append] at hpop ⊢
    omega
  · rcases mem_append.mp hi with hi | hi
    · exact h.ready i hi j hij
    obtain ⟨q, hq, rfl⟩ := mem_map.mp hi
    obtain ⟨hq, hempty⟩ := mem_filter.mp hq
    by_contra hj
    have hjq := (hmem q hq j).mpr ⟨hij, .inl hj⟩
    rw [of_decide_eq_true hempty] at hjq
    exact Finset.notMem_empty j hjq
  · obtain ⟨hq, hne⟩ := mem_filter.mp hq
    exact ⟨of_decide_eq_true hne, hmem q hq⟩

lemma finishStep (hs : v.finish = some v') : GraphInv d txs v' := by
  obtain ⟨hfin, hs⟩ := Option.ite_none_right_eq_some.mp hs
  cases hs
  exact { h with
    returned := fun _ => .inl (h.finish.mp hfin).2
    empty := fun _ => rfl }

lemma step {e : SimEvent} (hs : v.step ts e = some v') : GraphInv d txs v' := by
  unfold Simulation.step at hs
  split at hs
  · cases hs
  cases e with
  | submit n => exact h.submit hs
  | exec n => exact h.exec hs
  | apply n => exact h.apply hs
  | done n => exact h.doneStep hs
  | finish => exact h.finishStep hs

end

lemma run {parent : Parent} {es : List SimEvent}
    (hrun : Runs.run (Simulation.step ts) (Simulation.start parent txs d) es = some v) :
    GraphInv d txs v :=
  Runs.run_induction_all (fun _ _ _ h hs => h.step hs) (.start parent txs d) hrun

lemma perm_order (h : GraphInv d txs v) (htxs : txs = [] → d.vertexes = [])
    (hret : v.returned = true) : v.order.Perm (range d.vertexes.length) := by
  have hlength := h.part.length_eq
  simp only [length_append, length_range] at hlength
  have hall : v.order.length = d.vertexes.length := by
    rcases h.returned hret with hall | hnil
    · exact hall
    rw [htxs hnil] at hlength ⊢
    simp only [length_nil] at hlength ⊢
    omega
  have hrest : v.dagRemain.map (·.1) ++ v.runningTxC ++ v.executing.map (·.1) = [] := by
    refine length_eq_zero_iff.mp ?_
    simp only [length_append]
    omega
  have hperm := h.part
  rwa [hrest, nil_append] at hperm

end GraphInv
end ChainMaker.Scheduler
