import ChainMaker.Scheduler.Agreement

/-! Two simulations of one block with a graph of any origin. When one of them meets clashes only
where the graph orders them, it is a serial execution, and every other one agrees with it. -/

namespace ChainMaker.Scheduler
open Option List ChainMaker.Snapshot Relation

variable {ts : TxScheduler} {U : Set (Bytes × Bytes)} {parent : Parent} {txs : List Transaction}
  {d : DAG} {v v' : Simulation} {n : ℕ} {i : ℕ}

lemma touches_getTxRWSet (hcol : NoCollision U) (hreads : ∀ a, ts.failedReads a ⊆ a.fetched)
    {o : Outcome} (hwf : o.access.WF U) (tx : Transaction) :
    Touches U o.access.fetched (getTxRWSet ts.failedReads tx o) := by
  cases hsuccess : o.success with
  | true => exact (footprint_getTxRWSet hcol hwf (by simp [Recorded, hsuccess]) tx).touches
  | false =>
    have hrw : getTxRWSet ts.failedReads tx o = ⟨tx.txId, ts.failedReads o.access, []⟩ := by
      simp [getTxRWSet, hsuccess]
    rw [hrw]
    exact ⟨fun r hr => (hwf.fetched_mem r hr).1, fun r hr => (hwf.fetched_mem r (hreads _ hr)).1,
      by simp, fun r hr => .inl (hreads _ hr)⟩

lemma stateAfter_take {rws : List TxRWSet} {m : ℕ} {p : Bytes × Bytes}
    (h : ∀ k, m ≤ k → ∀ rw, rws[k]? = some rw → p ∉ writePairs rw) :
    stateAfter parent rws p.1 p.2 = stateAfter parent (rws.take m) p.1 p.2 := by
  have hnone : ∀ w ∈ (rws.drop m).flatMap writesOf, w.1 ≠ p := by
    intro w hw hp
    obtain ⟨rw, hrw, hw⟩ := mem_flatMap.mp hw
    obtain ⟨k, hk⟩ := getElem?_of_mem hrw
    rw [getElem?_drop] at hk
    refine h (m + k) (Nat.le_add_right m k) rw hk ?_
    obtain ⟨w', hw', rfl⟩ := mem_map.mp hw
    exact hp ▸ mem_map_of_mem hw'
  conv_lhs => rw [← take_append_drop m rws, stateAfter, flatMap_append, WriteLog.overlay_append]
  exact WriteLog.overlay_of_forall_ne hnone

/-- When a transaction is applied, those that it clashes with among the applied ones are before it
in the graph. -/
def OrdersClashes (ts : TxScheduler) (d : DAG) (v : Simulation) : SimEvent → Prop
  | .apply n => ∀ i x o, v.executing[n]? = some (i, x) → x.outcome = some o →
    (applyExecution ts.failedReads v.snapshot x o true).1 = true →
    ∀ k j e, v.order[k]? = some j → (applied v.snapshot)[k]? = some e →
      Clash o.access.fetched (getTxRWSet ts.failedReads x.tx o)
        (fetchedAt ts v.snapshot.parent (applied v.snapshot) k e) e.2.1 → TransGen d.Edge i j
  | _ => True

lemma ordersClashes_of_total
    (htotal : ∀ i < d.vertexes.length, ∀ j < d.vertexes.length, i ≠ j → TransGen d.Edge i j ∨
      TransGen d.Edge j i) (h : GraphInv d txs v) (e : SimEvent) : OrdersClashes ts d v e := by
  cases e with
  | apply n =>
    intro i x o hx _ _ k j e hj _ _
    have hmem := mem_map_of_mem (f := (·.1)) (mem_of_getElem? hx)
    have hjmem := mem_of_getElem? hj
    have hnot : i ∉ v.order := h.notMem_order hmem
    have hi : i < d.vertexes.length := h.mem_range.mp (.inr (.inr (.inl hmem)))
    have hne : i ≠ j := fun hij => hnot (hij ▸ hjmem)
    refine (htotal i hi j (h.dagOrder.lt j hjmem) hne).resolve_right fun hji => ?_
    exact hnot (h.dagOrder.closed_transGen hjmem hji)
  | _ => trivial

structure SerialRun (ts : TxScheduler) (U : Set (Bytes × Bytes)) (parent : Parent)
    (txs : List Transaction) (d : DAG) (v : Simulation) : Prop where
  graph : GraphInv d txs v
  snap : SnapInv U v.snapshot
  parent_eq : v.snapshot.parent = parent
  serial : SerialLog ts parent (applied v.snapshot)
  touches : ∀ k e, (applied v.snapshot)[k]? = some e →
    Touches U (fetchedAt ts parent (applied v.snapshot) k e) e.2.1
  exec : ∀ p ∈ v.executing, ExecInv U ts.vm v.snapshot p.2
  orders : ∀ k i, v.order[k]? = some i → ∀ l j, v.order[l]? = some j → l < k →
    ClashAt ts parent (applied v.snapshot) k l → TransGen d.Edge i j

namespace SerialRun

lemma length_applied_eq (h : SerialRun ts U parent txs d v) :
    (applied v.snapshot).length = v.order.length :=
  (length_applied h.snap).trans h.graph.size_eq

lemma agrees (h : SerialRun ts U parent txs d v) {x : Execution} (hx : (i, x) ∈ v.executing)
    (hwriters : ∀ (k j : ℕ) (e : Applied),
      v.order[k]? = some j → (applied v.snapshot)[k]? = some e →
        ∀ r ∈ x.access.fetched, (r.contractName, r.key) ∈ writePairs e.2.1 → TransGen d.Edge i j) :
    x.access.Agrees (stateAfter v.snapshot.parent v.snapshot.txRWSetTable) := by
  intro r hr
  obtain ⟨m, hm, -, hvalue⟩ := (h.exec _ hx).fetched r hr
  rw [hvalue]
  have hlate : ∀ k, m ≤ k → ∀ rw, v.snapshot.txRWSetTable[k]? = some rw →
      (r.contractName, r.key) ∉ writePairs rw := by
    intro k hk rw hrw hwrite
    rw [← applied_map_rw h.snap, getElem?_map] at hrw
    obtain ⟨e, he, rfl⟩ := map_eq_some_iff.mp hrw
    have hlt : k < v.order.length := h.length_applied_eq ▸ (List.getElem?_eq_some_iff.mp he).1
    have hj := getElem?_eq_getElem hlt
    obtain ⟨l, hl⟩ := getElem?_of_mem (h.graph.pred hx (hwriters k _ e hj he r hr hwrite))
    rw [getElem?_take] at hl
    split at hl
    · next hlseq =>
      have hlk : l = k := (List.getElem?_inj (List.getElem?_eq_some_iff.mp hl).1
        h.graph.dagOrder.nodup).mp (hl.trans hj.symm)
      exact absurd (hm.trans hk) (not_le.mpr (hlk ▸ hlseq))
    · simp at hl
  exact stateAfter_take hlate

lemma start (ts : TxScheduler) (U : Set (Bytes × Bytes)) (parent : Parent) (txs : List Transaction)
    (d : DAG) : SerialRun ts U parent txs d (Simulation.start parent txs d) := by
  refine ⟨.start parent txs d, .new U parent, rfl, ?_, ?_, ?_, ?_⟩ <;>
    simp [Simulation.start, SerialLog, applied]

lemma submit (hvm : ∀ tx ∈ txs, (ts.vm tx).AccessIn U) (h : SerialRun ts U parent txs d v)
    (hs : v.submit ts n = some v') : SerialRun ts U parent txs d v' := by
  have hgraph := h.graph.submit hs
  obtain ⟨i, tx, hi, htx, rfl⟩ := Simulation.submit_some hs
  refine { h with graph := hgraph, exec := forall_mem_concat h.exec ?_ }
  exact .new h.snap (hvm tx (mem_of_getElem? (h.graph.mapping ▸ htx)))

section
variable (h : SerialRun ts U parent txs d v)
include h

lemma execStep (hs : v.exec n = some v') : SerialRun ts U parent txs d v' := by
  have hgraph := h.graph.exec hs
  obtain ⟨p, x, hp, hx, rfl⟩ := Simulation.exec_some hs
  refine { h with graph := hgraph, exec := forall_mem_set h.exec ?_ }
  exact ((h.exec p (mem_of_getElem? hp)).next h.snap hx).1

lemma doneStep (hs : v.done n = some v') : SerialRun ts U parent txs d v' := by
  have hgraph := h.graph.doneStep hs
  obtain ⟨a, -, rfl⟩ := Simulation.done_some hs
  exact { h with graph := hgraph }

lemma finishStep (hs : v.finish = some v') : SerialRun ts U parent txs d v' := by
  have hgraph := h.graph.finishStep hs
  obtain ⟨-, hs⟩ := ite_none_right_eq_some.mp hs
  cases hs
  exact { h with
    graph := hgraph, snap := { h.snap with }
    exec := fun p hp => (h.exec p hp).of_tables_eq _ _ }

end

section
variable (hcol : NoCollision U) (hreads : ∀ a, ts.failedReads a ⊆ a.fetched)
include hcol hreads

lemma apply (h : SerialRun ts U parent txs d v) {n : ℕ} (hok : OrdersClashes ts d v (.apply n))
    (hs : v.apply ts n = some v') : SerialRun ts U parent txs d v' := by
  have hgraph := h.graph.apply hs
  cases Simulation.apply_applies hs with
  | @again i x o hx ho hconflict =>
    exact { h with graph := hgraph, exec := fun p hp => h.exec p (mem_of_mem_eraseIdx hp) }
  | @applied i x o hx ho happly =>
    have hmem := mem_of_getElem? hx
    have hinv := h.exec _ hmem
    have hacc : o.access = x.access := (Execution.outcome_exec ho fun _ _ => none).2
    set rw := getTxRWSet ts.failedReads x.tx o with hrw
    have hclash : ∀ (k j : ℕ) (e : Applied),
        v.order[k]? = some j → (applied v.snapshot)[k]? = some e →
        Clash o.access.fetched rw (fetchedAt ts parent (applied v.snapshot) k e) e.2.1 →
        TransGen d.Edge i j := by
      intro k j e hj he hclash
      exact hok i x o hx ho happly k j e hj he (h.parent_eq.symm ▸ hclash)
    have htouches : Touches U o.access.fetched rw :=
      touches_getTxRWSet hcol hreads (hacc ▸ hinv.wf) x.tx
    have hagrees := h.agrees hmem fun k j e hj he r hr hw =>
      hclash k j e hj he (.inl ⟨r, hacc ▸ hr, hw⟩)
    have hexec : serialExec ts.vm parent ((applied v.snapshot).map (·.2.1)) x.tx = o := by
      rw [applied_map_rw h.snap, ← h.parent_eq]
      exact hinv.serialExec_eq ho hagrees
    have hlen := h.length_applied_eq
    have hfetched : ∀ (k : ℕ) (e : Applied), k ≤ (applied v.snapshot).length →
        fetchedAt ts parent (applied v.snapshot ++ [(x.tx, rw, o.result)]) k e =
          fetchedAt ts parent (applied v.snapshot) k e := by
      intro k e hk
      rw [fetchedAt, fetchedAt, take_append_of_le_length hk]
    have hlast : fetchedAt ts parent (applied v.snapshot) (applied v.snapshot).length
        (x.tx, rw, o.result) = o.access.fetched := by
      rw [fetchedAt, take_length, hexec]
    refine ⟨hgraph, h.snap.apply hcol (htouches.current (hacc ▸ hagrees)) _ _, h.parent_eq, ?_, ?_,
      fun p hp => (h.exec p (mem_of_mem_eraseIdx hp)).apply _ _ _, ?_⟩
    · rw [applied_apply h.snap]
      exact h.serial.append hexec
    · rw [applied_apply h.snap]
      refine forall_getElem?_append (fun k e he hk => ?_) ?_
      · rw [hfetched k e hk.le]
        exact h.touches k e he
      · rw [hfetched _ _ le_rfl, hlast]
        exact htouches
    · intro k a ha l b hb hlk hc
      rw [applied_apply h.snap] at hc
      obtain ⟨e, e', he, he', hc⟩ := hc
      have hk : k ≤ (applied v.snapshot).length := by
        have := (List.getElem?_eq_some_iff.mp ha).1
        simp only [length_append, length_singleton] at this
        omega
      have hl : l < (applied v.snapshot).length := by omega
      rw [hfetched k e hk, hfetched l e' hl.le] at hc
      rw [getElem?_append_left hl] at he'
      rw [getElem?_append_left (hlen ▸ hl)] at hb
      rcases hk.lt_or_eq with hk | rfl
      · rw [getElem?_append_left hk] at he
        rw [getElem?_append_left (hlen ▸ hk)] at ha
        exact h.orders k a ha l b hb hlk ⟨e, e', he, he', hc⟩
      rw [getElem?_concat_length] at he
      rw [hlen, getElem?_concat_length] at ha
      cases he
      cases ha
      exact hclash l b e' hb he' (hlast ▸ hc)

variable (hvm : ∀ tx ∈ txs, (ts.vm tx).AccessIn U)
include hvm

lemma step (h : SerialRun ts U parent txs d v) {e : SimEvent} (hok : OrdersClashes ts d v e)
    (hs : v.step ts e = some v') : SerialRun ts U parent txs d v' := by
  unfold Simulation.step at hs
  split at hs
  · simp at hs
  cases e with
  | submit n => exact h.submit hvm hs
  | exec n => exact h.execStep hs
  | apply n => exact h.apply hcol hreads hok hs
  | done n => exact h.doneStep hs
  | finish => exact h.finishStep hs

lemma run {es : List SimEvent}
    (hmeets :
      Runs.Meets (Simulation.step ts) (OrdersClashes ts d) (Simulation.start parent txs d) es)
    (hrun : Runs.run (Simulation.step ts) (Simulation.start parent txs d) es = some v) :
    SerialRun ts U parent txs d v :=
  Runs.run_induction (I := SerialRun ts U parent txs d)
    (fun _ _ _ h hok hs => h.step hcol hreads hvm hok hs) (.start ts U parent txs d) hmeets hrun

end

lemma ordered (h : SerialRun ts U parent txs d v) (hall : v.order.Perm (range d.vertexes.length)) :
    OrderedBlock ts U parent txs d (applied v.snapshot) v.order.idxOf := by
  have hnodup := h.graph.dagOrder.nodup
  have hget : ∀ i < d.vertexes.length, v.order[v.order.idxOf i]? = some i :=
    fun i hi => getElem?_idxOf (hall.mem_iff.mpr (mem_range.mpr hi))
  have hlen := h.length_applied_eq
  refine ⟨h.serial, h.touches, fun i hi => ?_, fun i hi j hj heq => ?_, fun k hk => ?_,
    fun i hi j hj hlt hclash => h.orders _ i (hget i hi) _ j (hget j hj) hlt hclash⟩
  · have hk : v.order.idxOf i < (applied v.snapshot).length :=
      hlen ▸ (List.getElem?_eq_some_iff.mp (hget i hi)).1
    have he := getElem?_eq_getElem hk
    refine ⟨_, he, ?_⟩
    have htable := congrArg (·[v.order.idxOf i]?) h.graph.table
    simp only [← applied_map_tx h.snap, getElem?_map, hget i hi, he, map_some] at htable
    exact (some.inj htable).symm
  · exact mem_unique (hget i hi) (heq ▸ hget j hj)
  · have hk : k < v.order.length := hlen ▸ hk
    exact ⟨v.order[k], h.graph.dagOrder.lt _ (getElem_mem hk), hnodup.idxOf_getElem k hk⟩

end SerialRun

def Simulation.appliedAt (v : Simulation) (i : ℕ) : Option Applied :=
  (applied v.snapshot)[v.order.idxOf i]?

section Returned
variable {log : List Applied} {pos : ℕ → ℕ}

lemma SimInv.appliedAt_eq (B : OrderedBlock ts U parent txs d log pos)
    (h : SimInv ts U parent txs d log pos v) (hret : v.returned = true)
    (hi : i < d.vertexes.length) : v.appliedAt i = log[pos i]? := by
  have hmem : i ∈ v.order := (h.perm_order B hret).mem_iff.mpr (mem_range.mpr hi)
  have hlt : ∀ k ∈ v.order.map pos, k < log.length := by
    intro k hk
    obtain ⟨j, hj, rfl⟩ := mem_map.mp hk
    exact B.pos_lt (h.graph.dagOrder.lt j hj)
  rw [Simulation.appliedAt, h.applied_eq, getElem?_filterMap_log hlt, getElem?_map,
    getElem?_idxOf hmem]
  rfl

lemma SimInv.applied_perm (B : OrderedBlock ts U parent txs d log pos)
    (h : SimInv ts U parent txs d log pos v) (hret : v.returned = true)
    (h' : SimInv ts U parent txs d log pos v') (hret' : v'.returned = true) :
    (applied v.snapshot).Perm (applied v'.snapshot) := by
  rw [h.applied_eq, h'.applied_eq]
  exact (((h.perm_order B hret).trans (h'.perm_order B hret').symm).map pos).filterMap _

end Returned

end ChainMaker.Scheduler
