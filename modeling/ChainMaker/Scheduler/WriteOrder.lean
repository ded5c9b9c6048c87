import ChainMaker.Scheduler.DagRuns
import ChainMaker.Scheduler.BlockDag

/-! What a simulation leaves in the tables of the snapshot, in the order in which the transactions
were applied, and when that is what they leave in the order of the block. -/

namespace ChainMaker.Scheduler
open WriteLog
open Option List ChainMaker.Snapshot Relation Simulation

variable {ts : TxScheduler} {U : Set (Bytes × Bytes)} {txs : List Transaction} {d : DAG}
  {v v' : Simulation} {s : SnapshotImpl}

structure LastWrites (U : Set (Bytes × Bytes)) (s : SnapshotImpl) : Prop where
  written : ∀ p ∈ U, ∀ sv, s.tables.writeTable.lookup (constructKey p.1 p.2) = some sv →
    ∀ base, overlay base (s.txRWSetTable.flatMap writesOf) p = sv.value
  unwritten : ∀ p ∈ U, s.tables.writeTable.lookup (constructKey p.1 p.2) = none →
    ∀ rw ∈ s.txRWSetTable, p ∉ writePairs rw

lemma LastWrites.apply (hcol : NoCollision U) {s : SnapshotImpl} (h : LastWrites U s) {rw : TxRWSet}
    (hrw : ∀ w ∈ rw.txWrites, (w.contractName, w.key) ∈ U) (tx : Transaction) (res : Result) :
    LastWrites U (s.apply tx rw res) := by
  have hnone : ∀ p ∈ U,
    (writeEntries s.txTable.length rw.txWrites).lookup (constructKey p.1 p.2) = none →
      p ∉ writePairs rw := by
    intro p hp hlookup hmem
    obtain ⟨w, hw, rfl⟩ := mem_map.mp hmem
    exact (lookup_writeEntries hcol (fun _ => none) s.txTable.length hrw hp).2 hlookup w hw rfl
  refine ⟨fun p hp sv hsv base => ?_, fun p hp hlookup => ?_⟩
  · rw [apply_writeTable, lookup_append] at hsv
    have htable : (s.apply tx rw res).txRWSetTable.flatMap writesOf =
        s.txRWSetTable.flatMap writesOf ++ writesOf rw := by
      simp [SnapshotImpl.apply]
    rw [htable, overlay_append]
    rcases or_eq_some_iff.mp hsv with hsv | ⟨hnew, hsv⟩
    · exact ((lookup_writeEntries hcol _ s.txTable.length hrw hp).1 sv hsv).2
    rw [← h.written p hp sv hsv base]
    refine overlay_of_forall_ne fun w hw hwp => hnone p hp hnew ?_
    obtain ⟨w', hw', rfl⟩ := mem_map.mp hw
    exact hwp ▸ mem_map_of_mem hw'
  · rw [apply_writeTable, lookup_append, or_eq_none_iff] at hlookup
    exact forall_mem_concat (h.unwritten p hp hlookup.2) (hnone p hp hlookup.1)

lemma LastWrites.getKey_eq (h : LastWrites U s) {p : Bytes × Bytes} (hp : p ∈ U)
    (hwritten : ∃ rw ∈ s.txRWSetTable, p ∈ writePairs rw) (base : Bytes × Bytes → Value) :
    s.getKey p.1 p.2 = overlay base (s.txRWSetTable.flatMap writesOf) p := by
  cases hlookup : s.tables.writeTable.lookup (constructKey p.1 p.2) with
  | none =>
    obtain ⟨rw, hrw, hmem⟩ := hwritten
    exact absurd hmem (h.unwritten p hp hlookup rw hrw)
  | some sv =>
    rw [h.written p hp sv hlookup base, SnapshotImpl.getKey, Tables.get, hlookup]
    rfl

structure TableInv (U : Set (Bytes × Bytes)) (v : Simulation) : Prop where
  ids : v.snapshot.txRWSetTable.map (·.txId) = v.snapshot.txTable.map (·.txId)
  resultIds : v.snapshot.txResultMap.reverse.map (·.1) = v.snapshot.txTable.map (·.txId)
  writes : ∀ rw ∈ v.snapshot.txRWSetTable, ∀ w ∈ rw.txWrites, (w.contractName, w.key) ∈ U
  last : LastWrites U v.snapshot
  exec : ∀ p ∈ v.executing, p.2.access.WF U ∧ p.2.prog.AccessIn U

lemma txId_getTxRWSet (failedReads : Access → List TxRead) (tx : Transaction) (o : Outcome) :
    (getTxRWSet failedReads tx o).txId = tx.txId := by
  unfold getTxRWSet
  split <;> rfl

lemma writes_mem_getTxRWSet {o : Outcome} (hwf : o.access.WF U) (failedReads : Access → List TxRead)
    (tx : Transaction) :
    ∀ w ∈ (getTxRWSet failedReads tx o).txWrites, (w.contractName, w.key) ∈ U := by
  intro w hw
  unfold getTxRWSet at hw
  split at hw
  · obtain ⟨fk, hfk⟩ := GoMap.mem_values.mp hw
    exact (hwf.write_key fk w hfk).2
  · exact absurd hw not_mem_nil

lemma Execution.next_mem {x x' : Execution} (h : x.next s = some x')
    (hx : x.access.WF U ∧ x.prog.AccessIn U) : x'.access.WF U ∧ x'.prog.AccessIn U := by
  obtain ⟨tx, txExecSeq, access, prog⟩ := x
  obtain ⟨hwf, hprog⟩ := hx
  cases prog with
  | done => simp [Execution.next] at h
  | put c k value next =>
    cases h
    exact ⟨hwf.put value hprog.1, hprog.2⟩
  | get c k next =>
    cases h
    exact ⟨hwf.get _ hprog.1, hprog.2 _⟩

namespace TableInv

lemma start (U : Set (Bytes × Bytes)) (parent : Parent) (txs : List Transaction) (d : DAG) :
    TableInv U (Simulation.start parent txs d) := by
  refine ⟨rfl, rfl, ?_, ⟨?_, ?_⟩, ?_⟩ <;> simp [Simulation.start]

lemma apply (hcol : NoCollision U) (h : TableInv U v) {n : ℕ} (hs : v.apply ts n = some v') :
    TableInv U v' := by
  cases apply_applies hs with
  | @applied i x o hx ho _ =>
    have hacc : o.access = x.access := (Execution.outcome_exec ho fun _ _ => none).2
    have hwf : o.access.WF U := hacc ▸ (h.exec _ (mem_of_getElem? hx)).1
    have hwrites := writes_mem_getTxRWSet hwf ts.failedReads x.tx
    refine ⟨?_, ?_, forall_mem_concat h.writes hwrites, h.last.apply hcol hwrites _ _,
      fun p hp => h.exec p (mem_of_mem_eraseIdx hp)⟩
    · simp [SnapshotImpl.apply, h.ids, txId_getTxRWSet]
    · simp only [SnapshotImpl.apply, reverse_cons, map_append, h.resultIds]
      rfl
  | @again i x o hx ho _ =>
    exact { h with exec := fun p hp => h.exec p (mem_of_mem_eraseIdx hp) }

lemma step (hcol : NoCollision U) (hvm : ∀ tx ∈ txs, (ts.vm tx).AccessIn U)
    (hgraph : GraphInv d txs v) (h : TableInv U v) {e : SimEvent} (hs : v.step ts e = some v') :
    TableInv U v' := by
  unfold Simulation.step at hs
  split at hs
  · simp at hs
  cases e with
  | submit n =>
    obtain ⟨i, tx, -, htx, rfl⟩ := submit_some hs
    refine { h with exec := forall_mem_concat h.exec ?_ }
    exact ⟨.empty, hvm tx (mem_of_getElem? (hgraph.mapping ▸ htx))⟩
  | exec n =>
    obtain ⟨p, x, hp, hx, rfl⟩ := exec_some hs
    refine { h with exec := forall_mem_set h.exec ?_ }
    exact Execution.next_mem hx (h.exec p (mem_of_getElem? hp))
  | apply n => exact h.apply hcol hs
  | done n =>
    obtain ⟨a, -, rfl⟩ := done_some hs
    exact { h with }
  | finish =>
    obtain ⟨-, hs⟩ := ite_none_right_eq_some.mp hs
    cases hs
    exact { h with last := ⟨h.last.written, h.last.unwritten⟩ }

lemma run (hcol : NoCollision U) (hvm : ∀ tx ∈ txs, (ts.vm tx).AccessIn U) {parent : Parent}
    {es : List SimEvent}
    (hrun : Runs.run (Simulation.step ts) (Simulation.start parent txs d) es = some v) :
    TableInv U v := by
  have hboth : GraphInv d txs v ∧ TableInv U v :=
    Runs.run_induction_all (I := fun v => GraphInv d txs v ∧ TableInv U v)
      (fun _ _ _ h hs => ⟨h.1.step hs, h.2.step hcol hvm h.1 hs⟩)
      ⟨.start parent txs d, .start U parent txs d⟩ hrun
  exact hboth.2

end TableInv

/-- When a transaction is applied, those applied before it that write one of its keys come before it
in the block as well. -/
def WritesInOrder (ts : TxScheduler) (v : Simulation) : SimEvent → Prop
  | .apply n => ∀ i x o, v.executing[n]? = some (i, x) → x.outcome = some o →
    (applyExecution ts.failedReads v.snapshot x o true).1 = true →
    ∀ (k j : ℕ) (rw : TxRWSet), v.order[k]? = some j → v.snapshot.txRWSetTable[k]? = some rw →
      (∃ p ∈ writePairs (getTxRWSet ts.failedReads x.tx o), p ∈ writePairs rw) → j < i
  | _ => True

lemma writesInOrder_of_chain (hchain : ∀ i < d.vertexes.length, ∀ j < i, TransGen d.Edge i j)
    (h : GraphInv d txs v) (e : SimEvent) : WritesInOrder ts v e := by
  cases e with
  | apply n =>
    intro i x o hx _ _ k j rw hj _ _
    have hnot := h.notMem_order (mem_map_of_mem (mem_of_getElem? hx))
    have hjmem := mem_of_getElem? hj
    by_contra hge
    rcases (not_lt.mp hge).lt_or_eq with hlt | rfl
    · exact hnot (h.dagOrder.closed_transGen hjmem (hchain j (h.dagOrder.lt j hjmem) i hlt))
    · exact hnot hjmem
  | _ => trivial

def InOrder (v : Simulation) : Prop :=
  ∀ (k i : ℕ) (rw : TxRWSet), v.order[k]? = some i → v.snapshot.txRWSetTable[k]? = some rw →
    ∀ (l j : ℕ) (rw' : TxRWSet), v.order[l]? = some j →
      v.snapshot.txRWSetTable[l]? = some rw' → l < k →
      (∃ p ∈ writePairs rw, p ∈ writePairs rw') → j < i

lemma InOrder.of_eq (h : InOrder v) (horder : v'.order = v.order)
    (hrws : v'.snapshot.txRWSetTable = v.snapshot.txRWSetTable) : InOrder v' := by
  unfold InOrder
  rw [horder, hrws]
  exact h

def Simulation.writesAt (v : Simulation) (i : ℕ) : List ((Bytes × Bytes) × Value) :=
  (v.snapshot.txRWSetTable[v.order.idxOf i]?).elim [] writesOf

section
variable (hlen : v.snapshot.txRWSetTable.length = v.order.length)
include hlen

lemma InOrder.apply (h : InOrder v) {n : ℕ} (hok : WritesInOrder ts v (.apply n))
    (hs : v.apply ts n = some v') : InOrder v' := by
  cases apply_applies hs with
  | again => exact h
  | @applied i x o hx ho happly =>
    intro k a rw ha hrw l b rw' hb hrw' hlk hshare
    simp only [SnapshotImpl.apply] at hrw hrw'
    have hk : k ≤ v.order.length := by
      have := (List.getElem?_eq_some_iff.mp ha).1
      simp only [length_append, length_singleton] at this
      omega
    have hl : l < v.order.length := by omega
    rw [getElem?_append_left hl] at hb
    rw [getElem?_append_left (hlen ▸ hl)] at hrw'
    rcases hk.lt_or_eq with hk | rfl
    · rw [getElem?_append_left hk] at ha
      rw [getElem?_append_left (hlen ▸ hk)] at hrw
      exact h k a rw ha hrw l b rw' hb hrw' hlk hshare
    rw [getElem?_concat_length] at ha
    rw [← hlen, getElem?_concat_length] at hrw
    cases ha
    cases hrw
    exact hok i x o hx ho happly l b rw' hb hrw' hshare

lemma InOrder.step (h : InOrder v) {e : SimEvent} (hok : WritesInOrder ts v e)
    (hs : v.step ts e = some v') : InOrder v' := by
  unfold Simulation.step at hs
  split at hs
  · simp at hs
  cases e with
  | submit n =>
    obtain ⟨i, tx, -, -, rfl⟩ := submit_some hs
    exact h.of_eq rfl rfl
  | exec n =>
    obtain ⟨p, x, -, -, rfl⟩ := exec_some hs
    exact h.of_eq rfl rfl
  | apply n => exact h.apply hlen hok hs
  | done n =>
    obtain ⟨a, -, rfl⟩ := done_some hs
    exact h.of_eq rfl rfl
  | finish =>
    obtain ⟨-, hs⟩ := ite_none_right_eq_some.mp hs
    exact some.inj hs ▸ h.of_eq rfl rfl

lemma flatMap_writesOf_eq (hnodup : v.order.Nodup) :
    v.snapshot.txRWSetTable.flatMap writesOf = v.order.flatMap v.writesAt := by
  have hmap : v.snapshot.txRWSetTable.map writesOf = v.order.map v.writesAt := by
    refine ext_getElem? fun k => ?_
    rw [getElem?_map, getElem?_map]
    rcases lt_or_ge k v.order.length with hk | hk
    · rw [getElem?_eq_getElem hk, getElem?_eq_getElem (hlen ▸ hk)]
      simp [writesAt, hnodup.idxOf_getElem k hk,
        getElem?_eq_getElem (hlen ▸ hk : k < v.snapshot.txRWSetTable.length)]
    · rw [getElem?_eq_none hk, getElem?_eq_none (hlen ▸ hk)]
      rfl
  rw [flatMap_def, flatMap_def, hmap]

lemma InOrder.overlay_eq (h : InOrder v) {n : ℕ} (hperm : v.order.Perm (range n))
    (base : Bytes × Bytes → Value) (p : Bytes × Bytes) :
    overlay base (v.snapshot.txRWSetTable.flatMap writesOf) p =
      overlay base ((range n).flatMap v.writesAt) p := by
  have hnodup : v.order.Nodup := hperm.nodup_iff.mpr nodup_range
  rw [flatMap_writesOf_eq hlen hnodup]
  refine overlay_flatMap_congr v.writesAt ?_
  have hsorted : (v.order.filter fun i => ∃ w ∈ v.writesAt i, w.1 = p).Pairwise (· < ·) := by
    rw [pairwise_filter, pairwise_iff_getElem]
    intro l k hl hk hlk hwl hwk
    have hpair : ∀ m (hm : m < v.order.length), (∃ w ∈ v.writesAt v.order[m], w.1 = p) →
        ∃ rw, v.snapshot.txRWSetTable[m]? = some rw ∧ p ∈ writePairs rw := by
      intro m hm hw
      rw [writesAt, hnodup.idxOf_getElem m hm,
        getElem?_eq_getElem (hlen ▸ hm : m < v.snapshot.txRWSetTable.length)] at hw
      refine ⟨_, getElem?_eq_getElem (hlen ▸ hm), ?_⟩
      obtain ⟨w, hw, rfl⟩ := hw
      obtain ⟨w', hw', rfl⟩ := mem_map.mp hw
      exact mem_map_of_mem hw'
    obtain ⟨rwl, hrwl, hpl⟩ := hpair l hl (of_decide_eq_true hwl)
    obtain ⟨rwk, hrwk, hpk⟩ := hpair k hk (of_decide_eq_true hwk)
    exact h k _ rwk (getElem?_eq_getElem hk) hrwk l _ rwl (getElem?_eq_getElem hl) hrwl hlk
      ⟨p, hpk, hpl⟩
  refine hsorted.eq_of_mem_iff (pairwise_lt_range.filter _) fun i => ?_
  rw [mem_filter, mem_filter, hperm.mem_iff]

end

lemma TableInv.length_rws (h : TableInv U v) (hgraph : GraphInv d txs v) :
    v.snapshot.txRWSetTable.length = v.order.length := by
  have hids := congrArg length h.ids
  rw [length_map, length_map, hgraph.size_eq] at hids
  exact hids

lemma InOrder.run (hcol : NoCollision U) (hvm : ∀ tx ∈ txs, (ts.vm tx).AccessIn U) {parent : Parent}
    {es : List SimEvent}
    (hmeets : Runs.Meets (Simulation.step ts) (WritesInOrder ts) (Simulation.start parent txs d) es)
    (hrun : Runs.run (Simulation.step ts) (Simulation.start parent txs d) es = some v) :
    InOrder v := by
  have hall : (GraphInv d txs v ∧ TableInv U v) ∧ InOrder v := by
    refine Runs.run_induction (I := fun v => (GraphInv d txs v ∧ TableInv U v) ∧ InOrder v)
      (fun v e v' h hok hs => ⟨⟨h.1.1.step hs, h.1.2.step hcol hvm h.1.1 hs⟩,
        h.2.step (h.1.2.length_rws h.1.1) hok hs⟩)
      ⟨⟨.start parent txs d, .start U parent txs d⟩, ?_⟩ hmeets hrun
    intro k i rw hi
    simp [start] at hi
  exact hall.2

end ChainMaker.Scheduler
