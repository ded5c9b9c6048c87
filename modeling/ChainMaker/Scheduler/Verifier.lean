import ChainMaker.Scheduler.BlockDag
import ChainMaker.Scheduler.DagRuns

/-! One execution of a block beside others that its graph allows, when there is a serial execution
whose conflicts the graph orders. -/

namespace ChainMaker.Scheduler
open List ChainMaker.Snapshot Relation

section Clashes
variable {U : Set (Bytes × Bytes)} {fetched : List TxRead} {rw : TxRWSet} {s : SnapshotImpl}

/-- A read-write set beside the keys that its execution fetched. Those of a failed execution may be
missing from it. -/
structure Touches (U : Set (Bytes × Bytes)) (fetched : List TxRead) (rw : TxRWSet) : Prop where
  fetched_mem : ∀ r ∈ fetched, (r.contractName, r.key) ∈ U
  reads_mem : ∀ r ∈ rw.txReads, (r.contractName, r.key) ∈ U
  writes_mem : ∀ w ∈ rw.txWrites, (w.contractName, w.key) ∈ U
  reads_src : ∀ r ∈ rw.txReads, r ∈ fetched ∨
    ∃ w ∈ rw.txWrites, (w.contractName, w.key) = (r.contractName, r.key)

lemma Footprint.touches (h : Footprint U fetched rw) : Touches U fetched rw := by
  refine { h with fetched_mem := fun r hr => ?_ }
  obtain ⟨r', hr', hpair⟩ := h.fetched_mem r hr
  exact hpair ▸ h.reads_mem r' hr'

lemma Touches.current (h : Touches U fetched rw)
    (hcur : ∀ r ∈ fetched, stateAfter s.parent s.txRWSetTable r.contractName r.key = r.value) :
    Current U s rw :=
  ⟨h.reads_mem, h.writes_mem, fun r hr => (h.reads_src r hr).imp_left fun hf => (hcur r hf).symm⟩

/-- One of two executions writes a key that the other one fetched or writes. -/
def Clash (fetched : List TxRead) (rw : TxRWSet) (fetched' : List TxRead) (rw' : TxRWSet) : Prop :=
  (∃ r ∈ fetched, (r.contractName, r.key) ∈ writePairs rw') ∨
    (∃ p ∈ writePairs rw, p ∈ writePairs rw') ∨
    ∃ r ∈ fetched', (r.contractName, r.key) ∈ writePairs rw

end Clashes

def fetchedAt (ts : TxScheduler) (parent : Parent) (log : List Applied) (k : ℕ) (e : Applied) :
    List TxRead :=
  (serialExec ts.vm parent ((log.take k).map (·.2.1)) e.1).access.fetched

def ClashAt (ts : TxScheduler) (parent : Parent) (log : List Applied) (k l : ℕ) : Prop :=
  ∃ e e', log[k]? = some e ∧ log[l]? = some e' ∧
    Clash (fetchedAt ts parent log k e) e.2.1 (fetchedAt ts parent log l e') e'.2.1

/-- A serial execution of a block, and its graph. Transaction `i` of the block is executed at
`pos i`, and the graph puts what clashes in the order of the execution. -/
structure OrderedBlock (ts : TxScheduler) (U : Set (Bytes × Bytes)) (parent : Parent)
    (txs : List Transaction) (d : DAG) (log : List Applied) (pos : ℕ → ℕ) : Prop where
  serial : SerialLog ts parent log
  touches : ∀ k e, log[k]? = some e → Touches U (fetchedAt ts parent log k e) e.2.1
  entry : ∀ i < d.vertexes.length, ∃ e, log[pos i]? = some e ∧ txs[i]? = some e.1
  inj : ∀ i < d.vertexes.length, ∀ j < d.vertexes.length, pos i = pos j → i = j
  surj : ∀ k < log.length, ∃ i < d.vertexes.length, pos i = k
  orders : ∀ i < d.vertexes.length, ∀ j < d.vertexes.length, pos j < pos i →
    ClashAt ts parent log (pos i) (pos j) → TransGen d.Edge i j

variable {ts : TxScheduler} {U : Set (Bytes × Bytes)} {parent : Parent} {txs : List Transaction}
  {d : DAG} {log : List Applied} {pos : ℕ → ℕ} {i : ℕ} {x : Execution} {e : Applied} {r : TxRead}
  {k l : ℕ}

lemma ClashAt.symm (h : ClashAt ts parent log k l) : ClashAt ts parent log l k := by
  obtain ⟨e, e', he, he', hclash⟩ := h
  refine ⟨e', e, he', he, ?_⟩
  rcases hclash with hrw | ⟨p, hp, hp'⟩ | hwr
  · exact .inr (.inr hrw)
  · exact .inr (.inl ⟨p, hp', hp⟩)
  · exact .inl hwr

lemma ScheduledBlock.ordered (B : ScheduledBlock ts U parent log d) :
    OrderedBlock ts U parent (log.map (·.1)) d log id := by
  refine ⟨B.serial, fun k e he => (B.footprint k e he).touches, fun i hi => ?_,
    fun _ _ _ _ h => h, fun k hk => ⟨k, B.len ▸ hk, rfl⟩, ?_⟩
  · have hget := getElem?_eq_getElem (B.len ▸ hi : i < log.length)
    refine ⟨_, hget, ?_⟩
    rw [getElem?_map, hget]
    rfl
  · rintro i - j - hji ⟨e, e', he, he', hclash⟩
    refine B.orders i j e e' hji he he' ?_
    rcases hclash with ⟨r, hr, hw⟩ | hww | ⟨r, hr, hw⟩
    · obtain ⟨r', hr', hpair⟩ := (B.footprint i e he).fetched_mem r hr
      exact .inl ⟨_, mem_map_of_mem hr', hpair ▸ hw⟩
    · exact .inr (.inl hww)
    · obtain ⟨r', hr', hpair⟩ := (B.footprint j e' he').fetched_mem r hr
      exact .inr (.inr ⟨_, hpair ▸ hw, mem_map_of_mem hr'⟩)

section Order
variable {order : List ℕ}

def logWrites (log : List Applied) (k : ℕ) : List ((Bytes × Bytes) × Value) :=
  (log[k]?).elim [] fun e => writesOf e.2.1

lemma flatMap_writesOf_filterMap (log : List Applied) (is : List ℕ) :
    ((is.filterMap (log[·]?)).map (·.2.1)).flatMap writesOf = is.flatMap (logWrites log) := by
  rw [flatMap_map, flatMap_filterMap_elim]
  rfl

lemma getElem?_filterMap_log {log : List Applied} {is : List ℕ} (h : ∀ i ∈ is, i < log.length)
    (k : ℕ) : (is.filterMap (log[·]?))[k]? = (is[k]?).bind (log[·]?) := by
  induction is generalizing k with
  | nil => simp
  | cons i is ih =>
    have hi := h i mem_cons_self
    rw [filterMap_cons, getElem?_eq_getElem hi]
    cases k with
    | zero => simp [getElem?_eq_getElem hi]
    | succ k => simpa using ih (fun j hj => h j (mem_cons_of_mem _ hj)) k

lemma take_eq_filterMap_range (log : List Applied) (hi : i ≤ log.length) :
    log.take i = (range i).filterMap (log[·]?) := by
  induction i with
  | zero => rfl
  | succ i ih =>
    rw [range_succ, filterMap_append, ← ih (Nat.le_of_succ_le hi), take_add_one]
    rfl

lemma mem_logWrites {p : Bytes × Bytes} :
    (∃ w ∈ logWrites log i, w.1 = p) ↔ ∃ e, log[i]? = some e ∧ p ∈ writePairs e.2.1 := by
  unfold logWrites
  cases log[i]? with
  | none => simp
  | some e => simp [writesOf, writePairs]

variable (B : OrderedBlock ts U parent txs d log pos)
include B

lemma OrderedBlock.pos_lt (hi : i < d.vertexes.length) : pos i < log.length := by
  obtain ⟨e, he, -⟩ := B.entry i hi
  exact (List.getElem?_eq_some_iff.mp he).1

lemma OrderedBlock.clashAt_of_fetched {e e' : Applied} (he : log[k]? = some e)
    (he' : log[l]? = some e') (hr : r ∈ fetchedAt ts parent log k e ∨ r ∈ e.2.1.txReads)
    (hw : (r.contractName, r.key) ∈ writePairs e'.2.1) : ClashAt ts parent log k l := by
  refine ⟨e, e', he, he', ?_⟩
  rcases hr with hr | hr
  · exact .inl ⟨r, hr, hw⟩
  rcases (B.touches k e he).reads_src r hr with hr | ⟨w, hwmem, hpair⟩
  · exact .inl ⟨r, hr, hw⟩
  · exact .inr (.inl ⟨_, hpair ▸ mem_map_of_mem hwmem, hw⟩)

lemma OrderedBlock.ahead (hO : DagOrder d d.vertexes.length order) {i j : ℕ}
    (hi : i < d.vertexes.length) (hnot : i ∉ order) (hj : j ∈ order)
    (hclash : ClashAt ts parent log (pos i) (pos j)) : pos j < pos i := by
  by_contra hge
  rcases (not_lt.mp hge).lt_or_eq with hlt | heq
  · exact hnot (hO.closed_transGen hj (B.orders j (hO.lt j hj) i hi hlt hclash.symm))
  · exact hnot (B.inj i hi j (hO.lt j hj) heq ▸ hj)

lemma OrderedBlock.stateAfter_order (hO : DagOrder d d.vertexes.length order)
    (hi : i < d.vertexes.length) (he : log[pos i]? = some e) (hnot : i ∉ order)
    (hpred : ∀ {j}, TransGen d.Edge i j → j ∈ order) (hr : r ∈ fetchedAt ts parent log (pos i) e) :
    stateAfter parent (((order.map pos).filterMap (log[·]?)).map (·.2.1)) r.contractName r.key =
      stateAfter parent ((log.take (pos i)).map (·.2.1)) r.contractName r.key := by
  set p : Bytes × Bytes := (r.contractName, r.key) with hp
  rw [take_eq_filterMap_range log (B.pos_lt hi).le, stateAfter, stateAfter,
    flatMap_writesOf_filterMap, flatMap_writesOf_filterMap]
  refine WriteLog.overlay_flatMap_congr (logWrites log) ?_
  have hsorted : ((order.map pos).filter fun k => ∃ w ∈ logWrites log k, w.1 = p).Pairwise
      (· < ·) := by
    rw [pairwise_filter, pairwise_map]
    refine Pairwise.imp_of_mem ?_ (hO.ordered.and hO.nodup)
    intro a b ha hb hab hwa hwb
    obtain ⟨ea, hea, hpa⟩ := mem_logWrites.mp (of_decide_eq_true hwa)
    obtain ⟨eb, heb, hpb⟩ := mem_logWrites.mp (of_decide_eq_true hwb)
    have hclash : ClashAt ts parent log (pos a) (pos b) :=
      ⟨ea, eb, hea, heb, .inr (.inl ⟨p, hpa, hpb⟩)⟩
    by_contra hge
    rcases (not_lt.mp hge).lt_or_eq with hlt | heq
    · exact hab.1 (B.orders a (hO.lt a ha) b (hO.lt b hb) hlt hclash)
    · exact hab.2 (B.inj b (hO.lt b hb) a (hO.lt a ha) heq).symm
  have hrange : ((range (pos i)).filter fun k => ∃ w ∈ logWrites log k, w.1 = p).Pairwise
      (· < ·) := pairwise_lt_range.filter _
  refine hsorted.eq_of_mem_iff hrange fun k => ?_
  simp only [mem_filter, mem_range, decide_eq_true_eq]
  refine and_congr_left fun hw => ?_
  obtain ⟨ek, hek, hpk⟩ := mem_logWrites.mp hw
  have hclash : ClashAt ts parent log (pos i) k := B.clashAt_of_fetched he hek (.inl hr) hpk
  constructor
  · intro hk
    obtain ⟨j, hj, rfl⟩ := mem_map.mp hk
    exact B.ahead hO hi hnot hj hclash
  · intro hk
    obtain ⟨j, hj, rfl⟩ := B.surj k (List.getElem?_eq_some_iff.mp hek).1
    exact mem_map_of_mem (hpred (B.orders i hi j hj hk hclash))

end Order

def Follows (ts : TxScheduler) (parent : Parent) (log : List Applied) (k : ℕ) (x : Execution) :
    Prop :=
  ∃ e, log[k]? = some e ∧ x.tx = e.1 ∧ serialExec ts.vm parent ((log.take k).map (·.2.1)) e.1 =
    x.prog.exec (stateAfter parent ((log.take k).map (·.2.1))) x.access

lemma Follows.next {k : ℕ} {x x' : Execution} (h : Follows ts parent log k x) {s : SnapshotImpl}
    (hkey : ∀ e, log[k]? = some e → ∀ r ∈ fetchedAt ts parent log k e,
      s.getKey r.contractName r.key =
        stateAfter parent ((log.take k).map (·.2.1)) r.contractName r.key)
    (hnext : x.next s = some x') : Follows ts parent log k x' := by
  obtain ⟨e, he, htx, hexec⟩ := h
  obtain ⟨tx, txExecSeq, access, prog⟩ := x
  cases prog with
  | done => simp [Execution.next] at hnext
  | put c key value next =>
    cases hnext
    exact ⟨e, he, htx, hexec⟩
  | get c key next =>
    cases hnext
    refine ⟨e, he, htx, ?_⟩
    rw [hexec, Prog.exec]
    suffices heq : access.get (stateAfter parent ((log.take k).map (·.2.1))) c key =
        access.get s.getKey c key by rw [heq]
    rcases access.get_cases s.getKey (stateAfter parent ((log.take k).map (·.2.1))) c key with
      ⟨-, heq⟩ | ⟨-, hf, heq⟩
    · exact heq
    refine heq (hkey e he ⟨c, key, stateAfter parent ((log.take k).map (·.2.1)) c key⟩ ?_).symm
    rw [fetchedAt, hexec, Prog.exec]
    refine (Prog.exec_fetched _ _ _).1 ?_
    rw [hf]
    exact mem_append_right _ (mem_singleton.mpr rfl)

lemma Follows.outcome_eq (hserial : SerialLog ts parent log) {k : ℕ}
    (h : Follows ts parent log k x) {o : Outcome} (ho : x.outcome = some o) :
    log[k]? = some (x.tx, getTxRWSet ts.failedReads x.tx o, o.result) := by
  obtain ⟨e, he, htx, hexec⟩ := h
  rw [(Execution.outcome_exec ho _).1] at hexec
  obtain ⟨hrw, hres⟩ := hserial k e he
  rw [hexec] at hrw hres
  rw [he, htx, ← hrw, ← hres]

structure SimInv (ts : TxScheduler) (U : Set (Bytes × Bytes)) (parent : Parent)
    (txs : List Transaction) (d : DAG) (log : List Applied) (pos : ℕ → ℕ) (v : Simulation) :
    Prop where
  graph : GraphInv d txs v
  snap : SnapInv U v.snapshot
  parent_eq : v.snapshot.parent = parent
  applied_eq : applied v.snapshot = (v.order.map pos).filterMap (log[·]?)
  exec : ∀ p ∈ v.executing, Follows ts parent log (pos p.1) p.2

namespace SimInv
variable {v v' : Simulation}

lemma rws (h : SimInv ts U parent txs d log pos v) :
    v.snapshot.txRWSetTable = ((v.order.map pos).filterMap (log[·]?)).map (·.2.1) := by
  rw [← applied_map_rw h.snap, h.applied_eq]

lemma lt_of_executing (h : SimInv ts U parent txs d log pos v)
    (hx : (i, x) ∈ v.executing) : i < d.vertexes.length :=
  h.graph.mem_range.mp (.inr (.inr (.inl (mem_map_of_mem hx))))

lemma getKey_eq (B : OrderedBlock ts U parent txs d log pos)
    (h : SimInv ts U parent txs d log pos v) (hx : (i, x) ∈ v.executing) (he : log[pos i]? = some e)
    (hr : r ∈ fetchedAt ts parent log (pos i) e) : v.snapshot.getKey r.contractName r.key =
      stateAfter parent ((log.take (pos i)).map (·.2.1)) r.contractName r.key := by
  have hU := (B.touches _ e he).fetched_mem r hr
  rw [h.snap.getKey_eq _ hU, h.parent_eq, h.rws]
  exact B.stateAfter_order h.graph.dagOrder (h.lt_of_executing hx) he
    (h.graph.notMem_order (mem_map_of_mem hx))
    (fun hj => mem_of_mem_take (h.graph.pred hx hj)) hr

lemma not_keyConflicted (hcol : NoCollision U) (B : OrderedBlock ts U parent txs d log pos)
    (h : SimInv ts U parent txs d log pos v) (hx : (i, x) ∈ v.executing)
    (he : log[pos i]? = some e) : v.snapshot.keyConflicted x.txExecSeq e.2.1 = false := by
  refine any_eq_false.mpr fun r hr => ?_
  split
  · next sv hsv =>
    -- The writer `j` of the key comes before `i` in the graph, and was applied before `i` started.
    obtain ⟨rw', w, hw, hget, hkey⟩ := h.snap.writer _ sv hsv
    have hrU := (B.touches _ e he).reads_mem r hr
    have hwU := h.snap.writes_mem rw' (mem_of_getElem? hget) w hw
    have hpair : (w.contractName, w.key) = (r.contractName, r.key) := hcol _ hwU _ hrU hkey
    have hO := h.graph.dagOrder
    have hi := h.lt_of_executing hx
    have hnot := h.graph.notMem_order (mem_map_of_mem hx)
    have hlt : ∀ k ∈ v.order.map pos, k < log.length := by
      intro k hk
      obtain ⟨j, hj, rfl⟩ := mem_map.mp hk
      exact B.pos_lt (hO.lt j hj)
    rw [h.rws, getElem?_map, getElem?_filterMap_log hlt, getElem?_map] at hget
    obtain ⟨ej, hej, rfl⟩ := Option.map_eq_some_iff.mp hget
    obtain ⟨k, hk, hej⟩ := Option.bind_eq_some_iff.mp hej
    obtain ⟨j, hj, rfl⟩ := Option.map_eq_some_iff.mp hk
    have hjmem := mem_of_getElem? hj
    have hclash : ClashAt ts parent log (pos i) (pos j) :=
      B.clashAt_of_fetched he hej (.inr hr) (hpair ▸ mem_map_of_mem hw)
    have hij := B.orders i hi j (hO.lt j hjmem) (B.ahead hO hi hnot hjmem hclash) hclash
    obtain ⟨m, hm⟩ := getElem?_of_mem (h.graph.pred hx hij)
    rw [getElem?_take] at hm
    split at hm
    · next hlt =>
      have hseq : m = sv.seq := (List.getElem?_inj (List.getElem?_eq_some_iff.mp hm).1
        hO.nodup).mp (hm.trans hj.symm)
      simpa [← hseq] using hlt
    · simp at hm
  · simp

end SimInv

end ChainMaker.Scheduler
