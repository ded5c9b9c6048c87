import ChainMaker.Lib.WriteLog
import ChainMaker.Scheduler.Schedule

/-! What an execution sees. `U` is the set of the contract names and keys that the contracts of
a block use; the tables of the snapshot tell them apart when their concatenations differ. -/

namespace ChainMaker.Scheduler
open WriteLog
open Option List ChainMaker.Snapshot

/-- Concatenation does not confuse the pairs of `U`. -/
def NoCollision (U : Set (Bytes × Bytes)) : Prop :=
  ∀ p ∈ U, ∀ q ∈ U, constructKey p.1 p.2 = constructKey q.1 q.2 → p = q

def Prog.AccessIn (U : Set (Bytes × Bytes)) : Prog → Prop
  | .done _ _ _ => True
  | .get contractName key next => (contractName, key) ∈ U ∧ ∀ v, (next v).AccessIn U
  | .put contractName key _ next => (contractName, key) ∈ U ∧ next.AccessIn U

def writesOf (rw : TxRWSet) : List ((Bytes × Bytes) × Value) :=
  rw.txWrites.map fun w => ((w.contractName, w.key), w.value)

def stateAfter (parent : Parent) (rws : List TxRWSet) (contractName key : Bytes) : Value :=
  overlay (fun p => parent.getKey p.1 p.2) (rws.flatMap writesOf) (contractName, key)

def serialExec (ts : Transaction → Prog) (parent : Parent) (before : List TxRWSet)
    (tx : Transaction) : Outcome :=
  (ts tx).exec (stateAfter parent before) {}

section Access
variable {U : Set (Bytes × Bytes)}

structure Access.WF (U : Set (Bytes × Bytes)) (a : Access) : Prop where
  read_key : ∀ fk r, a.txReadKeyMap.lookup fk = some r →
    constructKey r.contractName r.key = fk ∧ (r.contractName, r.key) ∈ U
  write_key : ∀ fk w, a.txWriteKeyMap.lookup fk = some w →
    constructKey w.contractName w.key = fk ∧ (w.contractName, w.key) ∈ U
  read_src : ∀ fk r, a.txReadKeyMap.lookup fk = some r →
    r ∈ a.fetched ∨ (a.txWriteKeyMap.lookup fk).isSome
  fetched_mem : ∀ r ∈ a.fetched, (r.contractName, r.key) ∈ U ∧
    (a.txReadKeyMap.lookup (constructKey r.contractName r.key)).isSome

lemma Access.WF.empty : Access.WF U {} := by
  constructor <;> simp

lemma isSome_lookup_insert {κ ν : Type} [DecidableEq κ] {m : GoMap κ ν} {k k' : κ} {v : ν}
    (h : (m.lookup k').isSome) : ((m.insert k v).lookup k').isSome := by
  rw [GoMap.lookup_insert_ite]
  split_ifs
  · rfl
  · exact h

variable {contractName : Bytes}

lemma Access.WF.put {a : Access} (h : a.WF U) {key : Bytes} (value : Value)
    (hU : (contractName, key) ∈ U) : (a.put contractName key value).WF U := by
  refine ⟨h.read_key, fun fk w hw => ?_, fun fk r hr => ?_, h.fetched_mem⟩
  · rcases GoMap.lookup_insert_cases hw with ⟨rfl, rfl⟩ | hw
    · exact ⟨rfl, hU⟩
    · exact h.write_key fk w hw
  · exact (h.read_src fk r hr).imp_right isSome_lookup_insert

lemma Access.WF.get {a : Access} (h : a.WF U) (getKey : Bytes → Bytes → Value) {key : Bytes}
    (hU : (contractName, key) ∈ U) : (a.get getKey contractName key).2.WF U := by
  unfold Access.get
  split
  · next w hw =>
    refine ⟨fun fk r hr => ?_, h.write_key, fun fk r hr => ?_, fun r hr => ?_⟩
    · rcases GoMap.lookup_insert_cases hr with ⟨rfl, rfl⟩ | hr
      · exact ⟨rfl, hU⟩
      · exact h.read_key fk r hr
    · rcases GoMap.lookup_insert_cases hr with ⟨rfl, rfl⟩ | hr
      · exact .inr (isSome_of_eq_some hw)
      · exact h.read_src fk r hr
    · exact ⟨(h.fetched_mem r hr).1, isSome_lookup_insert (h.fetched_mem r hr).2⟩
  · split
    · exact h
    next hr =>
    refine ⟨fun fk r hr => ?_, h.write_key, fun fk r hr => ?_,
      forall_mem_concat (fun r hr => ?_) ⟨hU, ?_⟩⟩
    · rcases GoMap.lookup_insert_cases hr with ⟨rfl, rfl⟩ | hr
      · exact ⟨rfl, hU⟩
      · exact h.read_key fk r hr
    · rcases GoMap.lookup_insert_cases hr with ⟨rfl, rfl⟩ | hr
      · exact .inl (mem_append_right _ (mem_singleton.mpr rfl))
      · exact (h.read_src fk r hr).imp_left (mem_append_left _)
    · exact ⟨(h.fetched_mem r hr).1, isSome_lookup_insert (h.fetched_mem r hr).2⟩
    · simp [Access.putIntoReadSet]

def Access.Agrees (a : Access) (σ : Bytes → Bytes → Value) : Prop :=
  ∀ r ∈ a.fetched, σ r.contractName r.key = r.value

lemma Access.get_cases (a : Access) (getKey σ : Bytes → Bytes → Value) (contractName key : Bytes) :
    ((a.get getKey contractName key).2.fetched = a.fetched ∧
      a.get σ contractName key = a.get getKey contractName key) ∨
    ((a.get getKey contractName key).2.fetched =
        a.fetched ++ [⟨contractName, key, getKey contractName key⟩] ∧
      (a.get σ contractName key).2.fetched =
        a.fetched ++ [⟨contractName, key, σ contractName key⟩] ∧
      (σ contractName key = getKey contractName key →
        a.get σ contractName key = a.get getKey contractName key)) := by
  unfold Access.get
  split
  · exact .inl ⟨rfl, rfl⟩
  split
  · exact .inl ⟨rfl, rfl⟩
  · exact .inr ⟨rfl, rfl, fun h => by simp only [h]⟩

lemma Access.get_eq_of_agrees {a : Access} {getKey σ : Bytes → Bytes → Value} {key : Bytes}
    (h : (a.get getKey contractName key).2.Agrees σ) :
    a.get σ contractName key = a.get getKey contractName key := by
  rcases a.get_cases getKey σ contractName key with ⟨-, heq⟩ | ⟨hf, -, heq⟩
  · exact heq
  refine heq (h ⟨contractName, key, getKey contractName key⟩ ?_)
  rw [hf]
  exact mem_append_right _ (mem_singleton.mpr rfl)

end Access

section Tables
variable {U : Set (Bytes × Bytes)} {rw : TxRWSet} {s : SnapshotImpl} {α β : Type}

lemma foldl_cons_eq (f : α → β) (xs : List α) (table : List β) :
    xs.foldl (fun table x => f x :: table) table = (xs.map f).reverse ++ table := by
  induction xs generalizing table with
  | nil => rfl
  | cons x xs ih => simp [ih]

def writeEntries (seq : ℕ) (ws : List TxWrite) : List (Bytes × SV) :=
  (ws.map fun w => (constructKey w.contractName w.key, SV.mk seq w.value)).reverse

variable {p : Bytes × Bytes}

lemma lookup_writeEntries (hcol : NoCollision U) (base : Bytes × Bytes → Value) (seq : ℕ)
    {ws : List TxWrite} (hws : ∀ w ∈ ws, (w.contractName, w.key) ∈ U) (hp : p ∈ U) :
    (∀ sv, (writeEntries seq ws).lookup (constructKey p.1 p.2) = some sv → sv.seq = seq ∧
        overlay base (ws.map fun w => ((w.contractName, w.key), w.value)) p = sv.value) ∧
      ((writeEntries seq ws).lookup (constructKey p.1 p.2) = none →
        ∀ w ∈ ws, (w.contractName, w.key) ≠ p) := by
  induction ws using reverseRecOn with
  | nil => simp [writeEntries]
  | append_singleton ws w ih =>
    obtain ⟨hsome, hnone⟩ := ih fun w' hw' => hws w' (mem_append_left _ hw')
    have hw := hws w (by simp)
    have hentries : writeEntries seq (ws ++ [w]) =
        (constructKey w.contractName w.key, SV.mk seq w.value) :: writeEntries seq ws := by
      simp [writeEntries]
    rw [hentries, lookup_cons]
    by_cases heq : p = (w.contractName, w.key)
    · subst heq
      simp [overlay]
    have hne : constructKey p.1 p.2 ≠ constructKey w.contractName w.key :=
      fun hk => heq (hcol p hp _ hw hk)
    rw [beq_eq_false_iff_ne.mpr hne]
    refine ⟨fun sv hsv => ⟨(hsome sv hsv).1, ?_⟩,
      fun hlook => forall_mem_concat (hnone hlook) (Ne.symm heq)⟩
    rw [map_append, overlay_append, ← (hsome sv hsv).2]
    exact Function.update_of_ne heq _ _

lemma stateAfter_append (parent : Parent) (rws : List TxRWSet) (rw : TxRWSet) (c k : Bytes) :
    stateAfter parent (rws ++ [rw]) c k =
      overlay (fun p => stateAfter parent rws p.1 p.2) (writesOf rw) (c, k) := by
  rw [stateAfter, flatMap_append, overlay_append]
  simp only [flatMap_cons, flatMap_nil, append_nil]
  rfl

lemma stateAfter_append_of_not_written (parent : Parent) (rws : List TxRWSet)
    (h : ∀ w ∈ rw.txWrites, (w.contractName, w.key) ≠ p) :
    stateAfter parent (rws ++ [rw]) p.1 p.2 = stateAfter parent rws p.1 p.2 := by
  rw [stateAfter_append]
  exact overlay_of_forall_ne (by simpa [writesOf] using h)

structure SnapInv (U : Set (Bytes × Bytes)) (s : SnapshotImpl) : Prop where
  len_rw : s.txRWSetTable.length = s.txTable.length
  len_result : s.txResultMap.length = s.txTable.length
  getKey_eq : ∀ p ∈ U, s.getKey p.1 p.2 = stateAfter s.parent s.txRWSetTable p.1 p.2
  /-- A key whose last writer comes before `i` has had its value since then. -/
  seq : ∀ p ∈ U, ∀ i, (∀ sv, s.tables.writeTable.lookup (constructKey p.1 p.2) = some sv →
    sv.seq < i) → stateAfter s.parent (s.txRWSetTable.take i) p.1 p.2 =
      stateAfter s.parent s.txRWSetTable p.1 p.2
  writes_mem : ∀ rw ∈ s.txRWSetTable, ∀ w ∈ rw.txWrites, (w.contractName, w.key) ∈ U
  writer : ∀ fk sv, s.tables.writeTable.lookup fk = some sv → ∃ rw, ∃ w ∈ rw.txWrites,
    s.txRWSetTable[sv.seq]? = some rw ∧ constructKey w.contractName w.key = fk

lemma SnapInv.new (U : Set (Bytes × Bytes)) (parent : Parent) : SnapInv U { parent := parent } := by
  exact ⟨rfl, rfl, fun p _ => rfl, fun p _ i _ => by simp, by simp, by simp⟩

/-- A read-write set whose reads are current, except for what it writes itself. -/
structure Current (U : Set (Bytes × Bytes)) (s : SnapshotImpl) (rw : TxRWSet) : Prop where
  reads_mem : ∀ r ∈ rw.txReads, (r.contractName, r.key) ∈ U
  writes_mem : ∀ w ∈ rw.txWrites, (w.contractName, w.key) ∈ U
  value_eq : ∀ r ∈ rw.txReads,
    r.value = stateAfter s.parent s.txRWSetTable r.contractName r.key ∨
      ∃ w ∈ rw.txWrites, (w.contractName, w.key) = (r.contractName, r.key)

lemma apply_writeTable (s : SnapshotImpl) (tx : Transaction) (rw : TxRWSet) (res : Result) :
    (s.apply tx rw res).tables.writeTable =
      writeEntries s.txTable.length rw.txWrites ++ s.tables.writeTable :=
  foldl_cons_eq _ _ _

lemma apply_readTable (s : SnapshotImpl) (tx : Transaction) (rw : TxRWSet) (res : Result) :
    (s.apply tx rw res).tables.readTable = (rw.txReads.map fun r =>
      (constructKey r.contractName r.key, SV.mk s.txTable.length r.value)).reverse ++
        s.tables.readTable :=
  foldl_cons_eq _ _ _

lemma mem_of_lookup_eq_some [BEq α] [LawfulBEq α] {l : List (α × β)} {a : α}
    {b : β} (h : l.lookup a = some b) : (a, b) ∈ l := by
  induction l with
  | nil => simp at h
  | cons x l ih =>
    rw [lookup_cons] at h
    split at h
    · next hx =>
      cases h
      obtain rfl := beq_iff_eq.mp hx
      exact mem_cons_self
    · exact mem_cons_of_mem _ (ih h)

lemma SnapInv.apply_getKey (hcol : NoCollision U) (h : SnapInv U s)
    (hrw : Current U s rw) (tx : Transaction) (res : Result) (hp : p ∈ U) :
    (s.apply tx rw res).getKey p.1 p.2 = stateAfter s.parent (s.txRWSetTable ++ [rw]) p.1 p.2 := by
  obtain ⟨hsome, hnone⟩ := lookup_writeEntries hcol
    (fun p => stateAfter s.parent s.txRWSetTable p.1 p.2) s.txTable.length hrw.writes_mem hp
  have hold := h.getKey_eq p hp
  simp only [SnapshotImpl.getKey, Tables.get, apply_writeTable, apply_readTable,
    lookup_append] at hold ⊢
  cases hnew : (writeEntries s.txTable.length rw.txWrites).lookup (constructKey p.1 p.2) with
  | some sv =>
    rw [stateAfter_append]
    exact (hsome sv hnew).2.symm
  | none =>
    have hnw := hnone hnew
    rw [stateAfter_append_of_not_written _ _ hnw, ← hold]
    cases hw : s.tables.writeTable.lookup (constructKey p.1 p.2) with
    | some sv => rfl
    | none =>
      cases hr : (rw.txReads.map fun r => (constructKey r.contractName r.key,
          SV.mk s.txTable.length r.value)).reverse.lookup (constructKey p.1 p.2) with
      | none => rfl
      | some sv =>
        -- The key was read by this transaction: its value is that of the state before it.
        obtain ⟨r, hmem, heq⟩ := mem_map.mp (mem_reverse.mp (mem_of_lookup_eq_some hr))
        obtain ⟨hk, rfl⟩ := Prod.mk.inj heq
        have hpr : (r.contractName, r.key) = p := hcol _ (hrw.reads_mem r hmem) p hp hk
        rcases hrw.value_eq r hmem with hv | ⟨w, hw', hwr⟩
        · rw [hw] at hold
          rw [hold]
          simpa [← hpr] using hv
        · exact absurd (hwr.trans hpr) (hnw w hw')

lemma SnapInv.apply_seq (hcol : NoCollision U) (h : SnapInv U s)
    (hrw : Current U s rw) (tx : Transaction) (res : Result) (hp : p ∈ U) {i : ℕ} (hi : ∀ sv,
    (s.apply tx rw res).tables.writeTable.lookup (constructKey p.1 p.2) = some sv → sv.seq < i) :
    stateAfter s.parent ((s.txRWSetTable ++ [rw]).take i) p.1 p.2 = stateAfter s.parent
      (s.txRWSetTable ++ [rw]) p.1 p.2 := by
  obtain ⟨hsome, hnone⟩ := lookup_writeEntries hcol
    (fun p => stateAfter s.parent s.txRWSetTable p.1 p.2) s.txTable.length hrw.writes_mem hp
  rw [apply_writeTable, lookup_append] at hi
  rcases le_or_gt i s.txRWSetTable.length with hle | hgt
  · rw [take_append_of_le_length hle]
    cases hnew : (writeEntries s.txTable.length rw.txWrites).lookup (constructKey p.1 p.2) with
    | some sv =>
      -- The new transaction is the last writer, and its sequence number is not below `i`.
      have hlt := hi sv (by rw [hnew]; rfl)
      rw [(hsome sv hnew).1, ← h.len_rw] at hlt
      omega
    | none =>
      rw [hnew] at hi
      rw [h.seq p hp i hi, stateAfter_append_of_not_written _ _ (hnone hnew)]
  · rw [take_of_length_le (by simp; omega)]

lemma SnapInv.apply (hcol : NoCollision U) {s : SnapshotImpl} (h : SnapInv U s) {rw : TxRWSet}
    (hrw : Current U s rw) (tx : Transaction) (res : Result) : SnapInv U (s.apply tx rw res) := by
  refine ⟨?_, ?_, fun p hp => h.apply_getKey hcol hrw tx res hp,
    fun p hp i hi => h.apply_seq hcol hrw tx res hp hi,
    forall_mem_concat h.writes_mem hrw.writes_mem, fun fk sv hsv => ?_⟩
  · simp [SnapshotImpl.apply, h.len_rw]
  · simp [SnapshotImpl.apply, h.len_result]
  · rw [apply_writeTable, lookup_append] at hsv
    rcases or_eq_some_iff.mp hsv with hsv | ⟨-, hsv⟩
    · have hmem := mem_reverse.mp (mem_of_lookup_eq_some hsv)
      obtain ⟨w, hw, heq⟩ := mem_map.mp hmem
      cases heq
      refine ⟨rw, w, hw, ?_, rfl⟩
      simp [SnapshotImpl.apply, ← h.len_rw]
    · obtain ⟨rw', w, hw, hget, hkey⟩ := h.writer fk sv hsv
      refine ⟨rw', w, hw, ?_, hkey⟩
      exact (List.getElem?_append_left (List.getElem?_eq_some_iff.mp hget).1).trans hget

end Tables

section Executions
variable {U : Set (Bytes × Bytes)} {vm : Transaction → Prog} {s : SnapshotImpl}

/-- An execution that runs beside others. Every key that it fetched had its value at some time
`m` since the execution started, and a state that agrees with all of them would have led the
contract to the same point. -/
structure ExecInv (U : Set (Bytes × Bytes)) (vm : Transaction → Prog) (s : SnapshotImpl)
    (x : Execution) : Prop where
  seq_le : x.txExecSeq ≤ s.txRWSetTable.length
  wf : x.access.WF U
  prog_mem : x.prog.AccessIn U
  fetched : ∀ r ∈ x.access.fetched, ∃ m, x.txExecSeq ≤ m ∧ m ≤ s.txRWSetTable.length ∧
    r.value = stateAfter s.parent (s.txRWSetTable.take m) r.contractName r.key
  resume : ∀ σ, x.access.Agrees σ → (vm x.tx).exec σ {} = x.prog.exec σ x.access

lemma ExecInv.new (h : SnapInv U s) {tx : Transaction} (htx : (vm tx).AccessIn U) :
    ExecInv U vm s (newExecution vm s tx) :=
  ⟨h.len_rw.ge, .empty, htx, by simp [newExecution], fun _ _ => rfl⟩

lemma Execution.next_tx {x x' : Execution} (h : x.next s = some x') : x'.tx = x.tx := by
  obtain ⟨tx, txExecSeq, access, prog⟩ := x
  cases prog with
  | done => simp [Execution.next] at h
  | get | put => exact some.inj h ▸ rfl

lemma ExecInv.next (h : SnapInv U s) {x x' : Execution} (hx : ExecInv U vm s x)
    (hnext : x.next s = some x') : ExecInv U vm s x' ∧ x'.txExecSeq = x.txExecSeq := by
  obtain ⟨tx, txExecSeq, access, prog⟩ := x
  cases prog with
  | done => simp [Execution.next] at hnext
  | put contractName key value next =>
    cases hnext
    exact ⟨⟨hx.seq_le, hx.wf.put value hx.prog_mem.1, hx.prog_mem.2, hx.fetched, hx.resume⟩, rfl⟩
  | get contractName key next =>
    cases hnext
    obtain ⟨hU, hin⟩ := hx.prog_mem
    refine ⟨⟨hx.seq_le, hx.wf.get _ hU, hin _, ?_, fun σ hσ => ?_⟩, rfl⟩
    · rcases access.get_cases s.getKey s.getKey contractName key with ⟨hf, -⟩ | ⟨hf, -⟩ <;>
        rw [hf]
      · exact hx.fetched
      · refine forall_mem_concat hx.fetched ⟨_, hx.seq_le, le_rfl, ?_⟩
        rw [take_length]
        exact h.getKey_eq _ hU
    · have hagree : access.Agrees σ := by
        intro r hr
        refine hσ r ?_
        rcases access.get_cases s.getKey s.getKey contractName key with ⟨hf, -⟩ | ⟨hf, -⟩ <;>
          rw [hf]
        · exact hr
        · exact mem_append_left _ hr
      rw [hx.resume σ hagree, Prog.exec, Access.get_eq_of_agrees hσ]

lemma ExecInv.apply {x : Execution} (hx : ExecInv U vm s x) (tx : Transaction) (rw : TxRWSet)
    (res : Result) : ExecInv U vm (s.apply tx rw res) x := by
  have hlen : (s.apply tx rw res).txRWSetTable.length = s.txRWSetTable.length + 1 := by
    simp [SnapshotImpl.apply]
  refine ⟨by rw [hlen]; exact hx.seq_le.trans (Nat.le_succ _), hx.wf, hx.prog_mem,
    fun r hr => ?_, hx.resume⟩
  obtain ⟨m, hm, hm', hv⟩ := hx.fetched r hr
  refine ⟨m, hm, by omega, hv.trans ?_⟩
  simp only [SnapshotImpl.apply, take_append_of_le_length hm']

def Recorded (failedReads : Access → List TxRead) (o : Outcome) : Prop :=
  o.success = false → ∀ r, r ∈ failedReads o.access ↔ r ∈ o.access.fetched

lemma Prog.exec_fetched (σ : Bytes → Bytes → Value) (prog : Prog) (a : Access) :
    a.fetched ⊆ (prog.exec σ a).access.fetched ∧
      (a.Agrees σ → (prog.exec σ a).access.Agrees σ) := by
  induction prog generalizing a with
  | done => exact ⟨fun _ => id, id⟩
  | put c k v next ih => exact ih (a.put c k v)
  | get c k next ih =>
    obtain ⟨hsub, hagree⟩ := ih (a.get σ c k).1 (a.get σ c k).2
    rcases a.get_cases σ σ c k with ⟨hf, -⟩ | ⟨hf, -⟩
    · refine ⟨fun r hr => hsub (hf.symm ▸ hr), fun h => hagree fun r hr => h r (hf ▸ hr)⟩
    · refine ⟨fun r hr => hsub (hf.symm ▸ mem_append_left _ hr), fun h => hagree ?_⟩
      rw [Access.Agrees, hf]
      exact forall_mem_concat h rfl

lemma Execution.outcome_exec {x : Execution} {o : Outcome} (ho : x.outcome = some o)
    (σ : Bytes → Bytes → Value) : x.prog.exec σ x.access = o ∧ o.access = x.access := by
  obtain ⟨tx, txExecSeq, access, prog⟩ := x
  cases prog with
  | done => exact ⟨some.inj ho, by rw [← some.inj ho]⟩
  | get | put => simp [Execution.outcome] at ho

end Executions

end ChainMaker.Scheduler
