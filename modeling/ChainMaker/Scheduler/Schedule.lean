import ChainMaker.Lib.Runs
import ChainMaker.Snapshot.Impl

/-! One execution of a transaction: the contract as a program over the state, and the
`TxSimContext` in which it runs. -/

namespace ChainMaker.Scheduler
open ChainMaker.Snapshot Option

/-- A contract run by a deterministic VM. What it learns from elsewhere than `Get`, such as a
range query of the store or the block header, is fixed with the block and part of the program. -/
inductive Prog where
  | done (result : Result) (specialTxType : ExecOrderTxType) (success : Bool)
  | get (contractName key : Bytes) (next : Value → Prog)
  | put (contractName key : Bytes) (value : Value) (next : Prog)

/-- What a `TxSimContext` has seen: the keys that it read from the snapshot, in order, and its
read and write maps. -/
structure Access where
  fetched : List TxRead := []
  txReadKeyMap : GoMap Bytes TxRead := ∅
  txWriteKeyMap : GoMap Bytes TxWrite := ∅

namespace Access

def putIntoReadSet (a : Access) (contractName key : Bytes) (value : Value) : Access :=
  { a with txReadKeyMap :=
      a.txReadKeyMap.insert (constructKey contractName key) ⟨contractName, key, value⟩ }

/-- `Get`: the own writes first, then the own reads, then the snapshot. -/
def get (a : Access) (getKey : Bytes → Bytes → Value) (contractName key : Bytes) : Value × Access :=
  match a.txWriteKeyMap.lookup (constructKey contractName key) with
  | some w => (w.value, a.putIntoReadSet contractName key w.value)
  | none =>
    match a.txReadKeyMap.lookup (constructKey contractName key) with
    | some r => (r.value, a)
    | none =>
      let value := getKey contractName key
      (value, { a.putIntoReadSet contractName key value with
        fetched := a.fetched ++ [⟨contractName, key, value⟩] })

def put (a : Access) (contractName key : Bytes) (value : Value) : Access :=
  { a with txWriteKeyMap :=
      a.txWriteKeyMap.insert (constructKey contractName key) ⟨contractName, key, value⟩ }

end Access

structure Outcome where
  access : Access
  result : Result
  specialTxType : ExecOrderTxType
  success : Bool

def Prog.exec (getKey : Bytes → Bytes → Value) : Prog → Access → Outcome
  | .done result specialTxType success, a => ⟨a, result, specialTxType, success⟩
  | .get contractName key next, a =>
    (next (a.get getKey contractName key).1).exec getKey (a.get getKey contractName key).2
  | .put contractName key value next, a => next.exec getKey (a.put contractName key value)

/-- `GetTxRWSet`. Of a failed run the writes are dropped; `failedReads` is what is left of its
reads. -/
def getTxRWSet (failedReads : Access → List TxRead) (tx : Transaction) (o : Outcome) : TxRWSet :=
  if o.success then
    ⟨tx.txId, o.access.txReadKeyMap.values, o.access.txWriteKeyMap.values⟩
  else ⟨tx.txId, failedReads o.access, []⟩

/-- The context of this repository's own implementation keeps no reads of a failed run. -/
def noFailedReads (_ : Access) : List TxRead := []

structure Execution where
  tx : Transaction
  txExecSeq : ℕ
  access : Access
  prog : Prog

def newExecution (vm : Transaction → Prog) (s : SnapshotImpl) (tx : Transaction) : Execution :=
  ⟨tx, s.getSnapshotSize, {}, vm tx⟩

def Execution.next (x : Execution) (s : SnapshotImpl) : Option Execution :=
  match x.prog with
  | .done _ _ _ => none
  | .get contractName key next =>
    let r := x.access.get s.getKey contractName key
    some { x with access := r.2, prog := next r.1 }
  | .put contractName key value next =>
    some { x with access := x.access.put contractName key value, prog := next }

def Execution.outcome (x : Execution) : Option Outcome :=
  match x.prog with
  | .done result specialTxType success => some ⟨x.access, result, specialTxType, success⟩
  | _ => none

def applyExecution (failedReads : Access → List TxRead) (s : SnapshotImpl) (x : Execution)
    (o : Outcome) (applySpecialTx : Bool) : Bool × ℕ × SnapshotImpl :=
  s.applyTxSimContext x.tx x.txExecSeq (getTxRWSet failedReads x.tx o) o.result o.specialTxType
    applySpecialTx

/-! `Schedule` as a machine: the goroutines of the pool take one step at a time, in any order.
The signal that ends the collection of transactions may come at any time, since the timer may. -/

structure TxScheduler where
  vm : Transaction → Prog
  failedReads : Access → List TxRead
  enableSqlSupport : Bool

structure Schedule where
  snapshot : SnapshotImpl
  runningTxC : List Transaction
  executing : List Execution := []
  /-- The finished ones that have passed the first `IsSealed` of `ApplyTxSimContext`. -/
  applying : List (Execution × Outcome) := []
  /-- A goroutine waits for the lock of the snapshot while it holds it. -/
  deadlocked : Bool := false
  dag : Option DAG := none
  specialTxC : List Transaction := []
  special : Option Execution := none
  hasFirstTx : Bool := false

inductive Event where
  | submit (n : ℕ)
  | exec (n : ℕ)
  | check (n : ℕ)
  | apply (n : ℕ)
  | finish
  | buildDag
  | startSpecial
  | execSpecial
  | applySpecial
deriving DecidableEq, Repr

namespace Schedule

def start (parent : Parent) (txBatch : List Transaction) : Schedule :=
  { snapshot := { parent := parent }, runningTxC := txBatch }

variable (ts : TxScheduler)

def submit (s : Schedule) (n : ℕ) : Option Schedule := do
  let tx ← s.runningTxC[n]?
  let s := { s with runningTxC := s.runningTxC.eraseIdx n }
  if s.snapshot.isSealed then return s
  return { s with executing := s.executing ++ [newExecution ts.vm s.snapshot tx] }

def exec (s : Schedule) (n : ℕ) : Option Schedule := do
  let x ← s.executing[n]?
  let x' ← x.next s.snapshot
  return { s with executing := s.executing.set n x' }

def check (s : Schedule) (n : ℕ) : Option Schedule := do
  let x ← s.executing[n]?
  let o ← x.outcome
  let s := { s with executing := s.executing.eraseIdx n }
  if s.snapshot.isSealed then return { s with runningTxC := s.runningTxC ++ [x.tx] }
  return { s with applying := s.applying ++ [(x, o)] }

/-- `ApplyTxSimContext` under the lock. A snapshot that was sealed in between makes it call
`GetSnapshotSize`, which asks for the same lock again. -/
def apply (s : Schedule) (n : ℕ) : Option Schedule := do
  let p ← s.applying[n]?
  if s.snapshot.isSealed then return { s with deadlocked := true }
  let r := applyExecution ts.failedReads s.snapshot p.1 p.2 false
  return { s with
    snapshot := r.2.2
    applying := s.applying.eraseIdx n
    runningTxC := if r.1 then s.runningTxC else s.runningTxC ++ [p.1.tx] }

def finish (s : Schedule) : Option Schedule :=
  if s.snapshot.isSealed then none else some { s with snapshot := s.snapshot.doSeal }

def buildDag (s : Schedule) : Option Schedule :=
  if s.snapshot.isSealed ∧ s.dag = none then
    some { s with
      dag := some (s.snapshot.buildDAG ts.enableSqlSupport)
      specialTxC := s.snapshot.specialTxTable }
  else none

def startSpecial (s : Schedule) : Option Schedule :=
  match s.special, s.specialTxC with
  | none, tx :: specialTxC =>
    some { s with specialTxC := specialTxC, special := some (newExecution ts.vm s.snapshot tx) }
  | _, _ => none

def execSpecial (s : Schedule) : Option Schedule := do
  let x ← s.special
  let x' ← x.next s.snapshot
  return { s with special := some x' }

/-- The neighbours of a special transaction: all transactions before the first one, and the
special transaction before it for every later one. -/
def specialNeighbors (hasFirstTx : Bool) (snapshotSize : ℕ) : List ℕ :=
  if hasFirstTx then [snapshotSize - 2] else List.range (snapshotSize - 1)

def applySpecial (s : Schedule) : Option Schedule := do
  let x ← s.special
  let o ← x.outcome
  let dag ← s.dag
  let r := applyExecution ts.failedReads s.snapshot x o true
  let s := { s with special := none, snapshot := r.2.2 }
  if r.1 then
    return { s with
      dag := some ⟨dag.vertexes ++ [specialNeighbors s.hasFirstTx s.snapshot.getSnapshotSize]⟩
      hasFirstTx := true }
  return { s with specialTxC := s.specialTxC ++ [x.tx] }

def step (s : Schedule) (e : Event) : Option Schedule :=
  if s.deadlocked then none
  else
    match e with
    | .submit n => s.submit ts n
    | .exec n => s.exec n
    | .check n => s.check n
    | .apply n => s.apply ts n
    | .finish => s.finish
    | .buildDag => s.buildDag ts
    | .startSpecial => s.startSpecial ts
    | .execSpecial => s.execSpecial
    | .applySpecial => s.applySpecial ts

end Schedule

/-! `SimulateWithDag` as a machine: the transactions of a block are executed by the pool as
its graph allows, in any interleaving, until all of them are applied. -/

structure Simulation where
  snapshot : SnapshotImpl
  txMapping : List Transaction
  txBatchSize : ℕ
  dagRemain : List (ℕ × Finset ℕ)
  runningTxC : List ℕ
  executing : List (ℕ × Execution) := []
  doneTxC : List ℕ := []
  finishC : Bool := false
  returned : Bool := false
  order : List ℕ := []

inductive SimEvent where
  | submit (n : ℕ)
  | exec (n : ℕ)
  | apply (n : ℕ)
  | done (n : ℕ)
  | finish
deriving DecidableEq, Repr

def shrinkDag (txIndex : ℕ) (dagRemain : List (ℕ × Finset ℕ)) : List (ℕ × Finset ℕ) :=
  dagRemain.map fun p => (p.1, p.2.erase txIndex)

def popNextTxBatchFromDag (dagRemain : List (ℕ × Finset ℕ)) : List ℕ × List (ℕ × Finset ℕ) :=
  ((dagRemain.filter fun p => p.2 = ∅).map (·.1), dagRemain.filter fun p => p.2 ≠ ∅)

namespace Simulation

def adjacency (dag : DAG) : List (ℕ × Finset ℕ) :=
  (List.range dag.vertexes.length).map fun i => (i, (dag.vertexes.getD i []).toFinset)

def start (parent : Parent) (txs : List Transaction) (dag : DAG) : Simulation :=
  let r := popNextTxBatchFromDag (adjacency dag)
  { snapshot := { parent := parent }
    txMapping := txs
    txBatchSize := dag.vertexes.length
    dagRemain := r.2
    runningTxC := r.1
    returned := txs.isEmpty }

variable (ts : TxScheduler)

def submit (v : Simulation) (n : ℕ) : Option Simulation := do
  let txIndex ← v.runningTxC[n]?
  let tx ← v.txMapping[txIndex]?
  return { v with
    runningTxC := v.runningTxC.eraseIdx n
    executing := v.executing ++ [(txIndex, newExecution ts.vm v.snapshot tx)] }

def exec (v : Simulation) (n : ℕ) : Option Simulation := do
  let p ← v.executing[n]?
  let x ← p.2.next v.snapshot
  return { v with executing := v.executing.set n (p.1, x) }

def apply (v : Simulation) (n : ℕ) : Option Simulation := do
  let p ← v.executing[n]?
  let o ← p.2.outcome
  let r := applyExecution ts.failedReads v.snapshot p.2 o true
  let v := { v with
    snapshot := r.2.2
    executing := v.executing.eraseIdx n
    finishC := v.finishC || v.txBatchSize ≤ r.2.1 }
  if r.1 then return { v with doneTxC := v.doneTxC ++ [p.1], order := v.order ++ [p.1] }
  return { v with runningTxC := v.runningTxC ++ [p.1] }

def done (v : Simulation) (n : ℕ) : Option Simulation := do
  let txIndex ← v.doneTxC[n]?
  let r := popNextTxBatchFromDag (shrinkDag txIndex v.dagRemain)
  return { v with
    doneTxC := v.doneTxC.eraseIdx n
    dagRemain := r.2
    runningTxC := v.runningTxC ++ r.1 }

def finish (v : Simulation) : Option Simulation :=
  if v.finishC then some { v with snapshot := v.snapshot.doSeal, returned := true } else none

def step (v : Simulation) (e : SimEvent) : Option Simulation :=
  if v.returned then none
  else
    match e with
    | .submit n => v.submit ts n
    | .exec n => v.exec n
    | .apply n => v.apply ts n
    | .done n => v.done n
    | .finish => v.finish

variable {ts} {v v' : Simulation} {n : ℕ}

lemma submit_some (h : v.submit ts n = some v') :
    ∃ i tx, v.runningTxC[n]? = some i ∧ v.txMapping[i]? = some tx ∧
      v' = { v with
        runningTxC := v.runningTxC.eraseIdx n
        executing := v.executing ++ [(i, newExecution ts.vm v.snapshot tx)] } := by
  obtain ⟨i, hi, h⟩ := bind_eq_some_iff.mp h
  obtain ⟨tx, htx, h⟩ := bind_eq_some_iff.mp h
  exact ⟨i, tx, hi, htx, (some.inj h).symm⟩

lemma exec_some (h : v.exec n = some v') :
    ∃ p x, v.executing[n]? = some p ∧ p.2.next v.snapshot = some x ∧
      v' = { v with executing := v.executing.set n (p.1, x) } := by
  obtain ⟨p, hp, h⟩ := bind_eq_some_iff.mp h
  obtain ⟨x, hx, h⟩ := bind_eq_some_iff.mp h
  exact ⟨p, x, hp, hx, (some.inj h).symm⟩

lemma done_some (h : v.done n = some v') :
    ∃ i, v.doneTxC[n]? = some i ∧ v' = { v with
      doneTxC := v.doneTxC.eraseIdx n
      dagRemain := (popNextTxBatchFromDag (shrinkDag i v.dagRemain)).2
      runningTxC := v.runningTxC ++ (popNextTxBatchFromDag (shrinkDag i v.dagRemain)).1 } := by
  obtain ⟨i, hi, h⟩ := bind_eq_some_iff.mp h
  exact ⟨i, hi, (some.inj h).symm⟩

end Simulation

end ChainMaker.Scheduler
