import ChainMaker.Basic
import Mathlib.Order.Lattice.Nat

/-! The snapshot that collects the executions of one block (`snapshot_impl.go`). The maps of
the source are only looked up by key; they are association lists with the newest entry first. -/

namespace ChainMaker.Snapshot

abbrev Value := Option Bytes

structure Transaction where
  txId : Bytes
  payload : Bytes
deriving DecidableEq, Repr

structure Result where
  code : ℕ
  contractResult : Bytes
deriving DecidableEq, Repr

structure TxRead where
  contractName : Bytes
  key : Bytes
  value : Value
deriving DecidableEq, Repr

structure TxWrite where
  contractName : Bytes
  key : Bytes
  value : Value
deriving DecidableEq, Repr

structure TxRWSet where
  txId : Bytes
  txReads : List TxRead
  txWrites : List TxWrite
deriving DecidableEq, Repr

inductive ExecOrderTxType where
  | normal
  | iterator
deriving DecidableEq, Repr

structure SV where
  seq : ℕ
  value : Value
deriving DecidableEq, Repr

structure Tables where
  readTable : List (Bytes × SV) := []
  writeTable : List (Bytes × SV) := []
deriving DecidableEq, Repr

def constructKey (contractName key : Bytes) : Bytes := contractName ++ key

def Tables.get (t : Tables) (finalKey : Bytes) : Option Value :=
  match t.writeTable.lookup finalKey with
  | some sv => some sv.value
  | none => (t.readTable.lookup finalKey).map (·.value)

/-- The state below a block: the tables of the snapshots before it, nearest first, and the
store's `ReadObject`. -/
structure Parent where
  preSnapshots : List Tables
  readObject : Bytes → Bytes → Value

/-- The loop over `preSnapshot`. A snapshot of the chain answers from its tables or asks the
snapshots before it and at last the store. -/
def Parent.getKey (p : Parent) (contractName key : Bytes) : Value :=
  go p.preSnapshots
where
  go : List Tables → Value
    | [] => p.readObject contractName key
    | t :: ts => (t.get (constructKey contractName key)).getD (go ts)

structure SnapshotImpl where
  parent : Parent
  isSealed : Bool := false
  txTable : List Transaction := []
  specialTxTable : List Transaction := []
  txRWSetTable : List TxRWSet := []
  txResultMap : List (Bytes × Result) := []
  tables : Tables := {}

namespace SnapshotImpl

def getSnapshotSize (s : SnapshotImpl) : ℕ := s.txTable.length

/-- `GetKey`. The source clamps `txExecSeq` and then does not use it. -/
def getKey (s : SnapshotImpl) (contractName key : Bytes) : Value :=
  (s.tables.get (constructKey contractName key)).getD (s.parent.getKey contractName key)

def apply (s : SnapshotImpl) (tx : Transaction) (txRWSet : TxRWSet) (txResult : Result) :
    SnapshotImpl :=
  let applySeq := s.txTable.length
  { s with
    tables :=
      { readTable := txRWSet.txReads.foldl (fun table r =>
          (constructKey r.contractName r.key, ⟨applySeq, r.value⟩) :: table) s.tables.readTable
        writeTable := txRWSet.txWrites.foldl (fun table w =>
          (constructKey w.contractName w.key, ⟨applySeq, w.value⟩) :: table)
            s.tables.writeTable }
    txRWSetTable := s.txRWSetTable ++ [txRWSet]
    txResultMap := (tx.txId, txResult) :: s.txResultMap
    txTable := s.txTable ++ [tx] }

/-- One of the read keys was written by a transaction that `txExecSeq` does not cover. -/
def keyConflicted (s : SnapshotImpl) (txExecSeq : ℕ) (txRWSet : TxRWSet) : Bool :=
  txRWSet.txReads.any fun r =>
    match s.tables.writeTable.lookup (constructKey r.contractName r.key) with
    | some sv => txExecSeq ≤ sv.seq
    | none => false

def applyTxSimContext (s : SnapshotImpl) (tx : Transaction) (txExecSeq : ℕ) (txRWSet : TxRWSet)
    (txResult : Result) (specialTxType : ExecOrderTxType) (applySpecialTx : Bool) :
    Bool × ℕ × SnapshotImpl :=
  if !applySpecialTx && specialTxType = .iterator then
    let s' := { s with specialTxTable := s.specialTxTable ++ [tx] }
    (true, s'.txTable.length + s'.specialTxTable.length, s')
  else if specialTxType = .iterator ∨ s.txTable.length ≤ txExecSeq then
    (true, s.txTable.length + 1, s.apply tx txRWSet txResult)
  else if s.keyConflicted txExecSeq txRWSet then (false, s.txTable.length, s)
  else (true, s.txTable.length + 1, s.apply tx txRWSet txResult)

def doSeal (s : SnapshotImpl) : SnapshotImpl := { s with isSealed := true }

end SnapshotImpl

/-! `BuildDAG`: the dependency graph of the applied transactions. -/

abbrev Bitmap := Finset ℕ

def Bitmap.pos1 (b : Bitmap) : List ℕ := (List.range (b.sup id + 1)).filter (· ∈ b)

def Bitmap.interExist (a b : Bitmap) : Bool := (a ∩ b).Nonempty

structure KeyDict where
  keyDict : List (Bytes × ℕ) := []
  dictIndex : ℕ := 0

def KeyDict.index (d : KeyDict) (key : Bytes) : ℕ × KeyDict :=
  match d.keyDict.lookup key with
  | some existIndex => (existIndex, d)
  | none => (d.dictIndex, ⟨(key, d.dictIndex) :: d.keyDict, d.dictIndex + 1⟩)

def setKeys (d : KeyDict) (keys : List Bytes) : Bitmap × KeyDict :=
  keys.foldl (fun acc key =>
    let r := acc.2.index key
    (insert r.1 acc.1, r.2)) (∅, d)

def TxRWSet.readKeys (rw : TxRWSet) : List Bytes := rw.txReads.map (·.key)
def TxRWSet.writeKeys (rw : TxRWSet) : List Bytes := rw.txWrites.map (·.key)

/-- The read and the write bitmap of every transaction. The contract name is not part of the
key here, other than in the tables of the snapshot. -/
def buildRWBitmaps : KeyDict → List TxRWSet → List (Bitmap × Bitmap)
  | _, [] => []
  | d, rw :: rws =>
    let r := setKeys d rw.readKeys
    let w := setKeys r.2 rw.writeKeys
    (r.1, w.1) :: buildRWBitmaps w.2 rws

def buildCumulativeBitmap : Bitmap → List Bitmap → List Bitmap
  | _, [] => []
  | prev, b :: bs => (b ∪ prev) :: buildCumulativeBitmap (b ∪ prev) bs

def conflicted (i j : Bitmap × Bitmap) : Bool :=
  i.1.interExist j.2 || i.2.interExist j.2 || i.2.interExist j.1

def fastConflicted (i cumulative : Bitmap × Bitmap) : Bool := conflicted i cumulative

def buildReach (bitmaps : List (Bitmap × Bitmap)) (bitmapI : Bitmap × Bitmap)
    (reachMap : List Bitmap) : ℕ → Bitmap → Bitmap → Bitmap × Bitmap
  | 0, reachFromI, directReachFromI => (reachFromI, directReachFromI)
  | j + 1, reachFromI, directReachFromI =>
    if j ∈ reachFromI then buildReach bitmaps bitmapI reachMap j reachFromI directReachFromI
    else if conflicted bitmapI (bitmaps.getD j (∅, ∅)) then
      buildReach bitmaps bitmapI reachMap j (reachFromI ∪ reachMap.getD j ∅)
        (insert j directReachFromI)
    else buildReach bitmaps bitmapI reachMap j reachFromI directReachFromI

def reachOf (bitmaps : List (Bitmap × Bitmap)) (cumulative : List (Bitmap × Bitmap))
    (reachMap : List Bitmap) (i : ℕ) : Bitmap × Bitmap :=
  let bitmapI := bitmaps.getD i (∅, ∅)
  if i > 0 && fastConflicted bitmapI (cumulative.getD (i - 1) (∅, ∅)) then
    buildReach bitmaps bitmapI reachMap i {i} ∅
  else ({i}, ∅)

structure DAG where
  vertexes : List (List ℕ)
deriving DecidableEq, Repr

def DAG.Edge (dag : DAG) (i j : ℕ) : Prop := j ∈ dag.vertexes.getD i []

instance (dag : DAG) (i j : ℕ) : Decidable (dag.Edge i j) :=
  inferInstanceAs (Decidable (j ∈ dag.vertexes.getD i []))

def reachLoop (bitmaps cumulative : List (Bitmap × Bitmap)) : ℕ → List (Bitmap × Bitmap)
  | 0 => []
  | n + 1 =>
    let done := reachLoop bitmaps cumulative n
    done ++ [reachOf bitmaps cumulative (done.map (·.1)) n]

def SnapshotImpl.buildDAG (s : SnapshotImpl) (isSql : Bool) : DAG :=
  let txCount := s.txTable.length
  if isSql then
    ⟨(List.range txCount).map fun i => if i = 0 then [] else [i - 1]⟩
  else
    let bitmaps := buildRWBitmaps {} s.txRWSetTable
    let cumulative := (buildCumulativeBitmap ∅ (bitmaps.map (·.1))).zip
      (buildCumulativeBitmap ∅ (bitmaps.map (·.2)))
    ⟨(reachLoop bitmaps cumulative txCount).map fun r => r.2.pos1⟩

end ChainMaker.Snapshot
