import ChainMaker.Snapshot.Impl
import ChainMaker.Snapshot.Manager

/-! The data of the core engine (`module/core`): blocks as objects that the consensus module, the
verifier and the proposal cache share, and what the engine asks other modules for. A nil slice or
pointer is `none`; a nil block header does not occur. -/

namespace ChainMaker.Core
open List
open ChainMaker.Snapshot (DAG TxRWSet)

inductive ConsensusType where
  | solo
  | tbft
  | hotstuff
  | raft
  | dpos
deriving DecidableEq, Repr

inductive VerifyMode where
  | consensusVerify
  | syncVerify
deriving DecidableEq, Repr

structure BlockHeader where
  chainId : String
  blockHeight : UInt64
  blockTimestamp : ℤ
  proposer : Bytes
  preBlockHash : Option Bytes
  txRoot : Bytes := []
  dagHash : Bytes := []
  rwSetRoot : Bytes := []
  blockHash : Option Bytes := none
  preConfHeight : UInt64 := 0
  blockVersion : UInt32 := 0
  isConfigBlock : Bool := false
  consensusArgs : Bytes := []
  txCount : UInt32 := 0
  signature : Option Bytes := none
deriving DecidableEq, Repr

def BlockHeader.fingerPrinted (h : BlockHeader) : Snapshot.BlockHeader :=
  ⟨h.chainId, h.blockHeight, h.blockTimestamp, h.proposer, h.preBlockHash.getD [],
    h.txRoot, h.dagHash, h.rwSetRoot⟩

structure ContractEvent where
  topic : String
  txId : Bytes
  contractName : String
  contractVersion : String
  eventData : List String
deriving DecidableEq, Repr

structure Result where
  code : ℕ
  contractResult : Bytes
  contractEvent : List ContractEvent
  rwSetHash : Bytes
deriving DecidableEq, Repr

structure Payload where
  txId : Bytes
  content : Bytes
deriving DecidableEq, Repr

structure Transaction where
  payload : Option Payload
  sender : Bytes
  endorsers : List Bytes
  result : Option Result
deriving DecidableEq, Repr

def Transaction.txId (tx : Transaction) : Option Bytes := tx.payload.map (·.txId)

abbrev AdditionalData := List (String × Bytes)

structure Block where
  header : BlockHeader
  dag : Option DAG
  txs : List Transaction
  additionalData : Option AdditionalData
deriving DecidableEq, Repr

abbrev RWSetMap := GoMap Bytes TxRWSet
abbrev EventMap := GoMap Bytes (List ContractEvent)

/-! ### Objects -/

/-- A block object; its header is an object of its own, which another block may share. -/
structure Object where
  header : ℕ
  dag : Option DAG
  txs : List Transaction
  additionalData : Option AdditionalData
deriving DecidableEq

structure Heap where
  headers : List BlockHeader
  blocks : List Object
deriving DecidableEq

namespace Heap
variable (heap : Heap) {data : Option AdditionalData} {txs : List Transaction} {dag : Option DAG}

def get (r : ℕ) : Option Block := do
  let o ← heap.blocks[r]?
  let header ← heap.headers[o.header]?
  return ⟨header, o.dag, o.txs, o.additionalData⟩

def next : ℕ := heap.blocks.length

def alloc (b : Block) : Heap :=
  ⟨heap.headers ++ [b.header],
    heap.blocks ++ [⟨heap.headers.length, b.dag, b.txs, b.additionalData⟩]⟩

def share (r : ℕ) (dag : Option DAG) (txs : List Transaction)
    (additionalData : Option AdditionalData) : Heap :=
  match heap.blocks[r]? with
  | none => heap
  | some o => { heap with blocks := heap.blocks ++ [⟨o.header, dag, txs, additionalData⟩] }

def modifyHeader (r : ℕ) (f : BlockHeader → BlockHeader) : Heap :=
  match heap.blocks[r]? with
  | none => heap
  | some o => { heap with headers := heap.headers.modify o.header f }

def setAdditionalData (r : ℕ) (additionalData : Option AdditionalData) : Heap :=
  { heap with blocks := heap.blocks.modify r fun o => { o with additionalData := additionalData } }

def assign (r source : ℕ) : Heap :=
  match heap.blocks[source]? with
  | none => heap
  | some o =>
    { heap with
      blocks := heap.blocks.modify r fun t =>
        { t with header := o.header, additionalData := o.additionalData } }

variable {heap} {r : ℕ} {b : Block}

lemma get_eq_some_iff : heap.get r = some b ↔
    ∃ o, heap.blocks[r]? = some o ∧ heap.headers[o.header]? = some b.header ∧
      b.dag = o.dag ∧ b.txs = o.txs ∧ b.additionalData = o.additionalData := by
  simp only [get, Option.bind_eq_bind, Option.bind_eq_some_iff, Option.pure_def, Option.some.injEq]
  constructor
  · rintro ⟨o, ho, header, hheader, rfl⟩
    exact ⟨o, ho, hheader, rfl, rfl, rfl⟩
  · rintro ⟨o, ho, hheader, hdag, htxs, hdata⟩
    refine ⟨o, ho, b.header, hheader, ?_⟩
    rw [← hdag, ← htxs, ← hdata]

private theorem getElem?_append_some {α : Type} {l : List α} {i : ℕ} {a : α} (h : l[i]? = some a)
    (l' : List α) : (l ++ l')[i]? = some a := by
  rw [List.getElem?_append_left (List.getElem?_eq_some_iff.mp h).1, h]

lemma get_alloc (b' : Block) (h : heap.get r = some b) : (heap.alloc b').get r = some b := by
  obtain ⟨o, ho, hheader, hrest⟩ := get_eq_some_iff.mp h
  exact get_eq_some_iff.mpr ⟨o, getElem?_append_some ho _, getElem?_append_some hheader _, hrest⟩

lemma get_alloc_next (b : Block) : (heap.alloc b).get heap.next = some b := by
  refine get_eq_some_iff.mpr ⟨_, getElem?_concat_length, ?_, rfl, rfl, rfl⟩
  exact getElem?_concat_length

lemma get_share {r' : ℕ}
    (h : heap.get r = some b) : (heap.share r' dag txs data).get r = some b := by
  unfold share
  split
  · exact h
  obtain ⟨o, ho, hrest⟩ := get_eq_some_iff.mp h
  exact get_eq_some_iff.mpr ⟨o, getElem?_append_some ho _, hrest⟩

lemma get_share_next (h : heap.get r = some b) :
    (heap.share r dag txs data).get heap.next = some ⟨b.header, dag, txs, data⟩ := by
  obtain ⟨o, ho, hheader, -⟩ := get_eq_some_iff.mp h
  unfold share
  rw [ho]
  exact get_eq_some_iff.mpr ⟨_, getElem?_concat_length, hheader, rfl, rfl, rfl⟩

lemma get_setAdditionalData {r' : ℕ} (r : ℕ) (data : Option AdditionalData)
    (hget : heap.get r' = some b) :
    ∃ b', (heap.setAdditionalData r data).get r' = some b' ∧ b'.header = b.header ∧ b'.txs = b.txs ∧
      b'.dag = b.dag := by
  obtain ⟨o, ho, hheader, hdag, htxs, hdata⟩ := get_eq_some_iff.mp hget
  have hblock : (heap.setAdditionalData r data).blocks[r']? =
      some (if r = r' then { o with additionalData := data } else o) := by
    unfold setAdditionalData
    rw [List.getElem?_modify, ho]
    rfl
  refine ⟨⟨b.header, b.dag, b.txs, if r = r' then data else o.additionalData⟩,
    get_eq_some_iff.mpr ⟨_, hblock, ?_⟩, rfl, rfl, rfl⟩
  split
  · exact ⟨hheader, hdag, htxs, rfl⟩
  · exact ⟨hheader, hdag, htxs, rfl⟩

lemma get_assign {source : ℕ} {b' : Block} (h : heap.get r = some b)
    (h' : heap.get source = some b') : (heap.assign r source).get r =
      some { b with header := b'.header, additionalData := b'.additionalData } := by
  obtain ⟨o, ho, -, hdag, htxs, -⟩ := get_eq_some_iff.mp h
  obtain ⟨o', ho', hheader', -, -, hdata'⟩ := get_eq_some_iff.mp h'
  unfold assign
  rw [ho']
  refine get_eq_some_iff.mpr
    ⟨{ o with header := o'.header, additionalData := o'.additionalData }, ?_,
    hheader', hdag, htxs, hdata'⟩
  rw [getElem?_modify_eq, ho]
  rfl

end Heap
end ChainMaker.Core
