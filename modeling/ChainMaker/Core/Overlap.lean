import ChainMaker.Core.LedgerHeight
import ChainMaker.Core.Soundness

/-! `VerifyBlock` and `AddBlock` on one node, with the transaction pool as a set of transactions. A
call of `VerifyBlock` checks its block and caches it later; in between, and between any two steps of
`AddBlock`, the other calls go on. -/

namespace ChainMaker.Core
open ChainMaker.Snapshot (TxRWSet)

def Block.txIds (block : Block) : List Bytes := block.txs.filterMap Transaction.txId

namespace CoreEngine
variable {φ : Type} [DecidableEq φ] {env : Env φ} {sv : Services φ} {c c' : CoreEngine φ} {r : ℕ}
  {block : Block} {mode : VerifyMode}

structure Trims (c c' : CoreEngine φ) : Prop extends Grows c c' where
  proposalCache : c'.proposalCache.Within c.proposalCache

lemma Cuts.trims (h : Cuts c c') : Trims c c' :=
  ⟨{ h with get := fun _ _ hget => h.heap ▸ hget }, h.proposalCache⟩

lemma checkNew_trims (hblock : c.heap.get r = some block) :
    Trims c (c.checkNew env sv r block mode).2 ∧
    ∀ v, (c.checkNew env sv r block mode).1 = .ok v → ∃ heap,
      c.recoverBlock env sv r block mode = .ok (v.1.block, v.2, heap) ∧
      validateBlock env sv v.2 = .ok (v.1.rwSetMap, v.1.events) ∧
      (c.checkNew env sv r block mode).2.heap.get v.1.block = some v.2 := by
  obtain ⟨hspec, -⟩ : ChecksNew env sv c r block mode _ (c.checkNew env sv r block mode).2 ∧ _ :=
    checkNew_spec
  generalize c.checkNew env sv r block mode = checked at hspec ⊢
  obtain ⟨res, c'⟩ := checked
  have htrims (heap : Heap) (log : Log) (h : Cuts { c with heap, log } c')
      (hget : ∀ r₀ b₀, c.heap.get r₀ = some b₀ → heap.get r₀ = some b₀) : Trims c c' :=
    { h with get := fun r₀ b₀ h₀ => (congrArg (Heap.get · r₀) h.heap).trans (hget r₀ b₀ h₀) }
  cases hspec with
  | refused e hheap h =>
    refine ⟨htrims _ c.log h ?_, fun v hv => ?_⟩
    · obtain rfl | ⟨r', block', hrecover⟩ := hheap
      · exact fun _ _ h₀ => h₀
      · exact (recoverBlock_spec hrecover).1
    · cases hv
  | checked certified hrecover hvalid hcertified hres h =>
    obtain ⟨hget, hself⟩ := recoverBlock_spec hrecover
    refine ⟨htrims _ _ h hget, fun v hv => ?_⟩
    obtain rfl | ⟨rfl, -⟩ := hres
    · cases hv
    · cases hv
      exact ⟨_, hrecover, hvalid, (congrArg (Heap.get · _) h.heap).trans (hself hblock).1⟩

end CoreEngine

/-! ### The node -/

def Call.toPut (call : Call) : Option ℕ :=
  match call.stage with
  | .put p => some p.block
  | _ => none

def Call.stored (call : Call) : Option UInt64 :=
  match call.stage with
  | .notify _ _ _ _ => some call.height
  | _ => none

def Call.verifies (call : Call) : Bool :=
  match call.stage with
  | .verify => true
  | _ => false

def Committer.storedHeight {φ : Type} (s : Committer φ) : Option UInt64 :=
  (s.holder.bind Call.stored).or s.engine.currentHeight

structure Node (φ : Type) where
  committer : Committer φ
  pool : GoMap Bytes Transaction
  verifying : List Verification

inductive Move (φ : Type) where
  | receive (block : Block)
  | addTx (tx : Transaction)
  | checkNew (sv : Services φ) (r : ℕ) (mode : VerifyMode)
  | checkRepeat (sv : Services φ) (r : ℕ) (mode : VerifyMode)
  | cacheBlock (sv : Services φ) (k : ℕ)
  | addBlock (caller : Caller) (r : ℕ)
  | next (sv : Services φ) (cs : CommitServices)
  | verified (res : Except CoreError Unit)

def poolAfter (pool : GoMap Bytes Transaction) : List Output → GoMap Bytes Transaction
  | [] => pool
  | .retryAndRemoveTxs retry remove :: outputs =>
    let added := (retry.filterMap fun tx => tx.txId.map (·, tx)).foldl
      (fun pool entry => pool.insert entry.1 entry.2) (poolAfter pool outputs)
    (remove.filterMap Transaction.txId).foldl (fun pool txId => pool.erase txId) added
  | _ :: outputs => poolAfter pool outputs

namespace Node
variable {φ : Type} [DecidableEq φ] (env : Env φ) (n : Node φ)

def engine : CoreEngine φ := n.committer.engine

def start (lastBlock : Block) (rwSets : List TxRWSet) (older : List (Block × List TxRWSet))
    (pool : GoMap Bytes Transaction) : Node φ :=
  ⟨.start { CoreEngine.start lastBlock with store := (lastBlock, rwSets) :: older }, pool, []⟩

def storedIds : List Bytes := n.engine.store.flatMap (·.1.txIds)

def services (sv : Services φ) : Services φ :=
  { sv with
    getTxsByTxIds := fun txIds => (n.pool.restrict txIds, (sv.getTxsByTxIds txIds).2)
    txExists := fun txId => (sv.txExists txId).map fun _ => n.storedIds.contains txId }

def withCommitter (s : Committer φ) : Node φ :=
  { n with
    committer := s
    pool := poolAfter n.pool
      (s.engine.outputs.take (s.engine.outputs.length - n.engine.outputs.length)) }

def withEngine (c : CoreEngine φ) : Node φ := n.withCommitter { n.committer with engine := c }

def refuses (block : Block) : Bool :=
  env.isEmptyBlock block ||
    n.verifying.any fun v => n.engine.heap.blockHash v.block = block.header.blockHash.getD []

def step (m : Move φ) : Option (Node φ) :=
  match m with
  | .receive block => (n.committer.step env (.receive block)).map n.withCommitter
  | .addTx tx =>
    tx.txId.bind fun txId =>
      if n.storedIds.contains txId then none else some { n with pool := n.pool.insert txId tx }
  | .checkNew sv r mode =>
    (n.engine.heap.get r).map fun block =>
      if n.refuses env block then n
      else
        let checked := n.engine.checkNew env (n.services sv) r block mode
        { n.withEngine checked.2 with
          verifying := (checked.1.toOption.map (·.1)).toList ++ n.verifying }
  | .checkRepeat sv r mode =>
    (n.engine.heap.get r).bind fun block =>
      if n.refuses env block then some n
      else if env.notSolo || env.enableSqlSupport then
        (n.engine.getProposedBlock env block.header).map fun p =>
          let checked := n.engine.checkRepeat env (n.services sv) r block p mode
          { n.withEngine checked.2 with verifying := checked.1.toOption.join.toList ++ n.verifying }
      else none
  | .cacheBlock sv k =>
    n.verifying[k]?.bind fun v =>
      (n.engine.heap.get v.block).map fun block =>
        { n.withEngine (n.engine.cacheBlock env sv v block).2 with
          verifying := n.verifying.eraseIdx k }
  | .addBlock caller r => (n.committer.step env (.call caller r)).map n.withCommitter
  | .next sv cs =>
    if n.committer.holder.any Call.verifies then none
    else (n.committer.step env (.next sv cs)).map n.withCommitter
  | .verified res =>
    (n.committer.holder.filter Call.verifies).map fun call =>
      n.withCommitter <|
        match res with
        | .error e => n.committer.finish call n.engine (.error e)
        | .ok () => n.committer.goTo call n.engine .lookAgain

end Node
end ChainMaker.Core
