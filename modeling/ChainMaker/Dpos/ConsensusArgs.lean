import ChainMaker.Basic

/-! The writes that a block at the end of an epoch carries in its header (`dpos_impl.go`,
`contract_info.go`): the balances after the unbonding, read from the sets of the block's
transactions before the state, and those of the new epoch. -/

namespace ChainMaker.Dpos
open List

inductive Failure
  | error
  | panic
deriving DecidableEq

structure TxWrite where
  contractName : String
  key : Bytes
  value : Bytes

abbrev RwSets := GoMap Bytes (List TxWrite)

structure Epoch where
  epochId : ℕ
  nextEpochCreateHeight : ℕ

structure UnbondingDelegation where
  delegatorAddress : String
  amounts : List String

/-- What the contract reads of the state before the block, and how it writes numbers. The election
of the next epoch is not about the block's transactions. -/
structure DPoSImpl where
  readObject : String → Bytes → Option Bytes
  getEpochInfo : Option Epoch
  getUnboundingEntries : Epoch → Option (List UnbondingDelegation)
  newEpochWrites : ℕ → Epoch → Bytes → Except Failure (List TxWrite)
  balanceKey : String → Bytes
  stakeContractAddr : String
  setString : String → Option ℤ
  readNumber : Bytes → Option ℤ
  writeNumber : ℤ → Bytes
  marshalArgs : List TxWrite → Bytes

namespace DPoSImpl
variable (impl : DPoSImpl)

def orError {α : Type} : Option α → Except Failure α
  | none => .error .error
  | some a => .ok a

/-- The last transaction first. The set of a transaction without one is a nil pointer. -/
def findWrite (contractName : String) (key : Bytes) (rwSets : RwSets) :
    List Bytes → Except Failure (Option Bytes)
  | [] => .ok none
  | txId :: txIds =>
    match rwSets.lookup txId with
    | none => .error .panic
    | some writes =>
      match writes.find? fun w => w.contractName = contractName ∧ w.key = key with
      | some w => .ok (some w.value)
      | none => findWrite contractName key rwSets txIds

def getState (contractName : String) (key : Bytes) (txIds : List Bytes) (rwSets : RwSets) :
    Except Failure Bytes :=
  findWrite contractName key rwSets txIds.reverse >>= fun
    | some value => .ok value
    | none => orError (impl.readObject contractName key)

def balanceOf (addr : String) (txIds : List Bytes) (rwSets : RwSets) : Except Failure ℤ :=
  impl.getState "DPOS_ERC20" (impl.balanceKey addr) txIds rwSets >>= fun value =>
    if value = [] then .ok 0 else orError (impl.readNumber value)

structure Unbounding where
  balances : GoMap String ℤ
  writes : List TxWrite

def Unbounding.balance (s : Unbounding) (addr : String) (txIds : List Bytes) (rwSets : RwSets) :
    Except Failure ℤ :=
  match s.balances.lookup addr with
  | some balance => .ok balance
  | none => impl.balanceOf addr txIds rwSets

def Unbounding.put (s : Unbounding) (addr : String) (balance : ℤ) : Unbounding :=
  ⟨s.balances.insert addr balance,
    s.writes ++ [⟨"DPOS_ERC20", impl.balanceKey addr, impl.writeNumber balance⟩]⟩

def unboundEntry (addr : String) (txIds : List Bytes) (rwSets : RwSets) (s : Unbounding)
    (amount : String) : Except Failure Unbounding := do
  let balance ← s.balance impl addr txIds rwSets
  let amount ← orError (impl.setString amount)
  let s := s.put impl addr (amount + balance)
  let balance ← s.balance impl impl.stakeContractAddr txIds rwSets
  if balance < amount then .error .error
  else return s.put impl impl.stakeContractAddr (balance - amount)

def createUnboundingRwSet (undelegations : List UnbondingDelegation) (txIds : List Bytes)
    (rwSets : RwSets) : Except Failure Unbounding :=
  undelegations.foldlM (fun s u =>
    u.amounts.foldlM (impl.unboundEntry u.delegatorAddress txIds rwSets) s) ⟨∅, []⟩

def createDPoSRWSet (blockHeight : ℕ) (preBlkHash : Bytes) (txIds : List Bytes) (rwSets : RwSets) :
    Except Failure (Option (List TxWrite)) := do
  let epoch ← orError impl.getEpochInfo
  if epoch.nextEpochCreateHeight ≠ blockHeight then return none
  else
    let undelegations ← orError (impl.getUnboundingEntries epoch)
    let unbounding ← impl.createUnboundingRwSet undelegations txIds rwSets
    let newEpoch ← impl.newEpochWrites blockHeight epoch preBlkHash
    return some (unbounding.writes ++ newEpoch)

/-- The block ends the epoch, it has transactions, and a delegation is paid back. -/
def NeedsRwSets (blockHeight : ℕ) (txIds : List Bytes) : Prop :=
  txIds ≠ [] ∧ ∃ epoch ∈ impl.getEpochInfo, epoch.nextEpochCreateHeight = blockHeight ∧
    ∃ undelegations ∈ impl.getUnboundingEntries epoch, ∃ u ∈ undelegations, u.amounts ≠ []

variable {impl} {txIds : List Bytes} {undelegations : List UnbondingDelegation}

lemma createUnboundingRwSet_panics (htxs : txIds ≠ []) {u : UnbondingDelegation}
    (hu : u ∈ undelegations) (hamounts : u.amounts ≠ []) :
    impl.createUnboundingRwSet undelegations txIds ∅ = .error .panic := by
  -- nothing is paid before the first amount, and paying it asks for a balance
  have hentry : ∀ addr amount, impl.unboundEntry addr txIds ∅ ⟨∅, []⟩ amount = .error .panic := by
    intro addr amount
    obtain ⟨txId, rest, hrest⟩ := exists_cons_of_ne_nil (mt reverse_eq_nil_iff.mp htxs)
    simp only [unboundEntry, Unbounding.balance, AList.lookup_empty, balanceOf, getState,
      hrest, findWrite]
    rfl
  unfold createUnboundingRwSet
  induction undelegations with
  | nil => cases hu
  | cons v vs ih =>
    rw [foldlM_cons]
    cases hv : v.amounts with
    | cons amount amounts =>
      rw [foldlM_cons, hentry]
      rfl
    | nil =>
      rcases mem_cons.mp hu with rfl | hu
      · exact absurd hv hamounts
      · exact ih hu

lemma createUnboundingRwSet_none (h : ∀ u ∈ undelegations, u.amounts = []) (rwSets : RwSets) :
    impl.createUnboundingRwSet undelegations txIds rwSets = .ok ⟨∅, []⟩ := by
  unfold createUnboundingRwSet
  induction undelegations with
  | nil => rfl
  | cons u us ih =>
    obtain ⟨hu, hus⟩ := forall_mem_cons.mp h
    rw [foldlM_cons, hu]
    exact ih hus

lemma createDPoSRWSet_empty {blockHeight : ℕ} {preBlkHash : Bytes} {rwSets : RwSets}
    {writes : Option (List TxWrite)}
    (h : impl.createDPoSRWSet blockHeight preBlkHash txIds rwSets = .ok writes) :
    (impl.NeedsRwSets blockHeight txIds →
        impl.createDPoSRWSet blockHeight preBlkHash txIds ∅ = .error .panic) ∧
      (¬impl.NeedsRwSets blockHeight txIds →
        impl.createDPoSRWSet blockHeight preBlkHash txIds ∅ = .ok writes) := by
  unfold createDPoSRWSet NeedsRwSets at *
  cases hepoch : impl.getEpochInfo with
  | none =>
    rw [hepoch] at h
    cases h
  | some epoch =>
    rw [hepoch] at h
    simp only [orError, bind, Except.bind, Option.mem_some_iff, exists_eq_left'] at h ⊢
    split_ifs at h ⊢ with hheight
    · exact ⟨fun hneeds => absurd hneeds.2.1 hheight, fun _ => h⟩
    cases hentries : impl.getUnboundingEntries epoch with
    | none =>
      rw [hentries] at h
      cases h
    | some undelegations =>
      rw [hentries] at h
      simp only [Option.mem_some_iff, exists_eq_left', not_not.mp hheight, true_and] at h ⊢
      refine ⟨fun hneeds => ?_, fun hneeds => ?_⟩
      · obtain ⟨htxs, u, hu, hamounts⟩ := hneeds
        rw [createUnboundingRwSet_panics htxs hu hamounts]
      rw [← h]
      by_cases htxs : txIds = []
      · subst htxs
        rfl
      have hnone : ∀ u ∈ undelegations, u.amounts = [] := by
        intro u hu
        by_contra hamounts
        exact hneeds ⟨htxs, u, hu, hamounts⟩
      rw [createUnboundingRwSet_none hnone, createUnboundingRwSet_none hnone]

end DPoSImpl
end ChainMaker.Dpos
