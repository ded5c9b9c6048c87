import ChainMaker.Dpos.ConsensusArgs
import ChainMaker.Lib.WriteLog

/-! The state that the writes of an epoch's last block leave, over what its transactions leave. -/

namespace ChainMaker.Dpos
open List WriteLog Option

abbrev State := String × Bytes → Option Bytes

def TxWrite.place (w : TxWrite) : String × Bytes := (w.contractName, w.key)

def applyWrites (state : State) (writes : List TxWrite) : State :=
  overlay state (writes.map fun w => (w.place, some w.value))

lemma applyWrites_append (state : State) (ws ws' : List TxWrite) :
    applyWrites state (ws ++ ws') = applyWrites (applyWrites state ws) ws' := by
  rw [applyWrites, map_append]
  exact overlay_append _ _ _

lemma applyWrites_singleton (state : State) (w : TxWrite) :
    applyWrites state [w] = Function.update state w.place (some w.value) := rfl

lemma applyWrites_of_mem {state : State} {ws : List TxWrite} (hone : (ws.map TxWrite.place).Nodup)
    {w : TxWrite} (hw : w ∈ ws) : applyWrites state ws w.place = some w.value := by
  induction ws using reverseRecOn with
  | nil => cases hw
  | append_singleton ws v ih =>
    rw [applyWrites_append, applyWrites_singleton]
    rw [map_append, nodup_append] at hone
    obtain hw | hw := mem_append.mp hw
    · rw [Function.update_of_ne (hone.2.2 _ (mem_map_of_mem hw) _ mem_cons_self), ih hone.1 hw]
    · rw [mem_singleton.mp hw, Function.update_self]

namespace DPoSImpl
variable {impl : DPoSImpl} {txIds : List Bytes} {rwSets : RwSets}

def ledger (impl : DPoSImpl) : State := fun p => impl.readObject p.1 p.2

def stateAfterTxs (impl : DPoSImpl) (txIds : List Bytes) (rwSets : RwSets) : State :=
  applyWrites impl.ledger
    (txIds.flatMap fun txId => (rwSets.lookup txId).getD [])

def OneWritePerKey (txIds : List Bytes) (rwSets : RwSets) : Prop :=
  ∀ txId ∈ txIds, ∀ writes ∈ rwSets.lookup txId, (writes.map TxWrite.place).Nodup

lemma orError_ok {α : Type} {o : Option α} {a : α} : orError o = .ok a ↔ o = some a := by
  cases o <;> simp [orError]

lemma stateAfterTxs_of_getState (hone : OneWritePerKey txIds rwSets) {contractName : String}
    {key value : Bytes} (h : impl.getState contractName key txIds rwSets = .ok value) :
    impl.stateAfterTxs txIds rwSets (contractName, key) = some value := by
  unfold getState at h
  unfold stateAfterTxs
  -- the search goes from the last transaction to the first
  induction txIds using reverseRecOn with
  | nil => exact orError_ok.mp h
  | append_singleton txIds txId ih =>
    rw [OneWritePerKey, forall_mem_append, forall_mem_singleton] at hone
    rw [reverse_append, reverse_singleton, singleton_append, findWrite] at h
    rw [flatMap_append, flatMap_singleton, applyWrites_append]
    cases hset : rwSets.lookup txId with
    | none =>
      rw [hset] at h
      cases h
    | some writes =>
      simp only [hset] at h
      split at h
      · next w hw =>
        cases h
        have hplace := find?_some hw
        obtain ⟨rfl, rfl⟩ := of_decide_eq_true hplace
        exact applyWrites_of_mem (hone.2 writes hset) (mem_of_find?_eq_some hw)
      · next hnone =>
        rw [getD_some, applyWrites, overlay_of_forall_ne, ih hone.1 h]
        refine forall_mem_map.mpr fun w hw hplace => find?_eq_none.mp hnone w hw ?_
        exact decide_eq_true (Prod.ext_iff.mp hplace)

/-! ### Unbonding -/

def balanceAt (impl : DPoSImpl) (state : State) (addr : String) : Option ℤ :=
  (state ("DPOS_ERC20", impl.balanceKey addr)).bind fun value =>
    if value = [] then some 0 else impl.readNumber value

/-- Addresses have keys of their own, and a number is read back from its text. -/
structure Lawful (impl : DPoSImpl) : Prop where
  balanceKey : Function.Injective impl.balanceKey
  readNumber : ∀ n, impl.writeNumber n ≠ [] ∧ impl.readNumber (impl.writeNumber n) = some n

def entries (undelegations : List UnbondingDelegation) : List (String × String) :=
  undelegations.flatMap fun u => u.amounts.map (u.delegatorAddress, ·)

def total (impl : DPoSImpl) (entries : List (String × String)) : ℤ :=
  (entries.map fun e => (impl.setString e.2).getD 0).sum

def owed (impl : DPoSImpl) (entries : List (String × String)) (addr : String) : ℤ :=
  (entries.map fun e => if e.1 = addr then (impl.setString e.2).getD 0 else 0).sum

/-- The entries are paid by the stake contract, which can, and to no one else. -/
structure Settles (impl : DPoSImpl) (es : List (String × String)) (before : State)
    (writes : List TxWrite) : Prop where
  balances : ∀ addr ≠ impl.stakeContractAddr, impl.balanceAt (applyWrites before writes) addr =
    (impl.balanceAt before addr).map (· + impl.owed es addr)
  stake : impl.balanceAt (applyWrites before writes) impl.stakeContractAddr =
    (impl.balanceAt before impl.stakeContractAddr).map (· - impl.total es)
  nonneg : writes = [] ∨
    ∃ b ≥ 0, impl.balanceAt (applyWrites before writes) impl.stakeContractAddr = some b
  places : ∀ w ∈ writes, ∃ addr ∈ impl.stakeContractAddr :: es.map Prod.fst,
    w.place = ("DPOS_ERC20", impl.balanceKey addr)

def Unbounding.Known (impl : DPoSImpl) (txIds : List Bytes) (rwSets : RwSets) (s : Unbounding) :
    Prop :=
  ∀ addr b, s.balance impl addr txIds rwSets = .ok b →
    impl.balanceAt (applyWrites (impl.stateAfterTxs txIds rwSets) s.writes) addr = some b

lemma known_nil (hone : OneWritePerKey txIds rwSets) :
    (⟨∅, []⟩ : Unbounding).Known impl txIds rwSets := by
  intro addr b hb
  obtain ⟨value, hvalue, hb⟩ := bind_ok.mp hb
  have hstate : applyWrites (impl.stateAfterTxs txIds rwSets) [] _ = _ :=
    stateAfterTxs_of_getState hone hvalue
  rw [balanceAt, hstate, bind_some]
  split_ifs at hb ⊢
  · cases hb
    rfl
  · exact orError_ok.mp hb

lemma balanceAt_put (himpl : impl.Lawful) (state : State) (s : Unbounding) (addr : String) (b : ℤ)
    (a : String) : impl.balanceAt (applyWrites state (s.put impl addr b).writes) a =
      if a = addr then some b else impl.balanceAt (applyWrites state s.writes) a := by
  unfold balanceAt
  rw [Unbounding.put, applyWrites_append, applyWrites_singleton]
  split_ifs with ha
  · rw [ha, TxWrite.place, Function.update_self, bind_some, if_neg (himpl.readNumber b).1,
      (himpl.readNumber b).2]
  · rw [Function.update_of_ne fun h => ha (himpl.balanceKey (congrArg Prod.snd h))]

lemma Unbounding.Known.put (himpl : impl.Lawful) {s : Unbounding} (hs : s.Known impl txIds rwSets)
    (addr : String) (b : ℤ) : (s.put impl addr b).Known impl txIds rwSets := by
  intro a x hx
  unfold Unbounding.balance Unbounding.put at hx
  rw [GoMap.lookup_insert_ite] at hx
  rw [balanceAt_put himpl]
  split_ifs at hx ⊢
  · cases hx
    rfl
  · exact hs a x hx

lemma unboundEntry_settles (himpl : impl.Lawful) {es : List (String × String)} {s s' : Unbounding}
    (hknown : s.Known impl txIds rwSets)
    (hs : impl.Settles es (impl.stateAfterTxs txIds rwSets) s.writes) {e : String × String}
    (he : e.1 ≠ impl.stakeContractAddr) (h : impl.unboundEntry e.1 txIds rwSets s e.2 = .ok s') :
    s'.Known impl txIds rwSets ∧
      impl.Settles (es ++ [e]) (impl.stateAfterTxs txIds rwSets) s'.writes := by
  obtain ⟨b, hb, h⟩ := bind_ok.mp h
  obtain ⟨n, hn, h⟩ := bind_ok.mp h
  obtain ⟨c, hc, h⟩ := bind_ok.mp h
  have hput := hknown.put himpl e.1 (n + b)
  split_ifs at h with hlt
  cases h
  have hb := hknown _ _ hb
  have hc := hput _ _ hc
  rw [balanceAt_put himpl, if_neg he.symm, hs.stake] at hc
  refine ⟨hput.put himpl _ _, fun addr haddr => ?_, ?_, .inr ⟨c - n, by omega, ?_⟩, fun w hw => ?_⟩
  · rw [balanceAt_put himpl, balanceAt_put himpl, if_neg haddr, hs.balances addr haddr]
    split_ifs with heq
    · subst heq
      obtain ⟨x, hx, rfl⟩ := map_eq_some_iff.mp ((hs.balances _ haddr).symm.trans hb)
      simp [hx, owed, orError_ok.mp hn]
      omega
    · simp [owed, Ne.symm heq]
  · obtain ⟨x, hx, rfl⟩ := map_eq_some_iff.mp hc
    rw [balanceAt_put himpl, if_pos rfl, hx]
    simp [total, orError_ok.mp hn, sub_sub]
  · rw [balanceAt_put himpl, if_pos rfl]
  · simp only [Unbounding.put, mem_append, mem_singleton] at hw
    rw [map_append, ← cons_append]
    obtain (hw | rfl) | rfl := hw
    · obtain ⟨addr, haddr, hplace⟩ := hs.places w hw
      exact ⟨addr, mem_append_left _ haddr, hplace⟩
    · exact ⟨e.1, mem_append_right _ (mem_singleton_self _), rfl⟩
    · exact ⟨_, mem_cons_self, rfl⟩

lemma createUnboundingRwSet_eq (undelegations : List UnbondingDelegation) :
    impl.createUnboundingRwSet undelegations txIds rwSets = (entries undelegations).foldlM
      (fun s e => impl.unboundEntry e.1 txIds rwSets s e.2) ⟨∅, []⟩ := by
  unfold createUnboundingRwSet
  generalize (⟨∅, []⟩ : Unbounding) = s
  induction undelegations generalizing s with
  | nil => rfl
  | cons u us ih =>
    rw [entries, flatMap_cons, foldlM_append, foldlM_cons, foldlM_map]
    exact bind_congr fun s => ih s

theorem createUnboundingRwSet_settles (impl : DPoSImpl) (himpl : impl.Lawful)
    (undelegations : List UnbondingDelegation) (txIds : List Bytes) (rwSets : RwSets)
    (hdelegators : ∀ e ∈ entries undelegations, e.1 ≠ impl.stakeContractAddr)
    (hone : OneWritePerKey txIds rwSets) (s : Unbounding)
    (h : impl.createUnboundingRwSet undelegations txIds rwSets = .ok s) :
    impl.Settles (entries undelegations) (impl.stateAfterTxs txIds rwSets) s.writes := by
  rw [createUnboundingRwSet_eq] at h
  refine (foldlM_ok_read (P := fun es s => (∀ e ∈ es, e.1 ≠ impl.stakeContractAddr) →
    s.Known impl txIds rwSets ∧ impl.Settles es (impl.stateAfterTxs txIds rwSets) s.writes)
    ?_ ?_ h hdelegators).2
  · intro es s e s' hs hstep hes
    rw [forall_mem_append, forall_mem_singleton] at hes
    obtain ⟨hknown, hs⟩ := hs hes.1
    exact unboundEntry_settles himpl hknown hs hes.2 hstep
  · refine fun _ => ⟨known_nil hone, fun addr _ => ?_, ?_, .inl rfl, forall_mem_nil _⟩
    all_goals simp [owed, total, applyWrites]

def boundary (ledger : Bytes → Bytes) : DPoSImpl where
  readObject := fun _ key => some (ledger key)
  getEpochInfo := some ⟨1, 7⟩
  getUnboundingEntries := fun _ => some []
  newEpochWrites := fun _ _ _ => .ok []
  balanceKey := fun addr => addr.toUTF8.data.toList
  stakeContractAddr := "stake"
  setString := fun text => if text = "3" then some 3 else none
  readNumber
    | 1 :: text => some text.length
    | 2 :: text => some (.negSucc text.length)
    | _ => none
  writeNumber
    | .ofNat n => 1 :: replicate n 0
    | .negSucc n => 2 :: replicate n 0
  marshalArgs := flatMap (·.value)

lemma lawful_boundary (ledger : Bytes → Bytes) : (boundary ledger).Lawful := by
  refine ⟨fun a b h => String.toByteArray_inj.mp (ByteArray.ext (Array.toList_inj.mp ?_)), ?_⟩
  · simpa [boundary] using h
  · rintro (n | n) <;> simp [boundary]

theorem createUnboundingRwSet_settles_three :
    ∃ s, (boundary fun _ => [1, 0, 0, 0, 0]).createUnboundingRwSet [⟨"a", ["3"]⟩] [] ∅ = .ok s ∧
      (boundary fun _ => [1, 0, 0, 0, 0]).Settles [("a", "3")]
        ((boundary fun _ => [1, 0, 0, 0, 0]).stateAfterTxs [] ∅) s.writes :=
  ⟨_, rfl, createUnboundingRwSet_settles (boundary fun _ => [1, 0, 0, 0, 0]) (lawful_boundary _)
    [⟨"a", ["3"]⟩] [] ∅ (by decide) (forall_mem_nil _) _ rfl⟩

/-- Without an entry the balance of the stake contract is not looked at. -/
theorem createUnboundingRwSet_negative :
    ((boundary fun _ => [2]).createUnboundingRwSet [] [] ∅).map (fun s =>
      (boundary fun _ => [2]).balanceAt
      (applyWrites ((boundary fun _ => [2]).stateAfterTxs [] ∅) s.writes)
        (boundary fun _ => [2]).stakeContractAddr) = .ok (some (-1)) := by
  decide +kernel

/-! ### The chain configuration -/

structure OrgConfig where
  orgId : String
  nodeId : List String
deriving DecidableEq

/-- The nodes of `Consensus`, and everything else. A missing `Consensus` has no nodes: its first one
is looked up in vain in either case. -/
structure ChainConfig where
  nodes : List OrgConfig
  rest : Bytes
deriving DecidableEq

/-- What `createNewEpoch`, `createEpochRwSet` and `getNodeIDsFromValidators` take from the state
before the block: the writes of the new epoch, and the node ids of its validators, of which there is
one. -/
structure NewEpoch where
  epochWrites : ℕ → Epoch → Bytes → Except Failure (List TxWrite × List String)
  unmarshal : Bytes → Option ChainConfig
  marshal : ChainConfig → Option Bytes
  unmarshal_marshal : ∀ config bytes, marshal config = some bytes → bytes ≠ [] ∧
    unmarshal bytes = some config

def configPlace : String × Bytes := ("CHAIN_CONFIG", "CHAIN_CONFIG".toUTF8.toList)

namespace NewEpoch
variable (new : NewEpoch)

def getChainConfig (state : State) : Option ChainConfig :=
  (state configPlace).bind fun bytes => if bytes = [] then none else new.unmarshal bytes

def withNodes (config : ChainConfig) (nodeIDs : List String) : ChainConfig :=
  { config with nodes := config.nodes.set 0 ⟨"dpos_org_id", nodeIDs⟩ }

def createValidatorsRwSet (impl : DPoSImpl) (nodeIDs : List String) :
    Except Failure (List TxWrite) := do
  let config ← orError (new.getChainConfig impl.ledger)
  if config.nodes = [] then .error .panic
  else
    let payload ← orError (new.marshal (withNodes config nodeIDs))
    return [⟨configPlace.1, configPlace.2, payload⟩]

def of (impl : DPoSImpl) : DPoSImpl :=
  { impl with newEpochWrites := fun height epoch preBlkHash => do
      let (writes, nodeIDs) ← new.epochWrites height epoch preBlkHash
      return writes ++ (← new.createValidatorsRwSet impl nodeIDs) }

lemma withNodes_inj {before after : ChainConfig} {nodeIDs : List String}
    (hnodes : before.nodes ≠ []) :
    withNodes before nodeIDs = withNodes after nodeIDs ↔
      after.nodes ≠ [] ∧ before.nodes.tail = after.nodes.tail ∧ before.rest = after.rest := by
  obtain ⟨_ | ⟨node, nodes⟩, rest⟩ := before
  · exact absurd rfl hnodes
  obtain ⟨_ | ⟨node', nodes'⟩, rest'⟩ := after
  all_goals simp [withNodes]

/-- The block's transactions leave a configuration that differs from the ledger's in its first node
at most. -/
def TxsKeepConfig (impl : DPoSImpl) (txIds : List Bytes) (rwSets : RwSets) : Prop :=
  ∃ before ∈ new.getChainConfig impl.ledger,
    ∃ after ∈ new.getChainConfig (impl.stateAfterTxs txIds rwSets),
      after.nodes ≠ [] ∧ before.nodes.tail = after.nodes.tail ∧ before.rest = after.rest

theorem createDPoSRWSet_config_iff (new : NewEpoch) (impl : DPoSImpl) (height : ℕ)
    (preBlkHash : Bytes) (txIds : List Bytes) (rwSets : RwSets) (writes : List TxWrite)
    (h : (new.of impl).createDPoSRWSet height preBlkHash txIds rwSets = .ok (some writes)) :
    (∃ after ∈ new.getChainConfig (impl.stateAfterTxs txIds rwSets),
      ∀ epoch ∈ impl.getEpochInfo, ∀ epochWrites nodeIDs,
        new.epochWrites height epoch preBlkHash = .ok (epochWrites, nodeIDs) →
        new.getChainConfig (applyWrites (impl.stateAfterTxs txIds rwSets) writes) =
          some (withNodes after nodeIDs)) ↔ new.TxsKeepConfig impl txIds rwSets := by
  obtain ⟨epoch, hepoch, h⟩ := bind_ok.mp h
  split_ifs at h
  · cases h
  obtain ⟨undelegations, -, h⟩ := bind_ok.mp h
  obtain ⟨unbounding, -, h⟩ := bind_ok.mp h
  obtain ⟨newWrites, hnew, h⟩ := bind_ok.mp h
  cases h
  obtain ⟨⟨epochWrites, nodeIDs⟩, hwrites, hnew⟩ := bind_ok.mp hnew
  obtain ⟨rwSet, hrwSet, hnew⟩ := bind_ok.mp hnew
  cases hnew
  obtain ⟨before, hbefore, hrwSet⟩ := bind_ok.mp hrwSet
  split_ifs at hrwSet with hnodes
  obtain ⟨payload, hpayload, hrwSet⟩ := bind_ok.mp hrwSet
  cases hrwSet
  rw [orError_ok] at hepoch hbefore hpayload
  -- the configuration is the last write
  have hlast : new.getChainConfig (applyWrites (impl.stateAfterTxs txIds rwSets)
      (unbounding.writes ++ (epochWrites ++ [⟨configPlace.1, configPlace.2, payload⟩]))) =
      some (withNodes before nodeIDs) := by
    obtain ⟨hne, hread⟩ := new.unmarshal_marshal _ _ hpayload
    rw [← append_assoc, applyWrites_append, applyWrites_singleton, getChainConfig]
    rw [TxWrite.place, Function.update_self, bind_some, if_neg hne, hread]
  constructor
  · rintro ⟨after, hafter, hall⟩
    have heq := hlast.symm.trans (hall epoch hepoch epochWrites nodeIDs hwrites)
    exact ⟨before, hbefore, after, hafter, (withNodes_inj hnodes).mp (some.inj heq)⟩
  · rintro ⟨before', hbefore', after, hafter, hkept⟩
    cases hbefore.symm.trans hbefore'
    refine ⟨after, hafter, fun epoch' hepoch' epochWrites' nodeIDs' hwrites' => ?_⟩
    cases hepoch.symm.trans hepoch'
    cases hwrites.symm.trans hwrites'
    rw [hlast, (withNodes_inj hnodes).mpr hkept]

def oneNode (rest : Bytes) : ChainConfig := ⟨[⟨"dpos_org_id", ["n"]⟩], rest⟩

def oneValidator : NewEpoch where
  epochWrites := fun _ _ _ => .ok ([], ["n"])
  unmarshal := fun bytes => some (oneNode bytes)
  marshal := fun config => if config = oneNode config.rest ∧ config.rest ≠ [] then
    some config.rest else none
  unmarshal_marshal := by
    intro config bytes h
    split_ifs at h with hconfig
    cases h
    exact ⟨hconfig.2, congrArg some hconfig.1.symm⟩

theorem createDPoSRWSet_config_iff_noTxs : ∃ writes,
    (oneValidator.of (boundary fun _ => [1])).createDPoSRWSet 7 [] [] ∅ = .ok (some writes) ∧
    ∃ after ∈ oneValidator.getChainConfig ((boundary fun _ => [1]).stateAfterTxs [] ∅),
      ∀ epoch ∈ (boundary fun _ => [1]).getEpochInfo, ∀ epochWrites nodeIDs,
        oneValidator.epochWrites 7 epoch [] = .ok (epochWrites, nodeIDs) →
        oneValidator.getChainConfig
          (applyWrites ((boundary fun _ => [1]).stateAfterTxs [] ∅) writes) =
          some (withNodes after nodeIDs) :=
  ⟨_, rfl, (createDPoSRWSet_config_iff oneValidator (boundary fun _ => [1]) 7 [] [] ∅ _ rfl).mpr
    ⟨_, rfl, _, rfl, by decide, rfl, rfl⟩⟩

/-- A transaction of the block updates the configuration, and the update is lost. -/
theorem createDPoSRWSet_config_lost :
    let rwSets : RwSets := AList.insert [9] [⟨configPlace.1, configPlace.2, [2]⟩] ∅
    let state := (boundary fun _ => [1]).stateAfterTxs [[9]] rwSets
    oneValidator.getChainConfig state = some (oneNode [2]) ∧
    ((oneValidator.of (boundary fun _ => [1])).createDPoSRWSet 7 [] [[9]] rwSets).map
      (Option.map fun writes => oneValidator.getChainConfig (applyWrites state writes)) =
        .ok (some (some (oneNode [1]))) := by
  decide +kernel

end NewEpoch

end DPoSImpl
end ChainMaker.Dpos
