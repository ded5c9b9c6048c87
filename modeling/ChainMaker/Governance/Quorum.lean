import ChainMaker.Governance.Contract
import ChainMaker.Lib.Quorum

/-! Quorums of the governance contract. Creation and every block keep the invariant that the
validators are the members and that `MinQuorumForQc` is `(2N+1)/3`, at least 3. -/

namespace ChainMaker.Governance
open List GovernanceContract
variable {α : Type} {old : α → Option (GovernanceMember α)} {nid : α}

section NodeIds
variable [DecidableEq α]

lemma nodup_mem_foldl_distinct (l ids : List α) (h : ids.Nodup) :
    (l.foldl (fun ids nid => if nid ∈ ids then ids else ids ++ [nid]) ids).Nodup ∧
      ∀ x, x ∈ l.foldl (fun ids nid => if nid ∈ ids then ids else ids ++ [nid]) ids ↔
        x ∈ ids ∨ x ∈ l := by
  induction l generalizing ids with
  | nil => simpa using h
  | cons nid l ih =>
    simp only [foldl_cons]
    split
    · next hmem =>
      obtain ⟨hnd, hiff⟩ := ih ids h
      refine ⟨hnd, fun x => ?_⟩
      aesop
    · next hmem =>
      obtain ⟨hnd, hiff⟩ := ih (ids ++ [nid]) (by simpa [nodup_append] using ⟨h, by aesop⟩)
      refine ⟨hnd, fun x => ?_⟩
      rw [hiff]
      simp [or_assoc]

lemma nodup_distinctNodeIds (nodes : List (OrgConfig α)) : (distinctNodeIds nodes).Nodup :=
  (nodup_mem_foldl_distinct _ [] nodup_nil).1

lemma mem_distinctNodeIds {nodes : List (OrgConfig α)} :
    nid ∈ distinctNodeIds nodes ↔ ∃ node ∈ nodes, nid ∈ node.nodeId := by
  simp [distinctNodeIds, (nodup_mem_foldl_distinct _ [] nodup_nil).2]

lemma oldMembersMap_nodeId {members : List (GovernanceMember α)} {m : GovernanceMember α}
    (h : oldMembersMap members nid = some m) : m.nodeId = nid ∧ m ∈ members := by
  have := mem_of_getLast? h
  simpa [and_comm] using this

section
omit [DecidableEq α]

lemma indexMembers_map_nodeId (hold : ∀ nid m, old nid = some m → m.nodeId = nid) (index : ℤ)
    (nids : List α) : (indexMembers old index nids).2.map (·.nodeId) = nids := by
  induction nids generalizing index with
  | nil => rfl
  | cons nid nids ih =>
    rw [indexMembers]
    split
    · next m hm => simp [ih, hold nid m hm]
    · simp [ih]

lemma indexMembers_le (old : α → Option (GovernanceMember α)) (index : ℤ) (nids : List α) :
    index ≤ (indexMembers old index nids).1 := by
  induction nids generalizing index with
  | nil => exact le_rfl
  | cons nid nids ih =>
    rw [indexMembers]
    split
    · exact ih index
    · exact (by omega : index ≤ index + 1).trans (ih (index + 1))

lemma indexMembers_old_of_eq {index : ℤ}
    {nids : List α} (h : (indexMembers old index nids).1 = index) :
    ∀ nid ∈ nids, (old nid).isSome := by
  induction nids with
  | nil => simp
  | cons nid nids ih =>
    rw [indexMembers] at h
    split at h
    · next m hm => simpa [hm] using ih h
    have := indexMembers_le old (index + 1) nids
    dsimp only at h
    omega

end

end NodeIds

lemma sortMembers_perm (members : List (GovernanceMember α)) :
    (sortMembers members).Perm members := perm_insertionSort _ _

variable {g : GovernanceContract α}

lemma createValidators_of_le (h : g.members.length ≤ g.validatorNum) (seed : Bytes) :
    createValidators g seed = g.members := by
  simp [createValidators, h]

structure QuorumInv (g : GovernanceContract α) : Prop where
  nodup : (g.members.map (·.nodeId)).Nodup
  validators_eq : g.validators = g.members
  n_eq : g.n = g.members.length
  validatorNum_eq : g.validatorNum = g.members.length
  quorum_eq : g.minQuorumForQc = max 3 ((2 * g.members.length + 1) / 3)
  noNext : g.nextValidators = none
  noEpoch : g.blockNumPerEpoch = 0

lemma ite_constMinQuorum (q : ℕ) :
    (if q < ConstMinQuorumForQc then ConstMinQuorumForQc else q) = max 3 q := by
  unfold ConstMinQuorumForQc
  split <;> omega

variable [LinearOrder α] (marshal : GovernanceContract α → Bytes)

lemma sortedNodeIds_perm (nodes : List (OrgConfig α)) :
    (sortedNodeIds nodes).Perm (distinctNodeIds nodes) := perm_insertionSort _ _

lemma nodup_sortedNodeIds (nodes : List (OrgConfig α)) : (sortedNodeIds nodes).Nodup :=
  (sortedNodeIds_perm nodes).nodup_iff.mpr (nodup_distinctNodeIds nodes)

lemma getGovernanceContractFromConfig_ids (cfg : ChainConfig α) :
    ((getGovernanceContractFromConfig marshal cfg).members.map (·.nodeId)).Perm
      (sortedNodeIds cfg.consensus.nodes) := by
  have hids : (indexMembers (fun _ => none) 0 (sortedNodeIds cfg.consensus.nodes)).2.map
      (·.nodeId) = sortedNodeIds cfg.consensus.nodes := indexMembers_map_nodeId (by simp) _ _
  exact ((sortMembers_perm _).map _).trans (.of_eq hids)

lemma getGovernanceContractFromConfig_inv (cfg : ChainConfig α) :
    QuorumInv (getGovernanceContractFromConfig marshal cfg) := by
  have hnodup := (getGovernanceContractFromConfig_ids marshal cfg).nodup_iff.mpr
    (nodup_sortedNodeIds _)
  refine ⟨hnodup, ?_, ?_, rfl, ?_, rfl, rfl⟩
  · exact createValidators_of_le le_rfl _
  · simp [getGovernanceContractFromConfig, updateGovContractFromConfig]
  · simp [getGovernanceContractFromConfig, updateGovContractFromConfig, ite_constMinQuorum]

lemma updateGovContractByConfig_ids {cfg : ChainConfig α} (hseq : g.configSequence ≠ cfg.sequence) :
    ((updateGovContractByConfig marshal cfg g).2.members.map (·.nodeId)).Perm
      (sortedNodeIds cfg.consensus.nodes) := by
  have hold : ∀ nid m, oldMembersMap g.members nid = some m → m.nodeId = nid :=
    fun _ _ h => (oldMembersMap_nodeId h).1
  have hids := indexMembers_map_nodeId hold g.curMaxIndex (sortedNodeIds cfg.consensus.nodes)
  rw [updateGovContractByConfig, if_neg hseq]
  dsimp only
  split
  · exact ((sortMembers_perm _).map _).trans (.of_eq hids)
  next hsame =>
  -- No id is new and none is gone: the members are those of the configuration already.
  push Not at hsame
  obtain ⟨hindex, hlen, -⟩ := hsame
  have hsub : sortedNodeIds cfg.consensus.nodes ⊆ g.members.map (·.nodeId) := by
    intro nid hnid
    obtain ⟨m, hm⟩ := Option.isSome_iff_exists.mp (indexMembers_old_of_eq hindex nid hnid)
    obtain ⟨rfl, hmem⟩ := oldMembersMap_nodeId hm
    exact mem_map_of_mem hmem
  have hcard : (g.members.map (·.nodeId)).length ≤ (sortedNodeIds cfg.consensus.nodes).length := by
    rw [← hids, length_map, length_map]
    exact hlen.ge
  exact ((nodup_sortedNodeIds _).subperm hsub |>.perm_of_length_le hcard).symm

lemma updateGovContractByConfig_inv (cfg : ChainConfig α) (hg : QuorumInv g) : QuorumInv
    (updateGovContractByConfig marshal cfg g).2 := by
  by_cases hseq : g.configSequence = cfg.sequence
  · rwa [updateGovContractByConfig, if_pos hseq]
  have hnodup := (updateGovContractByConfig_ids marshal hseq).nodup_iff.mpr
    (nodup_sortedNodeIds _)
  rw [updateGovContractByConfig, if_neg hseq] at hnodup ⊢
  dsimp only at hnodup ⊢
  split at hnodup
  · next hchg =>
    rw [if_pos hchg]
    have hlen := (sortMembers_perm (indexMembers (oldMembersMap g.members) g.curMaxIndex
      (sortedNodeIds cfg.consensus.nodes)).2).length_eq
    refine ⟨hnodup, createValidators_of_le hlen.le _, hlen.symm, hlen.symm, ?_, rfl, hg.noEpoch⟩
    rw [ite_constMinQuorum, hlen]
  · next hsame =>
    rw [if_neg hsame]
    exact { hg with nodup := hnodup }

omit [LinearOrder α] in
lemma QuorumInv.of_eq_fields (hg : QuorumInv g) (height epoch : ℕ) : QuorumInv { g with
    nextSwitchHeight := height, epochId := epoch } :=
  { hg with }

omit [LinearOrder α] in
lemma checkEpochSwitch_eq (hg : QuorumInv g) (header : BlockHeader) (configChg : Bool) :
    checkEpochSwitch header configChg g = (false, g) := by
  cases configChg <;> simp [checkEpochSwitch, tryCreateNextValidators, hg.noEpoch]

lemma checkConfigChange_inv (header : BlockHeader) (chainConfig : Option (ChainConfig α))
    (hg : QuorumInv g) : QuorumInv (checkConfigChange marshal header chainConfig g).2 := by
  cases chainConfig with
  | none => exact hg
  | some cfg => exact (updateGovContractByConfig_inv marshal cfg hg).of_eq_fields _ _

lemma checkAndCreateGovernmentArgs_inv (header : BlockHeader) (chainConfig : Option (ChainConfig α))
    (hg : QuorumInv g) : QuorumInv (checkAndCreateGovernmentArgs marshal header chainConfig g) := by
  have hu := checkConfigChange_inv marshal header chainConfig hg
  rw [checkAndCreateGovernmentArgs, checkEpochSwitch_eq hu]
  exact hu.of_eq_fields _ _

lemma governanceAfter_inv (genesis : ChainConfig α)
    (blocks : List (BlockHeader × Option (ChainConfig α))) :
    QuorumInv (governanceAfter marshal genesis blocks) := by
  have hrun : ∀ g, QuorumInv g → QuorumInv
      (blocks.foldl (fun g b => checkAndCreateGovernmentArgs marshal b.1 b.2 g) g) := by
    induction blocks with
    | nil => exact fun _ h => h
    | cons b blocks ih =>
      intro g hg
      exact ih _ (checkAndCreateGovernmentArgs_inv marshal b.1 b.2 hg)
  exact hrun _ (getGovernanceContractFromConfig_inv marshal genesis)

section Safety
open Finset

omit [LinearOrder α] in
def GovernanceContract.maxFaulty (g : GovernanceContract α) : ℕ := (g.validators.length - 1) / 3

def GovernanceContract.validatorIds (g : GovernanceContract α) : Finset α :=
  (g.validators.map (·.nodeId)).toFinset

variable {g : GovernanceContract α}

/-- Two quorums share an honest validator, and the honest validators alone are a quorum. -/
structure QuorumSafe (g : GovernanceContract α) : Prop where
  inter : ∀ A B, A ⊆ g.validatorIds → B ⊆ g.validatorIds → #A = g.minQuorumForQc →
    #B = g.minQuorumForQc → g.maxFaulty < #(A ∩ B)
  le : g.minQuorumForQc ≤ g.validators.length - g.maxFaulty

lemma QuorumInv.card_validatorIds (hg : QuorumInv g) : #g.validatorIds = g.validators.length := by
  rw [validatorIds, toFinset_card_of_nodup, length_map]
  rw [hg.validators_eq]
  exact hg.nodup

lemma faulty_lt_overlap {n : ℕ} (hn : 4 ≤ n) (hmod : n % 3 ≠ 2) :
    n + (n - 1) / 3 < 2 * ((2 * n + 1) / 3) := by
  obtain h | h : n % 3 = 0 ∨ n % 3 = 1 := by omega
  · obtain ⟨k, rfl⟩ : ∃ k, n = 3 * k := ⟨n / 3, by omega⟩
    omega
  · obtain ⟨k, rfl⟩ : ∃ k, n = 3 * k + 1 := ⟨n / 3, by omega⟩
    omega

lemma QuorumInv.quorumSafe_iff (hg : QuorumInv g) (hN : 4 ≤ g.validators.length) : QuorumSafe g ↔
    g.validators.length % 3 ≠ 2 := by
  have hq : g.minQuorumForQc = (2 * g.validators.length + 1) / 3 := by
    rw [hg.quorum_eq, ← hg.validators_eq]
    omega
  have hcard := hg.card_validatorIds
  constructor
  · intro hsafe hmod
    obtain ⟨A, B, hA, hB, hAq, hBq, hAB⟩ := Quorum.exists_card_inter_eq
      (V := g.validatorIds) (q := g.minQuorumForQc) (by omega) (by omega)
    have hshare := hsafe.inter A B hA hB hAq hBq
    unfold maxFaulty at hshare
    omega
  · intro hmod
    refine ⟨fun A B hA hB hAq hBq => ?_, ?_⟩
    · have hle := Quorum.card_add_card_le hA hB
      have hlt := faulty_lt_overlap hN hmod
      unfold maxFaulty
      omega
    · unfold maxFaulty
      omega

theorem governanceAfter_quorumSafe_iff (genesis : ChainConfig α)
    (blocks : List (BlockHeader × Option (ChainConfig α)))
    (hN : 4 ≤ (governanceAfter marshal genesis blocks).validators.length) :
    QuorumSafe (governanceAfter marshal genesis blocks) ↔
      (governanceAfter marshal genesis blocks).validators.length % 3 ≠ 2 :=
  (governanceAfter_inv marshal genesis blocks).quorumSafe_iff hN

def configOf (n sequence : ℕ) : ChainConfig ℕ :=
  { sequence := sequence
    consensus :=
      { type := .hotstuff
        nodes := (List.range n).map fun i => { nodeId := [i] }
        extConfig := [] } }

theorem governanceAfter_quorumSafe_seven :
    4 ≤ (governanceAfter (fun _ => []) (configOf 7 0) []).validators.length ∧
      QuorumSafe (governanceAfter (fun _ => []) (configOf 7 0) []) :=
  ⟨by decide, (governanceAfter_quorumSafe_iff _ (configOf 7 0) [] (by decide)).mpr (by decide)⟩

/-- With five validators the quorum is 3, both for a genesis configuration of five nodes and
after a block that adds a fifth node. -/
theorem not_quorumSafe_five :
    ¬ QuorumSafe (governanceAfter (fun _ => []) (configOf 5 0) []) ∧
      ¬ QuorumSafe (governanceAfter (fun _ => []) (configOf 4 0)
        [({ blockHeight := 1, preBlockHash := [] }, some (configOf 5 1))]) := by
  constructor
  · rw [(governanceAfter_inv _ _ _).quorumSafe_iff (by decide)]
    decide
  · rw [(governanceAfter_inv _ _ _).quorumSafe_iff (by decide)]
    decide

end Safety

end ChainMaker.Governance
