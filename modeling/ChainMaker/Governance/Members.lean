import ChainMaker.Governance.Quorum

/-! The indexes of the members over a history of configurations. A member that stays keeps its
index, and a new one gets an index that no member has had. -/

namespace ChainMaker.Governance
open List

variable {α : Type} {old : α → Option (GovernanceMember α)} {index : ℤ} {nids : List α}
  {m : GovernanceMember α} {cfg : ChainConfig α}

lemma indexMembers_cases (hm : m ∈ (indexMembers old index nids).2) :
    (∃ nid ∈ nids, old nid = some m) ∨
      index ≤ m.index ∧ m.index < (indexMembers old index nids).1 := by
  induction nids generalizing index with
  | nil => cases hm
  | cons nid nids ih =>
    cases hold : old nid with
    | some member =>
      simp only [indexMembers, hold] at hm ⊢
      obtain rfl | hm := mem_cons.mp hm
      · exact .inl ⟨nid, mem_cons_self, hold⟩
      · exact (ih hm).imp_left (Exists.imp fun _ => And.imp_left (mem_cons_of_mem _))
    | none =>
      simp only [indexMembers, hold] at hm ⊢
      have hle := indexMembers_le old (index + 1) nids
      obtain rfl | hm := mem_cons.mp hm
      · exact .inr ⟨le_rfl, by dsimp only; omega⟩
      · exact (ih hm).imp (Exists.imp fun _ => And.imp_left (mem_cons_of_mem _)) fun hfresh =>
          ⟨by omega, hfresh.2⟩

lemma mem_indexMembers {nid : α} (hold : old nid = some m) (hnid : nid ∈ nids) :
    m ∈ (indexMembers old index nids).2 := by
  induction nids generalizing index with
  | nil => cases hnid
  | cons nid' nids ih =>
    rw [indexMembers]
    obtain rfl | hnid := mem_cons.mp hnid
    · rw [hold]
      exact mem_cons_self
    · split <;> exact mem_cons_of_mem _ (ih hnid)

lemma nodup_indexMembers (hlt : ∀ nid m, old nid = some m → m.index < index)
    (hinj : ∀ nid nid' m m', old nid = some m → old nid' = some m' →
      m.index = m'.index → nid = nid') (hnids : nids.Nodup) :
    ((indexMembers old index nids).2.map (·.index)).Nodup := by
  induction nids generalizing index with
  | nil => exact nodup_nil
  | cons nid nids ih =>
    obtain ⟨hnot, hnids⟩ := nodup_cons.mp hnids
    cases hold : old nid with
    | some member =>
      simp only [indexMembers, hold, map_cons, nodup_cons]
      refine ⟨fun hmem => ?_, ih hlt hnids⟩
      obtain ⟨m, hm, heq⟩ := mem_map.mp hmem
      obtain ⟨nid', hnid', hold'⟩ | hfresh := indexMembers_cases hm
      · exact hnot (hinj _ _ _ _ hold' hold heq ▸ hnid')
      · have := hlt nid member hold
        omega
    | none =>
      simp only [indexMembers, hold, map_cons, nodup_cons]
      refine ⟨fun hmem => ?_, ih (fun nid m h => (hlt nid m h).trans (by omega)) hnids⟩
      obtain ⟨m, hm, heq⟩ := mem_map.mp hmem
      obtain ⟨nid', -, hold'⟩ | hfresh := indexMembers_cases hm
      · have := hlt nid' m hold'
        omega
      · omega

lemma oldMembersMap_of_mem [DecidableEq α] {members : List (GovernanceMember α)}
    (hnodup : (members.map (·.nodeId)).Nodup) (hm : m ∈ members) :
    oldMembersMap members m.nodeId = some m := by
  have hmem : m ∈ members.filter fun member => member.nodeId = m.nodeId := by simp [hm]
  obtain ⟨m', hm'⟩ := Option.isSome_iff_exists.mp (getLast?_isSome.mpr (ne_nil_of_mem hmem))
  obtain ⟨hid, hmem'⟩ := oldMembersMap_nodeId hm'
  rw [oldMembersMap, hm', inj_on_of_nodup_map hnodup hmem' hm hid]

lemma indexMembers_le_length [DecidableEq α] (old : α → Option (GovernanceMember α)) (nids : List α)
    (index : ℤ) : (indexMembers old index nids).1 ≤ index + nids.length := by
  induction nids generalizing index with
  | nil => simp [indexMembers]
  | cons nid nids ih =>
    have hkeep := ih index
    have hnext := ih (index + 1)
    rw [indexMembers]
    split <;> simp only [length_cons] <;> omega

structure Indexed (g : GovernanceContract α) : Prop where
  nodup : (g.members.map (·.index)).Nodup
  lt : ∀ m ∈ g.members, m.index < g.curMaxIndex

structure Reindexes (g g' : GovernanceContract α) : Prop where
  le : g.curMaxIndex ≤ g'.curMaxIndex
  new : ∀ m ∈ g'.members, m ∈ g.members ∨ g.curMaxIndex ≤ m.index

variable [LinearOrder α] (marshal : GovernanceContract α → Bytes) {g : GovernanceContract α}

lemma indexed_getGovernanceContractFromConfig (cfg : ChainConfig α) :
    Indexed (getGovernanceContractFromConfig marshal cfg) where
  nodup := ((sortMembers_perm _).map _).nodup_iff.mpr
    (nodup_indexMembers (by simp) (by simp) (nodup_sortedNodeIds _))
  lt m hm := by
    obtain ⟨nid, -, hold⟩ | hfresh := indexMembers_cases ((sortMembers_perm _).mem_iff.mp hm)
    · cases hold
    · exact hfresh.2

/-- An update leaves the members as they are, or it sorts those that it has indexed anew. -/
lemma updateGovContractByConfig_cases (cfg : ChainConfig α) (g : GovernanceContract α) :
    let r := indexMembers (oldMembersMap g.members) g.curMaxIndex
      (sortedNodeIds cfg.consensus.nodes)
    let g' := (updateGovContractByConfig marshal cfg g).2
    g'.configSequence = cfg.sequence ∧ (g'.members = g.members ∧ g'.curMaxIndex = g.curMaxIndex ∨
      g'.members = sortMembers r.2 ∧ g'.curMaxIndex = r.1) := by
  unfold updateGovContractByConfig
  split_ifs with hseq
  · exact ⟨hseq, .inl ⟨rfl, rfl⟩⟩
  dsimp only
  split
  · exact ⟨rfl, .inr ⟨rfl, rfl⟩⟩
  · exact ⟨rfl, .inl ⟨rfl, rfl⟩⟩

lemma updateGovContractByConfig_reindexes (cfg : ChainConfig α) (g : GovernanceContract α) :
    Reindexes g (updateGovContractByConfig marshal cfg g).2 := by
  obtain ⟨-, ⟨hmembers, hindex⟩ | ⟨hmembers, hindex⟩⟩ :=
    updateGovContractByConfig_cases marshal cfg g
  · exact ⟨hindex.ge, fun m hm => .inl (hmembers ▸ hm)⟩
  refine ⟨hindex ▸ indexMembers_le _ _ _, fun m hm => ?_⟩
  rw [hmembers, (sortMembers_perm _).mem_iff] at hm
  obtain ⟨nid, -, hold⟩ | hfresh := indexMembers_cases hm
  · exact .inl (oldMembersMap_nodeId hold).2
  · exact .inr hfresh.1

lemma Indexed.updateGovContractByConfig (hi : Indexed g) (cfg : ChainConfig α) :
    Indexed (updateGovContractByConfig marshal cfg g).2 := by
  obtain ⟨-, ⟨hmembers, hindex⟩ | ⟨hmembers, hindex⟩⟩ :=
    updateGovContractByConfig_cases marshal cfg g
  · exact ⟨hmembers ▸ hi.nodup, by rw [hmembers, hindex]; exact hi.lt⟩
  have hold : ∀ nid m, oldMembersMap g.members nid = some m → m.index < g.curMaxIndex :=
    fun _ m h => hi.lt m (oldMembersMap_nodeId h).2
  refine ⟨?_, fun m hm => ?_⟩
  · rw [hmembers, ((sortMembers_perm _).map _).nodup_iff]
    refine nodup_indexMembers hold (fun nid nid' m m' h h' heq => ?_) (nodup_sortedNodeIds _)
    obtain ⟨rfl, hm⟩ := oldMembersMap_nodeId h
    obtain ⟨rfl, hm'⟩ := oldMembersMap_nodeId h'
    rw [inj_on_of_nodup_map hi.nodup hm hm' heq]
  · rw [hmembers, (sortMembers_perm _).mem_iff] at hm
    rw [hindex]
    obtain ⟨nid, -, h⟩ | hfresh := indexMembers_cases hm
    · exact (hold nid m h).trans_le (indexMembers_le _ _ _)
    · exact hfresh.2

lemma mem_updateGovContractByConfig (hnodup : (g.members.map (·.nodeId)).Nodup)
    (cfg : ChainConfig α) (hm : m ∈ g.members)
    (hkept : ∃ node ∈ cfg.consensus.nodes, m.nodeId ∈ node.nodeId) :
    m ∈ (updateGovContractByConfig marshal cfg g).2.members := by
  obtain ⟨-, ⟨hmembers, -⟩ | ⟨hmembers, -⟩⟩ := updateGovContractByConfig_cases marshal cfg g
  · exact hmembers ▸ hm
  rw [hmembers, (sortMembers_perm _).mem_iff]
  refine mem_indexMembers (oldMembersMap_of_mem hnodup hm) ?_
  rwa [(sortedNodeIds_perm _).mem_iff, mem_distinctNodeIds]

/-! ### Histories -/

def configured (genesis : ChainConfig α) (cfgs : List (ChainConfig α)) : GovernanceContract α :=
  cfgs.foldl (fun g cfg => (updateGovContractByConfig marshal cfg g).2)
    (getGovernanceContractFromConfig marshal genesis)

/-- The source keeps the indexes in `int64`; no index is larger than the number of node IDs that
the configurations have listed, so they agree with the integers here up to `2 ^ 63` of those. -/
lemma curMaxIndex_le (genesis : ChainConfig α) (cfgs : List (ChainConfig α)) :
    (configured marshal genesis cfgs).curMaxIndex ≤
      (((genesis :: cfgs).map fun cfg => (sortedNodeIds cfg.consensus.nodes).length).sum : ℕ) := by
  induction cfgs using List.reverseRecOn with
  | nil =>
    have hfirst := indexMembers_le_length (fun _ => none) (sortedNodeIds genesis.consensus.nodes) 0
    rw [zero_add] at hfirst
    exact hfirst
  | append_singleton cfgs cfg ih =>
    rw [configured, foldl_append, ← configured]
    generalize configured marshal genesis cfgs = g at ih
    have hnew := indexMembers_le_length (oldMembersMap g.members)
      (sortedNodeIds cfg.consensus.nodes) g.curMaxIndex
    have hcases := (updateGovContractByConfig_cases marshal cfg g).2
    simp only [foldl_cons, foldl_nil, ← cons_append, map_append, sum_append, map_cons, map_nil,
      sum_cons, sum_nil] at ih hcases ⊢
    push_cast at ih ⊢
    omega

structure Matches (g : GovernanceContract α) (cfg : ChainConfig α) : Prop extends Indexed g where
  ids_nodup : (g.members.map (·.nodeId)).Nodup
  ids : ∀ nid, nid ∈ g.members.map (·.nodeId) ↔ ∃ node ∈ cfg.consensus.nodes, nid ∈ node.nodeId
  validators : g.validators = g.members
  n : g.n = g.members.length
  validatorNum : g.validatorNum = g.members.length

lemma QuorumInv.matches (hg : QuorumInv g) (hi : Indexed g)
    (hids : (g.members.map (·.nodeId)).Perm (sortedNodeIds cfg.consensus.nodes)) : Matches g cfg :=
  ⟨hi, hg.nodup, fun nid => by
    rw [hids.mem_iff, (sortedNodeIds_perm _).mem_iff, mem_distinctNodeIds],
      hg.validators_eq, hg.n_eq,
    hg.validatorNum_eq⟩

lemma matches_foldl {cfgs : List (ChainConfig α)} (hg : QuorumInv g)
    (hm : Matches g cfg) (hlast : g.configSequence = cfg.sequence)
    (hseq : (cfg :: cfgs).IsChain fun cfg cfg' => cfg.sequence ≠ cfg'.sequence) :
    Matches (cfgs.foldl (fun g cfg => (updateGovContractByConfig marshal cfg g).2) g)
      ((cfg :: cfgs).getLast (cons_ne_nil _ _)) := by
  induction cfgs generalizing g cfg with
  | nil => exact hm
  | cons cfg' cfgs ih =>
    obtain ⟨hne, hseq⟩ := isChain_cons_cons.mp hseq
    have hg' := updateGovContractByConfig_inv marshal cfg' hg
    exact ih hg' (hg'.matches (hm.toIndexed.updateGovContractByConfig marshal cfg')
      (updateGovContractByConfig_ids marshal (hlast.trans_ne hne)))
      (updateGovContractByConfig_cases marshal cfg' g).1 hseq

lemma index_foldl (hlt : m.index < g.curMaxIndex)
    (hm : ∀ m' ∈ g.members, m.index = m'.index → m.nodeId = m'.nodeId)
    (cfgs : List (ChainConfig α)) :
    ∀ m' ∈ (cfgs.foldl (fun g cfg => (updateGovContractByConfig marshal cfg g).2) g).members,
      m.index = m'.index → m.nodeId = m'.nodeId := by
  induction cfgs generalizing g with
  | nil => exact hm
  | cons cfg cfgs ih =>
    have hstep := updateGovContractByConfig_reindexes marshal cfg g
    refine ih (hlt.trans_le hstep.le) fun m' hm' heq => ?_
    obtain hold | hfresh := hstep.new m' hm'
    · exact hm m' hold heq
    · omega

theorem members_stable (genesis : ChainConfig α) (cfgs : List (ChainConfig α))
    (hseq : (genesis :: cfgs).IsChain fun cfg cfg' => cfg.sequence ≠ cfg'.sequence) :
    Matches (configured marshal genesis cfgs) ((genesis :: cfgs).getLast (cons_ne_nil _ _)) ∧
      (∀ cfg, ∀ m ∈ (configured marshal genesis cfgs).members,
        (∃ node ∈ cfg.consensus.nodes, m.nodeId ∈ node.nodeId) →
          m ∈ (configured marshal genesis (cfgs ++ [cfg])).members) ∧
      ∀ more, ∀ m ∈ (configured marshal genesis cfgs).members,
        ∀ m' ∈ (configured marshal genesis (cfgs ++ more)).members,
          m.index = m'.index → m.nodeId = m'.nodeId := by
  have hg := getGovernanceContractFromConfig_inv marshal genesis
  have hmatches : Matches (configured marshal genesis cfgs) _ := matches_foldl marshal hg
    (hg.matches (indexed_getGovernanceContractFromConfig marshal genesis)
      (getGovernanceContractFromConfig_ids marshal genesis)) rfl hseq
  refine ⟨hmatches, fun cfg m hm hkept => ?_, fun more m hm => ?_⟩
  · rw [configured, foldl_append]
    exact mem_updateGovContractByConfig marshal hmatches.ids_nodup cfg hm hkept
  · rw [configured, foldl_append]
    refine index_foldl marshal (hmatches.lt m hm) (fun m' hm' heq => ?_) more
    rw [inj_on_of_nodup_map hmatches.nodup hm hm' heq]

theorem members_stable_three :
    (configured (fun _ => []) (configOf 3 0) [configOf 2 1, configOf 3 2]).members =
        [⟨0, 0⟩, ⟨1, 1⟩, ⟨3, 2⟩] ∧
      Matches (configured (fun _ => []) (configOf 3 0) [configOf 2 1, configOf 3 2])
        (configOf 3 2) :=
  ⟨by decide, (members_stable (fun _ => []) (configOf 3 0) [configOf 2 1, configOf 3 2]
    (by decide)).1⟩

end ChainMaker.Governance
