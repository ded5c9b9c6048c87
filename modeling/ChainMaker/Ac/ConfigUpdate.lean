import ChainMaker.Ac.PermissionedPk

/-! A provider that has followed the configurations of the chain, and one created from the last
of them. -/

namespace ChainMaker.Ac
open List AccessControlService Except

/-! ### Policies -/

def ResourcePolicy.validFor (orgs : List String) (rp : ResourcePolicy) : Bool :=
  if rp.resourceName ∈ restrainedResourceList then false
  else match rp.policy with
    | none => false
    | some policy => (policy.orgList.all (fun org => org ∈ orgs) && policy.orgList.Nodup) &&
        checkResourcePolicyRule rp.resourceName policy

def ResourcePolicy.stored (orgs : List String) (rp : ResourcePolicy) : Option (String × Policy) :=
  if rp.validFor orgs then rp.policy.map fun policy => (rp.resourceName, newPolicyFromPb policy)
  else none

namespace ChainConfig

def orgs (config : ChainConfig) : List String := config.trustRoots.map fun root => root.orgId

def customPolicies (config : ChainConfig) : List (String × Policy) :=
  config.resourcePolicies.filterMap (ResourcePolicy.stored config.orgs)

end ChainConfig

namespace PolicyMap
variable {table : List (String × Policy)} {m : PolicyMap} {name : String}

lemma lookup_reverse_eq_none_iff :
    table.reverse.lookup name = none ↔ name ∉ table.map Prod.fst := by
  rw [lookup_eq_none_iff]
  constructor
  · rintro h hmem
    obtain ⟨e, he, rfl⟩ := mem_map.mp hmem
    simpa using h e (mem_reverse.mpr he)
  · intro h e he
    have hname : name ≠ e.1 := fun hname => h (mem_map.mpr ⟨e, mem_reverse.mp he, hname.symm⟩)
    simpa using hname

lemma lookup_storeAll_eq_none_iff :
    (m.storeAll table).lookup name = none ↔ name ∉ table.map Prod.fst ∧ m.lookup name = none := by
  rw [lookup_storeAll, Option.or_eq_none_iff, lookup_reverse_eq_none_iff]

lemma storeAll_lookup_eq_iff :
    (∀ name, (m.storeAll table).lookup name = (storeAll table ∅).lookup name) ↔
      ∀ name, m.lookup name ≠ none → name ∈ table.map Prod.fst := by
  constructor
  · intro h name hname
    by_contra hmem
    have hnone := h name
    rw [lookup_storeAll, lookup_storeAll, lookup_reverse_eq_none_iff.mpr hmem] at hnone
    exact hname hnone
  · intro h name
    rw [lookup_storeAll, lookup_storeAll]
    cases htable : table.reverse.lookup name with
    | some policy => rfl
    | none =>
      by_contra hne
      have hstored : m.lookup name ≠ none := fun hnone => hne (by rw [hnone]; rfl)
      exact lookup_reverse_eq_none_iff.mp htable (h name hstored)

end PolicyMap

namespace AccessControlService
variable {μ ο : Type} {acs : AccessControlService μ ο} {config : ChainConfig}

section
variable (horgs : ∀ org, (acs.orgList.lookup org).isSome = decide (org ∈ config.orgs))
include horgs

lemma validateResourcePolicy_eq (rp : ResourcePolicy) :
    acs.validateResourcePolicy rp = rp.validFor config.orgs := by
  have hlist : ∀ policy : PbPolicy, acs.checkResourcePolicyOrgList policy =
      (policy.orgList.all (fun org => org ∈ config.orgs) && policy.orgList.Nodup) := by
    intro policy
    simp only [checkResourcePolicyOrgList, horgs]
  unfold validateResourcePolicy ResourcePolicy.validFor
  by_cases hrestrained : rp.resourceName ∈ restrainedResourceList
  · rw [if_pos hrestrained, if_pos hrestrained]
  rw [if_neg hrestrained, if_neg hrestrained]
  cases rp.policy with
  | none => rfl
  | some policy => exact congrArg (· && _) (hlist policy)

lemma storeResourcePolicy_eq (rp : ResourcePolicy) : acs.storeResourcePolicy rp = { acs with
      resourceNamePolicyMap :=
        acs.resourceNamePolicyMap.storeAll (rp.stored config.orgs).toList } := by
  rw [storeResourcePolicy, validateResourcePolicy_eq horgs, ResourcePolicy.stored]
  cases rp.policy with
  | none | some => cases rp.validFor config.orgs <;> rfl

end

lemma foldl_storeResourcePolicy (ps : List ResourcePolicy) (acs : AccessControlService μ ο)
    (horgs : ∀ org, (acs.orgList.lookup org).isSome = decide (org ∈ config.orgs)) :
    ps.foldl storeResourcePolicy acs = { acs with
      resourceNamePolicyMap := acs.resourceNamePolicyMap.storeAll
        (ps.filterMap (ResourcePolicy.stored config.orgs)) } := by
  induction ps generalizing acs with
  | nil => rfl
  | cons rp ps ih =>
    rw [foldl_cons, storeResourcePolicy_eq horgs, ih _ (by exact horgs)]
    cases hstored : rp.stored config.orgs with
    | none => rw [filterMap_cons_none hstored]; rfl
    | some e => rw [filterMap_cons_some hstored]; rfl

def defaultPolicies (authType localOrgId : String) :
    List (String × Policy) × List (String × Policy) :=
  if authType = permissionedWithCert ∨ authType = identity then
    (certResourcePolicies localOrgId, certExceptionalPolicies)
  else if authType = permissionedWithKey then
    (pkResourcePolicies localOrgId, pkExceptionalPolicies)
  else ([], [])

def storedPolicies (authType localOrgId : String) (config : ChainConfig) : List (String × Policy) :=
  (defaultPolicies authType localOrgId).1 ++ config.customPolicies

lemma defaultPolicies_eq_of_exceptional {auth auth' org : String}
    (h : ∀ name, (PolicyMap.storeAll (defaultPolicies auth org).2 ∅).lookup name =
      (PolicyMap.storeAll (defaultPolicies auth' org).2 ∅).lookup name) :
    defaultPolicies auth org = defaultPolicies auth' org := by
  have hadd := h "PUBKEY_MANAGE-PUBKEY_ADD"
  have hfreeze := h "CERT_MANAGE-CERTS_FREEZE"
  unfold defaultPolicies at hadd hfreeze ⊢
  split_ifs at hadd hfreeze ⊢
  all_goals dsimp only at hadd hfreeze
  all_goals first
    | rfl
    | exact absurd hadd (by decide +kernel)
    | exact absurd hfreeze (by decide +kernel)

lemma initResourcePolicy_eq
    (horgs : ∀ org, (acs.orgList.lookup org).isSome = decide (org ∈ config.orgs))
    (localOrgId : String) : acs.initResourcePolicy config.resourcePolicies localOrgId = { acs with
      resourceNamePolicyMap :=
        acs.resourceNamePolicyMap.storeAll (storedPolicies acs.authType localOrgId config)
      exceptionalPolicyMap :=
        acs.exceptionalPolicyMap.storeAll (defaultPolicies acs.authType localOrgId).2 } := by
  simp only [initResourcePolicy, storedPolicies, defaultPolicies, PolicyMap.storeAll, foldl_append]
  split_ifs
  all_goals
    rw [foldl_storeResourcePolicy _ _ (by exact horgs)]
    rfl

end AccessControlService

def PolicyMap.NamedBy (m : PolicyMap) (tables : List (List (String × Policy))) : Prop :=
  ∀ name, m.lookup name ≠ none ↔ ∃ table ∈ tables, name ∈ table.map Prod.fst

lemma PolicyMap.namedBy_empty : NamedBy ∅ [] := fun name => by simp

lemma PolicyMap.NamedBy.storeAll {m : PolicyMap} {tables : List (List (String × Policy))}
    (h : m.NamedBy tables) (table : List (String × Policy)) :
    NamedBy (m.storeAll table) (tables ++ [table]) := by
  intro name
  rw [ne_eq, lookup_storeAll_eq_none_iff, not_and_or, not_not, ← ne_eq, h name]
  simp only [mem_append, mem_singleton, or_and_right, exists_or, exists_eq_left]
  exact or_comm

lemma PolicyMap.NamedBy.storeAll_lookup_eq_iff {m : PolicyMap}
    {tables : List (List (String × Policy))} (h : m.NamedBy tables)
    (table : List (String × Policy)) :
    (∀ name, (m.storeAll table).lookup name = (PolicyMap.storeAll table ∅).lookup name) ↔
      ∀ earlier ∈ tables, ∀ name ∈ earlier.map Prod.fst, name ∈ table.map Prod.fst := by
  rw [PolicyMap.storeAll_lookup_eq_iff]
  constructor
  · intro hall earlier hearlier name hname
    exact hall name ((h name).mpr ⟨earlier, hearlier, hname⟩)
  · intro hall name hname
    obtain ⟨earlier, hearlier, hname⟩ := (h name).mp hname
    exact hall earlier hearlier name hname

/-- Each custom policy of the earlier configurations is for a resource that the last one has a
policy for, or that has a default one. -/
def PoliciesReplaced (auth org : String) (earlier : List ChainConfig) (last : ChainConfig) :
    Prop :=
  ∀ config ∈ earlier, ∀ name ∈ config.customPolicies.map Prod.fst,
    name ∈ (storedPolicies auth org last).map Prod.fst

instance (auth org : String) (earlier : List ChainConfig) (last : ChainConfig) :
    Decidable (PoliciesReplaced auth org earlier last) := by
  unfold PoliciesReplaced
  infer_instance

lemma policiesReplaced_iff {auth org : String} {earlier : List ChainConfig} {last : ChainConfig} :
    PoliciesReplaced auth org earlier last ↔ ∀ table ∈ earlier.map (storedPolicies auth org),
        ∀ name ∈ table.map Prod.fst, name ∈ (storedPolicies auth org last).map Prod.fst := by
  constructor
  · intro h table htable name hname
    obtain ⟨config, hconfig, rfl⟩ := mem_map.mp htable
    rw [storedPolicies, map_append, mem_append] at hname
    obtain hdefault | hcustom := hname
    · rw [storedPolicies, map_append]
      exact mem_append_left _ hdefault
    · exact h config hconfig name hcustom
  · intro h config hconfig name hname
    refine h _ (mem_map_of_mem hconfig) name ?_
    rw [storedPolicies, map_append]
    exact mem_append_right _ hname

/-! ### The permissioned public key mode -/

namespace PermissionedPkACProvider
variable {κ : Type} {lib : KeyLib κ} {config : ChainConfig} {pp pp' : PermissionedPkACProvider κ}
  {roots : List TrustRootConfig} {auth org : String}

def follow (lib : KeyLib κ) (pp : PermissionedPkACProvider κ) (config : ChainConfig) :
    Except String (PermissionedPkACProvider κ) :=
  match pp.watch lib config with
  | (pp, .ok ()) => .ok pp
  | (_, .error err) => .error err

structure Agree (pp pp' : PermissionedPkACProvider κ) : Prop where
  policies : ∀ name, pp.acService.resourceNamePolicyMap.lookup name =
    pp'.acService.resourceNamePolicyMap.lookup name
  exceptional : ∀ name, pp.acService.exceptionalPolicyMap.lookup name =
    pp'.acService.exceptionalPolicyMap.lookup name
  orgList : pp.acService.orgList = pp'.acService.orgList
  orgNum : pp.acService.orgNum = pp'.acService.orgNum
  adminMember : pp.adminMember = pp'.adminMember

lemma isSome_lookup_addTrustRoot {acc acc' : GoMap Bytes AdminMemberModel × GoMap String Unit × ℕ}
    (h : roots.foldlM (addTrustRoot lib) acc = .ok acc') (org : String) :
    (acc'.2.1.lookup org).isSome = true ↔ (acc.2.1.lookup org).isSome = true ∨
      org ∈ roots.map fun root => root.orgId := by
  induction roots generalizing acc with
  | nil =>
    cases h
    simp
  | cons root roots ih =>
    obtain ⟨acc₁, hadd, hrest⟩ := bind_ok.mp h
    have hstep : (acc₁.2.1.lookup org).isSome = true ↔
        (acc.2.1.lookup org).isSome = true ∨ org = root.orgId := by
      unfold addTrustRoot at hadd
      split at hadd
      case h_1 => cases hadd
      case h_2 orgList orgNum _ hacc =>
      rw [hacc]
      split at hadd
      case isTrue hsome =>
        cases hadd
        exact ⟨.inl, fun h => h.elim id fun h => h ▸ hsome⟩
      case isFalse =>
        cases hadd
        rw [GoMap.lookup_insert_ite]
        split_ifs with horg <;> simp [horg]
    rw [ih hrest, hstep, map_cons, mem_cons, or_assoc]

/-- What creation and `Watch` have in common: the configuration is read into the provider. -/
structure Configures (lib : KeyLib κ) (pp : PermissionedPkACProvider κ) (config : ChainConfig)
    (pp' : PermissionedPkACProvider κ) : Prop where
  roots : config.trustRoots.foldlM (addTrustRoot lib) (∅, ∅, 0) =
    .ok (pp'.adminMember, pp'.acService.orgList, pp'.acService.orgNum)
  policies : pp'.acService.resourceNamePolicyMap = pp.acService.resourceNamePolicyMap.storeAll
    (storedPolicies pp.acService.authType pp.localOrg config)
  exceptional : pp'.acService.exceptionalPolicyMap = pp.acService.exceptionalPolicyMap.storeAll
    (defaultPolicies pp.acService.authType pp.localOrg).2
  authType : pp'.acService.authType = pp.acService.authType
  localOrg : pp'.localOrg = pp.localOrg

lemma configures_of_initAdminMembers (h : pp.initAdminMembers lib config.trustRoots = .ok pp') :
    let pp₁ := pp'.initConsensusMember config.consensusNodes
    Configures lib pp config { pp₁ with
      acService := pp₁.acService.initResourcePolicy config.resourcePolicies pp.localOrg } := by
  unfold initAdminMembers at h
  split at h
  case h_1 => cases h
  case h_2 admins orgList orgNum hfold =>
  cases h
  intro pp₁
  have horgs : ∀ org, (pp₁.acService.orgList.lookup org).isSome = decide (org ∈ config.orgs) := by
    intro org
    have hiff := isSome_lookup_addTrustRoot hfold org
    simp only [AList.lookup_empty, Option.isSome_none, Bool.false_eq_true, false_or] at hiff
    exact Bool.eq_iff_iff.mpr (hiff.trans decide_eq_true_iff.symm)
  rw [initResourcePolicy_eq horgs]
  exact ⟨hfold, rfl, rfl, rfl, rfl⟩

lemma localOrg_initAdminMembers (h : pp.initAdminMembers lib roots = .ok pp') :
    pp'.localOrg = pp.localOrg := by
  unfold initAdminMembers at h
  split at h
  case h_1 => cases h
  case h_2 => exact ok.inj h ▸ rfl

lemma configures_follow (h : pp.follow lib config = .ok pp') : Configures lib pp config pp' := by
  unfold follow watch at h
  dsimp only at h
  split at h
  case h_2 => cases h
  case h_1 hwatch =>
  cases h
  split at hwatch
  case h_1 => cases hwatch
  case h_2 pp₁ hadmin =>
  have hconfigures := configures_of_initAdminMembers hadmin
  have hlocal := localOrg_initAdminMembers hadmin
  cases hwatch
  obtain ⟨hroots, hpolicies, hexceptional, hauth, -⟩ := hconfigures
  have hlocal' : (pp₁.initConsensusMember config.consensusNodes).localOrg = pp.localOrg := hlocal
  refine ⟨?_, ?_, ?_, ?_, hlocal⟩ <;> dsimp only <;> rw [hlocal']
  · exact hroots
  · exact hpolicies
  · exact hexceptional
  · exact hauth

lemma configures_newPermissionedPkACProvider {localOrgId : String} {evictions : List (List Bytes)}
    (h : newPermissionedPkACProvider lib config localOrgId evictions = .ok pp') : Configures lib
      { acService := initAccessControlService config.hash (toLower config.authType) evictions _ _
        localOrg := localOrgId
        adminMember := ∅
        consensusMember := ∅ } config pp' := by
  unfold newPermissionedPkACProvider at h
  dsimp only at h
  split at h
  case h_1 => cases h
  case h_2 hadmin =>
    cases h
    exact configures_of_initAdminMembers hadmin

structure Followed (auth org : String) (history : List ChainConfig)
    (pp : PermissionedPkACProvider κ) : Prop where
  authType : pp.acService.authType = auth
  localOrg : pp.localOrg = org
  policies : pp.acService.resourceNamePolicyMap.NamedBy
    (history.map (storedPolicies auth org))
  exceptional : pp.acService.exceptionalPolicyMap.NamedBy
    (history.map fun _ => (defaultPolicies auth org).2)

lemma Followed.configures {history : List ChainConfig} (h : Followed auth org history pp)
    (hc : Configures lib pp config pp') : Followed auth org (history ++ [config]) pp' := by
  obtain ⟨rfl, rfl, hpolicies, hexceptional⟩ := h
  refine ⟨hc.authType, hc.localOrg, ?_, ?_⟩
  · rw [hc.policies, map_append]
    exact hpolicies.storeAll _
  · rw [hc.exceptional, map_append]
    exact hexceptional.storeAll _

lemma Followed.foldlM {history configs : List ChainConfig}
    (h : Followed auth org history pp) (hfollow : configs.foldlM (follow lib) pp = .ok pp') :
    Followed auth org (history ++ configs) pp' := by
  refine foldlM_ok_read (P := fun read pp => Followed auth org (history ++ read) pp)
    (fun read pp config pp' hread hstep => ?_) (by rwa [append_nil]) hfollow
  rw [← append_assoc]
  exact hread.configures (configures_follow hstep)

variable {first last : ChainConfig} {configs : List ChainConfig} {org : String}
  {evictions evictions' : List (List Bytes)} {pp₀ : PermissionedPkACProvider κ}

lemma agree_restarted_iff (hnew : newPermissionedPkACProvider lib first org evictions = .ok pp₀)
    (hfollow : (configs ++ [last]).foldlM (follow lib) pp₀ = .ok pp)
    (hrestart : newPermissionedPkACProvider lib last org evictions' = .ok pp') : Agree pp pp' ↔
      defaultPolicies (toLower first.authType) org = defaultPolicies (toLower last.authType) org ∧
      PoliciesReplaced (toLower first.authType) org (first :: configs) last := by
  have hnew := configures_newPermissionedPkACProvider hnew
  have hrestart := configures_newPermissionedPkACProvider hrestart
  rw [foldlM_append] at hfollow
  obtain ⟨pp₁, hfollow, hlast⟩ := bind_ok.mp hfollow
  have hlast : Configures lib pp₁ last pp := by
    obtain ⟨pp₂, hstep, hend⟩ := bind_ok.mp hlast
    cases hend
    exact configures_follow hstep
  have hstart : Followed (toLower first.authType) org [first] pp₀ := by
    refine ⟨hnew.authType, hnew.localOrg, ?_, ?_⟩
    · rw [hnew.policies]
      exact PolicyMap.namedBy_empty.storeAll _
    · rw [hnew.exceptional]
      exact PolicyMap.namedBy_empty.storeAll _
  have hbefore : Followed (toLower first.authType) org (first :: configs) pp₁ :=
    hstart.foldlM hfollow
  -- The organizations and the admins are read anew from the last configuration.
  have hroots := ok.inj (hlast.roots.symm.trans hrestart.roots)
  obtain ⟨hadmins, horgs, hnum⟩ : pp.adminMember = pp'.adminMember ∧
      pp.acService.orgList = pp'.acService.orgList ∧
      pp.acService.orgNum = pp'.acService.orgNum := by
    simpa only [Prod.mk.injEq] using hroots
  have hpolicies := hbefore.policies.storeAll_lookup_eq_iff
    (storedPolicies (toLower first.authType) org last)
  have hexceptional := (hbefore.exceptional.storeAll_lookup_eq_iff
    (defaultPolicies (toLower first.authType) org).2).mpr <| by
      intro table htable
      obtain ⟨_, _, rfl⟩ := mem_map.mp htable
      exact fun name hname => hname
  have hmap := hlast.policies
  have hmap' := hlast.exceptional
  rw [hbefore.authType, hbefore.localOrg] at hmap hmap'
  rw [policiesReplaced_iff, ← hpolicies]
  constructor
  · intro hagree
    have hdefaults : defaultPolicies (toLower first.authType) org =
        defaultPolicies (toLower last.authType) org := by
      refine defaultPolicies_eq_of_exceptional fun name => ?_
      rw [← hexceptional name, ← hmap', hagree.exceptional name, hrestart.exceptional]
      rfl
    refine ⟨hdefaults, fun name => ?_⟩
    rw [← hmap, hagree.policies name, hrestart.policies, storedPolicies, storedPolicies, hdefaults]
    rfl
  · rintro ⟨hdefaults, hagree⟩
    refine ⟨fun name => ?_, fun name => ?_, horgs, hnum, hadmins⟩
    · rw [hmap, hagree name, hrestart.policies, storedPolicies, storedPolicies, hdefaults]
      rfl
    · rw [hmap', hexceptional name, hrestart.exceptional, hdefaults]
      rfl

end PermissionedPkACProvider

end ChainMaker.Ac
