import ChainMaker.Ac.CertHistory
import ChainMaker.Ac.ConfigUpdate

/-! The certificate provider after a history of configurations, and restarted from the last. At
the start the last certificate of each configured chain is a trusted root, after an update every
CA certificate of the chain is. -/

namespace ChainMaker.Ac
open List AccessControlService CertACProvider Except PermissionedPkACProvider

namespace CertACProvider
variable {lib : X509} {config : ChainConfig} {cp cp' : CertACProvider} {localOrgId : String}

/-! ### The chains of a configured root -/

lemma buildChain_ok {invalid unsigned invalid' unsigned' : String} {root : Bytes}
    {chain : List Certificate} (h : buildChain lib invalid unsigned root = .ok chain) :
    buildChain lib invalid' unsigned' root = .ok chain := by
  have hparse : ∀ block cert, parseRootBlock lib invalid unsigned block = .ok cert →
      parseRootBlock lib invalid' unsigned' block = .ok cert := by
    intro block cert hblock
    unfold parseRootBlock at hblock ⊢
    split at hblock
    case h_1 => cases hblock
    case h_2 c hc =>
      split at hblock
      case isTrue => cases hblock
      case isFalse hsigned => exact (if_neg hsigned).trans hblock
  obtain ⟨certs, hcerts, rfl⟩ := map_ok.mp h
  exact map_ok.mpr ⟨certs, mapM_ok_mono hparse hcerts, rfl⟩

def StartRoot (lib : X509) (text raw : Bytes) : Prop :=
  ∃ chain, buildCertificateChain lib text = .ok chain ∧
    ∃ last, chain.getLast? = some last ∧ last.raw = raw

def UpdateRoot (lib : X509) (text raw : Bytes) : Prop :=
  ∃ chain, buildCertificateChain lib text = .ok chain ∧ ∃ c ∈ chain, c.isCA = true ∧ c.raw = raw

def poolRaws (opts : VerifyOptions) : List Bytes := opts.roots.map fun c => c.raw

def Organization.Trusts (org : Organization) (raw : Bytes) : Prop :=
  (org.trustedRootCerts.lookup raw).isSome = true

structure Collects (S : Bytes → Prop) (acc acc' : Organization × VerifyOptions) : Prop where
  id : acc'.1.id = acc.1.id
  org : ∀ raw, Organization.Trusts acc'.1 raw ↔ Organization.Trusts acc.1 raw ∨ S raw
  pool : ∀ raw, raw ∈ poolRaws acc'.2 ↔ raw ∈ poolRaws acc.2 ∨ S raw

lemma isSome_lookup_storeCerts (certs : List Certificate) (m : GoMap Bytes Certificate)
    (raw : Bytes) : ((storeCerts certs m).lookup raw).isSome = true ↔
      (m.lookup raw).isSome = true ∨ ∃ c ∈ certs, c.raw = raw := by
  induction certs generalizing m with
  | nil => simp [storeCerts]
  | cons c certs ih =>
    have hstep : ((m.insert c.raw c).lookup raw).isSome = true ↔
        (m.lookup raw).isSome = true ∨ c.raw = raw := by
      rw [GoMap.lookup_insert_ite]
      split_ifs with hraw
      · simp [hraw]
      · simp [Ne.symm hraw]
    change ((storeCerts certs (m.insert c.raw c)).lookup raw).isSome = true ↔ _
    rw [ih, hstep, exists_mem_cons_iff, or_assoc]

variable {acc acc' : Organization × VerifyOptions} {texts : List Bytes} {text : Bytes}

lemma collects_addRoot (h : addRoot lib acc text = .ok acc') :
    Collects (StartRoot lib text) acc acc' ∧ ∀ raw, StartRoot lib text raw →
      UpdateRoot lib text raw := by
  unfold addRoot at h
  split at h
  case h_1 => cases h
  case h_2 chain hchain =>
  split at h
  case h_2 => cases h
  case h_1 last hlast =>
  split at h
  case isFalse => cases h
  case isTrue hca =>
  cases h
  have hstart : ∀ raw, StartRoot lib text raw ↔ last.raw = raw := by
    intro raw
    constructor
    · rintro ⟨chain', hchain', last', hlast', hraw⟩
      cases hchain.symm.trans hchain'
      cases hlast.symm.trans hlast'
      exact hraw
    · exact fun hraw => ⟨chain, hchain, last, hlast, hraw⟩
  refine ⟨⟨rfl, fun raw => ?_, fun raw => ?_⟩, fun raw hraw => ?_⟩
  · rw [hstart]
    have hone := isSome_lookup_storeCerts [last] acc.1.trustedRootCerts raw
    simp only [mem_singleton, exists_eq_left] at hone
    exact hone
  · rw [hstart]
    simp [poolRaws, eq_comm]
  · exact ⟨chain, hchain, last, mem_of_getLast? hlast, hca, (hstart raw).mp hraw⟩

lemma collects_addRootForUpdating (h : addRootForUpdating lib acc text = .ok acc') :
    Collects (UpdateRoot lib text) acc acc' := by
  unfold addRootForUpdating at h
  split at h
  case h_1 => cases h
  case h_2 chain hchain =>
  have hchain : buildCertificateChain lib text = .ok chain := buildChain_ok hchain
  dsimp only at h
  split at h
  case isTrue => cases h
  cases h
  have hupdate : ∀ raw, UpdateRoot lib text raw ↔ ∃ c ∈ chain.filter (·.isCA), c.raw = raw := by
    intro raw
    constructor
    · rintro ⟨chain', hchain', c, hc, hca, hraw⟩
      cases hchain.symm.trans hchain'
      exact ⟨c, mem_filter.mpr ⟨hc, hca⟩, hraw⟩
    · rintro ⟨c, hc, hraw⟩
      obtain ⟨hc, hca⟩ := mem_filter.mp hc
      exact ⟨chain, hchain, c, hc, hca, hraw⟩
  refine ⟨rfl, fun raw => ?_, fun raw => ?_⟩
  · rw [hupdate]
    exact isSome_lookup_storeCerts _ _ raw
  · rw [hupdate, poolRaws, map_append, mem_append, mem_map (l := chain.filter _)]
    rfl

lemma collects_foldlM {S : Bytes → Bytes → Prop}
    {step : Organization × VerifyOptions → Bytes → Except String (Organization × VerifyOptions)}
    (hstep : ∀ acc text acc', step acc text = .ok acc' → Collects (S text) acc acc')
    (h : texts.foldlM step acc = .ok acc') :
    Collects (fun raw => ∃ text ∈ texts, S text raw) acc acc' := by
  have hstart : Collects (fun raw => ∃ text ∈ ([] : List Bytes), S text raw) acc acc :=
    ⟨rfl, by simp, by simp⟩
  refine foldlM_ok_read
    (P := fun read acc' => Collects (fun raw => ∃ text ∈ read, S text raw) acc acc') ?_ hstart h
  intro read acc₁ text acc₂ h₁ hnext
  have h₂ := hstep acc₁ text acc₂ hnext
  have hread : ∀ raw, (∃ t ∈ read ++ [text], S t raw) ↔ (∃ t ∈ read, S t raw) ∨ S text raw := by
    simp [or_and_right, exists_or]
  refine ⟨h₂.id.trans h₁.id, fun raw => ?_, fun raw => ?_⟩
  · rw [h₂.org, h₁.org, hread, or_assoc]
  · rw [h₂.pool, h₁.pool, hread, or_assoc]

/-! ### The organizations of a configuration -/

structure Lists (S : Bytes → Bytes → Prop) (roots : List TrustRootConfig)
    (orgList : GoMap String Organization) (opts : VerifyOptions) : Prop where
  id : ∀ o org, orgList.lookup o = some org → org.id = o
  orgs : ∀ o, (orgList.lookup o).isSome = true ↔ o ∈ roots.map fun root => root.orgId
  /-- A repeated organization would have the roots of its last entry only. -/
  trusts : (roots.map fun root => root.orgId).Nodup → ∀ o org, orgList.lookup o = some org →
    ∀ raw, Organization.Trusts org raw ↔
      ∃ root ∈ roots, root.orgId = o ∧ ∃ text ∈ root.root, S text raw
  pool : ∀ raw, raw ∈ poolRaws opts ↔ ∃ root ∈ roots, ∃ text ∈ root.root, S text raw

variable {S : Bytes → Bytes → Prop} {roots : List TrustRootConfig}
  {orgList : GoMap String Organization} {opts opts' : VerifyOptions}

lemma lists_nil : Lists S [] ∅ ⟨[], []⟩ := by
  refine ⟨?_, ?_, ?_, ?_⟩ <;> simp [poolRaws]

lemma Lists.snoc (h : Lists S roots orgList opts) {root : TrustRootConfig} {org : Organization}
    (hc : Collects (fun raw => ∃ text ∈ root.root, S text raw) (noOrganization root.orgId, opts)
      (org, opts')) : Lists S (roots ++ [root]) (orgList.insert root.orgId org) opts' := by
  have hnone : ∀ raw, ¬ Organization.Trusts (noOrganization root.orgId) raw := by
    simp [Organization.Trusts, noOrganization]
  refine ⟨fun o org' hlookup => ?_, fun o => ?_, fun hnodup o org' hlookup raw => ?_, fun raw => ?_⟩
  · obtain ⟨rfl, rfl⟩ | hlookup := GoMap.lookup_insert_cases hlookup
    · exact hc.id
    · exact h.id o org' hlookup
  · rw [map_append, mem_append, map_singleton, mem_singleton]
    rw [GoMap.lookup_insert_ite]
    split_ifs with ho
    · simp [ho]
    · simp [ho, h.orgs]
  · rw [map_append, map_singleton, nodup_append] at hnodup
    obtain ⟨hnodup, -, hfresh⟩ := hnodup
    simp only [mem_append, mem_singleton, or_and_right, exists_or, exists_eq_left]
    rw [GoMap.lookup_insert_ite] at hlookup
    split_ifs at hlookup with ho
    · cases hlookup
      rw [hc.org, or_iff_right (hnone raw)]
      refine ⟨fun hS => .inr ⟨ho.symm, hS⟩, ?_⟩
      rintro (⟨root', hroot', ho', -⟩ | ⟨-, hS⟩)
      · exact absurd (ho'.trans ho) (hfresh _ (mem_map_of_mem hroot') _ (mem_singleton_self _))
      · exact hS
    · rw [h.trusts hnodup o org' hlookup raw]
      exact ⟨.inl, fun hS => hS.resolve_right fun hlast => ho hlast.1.symm⟩
  · rw [hc.pool, h.pool]
    simp [or_and_right, exists_or]

lemma lists_update
    (h : cp.initTrustRootsForUpdatingChainConfig lib roots localOrgId = .ok cp') :
    ∃ orgList opts localOrg, Lists (UpdateRoot lib) roots orgList opts ∧ localOrg.id = localOrgId ∧
      cp' = { cp with
        acService := { cp.acService with orgNum := roots.length, orgList := orgList }
        opts := opts
        localOrg := localOrg } := by
  obtain ⟨⟨orgList, opts⟩, hfold, hret⟩ := bind_ok.mp h
  cases hret
  have hlists : Lists (UpdateRoot lib) roots orgList opts := by
    refine foldlM_ok_read (P := fun read acc => Lists (UpdateRoot lib) read acc.1 acc.2) ?_
      lists_nil hfold
    intro read acc root acc' hacc hstep
    obtain ⟨⟨org, opts⟩, horg, hret⟩ := bind_ok.mp hstep
    cases hret
    exact hacc.snoc (collects_foldlM (fun _ _ _ h => collects_addRootForUpdating h) horg)
  refine ⟨orgList, opts, _, hlists, ?_, rfl⟩
  cases hlocal : orgList.lookup localOrgId with
  | none => rfl
  | some org => exact hlists.id localOrgId org hlocal

lemma orgNum_addOrg {acs : AccessControlService CertificateMember Organization}
    (horgs : ∀ o, (acs.orgList.lookup o).isSome = true ↔ o ∈ roots.map fun root => root.orgId)
    (hnum : acs.orgNum = (roots.map fun root => root.orgId).toFinset.card)
    (root : TrustRootConfig) (org : Organization) : (acs.addOrg root.orgId org).orgNum =
      ((roots ++ [root]).map fun root => root.orgId).toFinset.card := by
  have hset : ((roots ++ [root]).map fun root => root.orgId).toFinset =
      insert root.orgId (roots.map fun root => root.orgId).toFinset := by
    ext o
    simp only [map_append, map_singleton, toFinset_append, toFinset_cons,
      toFinset_nil, Finset.mem_union, Finset.mem_insert, Finset.notMem_empty, or_false]
    exact or_comm
  rw [hset, addOrg]
  by_cases hmem : root.orgId ∈ roots.map fun root => root.orgId
  · rw [if_pos ((horgs _).mpr hmem), hnum, Finset.insert_eq_of_mem (mem_toFinset.mpr hmem)]
  · rw [if_neg fun hsome => hmem ((horgs _).mp hsome), hnum,
      Finset.card_insert_of_notMem fun h => hmem (mem_toFinset.mp h)]

structure StartLoop (lib : X509) (cp : CertACProvider) (before : List TrustRootConfig)
    (cp' : CertACProvider) : Prop where
  lists : Lists (StartRoot lib) before cp'.acService.orgList cp'.opts
  orgNum : cp'.acService.orgNum = (before.map fun root => root.orgId).toFinset.card
  lastCA : ∀ root ∈ before, ∀ text ∈ root.root, ∀ raw,
    StartRoot lib text raw → UpdateRoot lib text raw
  frame : cp' = { cp with
    acService := { cp.acService with
      orgNum := cp'.acService.orgNum, orgList := cp'.acService.orgList }
    opts := cp'.opts }

lemma lastCA_of_foldlM (h : texts.foldlM (addRoot lib) acc = .ok acc') :
    ∀ text ∈ texts, ∀ raw, StartRoot lib text raw → UpdateRoot lib text raw := by
  induction texts generalizing acc with
  | nil => exact forall_mem_nil _
  | cons text texts ih =>
    obtain ⟨acc₁, hfirst, hrest⟩ := bind_ok.mp h
    exact forall_mem_cons.mpr ⟨(collects_addRoot hfirst).2, ih hrest⟩

lemma StartLoop.step {before : List TrustRootConfig} (h : StartLoop lib cp before cp')
    {root : TrustRootConfig} {org : Organization} {opts : VerifyOptions}
    (horg : root.root.foldlM (addRoot lib) (noOrganization root.orgId, cp'.opts) =
      .ok (org, opts)) :
    StartLoop lib cp (before ++ [root])
      { cp' with acService := cp'.acService.addOrg root.orgId org, opts := opts } := by
  have hcollects := collects_foldlM (S := StartRoot lib)
    (fun _ _ _ h => (collects_addRoot h).1) horg
  refine ⟨h.lists.snoc hcollects, orgNum_addOrg h.lists.orgs h.orgNum root org, ?_, ?_⟩
  · rw [forall_mem_append, forall_mem_singleton]
    exact ⟨h.lastCA, lastCA_of_foldlM horg⟩
  · rw [h.frame]
    rfl

lemma lists_start (horgs : cp.acService.orgList = ∅)
    (hnum : cp.acService.orgNum = 0) (hopts : cp.opts = ⟨[], []⟩)
    (h : cp.initTrustRoots lib roots localOrgId = .ok cp') :
    ∃ cp₁, StartLoop lib cp roots cp₁ ∧
      ∃ localOrg : Organization, localOrg.id = localOrgId ∧
        cp' = { cp₁ with localOrg := localOrg } := by
  obtain ⟨cp₁, hfold, hret⟩ := bind_ok.mp h
  cases hret
  have hstart : StartLoop lib cp [] cp := by
    refine ⟨?_, hnum, forall_mem_nil _, rfl⟩
    rw [horgs, hopts]
    exact lists_nil
  have hend : StartLoop lib cp roots cp₁ := by
    refine foldlM_ok_read (P := StartLoop lib cp) ?_ hstart hfold
    intro read c root c' hc hstep
    obtain ⟨⟨org, opts⟩, horg, hret⟩ := bind_ok.mp hstep
    cases hret
    exact hc.step horg
  refine ⟨cp₁, hend, _, ?_, rfl⟩
  cases hlocal : cp₁.acService.orgList.lookup localOrgId with
  | none => rfl
  | some org => exact hend.lists.id localOrgId org hlocal

lemma Lists.isSome_eq (h : Lists S config.trustRoots orgList opts) (o : String) :
    (orgList.lookup o).isSome = decide (o ∈ config.orgs) :=
  Bool.eq_iff_iff.mpr ((h.orgs o).trans decide_eq_true_iff.symm)

/-! ### Creation and updates -/

structure Created (lib : X509) (config : ChainConfig) (org : String) (cp : CertACProvider) :
    Prop where
  lists : Lists (StartRoot lib) config.trustRoots cp.acService.orgList cp.opts
  orgNum : cp.acService.orgNum = config.orgs.toFinset.card
  lastCA : ∀ root ∈ config.trustRoots, ∀ text ∈ root.root, ∀ raw,
    StartRoot lib text raw → UpdateRoot lib text raw
  policies : cp.acService.resourceNamePolicyMap =
    PolicyMap.storeAll (storedPolicies config.authType org config) ∅
  exceptional : cp.acService.exceptionalPolicyMap =
    PolicyMap.storeAll (defaultPolicies config.authType org).2 ∅
  localOrg : cp.localOrg.id = org
  trustMembers : initTrustMembers lib config.trustMembers = .ok cp.trustMembers

structure Updates (lib : X509) (cp : CertACProvider) (config : ChainConfig)
    (cp' : CertACProvider) : Prop where
  lists : Lists (UpdateRoot lib) config.trustRoots cp'.acService.orgList cp'.opts
  orgNum : cp'.acService.orgNum = config.orgs.length
  policies : cp'.acService.resourceNamePolicyMap = cp.acService.resourceNamePolicyMap.storeAll
    (storedPolicies config.authType cp.localOrg.id config)
  exceptional : cp'.acService.exceptionalPolicyMap = cp.acService.exceptionalPolicyMap.storeAll
    (defaultPolicies config.authType cp.localOrg.id).2
  localOrg : cp'.localOrg.id = cp.localOrg.id
  trustMembers : initTrustMembers lib config.trustMembers = .ok cp'.trustMembers

lemma created_newCertACProvider {org : String} {store : Option Store}
    {evictions certEvictions : List (List Bytes)}
    (h : newCertACProvider lib config org store evictions certEvictions = .ok cp) :
    Created lib config org cp := by
  obtain ⟨trustMembers, hmembers, h⟩ := bind_ok.mp h
  obtain ⟨cp₁, hroots, h⟩ := bind_ok.mp h
  obtain ⟨cp₂, hcrl, hfrozen⟩ := bind_ok.mp h
  obtain ⟨_, _, rfl⟩ := (relisted_loadCRL hcrl).trans (relisted_loadCertFrozenList hfrozen)
  obtain ⟨cp₀, hloop, localOrg, hlocal, rfl⟩ := lists_start rfl rfl rfl hroots
  have hinit := initResourcePolicy_eq hloop.lists.isSome_eq org
  have hframe := hloop.frame
  rw [hinit]
  refine ⟨hloop.lists, hloop.orgNum.trans rfl, hloop.lastCA, ?_, ?_, hlocal, ?_⟩
  all_goals dsimp only; rw [hframe]
  · rfl
  · rfl
  · exact hmembers

def follow (lib : X509) (cp : CertACProvider) (config : ChainConfig) :
    Except String CertACProvider :=
  match cp.watch lib config with
  | (cp, .ok ()) => .ok cp
  | (_, .error err) => .error err

lemma updates_follow (h : cp.follow lib config = .ok cp') : Updates lib cp config cp' := by
  unfold follow watch at h
  dsimp only at h
  split at h
  case h_2 => cases h
  case h_1 hwatch =>
  cases h
  split at hwatch
  case h_1 => cases hwatch
  case h_2 cp₁ hroots =>
  split at hwatch
  case h_1 => cases hwatch
  case h_2 trustMembers hmembers =>
  obtain ⟨orgList, opts, localOrg, hlists, hlocal, rfl⟩ := lists_update hroots
  cases hwatch
  rw [initResourcePolicy_eq hlists.isSome_eq, hlocal]
  exact ⟨hlists, (length_map _).symm, rfl, rfl, hlocal, hmembers⟩

/-! ### Restarting -/

/-- The same policies, organizations, trusted roots and trust members. A certificate is known by
its raw bytes. -/
structure Agree (cp cp' : CertACProvider) : Prop where
  policies : ∀ name, cp.acService.resourceNamePolicyMap.lookup name =
    cp'.acService.resourceNamePolicyMap.lookup name
  exceptional : ∀ name, cp.acService.exceptionalPolicyMap.lookup name =
    cp'.acService.exceptionalPolicyMap.lookup name
  orgList : ∀ o, (cp.acService.orgList.lookup o).isSome = (cp'.acService.orgList.lookup o).isSome
  orgNum : cp.acService.orgNum = cp'.acService.orgNum
  orgRoots : ∀ o org org', cp.acService.orgList.lookup o = some org →
    cp'.acService.orgList.lookup o = some org' →
    ∀ raw, Organization.Trusts org raw ↔ Organization.Trusts org' raw
  roots : ∀ raw, raw ∈ poolRaws cp.opts ↔ raw ∈ poolRaws cp'.opts
  trustMembers : cp.trustMembers = cp'.trustMembers

def PoliciesCovered (org : String) (earlier : List ChainConfig) (last : ChainConfig) : Prop :=
  (∀ table ∈ earlier.map fun config =>
      storedPolicies config.authType org config,
    ∀ name ∈ table.map Prod.fst,
      name ∈ (storedPolicies last.authType org last).map Prod.fst) ∧
  ∀ table ∈ earlier.map fun config =>
      (defaultPolicies config.authType org).2,
    ∀ name ∈ table.map Prod.fst, name ∈ (defaultPolicies last.authType org).2.map Prod.fst

instance (org : String) (earlier : List ChainConfig) (last : ChainConfig) :
    Decidable (PoliciesCovered org earlier last) := by
  unfold PoliciesCovered
  infer_instance

def RootsOnly (lib : X509) (config : ChainConfig) : Prop :=
  ∀ root ∈ config.trustRoots, ∀ text ∈ root.root, ∀ raw, UpdateRoot lib text raw →
    ∃ text' ∈ root.root, StartRoot lib text' raw

structure Followed (org : String) (history : List ChainConfig) (cp : CertACProvider) : Prop where
  localOrg : cp.localOrg.id = org
  policies : cp.acService.resourceNamePolicyMap.NamedBy
    (history.map fun config => storedPolicies config.authType org config)
  exceptional : cp.acService.exceptionalPolicyMap.NamedBy
    (history.map fun config => (defaultPolicies config.authType org).2)

variable {org : String} {history configs : List ChainConfig}

lemma Created.followed (h : Created lib config org cp) : Followed org [config] cp := by
  refine ⟨h.localOrg, ?_, ?_⟩
  · rw [h.policies]
    exact PolicyMap.namedBy_empty.storeAll _
  · rw [h.exceptional]
    exact PolicyMap.namedBy_empty.storeAll _

lemma Followed.updates (h : Followed org history cp) (hu : Updates lib cp config cp') :
    Followed org (history ++ [config]) cp' := by
  obtain ⟨rfl, hpolicies, hexceptional⟩ := h
  refine ⟨hu.localOrg, ?_, ?_⟩
  · rw [hu.policies, map_append]
    exact hpolicies.storeAll _
  · rw [hu.exceptional, map_append]
    exact hexceptional.storeAll _

lemma Followed.foldlM (h : Followed org history cp)
    (hfollow : configs.foldlM (follow lib) cp = .ok cp') :
    Followed org (history ++ configs) cp' := by
  refine foldlM_ok_read (P := fun read cp => Followed org (history ++ read) cp)
    (fun read cp config cp' hread hstep => ?_) (by rwa [append_nil]) hfollow
  rw [← append_assoc]
  exact hread.updates (updates_follow hstep)

variable {cp₁ : CertACProvider}

lemma Updates.roots_agree_iff (hu : Updates lib cp₁ config cp) (hc : Created lib config org cp') :
    (cp.acService.orgNum = cp'.acService.orgNum ∧
      (∀ o org org', cp.acService.orgList.lookup o = some org →
        cp'.acService.orgList.lookup o = some org' →
        ∀ raw, Organization.Trusts org raw ↔ Organization.Trusts org' raw) ∧
      ∀ raw, raw ∈ poolRaws cp.opts ↔ raw ∈ poolRaws cp'.opts) ↔
    config.orgs.Nodup ∧ RootsOnly lib config := by
  have hnodup : cp.acService.orgNum = cp'.acService.orgNum ↔ config.orgs.Nodup := by
    rw [hu.orgNum, hc.orgNum, eq_comm]
    exact Multiset.toFinset_card_eq_card_iff_nodup (m := (config.orgs : Multiset String))
  rw [hnodup]
  refine and_congr_right fun hnodup => ⟨fun ⟨horgs, _⟩ => ?_, fun honly => ⟨?_, fun raw => ?_⟩⟩
  · intro root hroot text htext raw hraw
    have hmem : root.orgId ∈ config.trustRoots.map fun root => root.orgId := mem_map_of_mem hroot
    obtain ⟨org, horg⟩ := Option.isSome_iff_exists.mp ((hu.lists.orgs _).mpr hmem)
    obtain ⟨org', horg'⟩ := Option.isSome_iff_exists.mp ((hc.lists.orgs _).mpr hmem)
    have htrusts := (hu.lists.trusts hnodup _ org horg raw).mpr
      ⟨root, hroot, rfl, text, htext, hraw⟩
    obtain ⟨root', hroot', hsame, text', htext', hraw'⟩ :=
      (hc.lists.trusts hnodup _ org' horg' raw).mp ((horgs _ org org' horg horg' raw).mp htrusts)
    obtain rfl := inj_on_of_nodup_map hnodup hroot' hroot hsame
    exact ⟨text', htext', hraw'⟩
  · intro o org org' horg horg' raw
    rw [hu.lists.trusts hnodup o org horg, hc.lists.trusts hnodup o org' horg']
    constructor
    · rintro ⟨root, hroot, ho, text, htext, hraw⟩
      exact ⟨root, hroot, ho, honly root hroot text htext raw hraw⟩
    · rintro ⟨root, hroot, ho, text, htext, hraw⟩
      exact ⟨root, hroot, ho, text, htext, hc.lastCA root hroot text htext raw hraw⟩
  · rw [hu.lists.pool, hc.lists.pool]
    constructor
    · rintro ⟨root, hroot, text, htext, hraw⟩
      exact ⟨root, hroot, honly root hroot text htext raw hraw⟩
    · rintro ⟨root, hroot, text, htext, hraw⟩
      exact ⟨root, hroot, text, htext, hc.lastCA root hroot text htext raw hraw⟩

variable {first last : ChainConfig} {cp₀ : CertACProvider} {store store' : Option Store}
  {evictions certEvictions evictions' certEvictions' : List (List Bytes)}

lemma agree_restarted_iff
    (hnew : newCertACProvider lib first org store evictions certEvictions = .ok cp₀)
    (hfollow : (configs ++ [last]).foldlM (follow lib) cp₀ = .ok cp)
    (hrestart : newCertACProvider lib last org store' evictions' certEvictions' = .ok cp') :
    Agree cp cp' ↔ PoliciesCovered org (first :: configs) last ∧ last.orgs.Nodup ∧
      RootsOnly lib last := by
  have hrestart := created_newCertACProvider hrestart
  rw [foldlM_append] at hfollow
  obtain ⟨cp₁, hfollow, hlast⟩ := bind_ok.mp hfollow
  have hlast : Updates lib cp₁ last cp := by
    obtain ⟨cp₂, hstep, hend⟩ := bind_ok.mp hlast
    cases hend
    exact updates_follow hstep
  have hbefore : Followed org (first :: configs) cp₁ :=
    (created_newCertACProvider hnew).followed.foldlM hfollow
  have hpolicies := hbefore.policies.storeAll_lookup_eq_iff
    (storedPolicies last.authType org last)
  have hexceptional := hbefore.exceptional.storeAll_lookup_eq_iff
    (defaultPolicies last.authType org).2
  rw [PoliciesCovered, ← hpolicies, ← hexceptional, ← hlast.roots_agree_iff hrestart]
  have hmap := hlast.policies
  have hmap' := hlast.exceptional
  rw [hbefore.localOrg] at hmap hmap'
  rw [← hmap, ← hmap', ← hrestart.policies, ← hrestart.exceptional]
  constructor
  · intro h
    exact ⟨⟨h.policies, h.exceptional⟩, h.orgNum, h.orgRoots, h.roots⟩
  · rintro ⟨⟨hpolicies, hexceptional⟩, hnum, horgs, hroots⟩
    have hmembers := ok.inj (hlast.trustMembers.symm.trans hrestart.trustMembers)
    refine ⟨hpolicies, hexceptional, fun o => ?_, hnum, horgs, hroots, hmembers⟩
    rw [hlast.lists.isSome_eq, hrestart.lists.isSome_eq]

end CertACProvider

/-! ### Both providers -/

theorem followed_agree_restarted_iff {κ : Type} (lib : X509) (keyLib : KeyLib κ) (org : String)
    (first last : ChainConfig) (configs : List ChainConfig) :
    (∀ store store' evictions certEvictions evictions' certEvictions' cp₀ cp cp',
      newCertACProvider lib first org store evictions certEvictions = .ok cp₀ →
      (configs ++ [last]).foldlM (follow lib) cp₀ = .ok cp →
      newCertACProvider lib last org store' evictions' certEvictions' = .ok cp' →
      (CertACProvider.Agree cp cp' ↔
        CertACProvider.PoliciesCovered org (first :: configs) last ∧ last.orgs.Nodup ∧
          CertACProvider.RootsOnly lib last)) ∧
    (∀ evictions evictions' (pp₀ pp pp' : PermissionedPkACProvider κ),
      newPermissionedPkACProvider keyLib first org evictions = .ok pp₀ →
      (configs ++ [last]).foldlM (follow keyLib) pp₀ = .ok pp →
      newPermissionedPkACProvider keyLib last org evictions' = .ok pp' →
      (PermissionedPkACProvider.Agree pp pp' ↔
        defaultPolicies (toLower first.authType) org = defaultPolicies (toLower last.authType) org ∧
        PoliciesReplaced (toLower first.authType) org (first :: configs) last)) :=
  ⟨fun _ _ _ _ _ _ _ _ _ => agree_restarted_iff, fun _ _ _ _ _ => agree_restarted_iff⟩

namespace SmallChain

def chainX509 : X509 where
  __ := x509
  pemBlocks
    | [] => []
    | [a, b, c, d, e, f] => [[a, b, c], [d, e, f]]
    | text => [text]

def rootConfig (roots : List TrustRootConfig) : ChainConfig :=
  { chainConfig [] [] with trustRoots := roots }

def followCert (first : ChainConfig) (configs : List ChainConfig) : Except String CertACProvider :=
  newCertACProvider chainX509 first "org1" none [] [] >>= configs.foldlM (follow chainX509)

def followKey (first : ChainConfig) (configs : List ChainConfig) :
    Except String (PermissionedPkACProvider UInt8) :=
  newPermissionedPkACProvider keys first "org1" [] >>= configs.foldlM (follow keys)

def withPolicy (config : ChainConfig) (rule : String) : ChainConfig :=
  { config with resourcePolicies := [⟨"CUSTOM", some ⟨rule, [], []⟩⟩] }

def oneRoot : ChainConfig := rootConfig [⟨"org1", [[1, 0, 0]]⟩]
def twoRoots : ChainConfig := rootConfig [⟨"org1", [[1, 0, 0]]⟩, ⟨"org2", [[2, 0, 0]]⟩]

def intermediate : ChainConfig := rootConfig [⟨"org1", [[1, 0, 5, 1, 0, 0]]⟩]

def repeatedOrg : ChainConfig := rootConfig [⟨"org1", [[1, 0, 0]]⟩, ⟨"org1", [[1, 0, 0]]⟩]

lemma rootsOnly_twoRoots : RootsOnly chainX509 twoRoots := by
  have hchain : ∀ o : UInt8, buildCertificateChain chainX509 [o, 0, 0] =
      .ok [certificate o 0 0] := fun o => rfl
  have hlast : ∀ (o : UInt8) raw, UpdateRoot chainX509 [o, 0, 0] raw →
      StartRoot chainX509 [o, 0, 0] raw := by
    rintro o raw ⟨chain, hbuilt, c, hc, -, hraw⟩
    cases (hchain o).symm.trans hbuilt
    obtain rfl := mem_singleton.mp hc
    exact ⟨_, hchain o, _, rfl, hraw⟩
  intro root hroot text htext raw hraw
  have hroots : root = ⟨"org1", [[1, 0, 0]]⟩ ∨ root = ⟨"org2", [[2, 0, 0]]⟩ := by
    simpa [twoRoots, rootConfig] using hroot
  obtain rfl | rfl := hroots
  all_goals
    obtain rfl := mem_singleton.mp htext
    exact ⟨_, htext, hlast _ raw hraw⟩

end SmallChain

section Restarted
open SmallChain

theorem followed_agree_restarted_iff_grown :
    (∃ cp cp', followCert (withPolicy oneRoot "ANY") [withPolicy twoRoots "ALL"] = .ok cp ∧
      followCert (withPolicy twoRoots "ALL") [] = .ok cp' ∧ CertACProvider.Agree cp cp') ∧
    ∃ pp pp', followKey (withPolicy keyConfig "ANY") [withPolicy keyConfig "ALL"] = .ok pp ∧
      followKey (withPolicy keyConfig "ALL") [] = .ok pp' ∧
        PermissionedPkACProvider.Agree pp pp' := by
  refine ⟨⟨_, _, rfl, rfl, ?_⟩, ⟨_, _, rfl, rfl, ?_⟩⟩
  · refine ((followed_agree_restarted_iff chainX509 keys "org1" (withPolicy oneRoot "ANY")
      (withPolicy twoRoots "ALL") []).1 none none [] [] [] [] _ _ _ rfl rfl rfl).mpr ?_
    exact ⟨by decide +kernel, by decide +kernel, rootsOnly_twoRoots⟩
  · refine ((followed_agree_restarted_iff chainX509 keys "org1" (withPolicy keyConfig "ANY")
      (withPolicy keyConfig "ALL") []).2 [] [] _ _ _ rfl rfl rfl).mpr ?_
    exact ⟨rfl, by decide +kernel⟩

/-- A policy that is no longer configured stays until a restart, for both providers; so do an
intermediate certificate as a root and the second count of a repeated organization. -/
theorem followed_not_restarted :
    (followKey (withPolicy keyConfig "ANY") [keyConfig]).map (fun pp =>
        pp.acService.resourceNamePolicyMap.lookup "CUSTOM") = .ok (some ⟨"ANY", [], []⟩) ∧
    (followKey keyConfig []).map (fun pp =>
        pp.acService.resourceNamePolicyMap.lookup "CUSTOM") = .ok none ∧
    (followCert (withPolicy oneRoot "ANY") [oneRoot]).map (fun cp =>
        cp.acService.resourceNamePolicyMap.lookup "CUSTOM") = .ok (some ⟨"ANY", [], []⟩) ∧
    (followCert oneRoot []).map (fun cp =>
        cp.acService.resourceNamePolicyMap.lookup "CUSTOM") = .ok none ∧
    (followCert oneRoot [intermediate]).map (fun cp => poolRaws cp.opts) =
      .ok [[1, 0, 5], [1, 0, 0]] ∧
    (followCert intermediate []).map (fun cp => poolRaws cp.opts) = .ok [[1, 0, 0]] ∧
    (followCert oneRoot [repeatedOrg]).map (fun cp => cp.acService.orgNum) = .ok 2 ∧
    (followCert repeatedOrg []).map (fun cp => cp.acService.orgNum) = .ok 1 := by
  decide +kernel

end Restarted

end ChainMaker.Ac
