import ChainMaker.Ac.CertAuthentic
import ChainMaker.Ac.CertRevocation
import ChainMaker.Ac.CertUpdate
import ChainMaker.Lib.Quorum
import Mathlib.Data.Finset.Lattice.Fold

/-! What acceptance under `ALL` and `MAJORITY` says about the organizations of the chain, and how
trust members of other organizations enter the count. -/

namespace ChainMaker.Ac.CertACProvider
open Finset Option AccessControlService
variable {lib : X509} {cp : CertACProvider} {roots : List TrustRootConfig} {orgList : Finset String}

def chainOrgs (cp : CertACProvider) : Finset String := cp.acService.orgList.keys.toFinset

def outsideOrgs (cp : CertACProvider) (roleOk : Role → Bool) : Finset String :=
  ((cp.trustMembers.entries.values.filter fun t => roleOk (toUpper t.role)).map
    fun t => t.orgId).toFinset \ cp.chainOrgs

variable {roleOk : Role → Bool} {roleList : Finset Role} {localOrgId : String} {org : String}

lemma mem_outsideOrgs : org ∈ cp.outsideOrgs roleOk ↔ org ∉ cp.chainOrgs ∧ ∃ t,
      cp.trustMembers.lookup t.memberInfo = some t ∧
        roleOk (toUpper t.role) = true ∧ t.orgId = org := by
  simp only [outsideOrgs, mem_sdiff, List.mem_toFinset, List.mem_map, List.mem_filter,
    GoMap.mem_values]
  constructor
  · rintro ⟨⟨t, ⟨⟨info, hlookup⟩, hrole⟩, rfl⟩, hout⟩
    have hkey : t.memberInfo = info := cp.trustMembers.keyed info t hlookup
    exact ⟨hout, t, hkey ▸ hlookup, hrole, rfl⟩
  · rintro ⟨hout, t, hlookup, hrole, rfl⟩
    exact ⟨⟨t, ⟨⟨t.memberInfo, hlookup⟩, hrole⟩, rfl⟩, hout⟩

/-- An authentic refined endorsement of type `CERT`: unless it is that of a trust member, its
certificate was verified against an organization of the chain. -/
structure Genuine (lib : X509) (cp : CertACProvider) (msg : Bytes) (e : EndorsementEntry) :
    Prop where
  memberType : e.signer.memberType = .cert
  authentic : Authentic lib cp.trustMembers msg e
  onChain : cp.trustMembers.lookup e.signer.memberInfo = none → e.signer.orgId ∈ cp.chainOrgs

/-- The cached members are those of their texts, and of the chain unless they are trust members. -/
def CacheSettled (lib : X509) (cp : CertACProvider) : Prop :=
  cp.acService.memberCache.All fun info cached =>
    memberNamed lib cp.trustMembers info = .ok cached.member ∧
      (cp.trustMembers.lookup info = none → cached.member.orgId ∈ cp.chainOrgs)

lemma Resolves.onChain {pb : PbMember} {info : MemberCached CertificateMember}
    (h : Resolves lib cp pb info) (hnone : cp.trustMembers.lookup pb.memberInfo = none) :
    info.member.orgId ∈ cp.chainOrgs := by
  cases h with
  | trusted hlookup => cases hnone.symm.trans hlookup
  | verified _ _ _ _ _ hverify =>
    exact List.mem_toFinset.mpr (AList.lookup_isSome.mp (verifyMember_ok hverify).2)

lemma CacheSettled.accepts {cp' : CertACProvider} {e : EndorsementEntry} {msg : Bytes}
    {info : MemberCached CertificateMember} (h : cp.CacheSettled lib)
    (haccepts : Accepts lib cp e msg e.signer.memberInfo info cp') :
    cp.SameLists cp' ∧ cp'.CacheSettled lib ∧
      memberNamed lib cp.trustMembers e.signer.memberInfo = .ok info.member ∧
      (cp.trustMembers.lookup e.signer.memberInfo = none → info.member.orgId ∈ cp.chainOrgs) := by
  cases haccepts with
  | cached hget => exact ⟨.refl cp, h, h _ _ hget⟩
  | fresh _ hnew _ =>
    exact ⟨⟨_, _, rfl⟩, h.add ⟨hnew.named, hnew.onChain⟩, hnew.named, hnew.onChain⟩

/-- What holds before each entry of a list of type `CERT`. -/
structure Refining.Settled (lib : X509) (cp : CertACProvider) (msg : Bytes) (r : Refining) :
    Prop where
  lists : cp.SameLists r.cp
  cache : r.cp.CacheSettled lib
  genuine : ∀ e ∈ r.refinedEndorsement,
    ClaimsOrg lib cp.trustMembers e → Genuine lib cp msg e

lemma Refining.Settled.step {msg : Bytes} {r : Refining} {entry : EndorsementEntry}
    (hr : r.Settled lib cp msg) (htype : entry.signer.memberType = .cert) :
    (Refining.refineEntry lib msg r entry).Settled lib cp msg := by
  have hresolve : r.resolve entry = some (r.cp, entry, entry.signer.memberInfo) := by
    simp only [resolve, htype]
  have hstep : RefineStep lib msg r entry (Refining.refineEntry lib msg r entry) :=
    refineEntry_step msg r entry
  generalize Refining.refineEntry lib msg r entry = r' at hstep ⊢
  cases hstep with
  | unresolved => exact hr
  | refused hresolved =>
    cases hresolve.symm.trans hresolved
    exact ⟨hr.lists, hr.cache, hr.genuine⟩
  | repeated hresolved haccept =>
    cases hresolve.symm.trans hresolved
    obtain ⟨info, haccepts⟩ := accepts_of_accept haccept
    obtain ⟨hlists, hcache, -⟩ := hr.cache.accepts haccepts
    exact ⟨hr.lists.trans hlists, hcache, hr.genuine⟩
  | counted hresolved haccept hnew =>
    cases hresolve.symm.trans hresolved
    obtain ⟨info, haccepts⟩ := accepts_of_accept haccept
    obtain ⟨hlists, hcache, hnamed, honChain⟩ := hr.cache.accepts haccepts
    refine ⟨hr.lists.trans hlists, hcache, List.forall_mem_append.mpr ⟨hr.genuine,
      List.forall_mem_singleton.mpr fun hclaims => ?_⟩⟩
    have hcached := hr.cache
    obtain ⟨members, certs, hcp⟩ := hr.lists
    rw [hcp] at hnamed honChain
    have hsound : r.Sound lib cp.trustMembers := by
      refine ⟨by rw [hcp], fun text info hget _ => ?_⟩
      have hkept := (hcached text info hget).1
      rwa [hcp] at hkept
    have hauthentic :=
      (authentic_iff_claimsOrg hsound (.inl (.inl htype)) hresolve haccept hnew).mpr hclaims
    refine ⟨htype, hauthentic, fun hnone => ?_⟩
    obtain ⟨m, hm, -, horg⟩ := hauthentic
    rw [← horg, ← Except.ok.inj (hnamed.symm.trans hm)]
    exact honChain hnone

/-- The endorsements of type `CERT` that a call returns are genuine where they claim the
organization of their member, and the members it caches are those of their texts. -/
lemma refineEndorsements_genuine (hcache : cp.CacheSettled lib)
    {endorsements : List EndorsementEntry} (msg : Bytes)
    (htype : ∀ e ∈ endorsements, e.signer.memberType = .cert) :
    let r := cp.refineEndorsements lib endorsements msg
    r.1.CacheSettled lib ∧ r.1.CacheNamed lib ∧
      ∀ e ∈ r.2, ClaimsOrg lib cp.trustMembers e → Genuine lib r.1 msg e := by
  have hend : (cp.refining lib endorsements msg).Settled lib cp msg := by
    refine List.foldlRecOn endorsements _ ⟨.refl cp, hcache, List.forall_mem_nil _⟩ ?_
    exact fun r hr entry hentry => hr.step (htype entry hentry)
  refine ⟨hend.cache, fun info cached hget => (hend.cache info cached hget).1,
    fun e he hclaims => ?_⟩
  have hgenuine := hend.genuine e he hclaims
  obtain ⟨_, _, hcp⟩ := hend.lists
  change Genuine lib (cp.refining lib endorsements msg).cp msg e
  rw [hcp]
  exact ⟨hgenuine.memberType, hgenuine.authentic, hgenuine.onChain⟩

def Signed (lib : X509) (cp : CertACProvider) (es : List EndorsementEntry) (roles : List Role)
    (org : String) : Prop :=
  ∃ e ∈ es, e.signer.orgId = org ∧ ∃ m,
    memberNamed lib cp.trustMembers e.signer.memberInfo = .ok m ∧ m.orgId = org ∧
      (roles = [] ∨ m.role ∈ roles)

def requiredOrgs (cp : CertACProvider) (p : Policy) : Finset String :=
  if p.orgList = [] then cp.chainOrgs else p.orgList.toFinset

def Accepted (cp : CertACProvider) (p : Policy) (es : List EndorsementEntry) : Prop :=
  ∃ principal refined : Principal, refined.endorsement = es ∧
    cp.acService.verifyPrincipalPolicy principal refined p = .ok ()

open scoped Classical in
structure OrgSound (lib : X509) (cp : CertACProvider) : Prop where
  all : ∀ msg es p, (∀ e ∈ es, Genuine lib cp msg e) → p.rule = ruleAll → cp.Accepted p es →
    ∀ org ∈ cp.requiredOrgs p, Signed lib cp es p.roleList org
  majority : ∀ msg es p, (∀ e ∈ es, Genuine lib cp msg e) → p.rule = ruleMajority →
    cp.Accepted p es →
      cp.chainOrgs.card < 2 * (cp.chainOrgs.filter (Signed lib cp es [roleAdmin])).card

/-! ### The two rules -/

def countedOrgs (cp : CertACProvider) (orgList : Finset String) (roleList : Finset Role)
    (es : List EndorsementEntry) : Finset String :=
  ((cp.acService.getValidEndorsements orgList roleList es).map fun e => e.signer.orgId).toFinset

variable {es : List EndorsementEntry} {msg : Bytes} {p : Policy}

lemma accepted_all_iff (hrule : p.rule = ruleAll) : cp.Accepted p es ↔
      (cp.countedOrgs p.orgList.toFinset p.roleList.toFinset es).card =
        if p.orgList = [] then cp.acService.orgNum else p.orgList.toFinset.card := by
  have hcase : ∀ principal refined : Principal, refined.endorsement = es →
      cp.acService.verifyPrincipalPolicy principal refined p =
        cp.acService.verifyPrincipalPolicyRuleAllCase p es := by
    intro principal refined hes
    simp [verifyPrincipalPolicy, hrule, hes, ruleAll, ruleForbidden,
      ruleMajority, ruleSelf, ruleAny]
  have hall : cp.acService.verifyPrincipalPolicyRuleAllCase p es = .ok () ↔
      (cp.countedOrgs p.orgList.toFinset p.roleList.toFinset es).card =
        if p.orgList = [] then cp.acService.orgNum else p.orgList.toFinset.card := by
    unfold verifyPrincipalPolicyRuleAllCase
      countValidEndorsements countOrgsFromEndorsements countedOrgs
    by_cases horgs : p.orgList = []
    · simp [horgs]
    · simp [horgs, List.toFinset_eq_empty_iff]
  constructor
  · rintro ⟨principal, refined, hes, hok⟩
    exact hall.mp (hcase principal refined hes ▸ hok)
  · intro h
    refine ⟨⟨"", es, [], ""⟩, ⟨"", es, [], ""⟩, rfl, ?_⟩
    rw [hcase _ _ rfl]
    exact hall.mpr h

lemma accepted_majority_iff (hrule : p.rule = ruleMajority) : cp.Accepted p es ↔
    cp.acService.orgNum < 2 * (cp.countedOrgs ∅ {roleAdmin} es).card := by
  have hcase : ∀ principal refined : Principal, refined.endorsement = es →
      (cp.acService.verifyPrincipalPolicy principal refined p = .ok () ↔
        cp.acService.orgNum < 2 * (cp.countedOrgs ∅ {roleAdmin} es).card) := by
    intro principal refined hes
    simp [verifyPrincipalPolicy, hrule, hes, ruleForbidden, ruleMajority,
      verifyPrincipalPolicyRuleMajorityCase,
      countValidEndorsements, countOrgsFromEndorsements, countedOrgs]
  constructor
  · rintro ⟨principal, refined, hes, hok⟩
    exact (hcase principal refined hes).mp hok
  · intro h
    exact ⟨⟨"", es, [], ""⟩, ⟨"", es, [], ""⟩, rfl, (hcase _ _ rfl).mpr h⟩

lemma getMemberFromCache_some {acs : AccessControlService CertificateMember Organization}
    {pb : PbMember} {m : CertificateMember} (h : acs.getMemberFromCache pb = some m) :
    (∃ info, acs.lookUpMemberInCache pb.memberInfo = some info ∧ info.member = m) ∧
      m.orgId = pb.orgId := by
  unfold getMemberFromCache at h
  split at h
  case h_2 => cases h
  case h_1 info hget =>
  split at h
  case isFalse => cases h
  case isTrue horg =>
    cases h
    exact ⟨⟨info, hget, rfl⟩, horg⟩

lemma signed_of_counted (hcache : cp.CacheNamed lib) (hes : ∀ e ∈ es, Genuine lib cp msg e)
    {roles : List Role} (h : org ∈ cp.countedOrgs orgList roles.toFinset es) :
    (orgList = ∅ ∨ org ∈ orgList) ∧ Signed lib cp es roles org := by
  obtain ⟨e, he, rfl⟩ := List.mem_map.mp (List.mem_toFinset.mp h)
  obtain ⟨hmem, hvalid⟩ := List.mem_filter.mp he
  simp only [Bool.and_eq_true, Bool.or_eq_true, decide_eq_true_eq, List.toFinset_eq_empty_iff,
    List.mem_toFinset] at hvalid
  refine ⟨hvalid.1, e, hmem, rfl, ?_⟩
  rcases hvalid.2 with hroles | hrole
  · obtain ⟨m, hnamed, -, horg⟩ := (hes e hmem).authentic
    exact ⟨m, hnamed, horg, .inl hroles⟩
  · obtain ⟨m, hget, hrole⟩ := (any_eq_true _ _).mp hrole
    obtain ⟨⟨info, hcached, rfl⟩, horg⟩ := getMemberFromCache_some hget
    exact ⟨info.member, hcache _ info hcached, horg, .inr (of_decide_eq_true hrole)⟩

lemma countedOrgs_subset (hcache : cp.CacheNamed lib) (hes : ∀ e ∈ es, Genuine lib cp msg e)
    (hrole : ∀ role, roleList = ∅ ∨ role ∈ roleList → roleOk role = true) :
    cp.countedOrgs orgList roleList es ⊆ cp.chainOrgs ∪ cp.outsideOrgs roleOk := by
  intro org h
  obtain ⟨e, he, rfl⟩ := List.mem_map.mp (List.mem_toFinset.mp h)
  obtain ⟨hmem, hvalid⟩ := List.mem_filter.mp he
  simp only [Bool.and_eq_true, Bool.or_eq_true, decide_eq_true_eq] at hvalid
  have hgenuine := hes e hmem
  by_cases hchain : e.signer.orgId ∈ cp.chainOrgs
  · exact mem_union_left _ hchain
  refine mem_union_right _ (mem_outsideOrgs.mpr ⟨hchain, ?_⟩)
  cases hlookup : cp.trustMembers.lookup e.signer.memberInfo with
  | none => exact (hchain (hgenuine.onChain hlookup)).elim
  | some t =>
    have hkey : t.memberInfo = e.signer.memberInfo := cp.trustMembers.keyed _ t hlookup
    obtain ⟨m, hnamed, -, horg⟩ := hgenuine.authentic
    have hparam := hnamed
    simp only [memberNamed, hlookup] at hparam
    refine ⟨t, hkey ▸ hlookup, hrole _ ?_, (memberNamed_trusted hlookup hnamed).symm.trans horg⟩
    rcases hvalid.2 with hroles | hcached
    · exact .inl hroles
    -- The cached member is the configured one, so its role is the configured role.
    obtain ⟨m', hget, hin⟩ := (any_eq_true _ _).mp hcached
    obtain ⟨⟨info, hinfo, rfl⟩, -⟩ := getMemberFromCache_some hget
    have hsame : info.member = m := Except.ok.inj ((hcache _ info hinfo).symm.trans hnamed)
    have hmrole : m.role = toUpper t.role := role_newCertMemberFromParam hparam
    rw [← hmrole, ← hsame]
    exact .inr (of_decide_eq_true hin)

lemma disjoint_outsideOrgs (roleOk : Role → Bool) : Disjoint cp.chainOrgs (cp.outsideOrgs roleOk) :=
  disjoint_sdiff

/-! ### Every choice of organizations has signers

For a set of organizations of the chain and of trust members there are certificates, cached
members and endorsements that come from exactly these organizations. -/

def SameConfig (cp cp' : CertACProvider) : Prop :=
  cp'.acService.orgList = cp.acService.orgList ∧ cp'.acService.orgNum = cp.acService.orgNum ∧
    cp'.trustMembers = cp.trustMembers

def signerCert (orgOf : Bytes → String) (info : Bytes) : Certificate :=
  ⟨info, [orgOf info], [roleAdmin], 0, [], [], false, [1]⟩

def signerLib (orgOf : Bytes → String) : X509 where
  pemBlocks text := [text]
  parseCertificate info := .ok (signerCert orgOf info)
  buildCertificateChain := id
  verify _ _ := .error ""
  head_of_verify := by simp
  verifyWithOpts _ _ _ := true
  parseCRL _ := .error ""
  checkCRLSignature _ _ := .ok ()
  unmarshalTexts _ := .error ""

def signerMember (orgOf : Bytes → String) (trustMembers : TrustMembers) (info : Bytes) :
    CertificateMember :=
  match trustMembers.lookup info with
  | some t => ⟨t.orgId, signerCert orgOf info, toUpper t.role⟩
  | none => ⟨orgOf info, signerCert orgOf info, roleAdmin⟩

lemma memberNamed_signerLib (orgOf : Bytes → String) (trustMembers : TrustMembers)
    (info : Bytes) : memberNamed (signerLib orgOf) trustMembers info =
      .ok (signerMember orgOf trustMembers info) := by
  have hparse : (signerLib orgOf).parseMemberInfo info = .ok (signerCert orgOf info) := rfl
  have hadmin : toUpper roleAdmin = roleAdmin := by decide
  cases hlookup : trustMembers.lookup info with
  | some t =>
    simp [memberNamed, signerMember, hlookup, newCertMemberFromParam, hparse, Except.map]
  | none =>
    simp [memberNamed, signerMember, hlookup, newMemberFromCertPem, hparse, Certificate.orgId,
      signerCert, hadmin]

lemma exists_unused_length (trustMembers : TrustMembers) :
    ∃ n, ∀ info, n ≤ info.length → trustMembers.lookup info = none := by
  refine ⟨trustMembers.entries.keys.toFinset.sup List.length + 1, fun info hlen => ?_⟩
  by_contra hsome
  have hmem : info ∈ trustMembers.entries.keys.toFinset := by
    rw [List.mem_toFinset, ← AList.mem_keys, ← AList.lookup_isSome]
    exact isSome_iff_ne_none.mpr hsome
  have hle : info.length ≤ trustMembers.entries.keys.toFinset.sup List.length :=
    le_sup (f := List.length) hmem
  omega

lemma exists_signers (hadmin : roleOk roleAdmin = true) {W : Finset String}
    (hW : W ⊆ cp.chainOrgs ∪ cp.outsideOrgs roleOk) :
    ∃ (lib : X509) (cp' : CertACProvider) (es : List EndorsementEntry),
      cp.SameConfig cp' ∧ cp'.CacheNamed lib ∧ (∀ e ∈ es, Genuine lib cp' [] e) ∧
      (∀ e ∈ es, ∃ m, cp'.acService.getMemberFromCache e.signer = some m ∧ roleOk m.role = true) ∧
      (es.map fun e => e.signer.orgId).toFinset = W := by
  obtain ⟨n, hn⟩ := exists_unused_length cp.trustMembers
  have htrusted : ∀ org, ∃ t : TrustMemberConfig, org ∈ W → org ∉ cp.chainOrgs →
      cp.trustMembers.lookup t.memberInfo = some t ∧ roleOk (toUpper t.role) = true ∧
        t.orgId = org := by
    intro org
    by_cases horg : org ∈ W ∧ org ∉ cp.chainOrgs
    · have hout := (mem_union.mp (hW horg.1)).resolve_left horg.2
      obtain ⟨-, t, ht⟩ := mem_outsideOrgs.mp hout
      exact ⟨t, fun _ _ => ht⟩
    · exact ⟨⟨[], "", ""⟩, fun h₁ h₂ => (horg ⟨h₁, h₂⟩).elim⟩
  choose trusted htrusted using htrusted
  -- An organization of the chain gets a text that is too long for a trust member.
  let orgs := W.toList
  let text : String → Bytes := fun org =>
    if org ∈ cp.chainOrgs then List.replicate (n + orgs.idxOf org) 0 else (trusted org).memberInfo
  let orgOf : Bytes → String := fun info => orgs.getD (info.length - n) ""
  let member := signerMember orgOf cp.trustMembers
  let cache := BoundedCache.ofKeys (fun info => MemberCached.mk (member info)
    [signerCert orgOf info]) (orgs.map text)
  let cp' := cp.withService { cp.acService with memberCache := cache }
  have hmember : ∀ org ∈ W, (member (text org)).orgId = org ∧
      roleOk (member (text org)).role = true ∧
      (cp.trustMembers.lookup (text org) = none → org ∈ cp.chainOrgs) := by
    intro org horg
    by_cases hchain : org ∈ cp.chainOrgs
    · have htext : text org = List.replicate (n + orgs.idxOf org) 0 := if_pos hchain
      have hnone : cp.trustMembers.lookup (text org) = none :=
        hn _ (by rw [htext, List.length_replicate]; omega)
      have hidx : orgs.idxOf org < orgs.length := List.idxOf_lt_length_of_mem (mem_toList.mpr horg)
      have horgOf : orgOf (text org) = org := by
        simp only [orgOf, htext, List.length_replicate, Nat.add_sub_cancel_left]
        rw [List.getD_eq_getElem?_getD, List.getElem?_eq_getElem hidx, getD_some,
          List.getElem_idxOf hidx]
      simp only [member, signerMember, hnone]
      exact ⟨horgOf, hadmin, fun _ => hchain⟩
    · obtain ⟨hlookup, hrole, horgId⟩ := htrusted org horg hchain
      have htext : text org = (trusted org).memberInfo := if_neg hchain
      simp only [member, signerMember, htext, hlookup]
      exact ⟨horgId, hrole, fun h => by cases h⟩
  refine ⟨signerLib orgOf, cp', orgs.map fun org => ⟨⟨org, text org, .cert⟩, []⟩,
    ⟨rfl, rfl, rfl⟩, ?_, ?_, ?_, ?_⟩
  · intro info cached hget
    change cache.get info = some cached at hget
    rw [BoundedCache.get_ofKeys] at hget
    split at hget
    · rw [← some.inj hget]
      exact memberNamed_signerLib orgOf cp.trustMembers info
    · cases hget
  · intro e he
    obtain ⟨org, horg, rfl⟩ := List.mem_map.mp he
    obtain ⟨horgId, -, hchain⟩ := hmember org (mem_toList.mp horg)
    exact ⟨rfl, ⟨member (text org), memberNamed_signerLib orgOf cp.trustMembers _, rfl, horgId⟩,
      hchain⟩
  · intro e he
    obtain ⟨org, horg, rfl⟩ := List.mem_map.mp he
    obtain ⟨horgId, hrole, -⟩ := hmember org (mem_toList.mp horg)
    have hget : cp'.acService.lookUpMemberInCache (text org) =
        some ⟨member (text org), [signerCert orgOf (text org)]⟩ := by
      change cache.get (text org) = _
      rw [BoundedCache.get_ofKeys, if_pos (List.mem_map_of_mem horg)]
    refine ⟨member (text org), ?_, hrole⟩
    simp only [getMemberFromCache, hget]
    exact if_pos horgId
  · ext org
    simp [orgs]

/-! ### The number of organizations

A new provider counts its organizations; an update takes the number of configured roots, which
is larger when one is repeated. -/

def OrgsCounted (cp : CertACProvider) : Prop :=
  cp.acService.orgList.keys.length ≤ cp.acService.orgNum

lemma Lists.length_keys {S : Bytes → Bytes → Prop}
    {orgList : GoMap String Organization} {opts : VerifyOptions} (h : Lists S roots orgList opts) :
    orgList.keys.length = (roots.map fun root => root.orgId).toFinset.card := by
  rw [← List.toFinset_card_of_nodup orgList.keys_nodup]
  congr 1
  ext o
  rw [List.mem_toFinset, List.mem_toFinset, ← h.orgs, AList.lookup_isSome, AList.mem_keys]

lemma OrgsCounted.of_new {config : ChainConfig} {store : Option Store}
    {evictions certEvictions : List (List Bytes)}
    (h : newCertACProvider lib config localOrgId store evictions certEvictions = .ok cp) :
    cp.OrgsCounted := by
  have hcreated := created_newCertACProvider h
  rw [OrgsCounted, hcreated.orgNum, hcreated.lists.length_keys]
  rfl

variable {cp' : CertACProvider}

lemma SameLists.orgsCounted (hlists : cp.SameLists cp') (h : cp.OrgsCounted) :
    cp'.OrgsCounted := by
  obtain ⟨_, _, rfl⟩ := hlists
  exact h

lemma length_keys_update
    (h : cp.initTrustRootsForUpdatingChainConfig lib roots localOrgId = .ok cp') :
    cp'.OrgsCounted := by
  obtain ⟨orgList, opts, localOrg, hlists, -, rfl⟩ := lists_update h
  rw [OrgsCounted, hlists.length_keys]
  exact (List.toFinset_card_le _).trans (List.length_map _).le

lemma OrgsCounted.watch (h : cp.OrgsCounted) (config : ChainConfig) :
    (cp.watch lib config).1.OrgsCounted := by
  unfold CertACProvider.watch
  simp only
  split
  case h_1 => exact h
  case h_2 cp₁ hroots =>
  have hcounted := length_keys_update hroots
  obtain ⟨_, _, hpolicies⟩ :=
    cp₁.acService.initResourcePolicy_frame config.resourcePolicies cp₁.localOrg.id
  rw [hpolicies]
  split
  · exact hcounted
  · exact hcounted

lemma OrgsCounted.handle (h : cp.OrgsCounted) (event : Event) :
    (cp.handle lib event).OrgsCounted := by
  have heffect : HandleEffect lib cp (cp.handle lib event) := handle_effect event
  generalize cp.handle lib event = cp' at heffect ⊢
  cases heffect with
  | refined endorsements msg => exact (sameLists_refining cp endorsements msg).orgsCounted h
  | member pb => exact (sameLists_newMember cp pb).orgsCounted h
  | lists hservice => rw [OrgsCounted, hservice]; exact h
  | watched config => exact h.watch config

/-! ### When acceptance is sound -/

lemma SameConfig.chainOrgs_eq (h : cp.SameConfig cp') : cp'.chainOrgs = cp.chainOrgs := by
  rw [chainOrgs, h.1]
  rfl

lemma SameConfig.outsideOrgs_eq (h : cp.SameConfig cp') (roleOk : Role → Bool) :
    cp'.outsideOrgs roleOk = cp.outsideOrgs roleOk := by
  rw [outsideOrgs, h.chainOrgs_eq, h.2.2]
  rfl

/-- The rules are sound for every content of the cache and every list of signers. -/
def AlwaysOrgSound (cp : CertACProvider) : Prop :=
  ∀ (lib : X509) (cp' : CertACProvider), cp.SameConfig cp' → cp'.CacheNamed lib → OrgSound lib cp'

/-- The organizations that only trust members bring in fit into what the number of organizations
exceeds the chain by. -/
def OutsidersFit (cp : CertACProvider) : Prop :=
  (cp.chainOrgs = ∅ ∨
    cp.chainOrgs.card + (cp.outsideOrgs fun _ => true).card ≤ cp.acService.orgNum) ∧
  cp.chainOrgs.card / 2 + (cp.outsideOrgs fun role => role = roleAdmin).card ≤
    cp.acService.orgNum / 2

lemma orgSound_of_outsidersFit (hcounted : cp.OrgsCounted) (hcache : cp.CacheNamed lib)
    (hfit : cp.OutsidersFit) : OrgSound lib cp := by
  classical
  have hnum : cp.chainOrgs.card ≤ cp.acService.orgNum := (List.toFinset_card_le _).trans hcounted
  refine ⟨fun msg es p hes hrule haccept org horg => ?_, fun msg es p hes hrule haccept => ?_⟩
  · have hcount := (accepted_all_iff hrule).mp haccept
    suffices hmem : org ∈ cp.countedOrgs p.orgList.toFinset p.roleList.toFinset es from
      (signed_of_counted hcache hes hmem).2
    by_cases horgs : p.orgList = []
    · rw [if_pos horgs] at hcount
      rw [requiredOrgs, if_pos horgs] at horg
      have hsub : cp.countedOrgs p.orgList.toFinset p.roleList.toFinset es ⊆
          cp.chainOrgs ∪ cp.outsideOrgs fun _ => true :=
        countedOrgs_subset hcache hes fun _ _ => rfl
      exact (Quorum.forall_subset_of_card_iff (disjoint_outsideOrgs _) hnum).mpr hfit.1 _ hsub
        hcount horg
    · rw [if_neg horgs] at hcount
      rw [requiredOrgs, if_neg horgs] at horg
      have hsub : cp.countedOrgs p.orgList.toFinset p.roleList.toFinset es ⊆
          p.orgList.toFinset := by
        intro org' horg'
        refine (signed_of_counted hcache hes horg').1.resolve_left ?_
        rwa [List.toFinset_eq_empty_iff]
      rwa [eq_of_subset_of_card_le hsub hcount.ge]
  · have hcount := (accepted_majority_iff hrule).mp haccept
    have hsub : cp.countedOrgs ∅ {roleAdmin} es ⊆
        cp.chainOrgs ∪ cp.outsideOrgs fun role => role = roleAdmin := by
      refine countedOrgs_subset hcache hes fun role hrole => ?_
      simpa using hrole
    have hmajority := (Quorum.forall_majority_iff (disjoint_outsideOrgs _)).mpr hfit.2 _ hsub hcount
    refine hmajority.trans_le (Nat.mul_le_mul_left 2 (card_le_card fun org horg => ?_))
    obtain ⟨hcounts, hchain⟩ := mem_inter.mp horg
    have hroles : ({roleAdmin} : Finset Role) = [roleAdmin].toFinset := rfl
    rw [hroles] at hcounts
    exact mem_filter.mpr ⟨hchain, (signed_of_counted hcache hes hcounts).2⟩

lemma countedOrgs_signers
    (h : ∀ e ∈ es, roleList = ∅ ∨
      ∃ m, cp.acService.getMemberFromCache e.signer = some m ∧ m.role ∈ roleList) :
    cp.countedOrgs ∅ roleList es = (es.map fun e => e.signer.orgId).toFinset := by
  have hall : cp.acService.getValidEndorsements ∅ roleList es = es := by
    refine List.filter_eq_self.mpr fun e he => ?_
    rcases h e he with hroles | ⟨m, hget, hrole⟩
    · simp [hroles]
    simp only [hget, any_some, decide_true, Bool.true_or, Bool.true_and, Bool.or_eq_true]
    exact .inr (decide_eq_true hrole)
  rw [countedOrgs, hall]

lemma outsidersFit_of_alwaysOrgSound (hcounted : cp.OrgsCounted) (h : cp.AlwaysOrgSound) :
    cp.OutsidersFit := by
  classical
  have hnum : cp.chainOrgs.card ≤ cp.acService.orgNum := (List.toFinset_card_le _).trans hcounted
  constructor
  · rw [← Quorum.forall_subset_of_card_iff (disjoint_outsideOrgs _) hnum]
    intro W hW hcard org horg
    obtain ⟨lib, cp', es, hconfig, hcache, hes, -, hW'⟩ := exists_signers rfl hW
    have hcounts : cp'.countedOrgs ∅ ∅ es = W := (countedOrgs_signers fun _ _ => .inl rfl).trans hW'
    have haccept : cp'.Accepted ⟨ruleAll, [], []⟩ es := by
      refine (accepted_all_iff rfl).mpr ?_
      rw [if_pos rfl, hconfig.2.1, ← hcard]
      exact congrArg card hcounts
    have horg' : org ∈ cp'.requiredOrgs ⟨ruleAll, [], []⟩ := by
      rw [requiredOrgs, if_pos rfl, hconfig.chainOrgs_eq]
      exact horg
    obtain ⟨e, he, rfl, -⟩ :=
      (h lib cp' hconfig hcache).all [] es _ hes rfl haccept org horg'
    rw [← hW', List.mem_toFinset]
    exact List.mem_map_of_mem he
  · rw [← Quorum.forall_majority_iff (disjoint_outsideOrgs _)]
    intro W hW hcard
    obtain ⟨lib, cp', es, hconfig, hcache, hes, hroles, hW'⟩ := exists_signers (decide_true ..) hW
    have hcounts : cp'.countedOrgs ∅ {roleAdmin} es = W := by
      refine (countedOrgs_signers fun e he => .inr ?_).trans hW'
      obtain ⟨m, hget, hrole⟩ := hroles e he
      exact ⟨m, hget, mem_singleton.mpr (of_decide_eq_true hrole)⟩
    have haccept : cp'.Accepted ⟨ruleMajority, [], []⟩ es := by
      refine (accepted_majority_iff rfl).mpr ?_
      rw [hcounts, hconfig.2.1]
      exact hcard
    have hmajority := (h lib cp' hconfig hcache).majority [] es _ hes rfl haccept
    rw [hconfig.chainOrgs_eq] at hmajority
    refine hmajority.trans_le (Nat.mul_le_mul_left 2 (card_le_card fun org horg => ?_))
    obtain ⟨hchain, e, he, rfl, -⟩ := mem_filter.mp horg
    refine mem_inter.mpr ⟨?_, hchain⟩
    rw [← hW', List.mem_toFinset]
    exact List.mem_map_of_mem he

theorem alwaysOrgSound_iff {config : ChainConfig} {localOrgId : String} {store : Option Store}
    {evictions certEvictions : List (List Bytes)}
    (hnew : newCertACProvider lib config localOrgId store evictions certEvictions = .ok cp)
    (events : List Event) :
    (events.foldl (handle lib) cp).AlwaysOrgSound ↔
      (events.foldl (handle lib) cp).OutsidersFit := by
  have hcounted : (events.foldl (handle lib) cp).OrgsCounted := by
    have hstart := OrgsCounted.of_new hnew
    clear hnew
    induction events generalizing cp with
    | nil => exact hstart
    | cons event events ih => exact ih (hstart.handle event)
  refine ⟨outsidersFit_of_alwaysOrgSound hcounted, fun hfit lib' cp' hconfig hcache => ?_⟩
  have hcounted' : cp'.OrgsCounted := by
    rw [OrgsCounted, hconfig.1, hconfig.2.1]
    exact hcounted
  have hfit' : cp'.OutsidersFit := by
    rw [OutsidersFit, hconfig.chainOrgs_eq, hconfig.outsideOrgs_eq, hconfig.outsideOrgs_eq,
      hconfig.2.1]
    exact hfit
  exact orgSound_of_outsidersFit hcounted' hcache hfit'

section Guest
open SmallChain

def guestMember : TrustMemberConfig := ⟨[3, 1, 9], "org3", "admin"⟩

def guestList : List EndorsementEntry :=
  [endorse admin [7], ⟨⟨"org3", guestMember.memberInfo, .cert⟩, guestMember.memberInfo ++ [7]⟩]

def guest : CertACProvider :=
  ((provider [1, 2] [guestMember]).refineEndorsements x509 guestList [7]).1

/-- An update lists the second organization twice, and so it makes room for an outsider. -/
theorem alwaysOrgSound_provider :
    let config := chainConfig [1, 2, 2] [{ guestMember with role := "client" }]
    let cp := handle x509 (provider [1, 2] []) (.watch config)
    (cp.outsideOrgs fun _ => true) = {"org3"} ∧ cp.AlwaysOrgSound := by
  intro config cp
  have hnew : newCertACProvider x509 (chainConfig [1, 2] []) "org1" none [] [] =
      .ok (provider [1, 2] []) := new_provider (by decide +kernel)
  exact ⟨by decide +kernel,
    (alwaysOrgSound_iff hnew [.watch config]).mpr ⟨.inr (by decide +kernel), by decide +kernel⟩⟩

/-- The second organization has not signed, and yet both rules accept. -/
theorem accepted_guestList :
    guestList.Forall (Genuine x509 guest [7]) ∧ guest.chainOrgs = {"org1", "org2"} ∧
      guest.Accepted policyAllTest guestList ∧ guest.Accepted policyConfig guestList ∧
      ¬ Signed x509 guest guestList [roleAdmin] "org2" := by
  have hfresh : (provider [1, 2] [guestMember]).CacheSettled x509 := BoundedCache.All.empty []
  have hrefined : ((provider [1, 2] [guestMember]).refineEndorsements x509 guestList [7]).2 =
      guestList := by decide +kernel
  have htype : ∀ e ∈ guestList, e.signer.memberType = .cert := by decide
  have hgenuine := (refineEndorsements_genuine hfresh [7] htype).2.2
  rw [hrefined] at hgenuine
  have hone := hgenuine (endorse admin [7]) (by decide +kernel) fun h => absurd h (by decide)
  refine ⟨⟨hone, hgenuine _ (by decide +kernel) rfl⟩, by decide +kernel,
    (accepted_all_iff rfl).mpr (by decide +kernel),
      (accepted_majority_iff rfl).mpr (by decide +kernel), ?_⟩
  rintro ⟨e, he, horg, -⟩
  simp only [guestList, List.mem_cons, List.not_mem_nil, or_false] at he
  rcases he with rfl | rfl
  · revert horg
    decide +kernel
  · revert horg
    decide +kernel

end Guest

end ChainMaker.Ac.CertACProvider
