import ChainMaker.Ac.PublicPk

/-! What the majority rule of the public mode says about the configured admin keys. -/

namespace ChainMaker.Ac

namespace SmallChain

def publicConfig (admins : List Bytes) : ChainConfig where
  hash := "SHA256"
  authType := "public"
  trustRoots := [⟨"public", admins⟩]
  trustMembers := []
  consensusNodes := [⟨dposOrgId, []⟩]
  isDpos := true
  resourcePolicies := []

def twoSpellings : Principal where
  resourceName := "CHAIN_CONFIG-TRUST_ROOT_UPDATE"
  endorsement := [⟨⟨"", [1], .publicKey⟩, [1, 7]⟩, ⟨⟨"", [1, 10], .publicKey⟩, [1, 7]⟩]
  message := [7]
  targetOrg := ""

end SmallChain

namespace PkACProvider
open Finset
variable {κ : Type} {lib : KeyLib κ} {config : ChainConfig} {p p' : PkACProvider κ} {pol : Policy}
  {refined : List EndorsementEntry} {principal : Principal} {texts : List Bytes} {t : Bytes}

inductive Call where
  | verifyPrincipal (skip : Bool) (principal : Principal)
  | newMember (pbMember : PbMember)
  | refineEndorsements (endorsements : List EndorsementEntry) (msg : Bytes)

def handle (lib : KeyLib κ) (p : PkACProvider κ) : Call → PkACProvider κ
  | .verifyPrincipal skip principal => (p.verifyPrincipal lib skip principal).1
  | .newMember pbMember => (p.newMember lib pbMember).1
  | .refineEndorsements endorsements msg => (p.refineEndorsements lib endorsements msg).1

def configuredAdmins (lib : KeyLib κ) (config : ChainConfig) : List κ :=
  (adminRoots config.trustRoots).filterMap lib.publicKeyFromPEM

/-- The provider serves the configuration: it was created from it or has taken it over, and has
answered calls since. A configuration without trust roots leaves the admins as they were, so it
is not taken over. -/
inductive Serves (lib : KeyLib κ) : ChainConfig → PkACProvider κ → Prop where
  | created {config : ChainConfig} {p : PkACProvider κ} {evictions : List (List Bytes)}
    (h : newPkACProvider lib config evictions = .ok p) : Serves lib config p
  | watched {config config' : ChainConfig} {p : PkACProvider κ} (hp : Serves lib config p)
    (hroots : config'.trustRoots ≠ []) (h : (p.watch lib config').2 = .ok ()) :
    Serves lib config' (p.watch lib config').1
  | called {config : ChainConfig} {p : PkACProvider κ} (hp : Serves lib config p) (call : Call) :
    Serves lib config (p.handle lib call)

structure Configured (lib : KeyLib κ) (config : ChainConfig) (p : PkACProvider κ) : Prop where
  hashType : p.hashType = config.hash
  adminNum : p.adminNum = (configuredAdmins lib config).length
  adminMember : ∀ b b', p.adminMember.lookup b = some b' ↔
    b' = b ∧ ∃ k ∈ configuredAdmins lib config, lib.bytes k = b
  policies : p.resourceNamePolicyMap = PolicyMap.storeAll publicResourcePolicies ∅ ∧
    p.exceptionalPolicyMap = PolicyMap.storeAll publicExceptionalPolicies ∅
  /-- A member is cached under a text of its key, and as an admin only if the key is one. -/
  cache : p.memberCache.All fun text m => lib.publicKeyFromPEM text = some m.pk ∧
    (m.role = roleAdmin → m.pk ∈ configuredAdmins lib config)

lemma foldlM_addAdmin {roots : List Bytes} {admins admins' : GoMap Bytes Bytes × ℕ}
    {S : Bytes → Prop} (hS : ∀ b b', admins.1.lookup b = some b' ↔ b' = b ∧ S b)
    (h : roots.foldlM (addAdmin lib) admins = .ok admins') :
    admins'.2 = admins.2 + (roots.filterMap lib.publicKeyFromPEM).length ∧
      ∀ b b', admins'.1.lookup b = some b' ↔
        b' = b ∧ (S b ∨ ∃ k ∈ roots.filterMap lib.publicKeyFromPEM, lib.bytes k = b) := by
  induction roots generalizing admins S with
  | nil =>
    cases h
    simpa using hS
  | cons root roots ih =>
    obtain ⟨admins₁, hadd, hrest⟩ := bind_ok.mp h
    cases hroot : lib.publicKeyFromPEM root with
    | none =>
      simp only [addAdmin, hroot] at hadd
      cases hadd
    | some k =>
      simp only [addAdmin, hroot] at hadd
      cases hadd
      have hS' : ∀ b b', (admins.1.insert (lib.bytes k) (lib.bytes k)).lookup b = some b' ↔
          b' = b ∧ (S b ∨ lib.bytes k = b) := by
        intro b b'
        rw [GoMap.lookup_insert_ite]
        split_ifs with hb
        · simp [hb, eq_comm]
        · simp [hS, Ne.symm hb]
      obtain ⟨hnum, hlookup⟩ := ih hS' hrest
      rw [List.filterMap_cons_some hroot, List.length_cons]
      refine ⟨by rw [hnum]; omega, fun b b' => ?_⟩
      rw [hlookup, List.exists_mem_cons_iff, or_assoc]

lemma initAdminMembers_ok {roots : List TrustRootConfig}
    (hnone : roots = [] → p.adminMember = ∅ ∧ p.adminNum = 0)
    (h : p.initAdminMembers lib roots = .ok p') :
    ∃ m n, p' = { p with adminMember := m, adminNum := n } ∧
      n = ((adminRoots roots).filterMap lib.publicKeyFromPEM).length ∧
      ∀ b b', m.lookup b = some b' ↔
        b' = b ∧ ∃ k ∈ (adminRoots roots).filterMap lib.publicKeyFromPEM, lib.bytes k = b := by
  unfold initAdminMembers at h
  split at h
  case isTrue hroots =>
    cases h
    obtain ⟨hmember, hnum⟩ := hnone hroots
    subst hroots
    refine ⟨p.adminMember, p.adminNum, rfl, hnum, fun b b' => ?_⟩
    simp [hmember, adminRoots]
  case isFalse =>
  split at h
  case h_1 => cases h
  case h_2 m n hfold =>
  cases h
  have hempty : ∀ b b', (∅ : GoMap Bytes Bytes).lookup b = some b' ↔ b' = b ∧ False := by
    simp
  obtain ⟨hnum, hlookup⟩ := foldlM_addAdmin hempty hfold
  exact ⟨m, n, rfl, hnum.trans (Nat.zero_add _), by simpa only [false_or] using hlookup⟩

lemma initConsensusMember_ok (h : p.initConsensusMember config = .ok p') :
    ∃ c, p' = { p with consensusMember := c } := by
  unfold initConsensusMember initDPoSMember at h
  split at h
  case isFalse => cases h
  split at h
  case h_1 => cases h
  split at h
  case isTrue => cases h
  case isFalse => exact ⟨_, (Except.ok.inj h).symm⟩

lemma configured_newPkACProvider {evictions : List (List Bytes)}
    (h : newPkACProvider lib config evictions = .ok p) :
    Configured lib config p ∧ p.memberCache = .empty evictions := by
  unfold newPkACProvider at h
  dsimp only at h
  split at h
  case h_1 => cases h
  case h_2 hadmin =>
  split at h
  case h_1 => cases h
  case h_2 hconsensus =>
  cases h
  obtain ⟨m, n, rfl, hnum, hlookup⟩ := initAdminMembers_ok (fun _ => ⟨rfl, rfl⟩) hadmin
  obtain ⟨c, rfl⟩ := initConsensusMember_ok hconsensus
  exact ⟨⟨rfl, hnum, hlookup, ⟨rfl, rfl⟩, .empty evictions⟩, rfl⟩

section
variable (hp : Configured lib config p)
include hp

lemma configured_watch {config' : ChainConfig} (hroots : config'.trustRoots ≠ [])
    (h : (p.watch lib config').2 = .ok ()) : Configured lib config' (p.watch lib config').1 := by
  unfold watch at h ⊢
  dsimp only at h ⊢
  split at h
  case h_1 => cases h
  case h_2 hadmin =>
  split at h
  case h_1 => cases h
  case h_2 hconsensus =>
  obtain ⟨m, n, rfl, hnum, hlookup⟩ :=
    initAdminMembers_ok (fun hnil => absurd hnil hroots) hadmin
  obtain ⟨c, rfl⟩ := initConsensusMember_ok hconsensus
  exact ⟨rfl, hnum, hlookup, hp.policies, .clear _⟩

lemma Configured.publicNewPkMemberFromAcs_ok {pb : PbMember} {hashType : String} {m : PkMember κ}
    (h : publicNewPkMemberFromAcs lib pb p.adminMember p.consensusMember hashType = .ok m) :
    lib.publicKeyFromPEM pb.memberInfo = some m.pk ∧
      (m.role = roleAdmin → m.pk ∈ configuredAdmins lib config) := by
  unfold publicNewPkMemberFromAcs at h
  split at h
  case h_1 => cases h
  case h_2 pk hname =>
  have hpem := (namedKey_ok hname).2
  split at h
  case h_1 stored hlookup =>
    obtain ⟨rfl, k, hk, hbytes⟩ := (hp.adminMember _ _).mp hlookup
    have hpk : m.pk = pk := pk_newPkMemberFromParam_bytes h
    have hadmin : k = pk := lib.bytes_injective hbytes
    exact ⟨hpk ▸ hpem, fun _ => hpk ▸ hadmin ▸ hk⟩
  case h_2 =>
  have hpk : m.pk = pk := pk_newPkMemberFromParam_bytes h
  have hrole := (newPkMemberFromParam_ok h).2.2.2
  refine ⟨hpk ▸ hpem, fun hadmin => ?_⟩
  rw [hrole] at hadmin
  split at hadmin <;> exact absurd hadmin (by decide)

lemma Configured.newMember (pb : PbMember) : Configured lib config (p.newMember lib pb).1 ∧
      ∀ m, (p.newMember lib pb).2 = .ok m → lib.publicKeyFromPEM pb.memberInfo = some m.pk := by
  unfold PkACProvider.newMember
  split
  case h_1 cached hcached =>
    refine ⟨hp, fun m hm => ?_⟩
    cases hm
    exact (hp.cache _ _ hcached).1
  case h_2 =>
  split
  case h_1 => exact ⟨hp, fun _ hm => nomatch hm⟩
  case h_2 member hnew =>
  have hmember := hp.publicNewPkMemberFromAcs_ok hnew
  refine ⟨{ hp with cache := hp.cache.add hmember }, fun m hm => ?_⟩
  cases hm
  exact hmember.1

lemma Configured.refineEndorsements (endorsements : List EndorsementEntry) (msg : Bytes) :
    Configured lib config (p.refineEndorsements lib endorsements msg).1 ∧
      (∀ e ∈ (p.refineEndorsements lib endorsements msg).2, e ∈ endorsements ∧
        ∃ m : PkMember κ, lib.publicKeyFromPEM e.signer.memberInfo = some m.pk ∧
          m.verify lib config.hash msg e.signature = .ok ()) ∧
      ((p.refineEndorsements lib endorsements msg).2.map fun e => e.signer.memberInfo).Nodup :=
  have hmember : ∀ (p : PkACProvider κ) pb, Configured lib config p →
      Configured lib config ((source lib).newMember p pb).1 ∧
        ∀ m, ((source lib).newMember p pb).2 = .ok m →
          lib.publicKeyFromPEM pb.memberInfo = some m.pk := fun _ pb hp => hp.newMember pb
  refinePkEndorsements_sound lib hmember (fun _ hp => hp.hashType) hp endorsements msg

end

lemma fst_verifyPrincipal (skip : Bool) (principal : Principal) :
    (p.verifyPrincipal lib skip principal).1 =
      (p.refineEndorsements lib principal.endorsement principal.message).1 := by
  unfold verifyPrincipal
  split
  case h_1 hrefine => rw [hrefine]
  case h_2 hrefine =>
  rw [hrefine]
  split
  case isTrue => rfl
  case isFalse => split <;> rfl

lemma Serves.configured (h : Serves lib config p) : Configured lib config p := by
  induction h with
  | created h => exact (configured_newPkACProvider h).1
  | watched _ hroots h ih => exact configured_watch ih hroots h
  | called _ call ih =>
    cases call with
    | verifyPrincipal skip principal =>
      rw [handle, fst_verifyPrincipal]
      exact (ih.refineEndorsements _ _).1
    | newMember pb => exact (ih.newMember pb).1
    | refineEndorsements es msg => exact (ih.refineEndorsements es msg).1

lemma Configured.lookUpPolicyByResourceName (hp : Configured lib config p)
    (hp' : Configured lib config p') :
    p'.lookUpPolicyByResourceName = p.lookUpPolicyByResourceName := by
  funext resourceName
  simp only [PkACProvider.lookUpPolicyByResourceName, hp.policies, hp'.policies]

lemma verifyPrincipal_of_refineEndorsements
    (hrefine : p.refineEndorsements lib principal.endorsement principal.message = (p', refined))
    (hne : refined ≠ []) (hpol : p'.lookUpPolicyByResourceName principal.resourceName = .ok pol) :
    (p.verifyPrincipal lib false principal).2 =
      p'.verifyPrincipalPolicy principal.resourceName refined pol := by
  unfold verifyPrincipal
  rw [hrefine]
  split
  case h_1 hnil => exact absurd (Prod.ext_iff.mp hnil).2 hne
  case h_2 hpair =>
    cases hpair
    simp [hpol]

lemma verifyPrincipalPolicy_majority (hrule : pol.rule = ruleMajority)
    (resourceName : String) (endorsements : List EndorsementEntry) :
    p.verifyPrincipalPolicy resourceName endorsements pol =
      p.verifyRuleMajorityCase endorsements := by
  rw [verifyPrincipalPolicy, hrule, if_neg (by decide), if_neg (by decide), if_pos rfl]

lemma verifyPrincipal_majority
    (hp : Configured lib config p)
    (hpol : p.lookUpPolicyByResourceName principal.resourceName = .ok pol)
    (hrule : pol.rule = ruleMajority) (h : (p.verifyPrincipal lib false principal).2 = .ok ()) :
    let r := p.refineEndorsements lib principal.endorsement principal.message
    (configuredAdmins lib config).length <
      2 * (r.1.getValidEndorsements {roleAdmin} r.2).length := by
  intro r
  have hr : Configured lib config r.1 := (hp.refineEndorsements _ _).1
  have hpol' : r.1.lookUpPolicyByResourceName principal.resourceName = .ok pol := by
    rw [hp.lookUpPolicyByResourceName hr, hpol]
  have hne : r.2 ≠ [] := by
    intro hnil
    have hrefine : p.refineEndorsements lib principal.endorsement principal.message = (r.1, []) :=
      Prod.ext rfl hnil
    rw [verifyPrincipal, hrefine] at h
    cases h
  rw [verifyPrincipal_of_refineEndorsements (Prod.ext rfl rfl) hne hpol',
    verifyPrincipalPolicy_majority hrule, verifyRuleMajorityCase] at h
  split at h
  case isFalse => cases h
  case isTrue hlt => exact hr.adminNum ▸ hlt

section Keys
variable [DecidableEq κ]

def signedAdmins (lib : KeyLib κ) (config : ChainConfig) (principal : Principal) : Finset κ :=
  (configuredAdmins lib config).toFinset.filter fun k => principal.endorsement.any fun e =>
    lib.verifyWithOpts k config.hash principal.message e.signature

/-- Texts that name at most half of the admin keys are at most half of the configured count. -/
def SpellingsFit (lib : KeyLib κ) (admins : List κ) : Prop :=
  ∀ texts : Finset Bytes, (∀ t ∈ texts, ∃ k ∈ admins, lib.publicKeyFromPEM t = some k) →
    2 * (texts.image lib.publicKeyFromPEM).card ≤ admins.toFinset.card →
    2 * texts.card ≤ admins.length

def countedTexts (p : PkACProvider κ) (refined : List EndorsementEntry) : Finset Bytes :=
  ((p.getValidEndorsements {roleAdmin} refined).map fun e => e.signer.memberInfo).toFinset

omit [DecidableEq κ] in
lemma card_countedTexts (h : (refined.map fun e => e.signer.memberInfo).Nodup) :
    (p.countedTexts refined).card = (p.getValidEndorsements {roleAdmin} refined).length := by
  have hsub : (p.getValidEndorsements {roleAdmin} refined).Sublist refined := List.filter_sublist
  rw [countedTexts, List.toFinset_card_of_nodup (h.sublist (hsub.map _)), List.length_map]

lemma Configured.mem_countedTexts (hp : Configured lib config p) (principal : Principal)
    (ht : t ∈ (p.refineEndorsements lib principal.endorsement principal.message).1.countedTexts
      (p.refineEndorsements lib principal.endorsement principal.message).2) :
    lib.supportsHash config.hash = true ∧
      ∃ k ∈ signedAdmins lib config principal, lib.publicKeyFromPEM t = some k := by
  obtain ⟨hr, hrefined, -⟩ := hp.refineEndorsements principal.endorsement principal.message
  generalize p.refineEndorsements lib principal.endorsement principal.message = r at *
  obtain ⟨e, he, rfl⟩ := List.mem_map.mp (List.mem_toFinset.mp ht)
  obtain ⟨he, hadmin⟩ := List.mem_filter.mp he
  obtain ⟨hmem, m, hm, hverify⟩ := hrefined e he
  obtain ⟨hhash, hsig⟩ := pkVerify_ok.mp hverify
  have hcached : ∃ c, r.1.getMemberFromCache e.signer = some c ∧ c.role = roleAdmin := by
    simpa [Option.any_eq_true] using hadmin
  obtain ⟨c, hc, hrole⟩ := hcached
  obtain ⟨hpem, hkey⟩ := hr.cache _ _ hc
  have hsame : m.pk = c.pk := Option.mem_unique hm hpem
  refine ⟨hhash, c.pk, mem_filter.mpr ⟨List.mem_toFinset.mpr (hkey hrole), ?_⟩, hpem⟩
  exact List.any_eq_true.mpr ⟨e, hmem, hsame ▸ hsig⟩

lemma card_image_publicKeyFromPEM_le {texts : Finset Bytes} {keys : Finset κ}
    (h : ∀ t ∈ texts, ∃ k ∈ keys, lib.publicKeyFromPEM t = some k) :
    (texts.image lib.publicKeyFromPEM).card ≤ keys.card := by
  have hsub : texts.image lib.publicKeyFromPEM ⊆ keys.image some := by
    intro o ho
    obtain ⟨t, ht, rfl⟩ := mem_image.mp ho
    obtain ⟨k, hk, hpem⟩ := h t ht
    exact mem_image.mpr ⟨k, hk, hpem.symm⟩
  exact (card_le_card hsub).trans card_image_le

lemma Configured.majority (hp : Configured lib config p)
    (hfit : lib.supportsHash config.hash = true → SpellingsFit lib (configuredAdmins lib config))
    {principal : Principal} {pol : Policy}
    (hpol : p.lookUpPolicyByResourceName principal.resourceName = .ok pol)
    (hrule : pol.rule = ruleMajority) (h : (p.verifyPrincipal lib false principal).2 = .ok ()) :
    (configuredAdmins lib config).toFinset.card < 2 * (signedAdmins lib config principal).card := by
  have hlt := verifyPrincipal_majority hp hpol hrule h
  have hnodup := (hp.refineEndorsements principal.endorsement principal.message).2.2
  dsimp only at hlt
  rw [← card_countedTexts hnodup] at hlt
  have hnamed := fun t ht => (hp.mem_countedTexts principal (t := t) ht).2
  have himage := card_image_publicKeyFromPEM_le hnamed
  obtain ⟨t₀, ht₀⟩ := card_pos.mp (Nat.pos_of_mul_pos_left (Nat.zero_lt_of_lt hlt))
  -- Otherwise the texts name at most half of the keys, so they are too few.
  by_contra hfew
  have hhalf := (Nat.mul_le_mul_left 2 himage).trans (not_lt.mp hfew)
  have htexts := hfit (hp.mem_countedTexts principal ht₀).1 _ (fun t ht => by
    obtain ⟨k, hk, hpem⟩ := hnamed t ht
    exact ⟨k, List.mem_toFinset.mp (mem_filter.mp hk).1, hpem⟩) hhalf
  exact absurd htexts (not_le.mpr hlt)

end Keys

/-! ### A key that signs under each of its texts -/

def adminEntry (t : Bytes) : EndorsementEntry := ⟨⟨"", t, .publicKey⟩, []⟩

structure Collected (lib : KeyLib κ) (config : ChainConfig) (texts : List Bytes)
    (r : PkRefining (PkACProvider κ)) : Prop where
  configured : Configured lib config r.provider
  evictions : r.provider.memberCache.evictions = []
  admins : r.provider.memberCache.All fun _ m => m.role = roleAdmin
  cached : ∀ t ∈ texts, ∃ m, r.provider.memberCache.get t = some m
  signers : r.refinedSigners = texts.toFinset
  refined : r.refinedEndorsement = texts.map adminEntry

def rootUpdate (texts : List Bytes) : Principal :=
  { resourceName := "CHAIN_CONFIG-TRUST_ROOT_UPDATE"
    endorsement := texts.map adminEntry
    message := []
    targetOrg := "" }

lemma Configured.lookUpPolicyByResourceName_rootUpdate (hp : Configured lib config p)
    (texts : List Bytes) :
    p.lookUpPolicyByResourceName (rootUpdate texts).resourceName = .ok pubPolicyMajorityAdmin := by
  rw [PkACProvider.lookUpPolicyByResourceName, hp.policies.1, PolicyMap.lookup_storeAll]
  rfl

section
variable (hhash : lib.supportsHash config.hash = true)
include hhash

lemma Configured.publicNewPkMemberFromAcs_admin (hp : Configured lib config p) {k : κ}
    (hpem : lib.publicKeyFromPEM t = some k) (hk : k ∈ configuredAdmins lib config) :
    publicNewPkMemberFromAcs lib (adminEntry t).signer p.adminMember p.consensusMember p.hashType =
      .ok ⟨"", k, roleAdmin⟩ := by
  have hadmin : p.adminMember.lookup (lib.bytes k) = some (lib.bytes k) :=
    (hp.adminMember _ _).mpr ⟨rfl, k, hk, rfl⟩
  simp [publicNewPkMemberFromAcs, namedKey, adminEntry, hpem, hadmin, newPkMemberFromParam,
    hp.hashType, hhash, lib.publicKeyFromDER_bytes]

lemma Collected.step {texts : List Bytes} {r : PkRefining (PkACProvider κ)}
    (hr : Collected lib config texts r) {t : Bytes} {k : κ}
    (hpem : lib.publicKeyFromPEM t = some k) (hk : k ∈ configuredAdmins lib config)
    {msg : Bytes} (hsig : lib.verifyWithOpts k config.hash msg [] = true) (hnew : t ∉ texts) :
    Collected lib config (texts ++ [t]) (refineEntry lib (source lib) msg r (adminEntry t)) := by
  obtain ⟨hconf, hmem⟩ := hr.configured.newMember (adminEntry t).signer
  -- Whether it was cached or not, the member found is the admin, and it is cached afterwards.
  have hfound : ∃ p m, r.provider.newMember lib (adminEntry t).signer = (p, .ok m) ∧
      p.memberCache.evictions = [] ∧ p.memberCache.All (fun _ m => m.role = roleAdmin) ∧
      (∀ t' ∈ texts ++ [t], ∃ m, p.memberCache.get t' = some m) := by
    unfold newMember
    split
    case h_1 m hget =>
      refine ⟨_, m, rfl, hr.evictions, hr.admins, ?_⟩
      rw [List.forall_mem_append, List.forall_mem_singleton]
      exact ⟨hr.cached, m, hget⟩
    case h_2 =>
    rw [hr.configured.publicNewPkMemberFromAcs_admin hhash hpem hk]
    refine ⟨_, _, rfl, ?_, hr.admins.add rfl, ?_⟩
    · change r.provider.memberCache.evictions.tail = []
      rw [hr.evictions, List.tail_nil]
    rw [List.forall_mem_append, List.forall_mem_singleton]
    refine ⟨fun t' ht' => ?_, _, BoundedCache.get_add_self _ _ _⟩
    have hne : t' ≠ t := fun h => hnew (h ▸ ht')
    obtain ⟨m, hm⟩ := hr.cached t' ht'
    exact ⟨m, (BoundedCache.get_add_of_ne hr.evictions hne).trans hm⟩
  obtain ⟨p, m, hfound, hevictions, hadmins, hcached⟩ := hfound
  rw [hfound] at hconf hmem
  have hm : m.pk = k := Option.mem_unique (hmem m rfl) hpem
  have hverify : m.verify lib p.hashType msg [] = .ok () :=
    pkVerify_ok.mpr ⟨hconf.hashType ▸ hhash, hconf.hashType ▸ hm ▸ hsig⟩
  have hfirst : t ∉ r.refinedSigners := by rwa [hr.signers, List.mem_toFinset]
  have hstep : refineEntry lib (source lib) msg r (adminEntry t) =
      ⟨p, insert t r.refinedSigners, r.refinedEndorsement ++ [adminEntry t]⟩ := by
    have hsource : (source lib).newMember r.provider (adminEntry t).signer = (p, .ok m) := hfound
    have hverify' : m.verify lib ((source lib).hashType p) msg (adminEntry t).signature = .ok () :=
      hverify
    simp only [refineEntry, hsource, hverify']
    exact if_neg hfirst
  rw [hstep]
  refine ⟨hconf, hevictions, hadmins, hcached, ?_, ?_⟩
  · rw [hr.signers, List.toFinset_append, List.toFinset_cons, List.toFinset_nil, union_comm]
    rfl
  · rw [hr.refined, List.map_append, List.map_singleton]

lemma collected_foldl (hp : Configured lib config p) (hcache : p.memberCache = .empty [])
    {msg : Bytes} (hnodup : texts.Nodup) (hadmins : ∀ t ∈ texts, ∃ k ∈ configuredAdmins lib config,
      lib.publicKeyFromPEM t = some k ∧ lib.verifyWithOpts k config.hash msg [] = true) :
    Collected lib config texts
      ((texts.map adminEntry).foldl (refineEntry lib (source lib) msg) ⟨p, ∅, []⟩) := by
  induction texts using List.reverseRecOn with
  | nil =>
    have hall : p.memberCache.All fun _ m => m.role = roleAdmin := by
      rw [hcache]
      exact .empty []
    exact ⟨hp, congrArg BoundedCache.evictions hcache, hall, List.forall_mem_nil _, rfl, rfl⟩
  | append_singleton texts t ih =>
    rw [List.nodup_append] at hnodup
    rw [List.forall_mem_append, List.forall_mem_singleton] at hadmins
    obtain ⟨k, hk, hpem, hsig⟩ := hadmins.2
    have hnew : t ∉ texts := fun h => hnodup.2.2 t h t List.mem_cons_self rfl
    rw [List.map_append, List.foldl_append]
    exact (ih hnodup.1 hadmins.1).step hhash hpem hk hsig hnew

lemma verifyPrincipal_rootUpdate (hp : Configured lib config p)
    (hcache : p.memberCache = .empty []) (hnodup : texts.Nodup)
    (hadmins : ∀ t ∈ texts, ∃ k ∈ configuredAdmins lib config,
      lib.publicKeyFromPEM t = some k ∧ lib.verifyWithOpts k config.hash [] [] = true)
    (hmany : (configuredAdmins lib config).length < 2 * texts.length) :
    (p.verifyPrincipal lib false (rootUpdate texts)).2 = .ok () := by
  let r := (texts.map adminEntry).foldl (refineEntry lib (source lib) []) ⟨p, ∅, []⟩
  have hall : Collected lib config texts r := collected_foldl hhash hp hcache hnodup hadmins
  have hrefine : p.refineEndorsements lib (rootUpdate texts).endorsement
    (rootUpdate texts).message =
      (r.provider, texts.map adminEntry) := Prod.ext rfl hall.refined
  have hne : texts.map adminEntry ≠ [] := by
    rintro hnil
    rw [List.map_eq_nil_iff.mp hnil] at hmany
    exact absurd hmany (Nat.not_lt_zero _)
  have hvalid : r.provider.getValidEndorsements {roleAdmin} (texts.map adminEntry) =
      texts.map adminEntry := by
    refine List.filter_eq_self.mpr (List.forall_mem_map.mpr fun t ht => ?_)
    obtain ⟨m, hm⟩ := hall.cached t ht
    have hget : r.provider.getMemberFromCache (adminEntry t).signer = some m := hm
    simp [hget, hall.admins t m hm]
  have hpol := hall.configured.lookUpPolicyByResourceName_rootUpdate texts
  rw [verifyPrincipal_of_refineEndorsements hrefine hne hpol,
    verifyPrincipalPolicy_majority rfl, verifyRuleMajorityCase, hvalid, List.length_map,
    hall.configured.adminNum, if_pos hmany]

end

section Majority
variable [DecidableEq κ]

/-- Whatever the signature scheme, a majority accepted under the configuration is one of more
than half of its distinct admin keys. -/
def MajoritySound (lib : KeyLib κ) (config : ChainConfig) : Prop :=
  ∀ verify (p : PkACProvider κ) principal pol, Serves (lib.withVerify verify) config p →
    p.lookUpPolicyByResourceName principal.resourceName = .ok pol → pol.rule = ruleMajority →
    (p.verifyPrincipal (lib.withVerify verify) false principal).2 = .ok () →
    (configuredAdmins lib config).toFinset.card <
      2 * (signedAdmins (lib.withVerify verify) config principal).card

theorem majoritySound_iff (hnew : (newPkACProvider lib config []).isOk = true) :
    MajoritySound lib config ↔
      (lib.supportsHash config.hash = true → SpellingsFit lib (configuredAdmins lib config)) := by
  constructor
  · intro hsound hhash texts hnamed hhalf
    obtain ⟨p, hp⟩ := isOk_iff.mp hnew
    -- The keys of the texts sign, and no others.
    let keys := texts.image lib.publicKeyFromPEM
    let lib' := lib.withVerify fun k _ _ _ => decide (some k ∈ keys)
    have hserves : Serves lib' config p := .created hp
    have hadmins : ∀ t ∈ texts.toList, ∃ k ∈ configuredAdmins lib' config,
        lib'.publicKeyFromPEM t = some k ∧ lib'.verifyWithOpts k config.hash [] [] = true := by
      intro t ht
      have ht : t ∈ texts := mem_toList.mp ht
      obtain ⟨k, hk, hpem⟩ := hnamed t ht
      exact ⟨k, hk, hpem, decide_eq_true (mem_image.mpr ⟨t, ht, hpem⟩)⟩
    by_contra hmany
    have hmany : (configuredAdmins lib' config).length < 2 * texts.toList.length := by
      rw [length_toList]
      exact not_le.mp hmany
    have hok := verifyPrincipal_rootUpdate (by exact hhash) hserves.configured
      (configured_newPkACProvider hp).2 texts.nodup_toList hadmins hmany
    have hmajority := hsound _ p (rootUpdate texts.toList) _ hserves
      (hserves.configured.lookUpPolicyByResourceName_rootUpdate _) rfl hok
    have hsigned : (signedAdmins lib' config (rootUpdate texts.toList)).card ≤ keys.card := by
      refine card_le_card_of_injOn some (fun k hk => ?_) (Option.some_injective _).injOn
      obtain ⟨e, -, hsig⟩ := List.any_eq_true.mp (mem_filter.mp hk).2
      exact of_decide_eq_true hsig
    exact absurd hhalf (not_le.mpr (hmajority.trans_le (Nat.mul_le_mul_left 2 hsigned)))
  · intro hfit verify p principal pol hserves hpol hrule hok
    exact hserves.configured.majority hfit hpol hrule hok

end Majority

section Spelled
open SmallChain

def soleKeys : KeyLib UInt8 := { keys with publicKeyFromPEM := keys.publicKeyFromDER }

/-- Every key has one text only. -/
theorem majoritySound_iff_sole :
    (newPkACProvider soleKeys (publicConfig [[1], [2], [3]]) []).isOk = true ∧
      MajoritySound soleKeys (publicConfig [[1], [2], [3]]) := by
  have hnew : (newPkACProvider soleKeys (publicConfig [[1], [2], [3]]) []).isOk = true := by
    decide +kernel
  refine ⟨hnew, (majoritySound_iff hnew).mpr fun _ texts hnamed hhalf => ?_⟩
  have htext : ∀ t k, soleKeys.publicKeyFromPEM t = some k → t = [k] := by
    rintro (_ | ⟨b, _ | _⟩) k h <;> cases h
    rfl
  have hinj : (texts.image soleKeys.publicKeyFromPEM).card = texts.card := by
    refine card_image_of_injOn fun t ht t' ht' heq => ?_
    obtain ⟨k, -, hk⟩ := hnamed t ht
    rw [htext t k hk, htext t' k (heq.symm.trans hk)]
  have hthree : (configuredAdmins soleKeys (publicConfig [[1], [2], [3]])).toFinset.card =
      (configuredAdmins soleKeys (publicConfig [[1], [2], [3]])).length := by decide +kernel
  omega

/-- Of the two admins only the first has signed, under two of its texts. -/
theorem verifyPrincipal_twoSpellings :
    (newPkACProvider keys (publicConfig [[1], [2]]) []).map (fun p =>
      (p.lookUpPolicyByResourceName twoSpellings.resourceName,
        (p.verifyPrincipal keys false twoSpellings).2)) = .ok (.ok pubPolicyMajorityAdmin, .ok ()) ∧
    (configuredAdmins keys (publicConfig [[1], [2]])).toFinset = {1, 2} ∧
    signedAdmins keys (publicConfig [[1], [2]]) twoSpellings = {1} := by
  decide +kernel

end Spelled

end PkACProvider

end ChainMaker.Ac
