import ChainMaker.Ac.CertRefine

/-! Histories of the certificate provider: what each call, callback and configuration update can
change, and what a new provider starts with. -/

namespace ChainMaker.Ac.CertACProvider
variable {lib : X509} {cp : CertACProvider} {cp₁ cp₂ cp₃ : CertACProvider}

inductive Event where
  | verifyPrincipal (skip : Bool) (principal : Principal)
  | getValidEndorsements (principal : Principal)
  | newMember (pbMember : PbMember)
  | getMemberStatus (pbMember : PbMember)
  | callback (payload : Payload)
  | watch (config : ChainConfig)
  /-- The ledger has new objects. -/
  | ledger (store : Option Store)

def handle (lib : X509) (cp : CertACProvider) : Event → CertACProvider
  | .verifyPrincipal skip principal => (cp.verifyPrincipal lib skip principal).1
  | .getValidEndorsements principal => (cp.getValidEndorsements lib principal).1
  | .newMember pbMember => (cp.newMember lib pbMember).1
  | .getMemberStatus pbMember => (cp.getMemberStatus lib pbMember).1
  | .callback payload => (cp.callback lib payload).1
  | .watch config => (cp.watch lib config).1
  | .ledger store => { cp with dataStore := store }

def SameLists (cp cp' : CertACProvider) : Prop :=
  ∃ members certs, cp' = { cp with
    acService := { cp.acService with memberCache := members }
    certCache := certs }

lemma SameLists.refl (cp : CertACProvider) : cp.SameLists cp := ⟨_, _, rfl⟩

lemma SameLists.trans (h₁ : cp₁.SameLists cp₂) (h₂ : cp₂.SameLists cp₃) : cp₁.SameLists cp₃ := by
  obtain ⟨_, _, rfl⟩ := h₁
  obtain ⟨members, certs, rfl⟩ := h₂
  exact ⟨members, certs, rfl⟩

lemma Resolved.sameLists {r : Refining} {entry e : EndorsementEntry} {text : Bytes}
    (h : Resolved r entry cp e text) : r.cp.SameLists cp := by
  obtain ⟨cache, rfl⟩ := h.provider
  exact ⟨r.cp.acService.memberCache, cache, rfl⟩

/-! What a call leaves in the caches: certificates under their ids, and members that were resolved.
-/

section
variable {P : CertACProvider → Prop} (hcerts : ∀ cp cache, P cp → P { cp with certCache := cache })
  (hmember : ∀ cp pb text info, P cp → Resolves lib cp pb info →
    (pb.Certified → text = pb.memberInfo) →
    P (cp.withService (cp.acService.addMemberToCache text info)))
include hcerts hmember

lemma refining_induction (h : P cp) (endorsements : List EndorsementEntry) (msg : Bytes) :
    P (cp.refining lib endorsements msg).cp := by
  induction endorsements using List.reverseRecOn with
  | nil => exact h
  | append_singleton entries entry ih =>
    rw [refining, List.foldl_append]
    change P (Refining.refineEntry lib msg (cp.refining lib entries msg) entry).cp
    generalize cp.refining lib entries msg = r at ih ⊢
    have hresolved : ∀ {cp e text}, r.resolve entry = some (cp, e, text) → P cp := by
      intro cp e text hresolve
      obtain ⟨cache, rfl⟩ := (resolved_of_resolve hresolve).provider
      exact hcerts _ cache ih
    have haccepted : ∀ {cp cp' e text}, r.resolve entry = some (cp, e, text) →
        Refining.accept lib cp e msg text = some cp' → P cp' := by
      intro cp cp' e text hresolve haccept
      obtain ⟨info, haccepts⟩ := accepts_of_accept haccept
      cases haccepts with
      | cached => exact hresolved hresolve
      | fresh _ hnew _ =>
        exact hmember _ _ _ _ (hresolved hresolve) hnew (resolved_of_resolve hresolve).own
    have hstep : RefineStep lib msg r entry (Refining.refineEntry lib msg r entry) :=
      refineEntry_step msg r entry
    generalize Refining.refineEntry lib msg r entry = r' at hstep ⊢
    cases hstep with
    | unresolved => exact ih
    | refused hresolve => exact hresolved hresolve
    | repeated hresolve haccept | counted hresolve haccept => exact haccepted hresolve haccept

omit hcerts in
lemma newMemberOfText_induction (h : P cp) (pb : PbMember) : P (cp.newMemberOfText lib pb).1 := by
  unfold newMemberOfText
  split
  · exact h
  split
  · exact h
  · next hresolve => exact hmember _ _ _ _ h (resolveMember_ok hresolve) fun _ => rfl

lemma newMember_induction (h : P cp) (pb : PbMember) : P (cp.newMember lib pb).1 := by
  unfold newMember
  split
  case h_1 => exact newMemberOfText_induction hmember h pb
  case h_3 => exact h
  case h_2 =>
  obtain ⟨cache, hcache⟩ := lookUpCertCache_frame cp pb.memberInfo
  have hlook : P (cp.lookUpCertCache pb.memberInfo).1 := hcache ▸ hcerts cp cache h
  split
  all_goals
    rename_i heq
    rw [heq] at hlook
  · exact newMemberOfText_induction hmember hlook _
  · exact hlook

end

lemma sameLists_refining (cp : CertACProvider) (endorsements : List EndorsementEntry)
    (msg : Bytes) : cp.SameLists (cp.refining lib endorsements msg).cp :=
  refining_induction (fun _ _ h => h.trans ⟨_, _, rfl⟩) (fun _ _ _ _ h _ _ => h.trans ⟨_, _, rfl⟩)
    (.refl cp) endorsements msg

lemma sameLists_newMember (cp : CertACProvider) (pb : PbMember) :
    cp.SameLists (cp.newMember lib pb).1 :=
  newMember_induction (fun _ _ h => h.trans ⟨_, _, rfl⟩) (fun _ _ _ _ h _ _ => h.trans ⟨_, _, rfl⟩)
    (.refl cp) pb

variable {cp' : CertACProvider}

def Relisted (cp cp' : CertACProvider) : Prop :=
  ∃ crl frozenList, cp' = { cp with crl := crl, frozenList := frozenList }

lemma Relisted.refl (cp : CertACProvider) : cp.Relisted cp := ⟨_, _, rfl⟩

lemma Relisted.trans (h₁ : cp₁.Relisted cp₂) (h₂ : cp₂.Relisted cp₃) : cp₁.Relisted cp₃ := by
  obtain ⟨_, _, rfl⟩ := h₁
  obtain ⟨crl, frozenList, rfl⟩ := h₂
  exact ⟨crl, frozenList, rfl⟩

lemma Relisted.acService_eq (h : cp.Relisted cp') : cp'.acService = cp.acService := by
  obtain ⟨_, _, rfl⟩ := h
  rfl

lemma relisted_foldl {step : CertACProvider → Bytes → CertACProvider}
    (hstep : ∀ cp block, Relisted cp (step cp block)) (blocks : List Bytes) (cp : CertACProvider) :
    cp.Relisted (blocks.foldl step cp) := by
  induction blocks generalizing cp with
  | nil => exact .refl cp
  | cons block blocks ih => exact (hstep cp block).trans (ih _)

lemma relisted_storeCRLs (what : String) (crls : List CertificateList) (cp : CertACProvider) :
    cp.Relisted (storeCRLs what crls cp).1 := by
  induction crls generalizing cp with
  | nil => exact .refl cp
  | cons crl crls ih =>
    unfold storeCRLs
    split
    case h_1 => exact .refl cp
    case h_2 => exact Relisted.trans ⟨_, _, rfl⟩ (ih _)

lemma relisted_callback (payload : Payload) : cp.Relisted (cp.callback lib payload).1 := by
  unfold callback
  split
  · unfold certFreezeCase
    split
    · exact relisted_foldl (fun _ _ => ⟨_, _, rfl⟩) _ cp
    · exact .refl cp
  · split
    · unfold certUnfreezeCase
      split
      · exact relisted_foldl (fun _ _ => ⟨_, _, rfl⟩) _ cp
      · exact .refl cp
    · split
      · unfold certRevokeCase
        split
        · split
          · exact .refl cp
          · exact relisted_storeCRLs _ _ cp
        · exact .refl cp
      · exact .refl cp

inductive HandleEffect (lib : X509) (cp : CertACProvider) : CertACProvider → Prop
  | refined (endorsements : List EndorsementEntry) (msg : Bytes) :
      HandleEffect lib cp (cp.refineEndorsements lib endorsements msg).1
  | member (pb : PbMember) : HandleEffect lib cp (cp.newMember lib pb).1
  | lists {cp' : CertACProvider} (hservice : cp'.acService = cp.acService) : HandleEffect lib cp cp'
  | watched (config : ChainConfig) : HandleEffect lib cp (cp.watch lib config).1

lemma handle_effect (event : Event) : HandleEffect lib cp (cp.handle lib event) := by
  cases event with
  | verifyPrincipal skip principal =>
    have hrefined : HandleEffect lib cp
        (cp.refineEndorsements lib principal.endorsement principal.message).1 := .refined _ _
    unfold handle verifyPrincipal
    simp only
    split
    · exact .lists rfl
    split
    case h_1 hlist => rw [hlist] at hrefined; exact hrefined
    case h_2 hlist =>
    rw [hlist] at hrefined
    split
    · exact hrefined
    · split <;> exact hrefined
  | getValidEndorsements principal =>
    have hrefined : HandleEffect lib cp
        (cp.refineEndorsements lib principal.endorsement principal.message).1 := .refined _ _
    unfold handle getValidEndorsements
    simp only
    split
    · exact .lists rfl
    split
    case h_1 hlist => rw [hlist] at hrefined; exact hrefined
    case h_2 hlist =>
      rw [hlist] at hrefined
      split <;> exact hrefined
  | newMember pb => exact .member pb
  | getMemberStatus pb =>
    have hmember : HandleEffect lib cp (cp.newMember lib pb).1 := .member pb
    unfold handle getMemberStatus
    simp only
    split
    all_goals
      rename_i heq
      rw [heq] at hmember
      exact hmember
  | callback payload => exact .lists (relisted_callback payload).acService_eq
  | watch config => exact .watched config
  | ledger store => exact .lists rfl

lemma memberCache_initTrustRoots {roots : List TrustRootConfig} {localOrgId : String}
    (h : cp.initTrustRoots lib roots localOrgId = .ok cp') :
    cp'.acService.memberCache = cp.acService.memberCache := by
  obtain ⟨cp₁, hfold, hlast⟩ := bind_ok.mp h
  have hcache : cp₁.acService.memberCache = cp.acService.memberCache := by
    refine foldlM_ok (P := fun c => c.acService.memberCache = cp.acService.memberCache) ?_ rfl hfold
    intro c root c' hc hstep
    obtain ⟨⟨org, opts⟩, -, hret⟩ := bind_ok.mp hstep
    cases hret
    exact hc
  cases hlast
  exact hcache

lemma relisted_loadOneCRL {store : Store} {aki : Bytes}
    (h : loadOneCRL lib store cp aki = .ok cp') : cp.Relisted cp' := by
  unfold loadOneCRL at h
  split at h
  case h_1 | h_2 => cases h
  case h_3 =>
  split at h
  case h_1 => cases h
  case h_2 crls _ =>
  have hstore := relisted_storeCRLs "fail to load CRL, fail to get AKI from CRL: " crls cp
  split at h
  case h_2 => cases h
  case h_1 hpair =>
    rw [hpair] at hstore
    exact Except.ok.inj h ▸ hstore

lemma relisted_loadCRL (h : cp.loadCRL lib = .ok cp') : cp.Relisted cp' := by
  unfold loadCRL at h
  split at h
  case h_1 => exact Except.ok.inj h ▸ .refl cp
  split at h
  case h_1 => cases h
  case h_2 => exact Except.ok.inj h ▸ .refl cp
  case h_3 =>
  split at h
  case h_1 => cases h
  exact foldlM_ok (P := cp.Relisted)
    (fun _ _ _ hc hstep => hc.trans (relisted_loadOneCRL hstep)) (.refl cp) h

lemma relisted_loadCertFrozenList (h : cp.loadCertFrozenList lib = .ok cp') :
    cp.Relisted cp' := by
  unfold loadCertFrozenList at h
  split at h
  case h_1 => exact Except.ok.inj h ▸ .refl cp
  split at h
  case h_1 => cases h
  case h_2 => exact Except.ok.inj h ▸ .refl cp
  case h_3 =>
  split at h
  case h_1 => cases h
  refine foldlM_ok (P := cp.Relisted) ?_ (.refl cp) h
  intro c certID c' hc hstep
  unfold loadOneFrozen at hstep
  split at hstep
  case h_1 | h_2 => cases hstep
  case h_3 => exact hc.trans (Except.ok.inj hstep ▸ ⟨_, _, rfl⟩)

variable {config : ChainConfig} {localOrgId : String} {store : Option Store}
  {evictions certEvictions : List (List Bytes)}

lemma memberCache_newCertACProvider
    (h : newCertACProvider lib config localOrgId store evictions certEvictions = .ok cp) :
    cp.acService.memberCache = .empty evictions := by
  obtain ⟨trustMembers, -, h⟩ := bind_ok.mp h
  obtain ⟨cp₁, hroots, h⟩ := bind_ok.mp h
  obtain ⟨cp₂, hcrl, hfrozen⟩ := bind_ok.mp h
  obtain ⟨_, _, hpolicies⟩ :=
    cp₁.acService.initResourcePolicy_frame config.resourcePolicies localOrgId
  rw [(relisted_loadCertFrozenList hfrozen).acService_eq, (relisted_loadCRL hcrl).acService_eq,
    withService, hpolicies]
  exact memberCache_initTrustRoots hroots

end ChainMaker.Ac.CertACProvider
