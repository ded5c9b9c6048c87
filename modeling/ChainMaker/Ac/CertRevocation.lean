import ChainMaker.Ac.CertHistory

/-! Frozen and revoked certificates: what survives `refineEndorsements` after any history of
calls, callbacks and configuration updates. -/

namespace ChainMaker.Ac.CertACProvider
open List
variable {lib : X509} {cp : CertACProvider} {endorsements : List EndorsementEntry}
  {chain : List Certificate} {cp' : CertACProvider} {e : EndorsementEntry} {msg : Bytes}

def ChainsNamed (lib : X509) (cp : CertACProvider) : Prop :=
  cp.acService.memberCache.All fun text cached => cached.certChain ≠ [] →
    ∃ cert, lib.parseMemberInfo text = .ok cert ∧ cached.certChain.head? = some cert

lemma SameLists.cleared {cert : Certificate}
    (h : cp.SameLists cp') (hclear : cp'.Cleared cert chain) : cp.Cleared cert chain := by
  obtain ⟨_, _, rfl⟩ := h
  exact { hclear with }

lemma Resolves.chainNamed {pb : PbMember} {info : MemberCached CertificateMember}
    (h : Resolves lib cp pb info) (hchain : info.certChain ≠ []) : pb.Certified ∧
      ∃ cert, lib.parseMemberInfo pb.memberInfo = .ok cert ∧ info.certChain.head? = some cert := by
  cases h with
  | trusted => exact (hchain rfl).elim
  | verified _ htype _ hcert _ hverify =>
    exact ⟨htype, _, hcert, (verifyMember_ok hverify).1.leaf⟩

lemma ChainsNamed.sameCache (h : cp.ChainsNamed lib)
    (heq : cp'.acService.memberCache = cp.acService.memberCache) : cp'.ChainsNamed lib := by
  rw [ChainsNamed, heq]
  exact h

/-! ### The loop -/

lemma ChainsNamed.member {pb : PbMember} {text : Bytes} {info : MemberCached CertificateMember}
    (h : cp.ChainsNamed lib) (hnew : Resolves lib cp pb info)
    (hown : pb.Certified → text = pb.memberInfo) :
    (cp.withService (cp.acService.addMemberToCache text info)).ChainsNamed lib := by
  refine h.add fun hchain => ?_
  obtain ⟨htype, cert, hcert, hhead⟩ := hnew.chainNamed hchain
  exact ⟨cert, hown htype ▸ hcert, hhead⟩

lemma ChainsNamed.refining (h : cp.ChainsNamed lib) (endorsements : List EndorsementEntry)
    (msg : Bytes) : (cp.refining lib endorsements msg).cp.ChainsNamed lib :=
  refining_induction (fun _ _ h => h) (fun _ _ _ _ h => h.member) h endorsements msg

def UsedFor (lib : X509) (cp : CertACProvider) (endorsements : List EndorsementEntry)
    (msg : Bytes) (e : EndorsementEntry) (chain : List Certificate) : Prop :=
  ∃ before entry after cp₁ cp₂ text info, endorsements = before ++ entry :: after ∧
    (cp.refining lib before msg).resolve entry = some (cp₁, e, text) ∧
    Accepts lib cp₁ e msg text info cp₂ ∧ info.certChain = chain

lemma exists_usedFor (he : e ∈ (cp.refining lib endorsements msg).refinedEndorsement) :
    ∃ chain, UsedFor lib cp endorsements msg e chain := by
  induction endorsements using reverseRecOn with
  | nil => cases he
  | append_singleton entries entry ih =>
    have hearlier : e ∈ (cp.refining lib entries msg).refinedEndorsement →
        ∃ chain, UsedFor lib cp (entries ++ [entry]) msg e chain := by
      intro he
      obtain ⟨chain, before, mid, after, cp₁, cp₂, text, info, hsplit, hrest⟩ := ih he
      refine ⟨chain, before, mid, after ++ [entry], cp₁, cp₂, text, info, ?_, hrest⟩
      rw [hsplit, append_assoc, cons_append]
    rw [refining, foldl_append] at he
    have hstep : RefineStep lib msg (cp.refining lib entries msg) entry
        (Refining.refineEntry lib msg (cp.refining lib entries msg) entry) :=
      refineEntry_step msg _ entry
    change e ∈ (Refining.refineEntry lib msg (cp.refining lib entries msg) entry).refinedEndorsement
      at he
    generalize Refining.refineEntry lib msg (cp.refining lib entries msg) entry = r' at hstep he
    cases hstep with
    | unresolved | refused | repeated => exact hearlier he
    | counted hresolve haccept _ =>
      rcases mem_append.mp he with he | he
      · exact hearlier he
      obtain rfl := mem_singleton.mp he
      obtain ⟨info, haccepts⟩ := accepts_of_accept haccept
      exact ⟨_, entries, entry, [], _, _, _, info, rfl, hresolve, haccepts, rfl⟩

lemma UsedFor.cleared (h : cp.ChainsNamed lib) (hused : UsedFor lib cp endorsements msg e chain)
    (htype : e.signer.Certified) (htrust : cp.trustMembers.lookup e.signer.memberInfo = none) :
    ∃ cert, lib.parseMemberInfo e.signer.memberInfo = .ok cert ∧ cp.Cleared cert chain := by
  obtain ⟨before, entry, after, cp₁, cp₂, text, info, -, hresolve, haccepts, rfl⟩ := hused
  have hres := resolved_of_resolve hresolve
  have hlists : cp.SameLists cp₁ := (sameLists_refining cp before msg).trans hres.sameLists
  have hchains : cp₁.ChainsNamed lib := by
    obtain ⟨cache, rfl⟩ := hres.provider
    exact h.refining before msg
  have htrust₁ : cp₁.trustMembers.lookup e.signer.memberInfo = none := by
    obtain ⟨_, _, rfl⟩ := hlists
    exact htrust
  have htext := hres.own htype
  cases haccepts with
  | cached hget hcheck _ =>
    obtain ⟨hcrl, hfrozen, -⟩ := hcheck (htext ▸ htrust₁)
    have hnonempty : info.certChain ≠ [] := (checkCRL_ok.mp hcrl).1
    obtain ⟨cert, hcert, hhead⟩ := hchains text info hget hnonempty
    exact ⟨cert, htext ▸ hcert, hlists.cleared (.of_checks hhead hcrl hfrozen)⟩
  | fresh _ hnew _ =>
    cases hnew with
    | trusted hlookup => rw [htrust₁] at hlookup; cases hlookup
    | verified _ _ _ hcert _ hverify =>
      exact ⟨_, hcert, hlists.cleared (verifyMember_ok hverify).1⟩

/-! ### Histories -/

section
variable (h : cp.ChainsNamed lib)
include h

lemma ChainsNamed.watch (config : ChainConfig) : (cp.watch lib config).1.ChainsNamed lib := by
  unfold CertACProvider.watch
  simp only
  split
  · exact h
  split
  · exact BoundedCache.All.clear _
  · exact BoundedCache.All.clear _

lemma ChainsNamed.handle (event : Event) : (cp.handle lib event).ChainsNamed lib := by
  have heffect : HandleEffect lib cp (cp.handle lib event) := handle_effect event
  generalize cp.handle lib event = cp' at heffect ⊢
  cases heffect with
  | refined endorsements msg => exact h.refining endorsements msg
  | member pb => exact newMember_induction (fun _ _ h => h) (fun _ _ _ _ h => h.member) h pb
  | lists hservice => exact h.sameCache (by rw [hservice])
  | watched config => exact h.watch config

end

/-- The certificates of a chain with their issuers: the next one, and for the root itself. -/
def issued : List Certificate → List (Certificate × Certificate)
  | [] => []
  | [root] => [(root, root)]
  | cert :: issuer :: chain => (cert, issuer) :: issued (issuer :: chain)

def Listed (cp : CertACProvider) (cert issuer : Certificate) : Prop :=
  ∃ crl, cp.crl.lookup issuer.subjectKeyId = some crl ∧ cert.serialNumber ∈ crl.revokedCertificates

lemma mem_of_issued {link : Certificate × Certificate} (h : link ∈ issued chain) :
    link.1 ∈ chain := by
  fun_induction issued chain with
  | case1 => cases h
  | case2 root =>
    rw [mem_singleton.mp h]
    exact mem_singleton_self root
  | case3 cert issuer chain ih =>
    rcases mem_cons.mp h with rfl | h
    · exact mem_cons_self
    · exact mem_cons_of_mem cert (ih h)

lemma Cleared.not_listed {cert : Certificate} {link : Certificate × Certificate}
    (h : cp.Cleared cert chain) (hlink : link ∈ issued chain)
    (hkey : link.1.authorityKeyId = link.2.subjectKeyId) : ¬ cp.Listed link.1 link.2 := by
  rintro ⟨crl, hcrl, hlisted⟩
  rw [← hkey] at hcrl
  have hunrevoked := h.unrevoked link.1 (mem_of_issued hlink)
  simp [isRevoked, hcrl, hlisted] at hunrevoked

variable {config : ChainConfig} {localOrgId : String} {store : Option Store}
  {evictions certEvictions : List (List Bytes)}

lemma chainsNamed_after
    (h : newCertACProvider lib config localOrgId store evictions certEvictions = .ok cp)
    (events : List Event) : (events.foldl (handle lib) cp).ChainsNamed lib := by
  have hstart : cp.ChainsNamed lib := by
    rw [ChainsNamed, memberCache_newCertACProvider h]
    exact BoundedCache.All.empty _
  clear h
  induction events generalizing cp with
  | nil => exact hstart
  | cons event events ih => exact ih (hstart.handle event)

theorem refined_unlisted
    (hnew : newCertACProvider lib config localOrgId store evictions certEvictions = .ok cp)
    (events : List Event) (endorsements : List EndorsementEntry) (msg : Bytes)
    {e : EndorsementEntry}
    (he : e ∈ ((events.foldl (handle lib) cp).refineEndorsements lib endorsements msg).2)
    (htype : e.signer.Certified)
    (htrust : (events.foldl (handle lib) cp).trustMembers.lookup e.signer.memberInfo = none) :
    ∃ leaf, lib.parseMemberInfo e.signer.memberInfo = .ok leaf ∧
      leaf.raw ∉ (events.foldl (handle lib) cp).frozenList ∧
      (∃ chain, UsedFor lib (events.foldl (handle lib) cp) endorsements msg e chain) ∧
      ∀ chain, UsedFor lib (events.foldl (handle lib) cp) endorsements msg e chain →
      chain.head? = some leaf ∧ ∀ link ∈ issued chain,
      link.1.authorityKeyId = link.2.subjectKeyId →
      ¬ (events.foldl (handle lib) cp).Listed link.1 link.2 := by
  have hchains := chainsNamed_after hnew events
  obtain ⟨used, hused⟩ := exists_usedFor he
  obtain ⟨leaf, hleaf, hclear⟩ := hused.cleared hchains htype htrust
  refine ⟨leaf, hleaf, hclear.unfrozen, ⟨used, hused⟩, fun chain hchain => ?_⟩
  obtain ⟨leaf', hleaf', hclear'⟩ := hchain.cleared hchains htype htrust
  obtain rfl : leaf' = leaf := Except.ok.inj (hleaf'.symm.trans hleaf)
  exact ⟨hclear'.leaf, fun link => hclear'.not_listed⟩

section Withdrawn
open SmallChain

/-- The client's certificate is cached, then frozen, released and put on the list of its issuer. -/
def withdrawn : CertACProvider :=
  [.verifyPrincipal false ⟨"INVOKE_CONTRACT", [endorse client [5]], [5], ""⟩,
    .callback ⟨"CERTS_FREEZE", [("certs", client.raw)]⟩,
    .callback ⟨"CERTS_UNFREEZE", [("certs", client.raw)]⟩,
    .callback ⟨"CERTS_REVOKE", [("cert_crl", [1, 2, 4])]⟩].foldl (handle x509) (provider [1] [])

theorem refined_unlisted_withdrawn :
    (withdrawn.refineEndorsements x509 [endorse client [7], endorse admin [7]] [7]).2 =
        [endorse admin [7]] ∧ withdrawn.Listed client (certificate 1 0 0) ∧
      ∀ chain, UsedFor x509 withdrawn [endorse client [7], endorse admin [7]] [7]
        (endorse admin [7]) chain → ∀ link ∈ issued chain,
        link.1.authorityKeyId = link.2.subjectKeyId → ¬ withdrawn.Listed link.1 link.2 := by
  have hlist : (withdrawn.refineEndorsements x509 [endorse client [7], endorse admin [7]] [7]).2 =
      [endorse admin [7]] := by decide +kernel
  have hadmin : endorse admin [7] ∈
      (withdrawn.refineEndorsements x509 [endorse client [7], endorse admin [7]] [7]).2 := by
    rw [hlist]
    exact mem_singleton_self _
  obtain ⟨_, -, -, -, hused⟩ := refined_unlisted (new_provider (by decide +kernel)) _ _ _ hadmin
    (.inl rfl) (by decide +kernel)
  exact ⟨hlist, ⟨_, rfl, by decide⟩, fun chain hchain => (hused chain hchain).2⟩

/-- The issuer's list has both certificates, but only the client's one names its issuer. -/
theorem refined_listed :
    (withdrawn.refineEndorsements x509
        [endorse (certificate 1 3 4) [7], endorse client [7]] [7]).2 =
        [endorse (certificate 1 3 4) [7]] ∧
      UsedFor x509 withdrawn [endorse (certificate 1 3 4) [7], endorse client [7]] [7]
        (endorse (certificate 1 3 4) [7]) [certificate 1 3 4, certificate 1 0 0] ∧
      withdrawn.Listed (certificate 1 3 4) (certificate 1 0 0) := by
  have haccepts : Accepts x509 withdrawn (endorse (certificate 1 3 4) [7]) [7] [1, 3, 4]
      ⟨⟨"org1", certificate 1 3 4, "CLIENT"⟩, [certificate 1 3 4, certificate 1 0 0]⟩ _ :=
    .fresh (by decide +kernel) (resolveMember_ok (by decide +kernel)) (by decide +kernel)
  exact ⟨by decide +kernel, ⟨[], _, _, withdrawn, _, _, _, rfl, rfl, haccepts, rfl⟩,
    ⟨_, rfl, by decide⟩⟩

end Withdrawn

end ChainMaker.Ac.CertACProvider
