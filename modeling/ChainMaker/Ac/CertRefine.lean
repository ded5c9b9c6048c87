import ChainMaker.Ac.CertAc

/-! What the certificate provider has checked about a member it resolves and about an entry it
accepts in `refineEndorsements`. -/

namespace ChainMaker.Ac

namespace CertACProvider
variable {lib : X509} {cp : CertACProvider} {info : MemberCached CertificateMember}
variable {m : CertificateMember} {e : EndorsementEntry} {orgId role : String} {msg text : Bytes}

lemma verify_ok {msg sig : Bytes} :
    m.verify lib msg sig = .ok () ↔ lib.verifyWithOpts m.cert msg sig = true := by
  unfold CertificateMember.verify
  split <;> simp_all

variable {chain : List Certificate}

lemma checkCRL_ok :
    cp.checkCRL chain = .ok () ↔ chain ≠ [] ∧ ∀ c ∈ chain, cp.isRevoked c = false := by
  unfold checkCRL
  split
  · simp_all
  · split <;> simp_all

lemma checkCertFrozenList_ok :
    cp.checkCertFrozenList chain = .ok () ↔ ∃ leaf, chain.head? = some leaf ∧
      leaf.raw ∉ cp.frozenList := by
  cases chain with
  | nil => simp [checkCertFrozenList]
  | cons leaf chain =>
    by_cases h : leaf.raw ∈ cp.frozenList <;> simp [checkCertFrozenList, h]

structure Cleared (cp : CertACProvider) (cert : Certificate) (chain : List Certificate) : Prop where
  leaf : chain.head? = some cert
  unrevoked : ∀ c ∈ chain, cp.isRevoked c = false
  unfrozen : cert.raw ∉ cp.frozenList

lemma Cleared.of_checks {cert : Certificate} (hleaf : chain.head? = some cert)
    (hcrl : cp.checkCRL chain = .ok ()) (hfrozen : cp.checkCertFrozenList chain = .ok ()) :
    cp.Cleared cert chain := by
  obtain ⟨leaf, hhead, hraw⟩ := checkCertFrozenList_ok.mp hfrozen
  have heq : leaf = cert := Option.mem_unique hhead hleaf
  exact ⟨hleaf, (checkCRL_ok.mp hcrl).2, heq ▸ hraw⟩

lemma findCertChain_spec {org : Organization} {chains : List (List Certificate)}
    (h : cp.findCertChain org chains = some chain) :
    chain ∈ chains ∧ cp.checkCRL chain = .ok () ∧ cp.checkCertFrozenList chain = .ok () := by
  have hmem : chain ∈ chains := List.mem_of_find?_eq_some h
  have hchecks := List.find?_some h
  simp only [Bool.and_eq_true, isOk_unit_iff] at hchecks
  exact ⟨hmem, hchecks.1.2, hchecks.2⟩

lemma verifyMember_ok (h : cp.verifyMember lib m = .ok chain) : cp.Cleared m.cert chain ∧
    (cp.acService.orgList.lookup m.orgId).isSome := by
  unfold verifyMember at h
  split at h
  case h_1 => cases h
  case h_2 chains hverify =>
  split at h
  case h_1 => cases h
  case h_2 orgId orgs horgs =>
  split at h
  case isTrue => cases h
  case isFalse horg =>
  have horgId : m.orgId = orgId := not_not.mp horg
  split at h
  case h_1 => cases h
  case h_2 org hlookup =>
  split at h
  case isTrue => cases h
  split at h
  case h_2 => cases h
  case h_1 found hfound =>
  obtain rfl : found = chain := Except.ok.inj h
  obtain ⟨hmem, hcrl, hfrozen⟩ := findCertChain_spec hfound
  have hleaf := lib.head_of_verify _ _ _ hverify _ hmem
  refine ⟨.of_checks hleaf hcrl hfrozen, ?_⟩
  rw [horgId, hlookup]
  rfl

inductive Resolves (lib : X509) (cp : CertACProvider) (pb : PbMember) :
    MemberCached CertificateMember → Prop
  | trusted {trusted : TrustMemberConfig} {member : CertificateMember}
      (hlookup : cp.trustMembers.lookup pb.memberInfo = some trusted)
      (horg : member.orgId = trusted.orgId)
      (hcert : lib.parseMemberInfo pb.memberInfo = .ok member.cert)
      (hnamed : memberNamed lib cp.trustMembers pb.memberInfo = .ok member) :
      Resolves lib cp pb ⟨member, []⟩
  | verified {member : CertificateMember} {certChain : List Certificate}
      (hlookup : cp.trustMembers.lookup pb.memberInfo = none)
      (htype : pb.Certified)
      (horg : pb.orgId = "" ∨ member.orgId = pb.orgId)
      (hcert : lib.parseMemberInfo pb.memberInfo = .ok member.cert)
      (hnamed : memberNamed lib cp.trustMembers pb.memberInfo = .ok member)
      (hverify : cp.verifyMember lib member = .ok certChain) :
      Resolves lib cp pb ⟨member, certChain⟩

lemma newCertMemberFromParam_ok {info : Bytes}
    (h : newCertMemberFromParam lib orgId role info = .ok m) :
    lib.parseMemberInfo info = .ok m.cert ∧ m.orgId = orgId := by
  obtain ⟨cert, hparse, rfl⟩ := map_ok.mp h
  exact ⟨hparse, rfl⟩

lemma role_newCertMemberFromParam {info : Bytes}
    (h : newCertMemberFromParam lib orgId role info = .ok m) : m.role = toUpper role := by
  obtain ⟨cert, -, rfl⟩ := map_ok.mp h
  rfl

lemma resolveMember_ok {pb : PbMember}
    (h : cp.resolveMember lib pb = .ok info) : Resolves lib cp pb info := by
  cases hlookup : cp.trustMembers.lookup pb.memberInfo with
  | some trusted =>
    have hkey : trusted.memberInfo = pb.memberInfo := cp.trustMembers.keyed _ _ hlookup
    cases hparam : newCertMemberFromParam lib trusted.orgId trusted.role pb.memberInfo with
    | error err =>
      simp [resolveMember, newNoCacheMember, hlookup, hkey, hparam, Except.map] at h
    | ok member =>
      simp [resolveMember, newNoCacheMember, hlookup, hkey, hparam, Except.map] at h
      subst h
      obtain ⟨hcert, horg⟩ := newCertMemberFromParam_ok hparam
      exact .trusted hlookup horg hcert (by simp [memberNamed, hlookup, hparam])
  | none =>
    cases hpb : newCertMemberFromPb lib pb with
    | error err => simp [resolveMember, newNoCacheMember, hlookup, hpb] at h
    | ok member =>
      simp only [resolveMember, newNoCacheMember, hlookup, hpb] at h
      obtain ⟨certChain, hverify, rfl⟩ := map_ok.mp h
      have htype : pb.Certified := by
        by_contra htype
        rw [newCertMemberFromPb, if_neg htype] at hpb
        cases hpb
      rw [newCertMemberFromPb, if_pos htype] at hpb
      obtain ⟨hempty, horg⟩ := newMemberFromCertPem_eq hpb
      exact .verified hlookup htype horg (parseMemberInfo_of_member hpb)
        (by simp [memberNamed, hlookup, hempty]) hverify

lemma Resolves.named {pb : PbMember} {info : MemberCached CertificateMember}
    (h : Resolves lib cp pb info) :
    memberNamed lib cp.trustMembers pb.memberInfo = .ok info.member := by
  cases h with
  | trusted _ _ _ hnamed | verified _ _ _ _ hnamed _ => exact hnamed

/-! ### One entry of the loop -/

lemma lookUpCertCache_frame (cp : CertACProvider) (certId : Bytes) :
    ∃ cache, (cp.lookUpCertCache certId).1 = { cp with certCache := cache } := by
  unfold lookUpCertCache
  split
  · exact ⟨cp.certCache, rfl⟩
  split
  · exact ⟨cp.certCache, rfl⟩
  split
  · exact ⟨_, rfl⟩
  · exact ⟨cp.certCache, rfl⟩

structure Resolved (r : Refining) (entry : EndorsementEntry) (cp : CertACProvider)
    (e : EndorsementEntry) (text : Bytes) : Prop where
  provider : ∃ cache, cp = { r.cp with certCache := cache }
  orgId : e.signer.orgId = entry.signer.orgId
  memberType : e.signer.memberType = entry.signer.memberType
  own : e.signer.Certified → text = e.signer.memberInfo
  kept : ¬ e.signer.Certified → e = entry ∧ text = r.memInfo

lemma resolved_of_resolve {r : Refining} {entry e : EndorsementEntry} {text : Bytes}
    (h : r.resolve entry = some (cp, e, text)) : Resolved r entry cp e text := by
  unfold Refining.resolve at h
  split at h
  case h_1 htype =>
    obtain ⟨rfl, rfl, rfl⟩ : r.cp = cp ∧ entry = e ∧ entry.signer.memberInfo = text := by
      simpa using h
    exact ⟨⟨r.cp.certCache, rfl⟩, rfl, rfl, fun _ => rfl, fun hnot => (hnot (.inl htype)).elim⟩
  case h_2 htype =>
    obtain ⟨cache, hcache⟩ := lookUpCertCache_frame r.cp entry.signer.memberInfo
    split at h
    case h_2 => cases h
    case h_1 cp' info hlook =>
    rw [hlook] at hcache
    obtain ⟨rfl, rfl, rfl⟩ : cp' = cp ∧
        { entry with signer := { entry.signer with memberInfo := info } } = e ∧ info = text := by
      simpa using h
    exact ⟨⟨cache, hcache⟩, rfl, rfl, fun _ => rfl, fun hnot => (hnot (.inr htype)).elim⟩
  case h_3 hcert hhash =>
  obtain ⟨rfl, rfl, rfl⟩ : r.cp = cp ∧ entry = e ∧ r.memInfo = text := by simpa using h
  refine ⟨⟨r.cp.certCache, rfl⟩, rfl, rfl, fun htype => ?_, fun _ => ⟨rfl, rfl⟩⟩
  rcases htype with htype | htype
  · exact (hcert htype).elim
  · exact (hhash htype).elim

lemma verifyPrincipalSignerInCache_ok :
    cp.verifyPrincipalSignerInCache lib info e msg text = .ok () ↔
      (cp.trustMembers.lookup text = none → cp.checkCRL info.certChain = .ok () ∧
        cp.checkCertFrozenList info.certChain = .ok () ∧ e.signer.orgId = info.member.orgId) ∧
      lib.verifyWithOpts info.member.cert msg e.signature = true := by
  rw [← verify_ok]
  cases hlookup : cp.trustMembers.lookup text <;>
    cases hcrl : cp.checkCRL info.certChain <;>
    cases hfrozen : cp.checkCertFrozenList info.certChain <;>
    by_cases horg : e.signer.orgId = info.member.orgId <;>
    cases hverify : info.member.verify lib msg e.signature <;>
    simp [verifyPrincipalSignerInCache, bind, Except.bind, *]

inductive Accepts (lib : X509) (cp : CertACProvider) (e : EndorsementEntry) (msg text : Bytes) :
    MemberCached CertificateMember → CertACProvider → Prop
  | cached {info : MemberCached CertificateMember}
      (hget : cp.acService.lookUpMemberInCache text = some info)
      (hcheck : cp.trustMembers.lookup text = none → cp.checkCRL info.certChain = .ok () ∧
        cp.checkCertFrozenList info.certChain = .ok () ∧ e.signer.orgId = info.member.orgId)
      (hsig : lib.verifyWithOpts info.member.cert msg e.signature = true) :
      Accepts lib cp e msg text info cp
  | fresh {info : MemberCached CertificateMember}
      (hget : cp.acService.lookUpMemberInCache text = none)
      (hnew : Resolves lib cp e.signer info)
      (hsig : lib.verifyWithOpts info.member.cert msg e.signature = true) :
      Accepts lib cp e msg text info
        (cp.withService (cp.acService.addMemberToCache text info))

lemma accepts_of_accept {cp' : CertACProvider} (h : Refining.accept lib cp e msg text = some cp') :
    ∃ info, Accepts lib cp e msg text info cp' := by
  cases hget : cp.acService.lookUpMemberInCache text with
  | some info =>
    cases hcheck : cp.verifyPrincipalSignerInCache lib info e msg text with
    | error err => simp [Refining.accept, hget, hcheck] at h
    | ok _ =>
      obtain rfl : cp = cp' := by simpa [Refining.accept, hget, hcheck] using h
      obtain ⟨hchecks, hsig⟩ := verifyPrincipalSignerInCache_ok.mp hcheck
      exact ⟨info, .cached hget hchecks hsig⟩
  | none =>
    cases hnew : cp.resolveMember lib e.signer with
    | error err => simp [Refining.accept, verifyPrincipalSignerNotInCache, hget, hnew] at h
    | ok info =>
      cases hsig : info.member.verify lib msg e.signature with
      | error err => simp [Refining.accept, verifyPrincipalSignerNotInCache, hget, hnew, hsig] at h
      | ok _ =>
        obtain rfl : cp.withService (cp.acService.addMemberToCache text info) = cp' := by
          simpa [Refining.accept, verifyPrincipalSignerNotInCache, hget, hnew, hsig] using h
        exact ⟨info, .fresh hget (resolveMember_ok hnew) (verify_ok.mp hsig)⟩

inductive RefineStep (lib : X509) (msg : Bytes) (r : Refining) (entry : EndorsementEntry) :
    Refining → Prop
  | unresolved (hresolve : r.resolve entry = none) : RefineStep lib msg r entry r
  | refused {cp : CertACProvider} {e : EndorsementEntry} {text : Bytes}
      (hresolve : r.resolve entry = some (cp, e, text))
      (haccept : Refining.accept lib cp e msg text = none) :
      RefineStep lib msg r entry { r with cp := cp, memInfo := text }
  | repeated {cp cp' : CertACProvider} {e : EndorsementEntry} {text : Bytes}
      (hresolve : r.resolve entry = some (cp, e, text))
      (haccept : Refining.accept lib cp e msg text = some cp')
      (hold : text ∈ r.refinedSigners) :
      RefineStep lib msg r entry { r with cp := cp', memInfo := text }
  | counted {cp cp' : CertACProvider} {e : EndorsementEntry} {text : Bytes}
      (hresolve : r.resolve entry = some (cp, e, text))
      (haccept : Refining.accept lib cp e msg text = some cp')
      (hnew : text ∉ r.refinedSigners) :
      RefineStep lib msg r entry
        ⟨cp', insert text r.refinedSigners, r.refinedEndorsement ++ [e], text⟩

lemma refineEntry_step (msg : Bytes) (r : Refining) (entry : EndorsementEntry) :
    RefineStep lib msg r entry (Refining.refineEntry lib msg r entry) := by
  unfold Refining.refineEntry
  split
  case h_1 hresolve => exact .unresolved hresolve
  case h_2 hresolve =>
  split
  case h_1 haccept => exact .refused hresolve haccept
  case h_2 haccept =>
    split
    case isTrue hold => exact .repeated hresolve haccept hold
    case isFalse hnew => exact .counted hresolve haccept hnew

end CertACProvider

/-! ### A small certificate mode for concrete runs

A certificate is three bytes, for its organization, its unit and its serial number. The
authority of an organization signs all its certificates, those of unit 3 without the extension
that names it, and a signature repeats the certificate and the message. -/

namespace SmallChain

def orgName : UInt8 → String
  | 1 => "org1"
  | 2 => "org2"
  | _ => "org3"

def unitName : UInt8 → String
  | 0 => "ca"
  | 1 => "admin"
  | _ => "client"

def certificate (org unit serial : UInt8) : Certificate where
  raw := [org, unit, serial]
  organization := [orgName org]
  organizationalUnit := [unitName unit]
  serialNumber := serial.toNat
  authorityKeyId := if unit = 3 then [] else [org, 0, 0]
  subjectKeyId := [org, unit, serial]
  isCA := unit = 0
  signature := [1]

def parseCertificate : Bytes → Except String Certificate
  | [org, unit, serial] => .ok (certificate org unit serial)
  | _ => .error "malformed certificate"

def verify (opts : VerifyOptions) (cert : Certificate) : Except String (List (List Certificate)) :=
  match opts.roots.find? fun root => root.raw = cert.raw.take 1 ++ [0, 0] with
  | some root => .ok [[cert, root]]
  | none => .error "certificate signed by unknown authority"

lemma head_of_verify (opts : VerifyOptions) (cert : Certificate) (chains : List (List Certificate))
    (h : verify opts cert = .ok chains) : ∀ chain ∈ chains, chain.head? = some cert := by
  unfold verify at h
  split at h
  · cases h
    simp
  · cases h

def parseCRL : Bytes → Except String CertificateList
  | org :: serials => .ok ⟨.ok [org, 0, 0], 1, serials.map UInt8.toNat⟩
  | [] => .error "malformed CRL"

def x509 : X509 where
  pemBlocks text := if text = [] then [] else [text]
  parseCertificate := parseCertificate
  buildCertificateChain certs := certs
  verify := verify
  head_of_verify := head_of_verify
  verifyWithOpts cert msg sig := sig = cert.raw ++ msg
  parseCRL := parseCRL
  checkCRLSignature _ _ := .ok ()
  unmarshalTexts text := .ok [text]

def admin : Certificate := certificate 1 1 1
def client : Certificate := certificate 1 2 2

def endorse (cert : Certificate) (msg : Bytes) : EndorsementEntry :=
  ⟨⟨cert.orgId, cert.raw, .cert⟩, cert.raw ++ msg⟩

def chainConfig (orgs : List UInt8) (trustMembers : List TrustMemberConfig) : ChainConfig where
  hash := "SHA256"
  authType := permissionedWithCert
  trustRoots := orgs.map fun org => ⟨orgName org, [[org, 0, 0]]⟩
  trustMembers := trustMembers
  consensusNodes := []
  isDpos := false
  resourcePolicies := []

def provider (orgs : List UInt8) (trustMembers : List TrustMemberConfig) : CertACProvider :=
  match CertACProvider.newCertACProvider x509 (chainConfig orgs trustMembers) "org1" none [] [] with
  | .ok cp => cp
  | .error _ =>
    .unconfigured (chainConfig orgs trustMembers) "org1" none [] [] .empty

lemma new_provider {orgs : List UInt8} {trustMembers : List TrustMemberConfig}
    (h : (CertACProvider.newCertACProvider x509 (chainConfig orgs trustMembers) "org1" none
      [] []).isOk = true) :
    CertACProvider.newCertACProvider x509 (chainConfig orgs trustMembers) "org1" none [] [] =
      .ok (provider orgs trustMembers) := by
  obtain ⟨cp, hcp⟩ := isOk_iff.mp h
  rw [provider, hcp]

end SmallChain

end ChainMaker.Ac
