import ChainMaker.Ac.Server

/-! Certificate members (`cert_member.go`) and what the provider takes from the X.509 library
and from the ledger. -/

namespace ChainMaker.Ac

structure VerifyOptions where
  intermediates : List Certificate
  roots : List Certificate
deriving DecidableEq

structure CertificateList where
  authorityKeyId : Except String Bytes
  version : ℕ
  revokedCertificates : List ℕ

structure X509 where
  pemBlocks : Bytes → List Bytes
  parseCertificate : Bytes → Except String Certificate
  buildCertificateChain : List Certificate → List Certificate
  verify : VerifyOptions → Certificate → Except String (List (List Certificate))
  head_of_verify : ∀ opts cert chains, verify opts cert = .ok chains →
    ∀ chain ∈ chains, chain.head? = some cert
  verifyWithOpts : Certificate → Bytes → Bytes → Bool
  parseCRL : Bytes → Except String CertificateList
  checkCRLSignature : Certificate → CertificateList → Except String Unit
  unmarshalTexts : Bytes → Except String (List Bytes)

abbrev Store := Bytes → Except String (Option Bytes)

structure TrustMembers where
  entries : GoMap Bytes TrustMemberConfig
  keyed : ∀ info member, entries.lookup info = some member → member.memberInfo = info

namespace TrustMembers

def empty : TrustMembers where
  entries := ∅
  keyed := by
    intro info member h
    cases h

def lookup (t : TrustMembers) (info : Bytes) : Option TrustMemberConfig := t.entries.lookup info

def store (t : TrustMembers) (member : TrustMemberConfig) : TrustMembers where
  entries := t.entries.insert member.memberInfo member
  keyed := by
    intro info stored h
    obtain ⟨rfl, rfl⟩ | h := GoMap.lookup_insert_cases h
    · rfl
    · exact t.keyed info stored h

end TrustMembers

structure CertificateMember where
  orgId : String
  cert : Certificate
  role : Role
deriving DecidableEq

instance : Member CertificateMember where
  getOrgId := CertificateMember.orgId
  getRole := CertificateMember.role

variable (lib : X509) {m : CertificateMember} {certPEM : Bytes}

def X509.parseMemberInfo (certPEM : Bytes) : Except String Certificate :=
  match lib.parseCertificate ((lib.pemBlocks certPEM).headD certPEM) with
  | .ok cert => .ok cert
  | .error _ => .error "new cert member failed, invalid certificate"

def CertificateMember.verify (cm : CertificateMember) (msg sig : Bytes) : Except String Unit :=
  if lib.verifyWithOpts cm.cert msg sig then .ok ()
  else .error "cert member verify signature failed: invalid signature"

def newCertMemberFromParam (orgId role : String) (certPEM : Bytes) :
    Except String CertificateMember :=
  (lib.parseMemberInfo certPEM).map fun cert => ⟨orgId, cert, toUpper role⟩

def Certificate.orgId (cert : Certificate) : String := cert.organization.headD ""

def newMemberFromCertPem (orgId : String) (certPEM : Bytes) : Except String CertificateMember :=
  match lib.parseMemberInfo certPEM with
  | .error err => .error err
  | .ok cert =>
    let orgId' := if orgId = "" then cert.orgId else orgId
    if cert.orgId ≠ orgId' then
      .error ("setup cert member failed, organization information in certificate and in input " ++
        "parameter do not match [certificate: " ++ cert.orgId ++ ", parameter: " ++ orgId ++ "]")
    else .ok ⟨orgId', cert, toUpper (cert.organizationalUnit.headD "")⟩

def PbMember.Certified (m : PbMember) : Prop := m.memberType = .cert ∨ m.memberType = .certHash

instance (m : PbMember) : Decidable m.Certified := inferInstanceAs (Decidable (_ ∨ _))

def newCertMemberFromPb (member : PbMember) : Except String CertificateMember :=
  if member.Certified then
    newMemberFromCertPem lib member.orgId member.memberInfo
  else .error "setup member failed, unsupport cert member type"

def memberNamed (trustMembers : TrustMembers) (info : Bytes) : Except String CertificateMember :=
  match trustMembers.lookup info with
  | some trusted => newCertMemberFromParam lib trusted.orgId trusted.role info
  | none => newMemberFromCertPem lib "" info

variable {lib}

lemma newMemberFromCertPem_eq {orgId : String}
    (h : newMemberFromCertPem lib orgId certPEM = .ok m) :
    newMemberFromCertPem lib "" certPEM = .ok m ∧ (orgId = "" ∨ m.orgId = orgId) := by
  cases hparse : lib.parseMemberInfo certPEM with
  | error err => simp [newMemberFromCertPem, hparse] at h
  | ok cert =>
    by_cases horg : orgId = ""
    · subst horg
      exact ⟨h, .inl rfl⟩
    by_cases hcert : cert.orgId = orgId
    · simp [newMemberFromCertPem, hparse, horg, hcert] at h
      subst h
      exact ⟨by simp [newMemberFromCertPem, hparse, hcert], .inr rfl⟩
    · simp [newMemberFromCertPem, hparse, horg, hcert] at h

lemma parseMemberInfo_of_member {orgId : String}
    (h : newMemberFromCertPem lib orgId certPEM = .ok m) :
    lib.parseMemberInfo certPEM = .ok m.cert := by
  have hempty := (newMemberFromCertPem_eq h).1
  cases hparse : lib.parseMemberInfo certPEM with
  | error err => simp [newMemberFromCertPem, hparse] at hempty
  | ok cert =>
    simp [newMemberFromCertPem, hparse] at hempty
    rw [← hempty]

/-- A member that is asked for by the name of its organization has a certificate that names it. -/
lemma organization_ne_nil {orgId : String} (h : newMemberFromCertPem lib orgId certPEM = .ok m)
    (horg : orgId ≠ "") : m.cert.organization ≠ [] := by
  intro hnil
  obtain ⟨hempty, heq⟩ := newMemberFromCertPem_eq h
  simp [newMemberFromCertPem, parseMemberInfo_of_member h] at hempty
  have hname : m.orgId = "" := by rw [← hempty, Certificate.orgId, hnil, List.headD_nil]
  exact horg ((heq.resolve_left horg).symm.trans hname)

end ChainMaker.Ac
