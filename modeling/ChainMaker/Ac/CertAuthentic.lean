import ChainMaker.Ac.CertRefine
import ChainMaker.Lib.Runs

/-! Authenticity of the endorsements that `refineEndorsements` returns: whose signature they
carry and which organization they claim. -/

namespace ChainMaker.Ac.CertACProvider
open Refining
variable {lib : X509} {cp : CertACProvider} {e : EndorsementEntry} {cp' : CertACProvider}

/-- The signature verifies under the certificate that the signer names, and the member of this
certificate is of the organization that the signer claims. -/
def Authentic (lib : X509) (trustMembers : TrustMembers) (msg : Bytes) (e : EndorsementEntry) :
    Prop :=
  ∃ m, memberNamed lib trustMembers e.signer.memberInfo = .ok m ∧
    lib.verifyWithOpts m.cert msg e.signature = true ∧ m.orgId = e.signer.orgId

def CacheNamed (lib : X509) (cp : CertACProvider) : Prop :=
  cp.acService.memberCache.All fun info cached =>
    memberNamed lib cp.trustMembers info = .ok cached.member

/-- The signer claims the organization that a trust member is configured for, and no empty one
where the certificate of another signer names one. -/
def ClaimsOrg (lib : X509) (trustMembers : TrustMembers) (e : EndorsementEntry) : Prop :=
  match trustMembers.lookup e.signer.memberInfo with
  | some trusted => trusted.orgId = e.signer.orgId
  | none => e.signer.orgId = "" →
    ∀ cert, lib.parseMemberInfo e.signer.memberInfo = .ok cert → cert.orgId = ""

/-- An entry of another type than `CERT` and `CERT_HASH` finds the text of an earlier entry: this
is its own text, or no member is cached for it. -/
def OwnText (r : Refining) (entry : EndorsementEntry) : Prop :=
  entry.signer.Certified ∨ r.memInfo = entry.signer.memberInfo ∨
    r.cp.acService.lookUpMemberInCache r.memInfo = none

variable {trustMembers : TrustMembers} {r : Refining} {info : Bytes} {m : CertificateMember}

lemma memberNamed_trusted {trusted : TrustMemberConfig}
    (htrusted : trustMembers.lookup info = some trusted)
    (hnamed : memberNamed lib trustMembers info = .ok m) : m.orgId = trusted.orgId := by
  have hparam := hnamed
  simp only [memberNamed, htrusted] at hparam
  exact (newCertMemberFromParam_ok hparam).2

lemma memberNamed_untrusted (htrusted : trustMembers.lookup info = none)
    (hnamed : memberNamed lib trustMembers info = .ok m) :
    lib.parseMemberInfo info = .ok m.cert ∧ m.orgId = m.cert.orgId := by
  simp only [memberNamed, htrusted] at hnamed
  have hparse := parseMemberInfo_of_member hnamed
  simp only [newMemberFromCertPem, hparse, if_true, ne_eq, not_true_eq_false, if_false] at hnamed
  exact ⟨hparse, (congrArg CertificateMember.orgId (Except.ok.inj hnamed)).symm⟩

/-- What holds before each entry: the configuration is that of the call, and what is cached under
a text that has not been counted yet is the member of this text. -/
structure Refining.Sound (lib : X509) (trustMembers : TrustMembers) (r : Refining) : Prop where
  config : r.cp.trustMembers = trustMembers
  named : ∀ text info, r.cp.acService.lookUpMemberInCache text = some info →
    text ∉ r.refinedSigners → memberNamed lib trustMembers text = .ok info.member

lemma Resolved.text_eq {entry : EndorsementEntry} {text : Bytes}
    (h : Resolved r entry cp e text) (hown : OwnText r entry) :
    text = e.signer.memberInfo ∨ r.cp.acService.lookUpMemberInCache text = none := by
  by_cases htype : e.signer.Certified
  · exact .inl (h.own htype)
  obtain ⟨rfl, rfl⟩ := h.kept htype
  exact hown.resolve_left htype

lemma authentic_iff_claimsOrg {msg text : Bytes} {entry : EndorsementEntry}
    (hr : r.Sound lib trustMembers) (hown : OwnText r entry)
    (hresolve : r.resolve entry = some (cp, e, text))
    (haccept : accept lib cp e msg text = some cp') (hnew : text ∉ r.refinedSigners) :
    Authentic lib trustMembers msg e ↔ ClaimsOrg lib trustMembers e := by
  have hres := resolved_of_resolve hresolve
  obtain ⟨cache, rfl⟩ := hres.provider
  obtain ⟨info, haccepts⟩ := accepts_of_accept haccept
  -- The signature was verified with the certificate of the member that the signer names.
  obtain ⟨hnamed, hsig, horg⟩ :
      memberNamed lib trustMembers e.signer.memberInfo = .ok info.member ∧
      lib.verifyWithOpts info.member.cert msg e.signature = true ∧
      (trustMembers.lookup e.signer.memberInfo = none →
        e.signer.orgId = "" ∨ info.member.orgId = e.signer.orgId) := by
    rw [← hr.config]
    cases haccepts with
    | cached hget hcheck hsig =>
      rcases hres.text_eq hown with rfl | hnone
      · exact ⟨hr.config ▸ hr.named _ info hget hnew, hsig,
          fun hnone => .inr (hcheck hnone).2.2.symm⟩
      · cases hnone.symm.trans hget
    | fresh _ hmember hsig =>
      refine ⟨hmember.named, hsig, fun hnone => ?_⟩
      cases hmember with
      | trusted hlookup => cases hnone.symm.trans hlookup
      | verified _ _ horg => exact horg
  have hauthentic : Authentic lib trustMembers msg e ↔ info.member.orgId = e.signer.orgId := by
    refine ⟨?_, fun horg => ⟨info.member, hnamed, hsig, horg⟩⟩
    rintro ⟨m, hm, -, horg⟩
    rwa [← Except.ok.inj (hnamed.symm.trans hm)] at horg
  rw [hauthentic, ClaimsOrg]
  split
  case h_1 trusted hlookup => rw [memberNamed_trusted hlookup hnamed]
  case h_2 hlookup =>
    obtain ⟨hparse, hcert⟩ := memberNamed_untrusted hlookup hnamed
    constructor
    · rintro horg hempty cert hcert'
      rw [← Except.ok.inj (hparse.symm.trans hcert'), ← hcert, horg, hempty]
    · intro hclaims
      rcases horg hlookup with hempty | horg
      · rw [hcert, hclaims hempty _ hparse, hempty]
      · exact horg

lemma Accepts.trustMembers_eq {msg text : Bytes} {info : MemberCached CertificateMember}
    (h : Accepts lib cp e msg text info cp') : cp'.trustMembers = cp.trustMembers := by
  cases h <;> rfl

lemma Accepts.lookUp_of_ne {msg text key : Bytes}
    {info cached : MemberCached CertificateMember} (h : Accepts lib cp e msg text info cp')
    (hne : key ≠ text) (hget : cp'.acService.lookUpMemberInCache key = some cached) :
    cp.acService.lookUpMemberInCache key = some cached := by
  cases h with
  | cached => exact hget
  | fresh => exact BoundedCache.get_of_get_add hne hget

lemma Refining.Sound.step {r : Refining} (hr : r.Sound lib trustMembers) (msg : Bytes)
    (entry : EndorsementEntry) : (Refining.refineEntry lib msg r entry).Sound lib trustMembers := by
  -- What is cached after an accepted entry, under a text that is still uncounted.
  have haccepted : ∀ {cp cp' e text}, r.resolve entry = some (cp, e, text) →
      accept lib cp e msg text = some cp' → cp'.trustMembers = trustMembers ∧
      ∀ key info, cp'.acService.lookUpMemberInCache key = some info → key ≠ text →
        key ∉ r.refinedSigners → memberNamed lib trustMembers key = .ok info.member := by
    intro cp cp' e text hresolve haccept
    obtain ⟨cache, rfl⟩ := (resolved_of_resolve hresolve).provider
    obtain ⟨info, haccepts⟩ := accepts_of_accept haccept
    refine ⟨haccepts.trustMembers_eq.trans hr.config, fun key cached hget hne hnew => ?_⟩
    exact hr.named key cached (haccepts.lookUp_of_ne hne hget) hnew
  have hstep : RefineStep lib msg r entry (Refining.refineEntry lib msg r entry) :=
    refineEntry_step msg r entry
  generalize Refining.refineEntry lib msg r entry = r' at hstep ⊢
  cases hstep with
  | unresolved => exact hr
  | refused hresolve _ =>
    obtain ⟨cache, rfl⟩ := (resolved_of_resolve hresolve).provider
    exact ⟨hr.config, hr.named⟩
  | repeated hresolve haccept hold =>
    obtain ⟨hconfig, hnamed⟩ := haccepted hresolve haccept
    exact ⟨hconfig, fun key info hget hnew =>
      hnamed key info hget (fun heq => hnew (heq ▸ hold)) hnew⟩
  | counted hresolve haccept hnew =>
    obtain ⟨hconfig, hnamed⟩ := haccepted hresolve haccept
    refine ⟨hconfig, fun key info hget hkey => ?_⟩
    obtain ⟨hne, hold⟩ := not_or.mp (Finset.mem_insert.not.mp hkey)
    exact hnamed key info hget hne hold

lemma CacheNamed.newMemberOfText (h : cp.CacheNamed lib) (pb : PbMember) :
    (cp.newMemberOfText lib pb).1.CacheNamed lib := by
  unfold CertACProvider.newMemberOfText
  split
  case h_1 => exact h
  split
  case h_1 => exact h
  case h_2 cached hresolve => exact h.add (resolveMember_ok hresolve).named

section Forgery
open SmallChain

def seen : CertACProvider :=
  let cp := ((provider [1] []).newMemberOfText x509 (endorse admin []).signer).1
  (cp.newMemberOfText x509 (endorse client []).signer).1

end Forgery

end ChainMaker.Ac.CertACProvider
