import ChainMaker.Ac.CertMember

/-! The access control provider of the certificate mode (`cert_ac.go`). -/

namespace ChainMaker.Ac

structure Organization where
  id : String
  trustedRootCerts : GoMap Bytes Certificate
  trustedIntermediateCerts : GoMap Bytes Certificate

inductive MemberStatus where
  | normal
  | invalid
  | revoked
  | frozen
deriving DecidableEq

structure CertACProvider where
  acService : AccessControlService CertificateMember Organization
  dataStore : Option Store
  certCache : BoundedCache Bytes Bytes
  crl : GoMap Bytes CertificateList
  frozenList : Finset Bytes
  opts : VerifyOptions
  localOrg : Organization
  trustMembers : TrustMembers

def certRevokeKey : Bytes := "CERT_CRL".toUTF8.toList
def certFreezeKey : Bytes := "CERT_FREEZE".toUTF8.toList

def hexDigit (n : UInt8) : UInt8 := if n < 10 then 48 + n else 87 + n

def hexEncode (bytes : Bytes) : Bytes :=
  bytes.flatMap fun b => [hexDigit (b / 16), hexDigit (b % 16)]

def textOf (bytes : Bytes) : String := String.ofList (bytes.map fun b => Char.ofNat b.toNat)

def splitLines (value : Bytes) : Bytes := value.map fun b => if b = 44 then 10 else b

namespace CertACProvider
variable (lib : X509) (cp : CertACProvider)

def withService (acs : AccessControlService CertificateMember Organization) : CertACProvider :=
  { cp with acService := acs }

/-! ### Trust members, roots and the lists of the ledger -/

def initTrustMembers (members : List TrustMemberConfig) : Except String TrustMembers :=
  members.foldlM (fun t member =>
    match lib.pemBlocks member.memberInfo with
    | [] => .error ("init trust members failed, none certificate given, memberInfo:[" ++
        textOf member.memberInfo ++ "]")
    | block :: _ =>
      match lib.parseCertificate block with
      | .error _ => .error ("init trust members failed, parse certificate failed, memberInfo:[" ++
          textOf member.memberInfo ++ "]")
      | .ok _ => .ok (t.store member)) .empty

def parseRootBlock (invalid unsigned : String) (block : Bytes) : Except String Certificate :=
  match lib.parseCertificate block with
  | .error _ => .error invalid
  | .ok cert =>
    if cert.signature = [] then .error (unsigned ++ " [SN: " ++ toString cert.serialNumber ++ "]")
    else .ok cert

def buildChain (invalid unsigned : String) (root : Bytes) : Except String (List Certificate) :=
  ((lib.pemBlocks root).mapM (parseRootBlock lib invalid unsigned)).map lib.buildCertificateChain

def buildCertificateChain (root : Bytes) : Except String (List Certificate) :=
  buildChain lib "invalid entry int trusted root cert list" "invalid certificate" root

def buildCertificateChainForUpdatingChainConfig (orgId : String) (root : Bytes) :
    Except String (List Certificate) :=
  buildChain lib ("update configuration failed, invalid certificate for organization " ++ orgId)
    "update configuration failed, invalid certificate" root

def storeCerts (certs : List Certificate) (m : GoMap Bytes Certificate) : GoMap Bytes Certificate :=
  certs.foldl (fun m c => m.insert c.raw c) m

def addRoot (acc : Organization × VerifyOptions) (root : Bytes) :
    Except String (Organization × VerifyOptions) :=
  match buildCertificateChain lib root with
  | .error err => .error err
  | .ok chain =>
    match chain.getLast? with
    | some last =>
      if last.isCA then
        .ok ({ acc.1 with
            trustedRootCerts := acc.1.trustedRootCerts.insert last.raw last
            trustedIntermediateCerts := storeCerts chain acc.1.trustedIntermediateCerts },
          ⟨acc.2.intermediates ++ chain, acc.2.roots ++ [last]⟩)
      else .error ("the certificate configured as root for organization " ++ acc.1.id ++
        " is not a CA certificate")
    | none => .error ("the certificate configured as root for organization " ++ acc.1.id ++
        " is not a CA certificate")

def addRootForUpdating (acc : Organization × VerifyOptions) (root : Bytes) :
    Except String (Organization × VerifyOptions) :=
  match buildCertificateChainForUpdatingChainConfig lib acc.1.id root with
  | .error err => .error err
  | .ok chain =>
    let cas := chain.filter (·.isCA)
    let others := chain.filter (!·.isCA)
    let org := { acc.1 with
      trustedRootCerts := storeCerts cas acc.1.trustedRootCerts
      trustedIntermediateCerts := storeCerts others acc.1.trustedIntermediateCerts }
    if org.trustedRootCerts.keys = [] then
      .error ("update configuration failed, no trusted root (for " ++ org.id ++
        "): please configure trusted root certificate or trusted public key whitelist")
    else .ok (org, ⟨acc.2.intermediates ++ others, acc.2.roots ++ cas⟩)

def noOrganization (id : String) : Organization := ⟨id, ∅, ∅⟩

def initTrustRoots (roots : List TrustRootConfig) (localOrgId : String) :
    Except String CertACProvider := do
  let cp ← roots.foldlM (fun (cp : CertACProvider) orgRoot => do
    let (org, opts) ← orgRoot.root.foldlM (addRoot lib) (noOrganization orgRoot.orgId, cp.opts)
    return { cp with acService := cp.acService.addOrg orgRoot.orgId org, opts := opts }) cp
  return { cp with
    localOrg := (cp.acService.orgList.lookup localOrgId).getD (noOrganization localOrgId) }

/-- The number of organizations is the number of configured roots, also when one is repeated. -/
def initTrustRootsForUpdatingChainConfig (roots : List TrustRootConfig) (localOrgId : String) :
    Except String CertACProvider := do
  let (orgList, opts) ← roots.foldlM
    (fun (acc : GoMap String Organization × VerifyOptions) orgRoot => do
      let (org, opts) ←
        orgRoot.root.foldlM (addRootForUpdating lib) (noOrganization orgRoot.orgId, acc.2)
      return (acc.1.insert orgRoot.orgId org, opts)) (∅, ⟨[], []⟩)
  return { cp with
    acService := { cp.acService with orgNum := roots.length, orgList := orgList }
    opts := opts
    localOrg := (orgList.lookup localOrgId).getD (noOrganization localOrgId) }

def validateCrlVersion (crl : CertificateList) : Except String Unit :=
  match cp.dataStore with
  | none => .ok ()
  | some store =>
    match crl.authorityKeyId with
    | .error err => .error ("invalid CRL: " ++ err)
    | .ok aki =>
      match store aki with
      | .error err => .error ("lookup CRL [" ++ textOf (hexEncode aki) ++ "] failed: " ++ err)
      | .ok none => .ok ()
      | .ok (some crlOldBytes) =>
        match lib.parseCRL ((lib.pemBlocks crlOldBytes).headD []) with
        | .error err => .error ("parse old CRL failed: " ++ err)
        | .ok crlOld =>
          if crl.version < crlOld.version then
            .error "validate CRL failed: version of new CRL should be greater than the old one"
          else .ok ()

def checkCRLAgainstTrustedCerts (crl : CertificateList) (isIntermediate : Bool) :
    Except String Unit :=
  match crl.authorityKeyId with
  | .error err => .error ("fail to get AKI of CRL: " ++ err)
  | .ok aki =>
    let targetCerts := cp.acService.orgList.values.flatMap fun org =>
      if isIntermediate then org.trustedIntermediateCerts.values else org.trustedRootCerts.values
    match targetCerts.find? fun cert => cert.subjectKeyId = aki with
    | some cert =>
      match lib.checkCRLSignature cert crl with
      | .ok () => .ok ()
      | .error err => .error ("CRL [AKI: " ++ textOf (hexEncode aki) ++
          "] is not signed by CA it claims: " ++ err)
    | none => .error ("CRL [AKI: " ++ textOf (hexEncode aki) ++ "] is not signed by ac trusted CA")

def validateOneCRL (block : Bytes) : Except String CertificateList :=
  match lib.parseCRL block with
  | .error err => .error ("invalid CRL: " ++ err)
  | .ok crl =>
    match cp.validateCrlVersion lib crl with
    | .error err => .error err
    | .ok () =>
      match cp.checkCRLAgainstTrustedCerts lib crl false,
          cp.checkCRLAgainstTrustedCerts lib crl true with
      | .error err1, .error err2 =>
        .error ("invalid CRL: verification against trusted root certs: " ++ err1 ++
          ", verification against trusted intermediate certs: " ++ err2)
      | _, _ => .ok crl

def validateCRL (crlBytes : Bytes) : Except String (List CertificateList) :=
  match lib.pemBlocks crlBytes with
  | [] => .error "empty CRL"
  | blocks => blocks.mapM (cp.validateOneCRL lib)

def storeCRLs (what : String) : List CertificateList → CertACProvider →
    CertACProvider × Except String Unit
  | [], cp => (cp, .ok ())
  | crl :: crls, cp =>
    match crl.authorityKeyId with
    | .error err => (cp, .error (what ++ err))
    | .ok aki => storeCRLs what crls { cp with crl := cp.crl.insert aki crl }

def loadOneCRL (store : Store) (cp : CertACProvider) (crlAKI : Bytes) :
    Except String CertACProvider :=
  match store crlAKI with
  | .error err => .error ("fail to load CRL [" ++ textOf (hexEncode crlAKI) ++ "]: " ++ err)
  | .ok none => .error ("fail to load CRL [" ++ textOf (hexEncode crlAKI) ++ "]: CRL is nil")
  | .ok (some crlBytes) =>
    match cp.validateCRL lib crlBytes with
    | .error err => .error err
    | .ok crls =>
      match storeCRLs "fail to load CRL, fail to get AKI from CRL: " crls cp with
      | (cp, .ok ()) => .ok cp
      | (_, .error err) => .error err

def loadCRL : Except String CertACProvider :=
  match cp.dataStore with
  | none => .ok cp
  | some store =>
    match store certRevokeKey with
    | .error err => .error ("fail to update CRL list: " ++ err)
    | .ok none => .ok cp
    | .ok (some crlAKIList) =>
      match lib.unmarshalTexts crlAKIList with
      | .error err => .error ("fail to update CRL list: " ++ err)
      | .ok crlAKIs => crlAKIs.foldlM (loadOneCRL lib store) cp

def freeze (cp : CertACProvider) (block : Bytes) : CertACProvider :=
  { cp with frozenList := insert block cp.frozenList }

def unfreeze (cp : CertACProvider) (block : Bytes) : CertACProvider :=
  { cp with frozenList := cp.frozenList.erase block }

def loadOneFrozen (store : Store) (cp : CertACProvider) (certID : Bytes) :
    Except String CertACProvider :=
  match store certID with
  | .error _ => .error ("load frozen certificate failed: " ++ textOf certID)
  | .ok none => .error ("load frozen certificate failed: empty certificate [" ++
    textOf certID ++ "]")
  | .ok (some certBytes) => .ok (cp.freeze ((lib.pemBlocks certBytes).headD []))

def loadCertFrozenList : Except String CertACProvider :=
  match cp.dataStore with
  | none => .ok cp
  | some store =>
    match store certFreezeKey with
    | .error err => .error ("update frozen certificate list failed: " ++ err)
    | .ok none => .ok cp
    | .ok (some certList) =>
      match lib.unmarshalTexts certList with
      | .error err => .error ("update frozen certificate list failed: " ++ err)
      | .ok certIDs => certIDs.foldlM (loadOneFrozen lib store) cp

def isRevoked (cert : Certificate) : Bool :=
  match cp.crl.lookup cert.authorityKeyId with
  | some crl => cert.serialNumber ∈ crl.revokedCertificates
  | none => false

def checkCRL (certChain : List Certificate) : Except String Unit :=
  if certChain = [] then .error "given certificate chain is empty"
  else if certChain.any cp.isRevoked then .error "certificate is revoked"
  else .ok ()

def checkCertFrozenList (certChain : List Certificate) : Except String Unit :=
  match certChain with
  | [] => .error "given certificate chain is empty"
  | leaf :: _ => if leaf.raw ∈ cp.frozenList then .error "certificate is frozen" else .ok ()

/-! ### Members -/

def findCertChain (org : Organization) (certChains : List (List Certificate)) :
    Option (List Certificate) :=
  certChains.find? fun chain =>
    (chain.getLast?.any fun root => (org.trustedRootCerts.lookup root.raw).isSome) &&
      (cp.checkCRL chain).isOk && (cp.checkCertFrozenList chain).isOk

def verifyMember (certMember : CertificateMember) : Except String (List Certificate) :=
  match lib.verify cp.opts certMember.cert with
  | .error err => .error ("not ac valid certificate from trusted CAs: " ++ err)
  | .ok certChains =>
    match certMember.cert.organization with
    -- The source indexes the list without a check and panics. By `organization_ne_nil` this is
    -- for a signer only that names no organization.
    | [] => .error "runtime error: index out of range [0] with length 0"
    | orgIdFromCert :: _ =>
      if certMember.orgId ≠ orgIdFromCert then
        .error ("signer does not belong to the organization it claims [claim: " ++
          certMember.orgId ++ ", certificate: " ++ orgIdFromCert ++ "]")
      else match cp.acService.orgList.lookup orgIdFromCert with
        | none => .error "no orgnization found"
        | some org =>
          if org.trustedRootCerts.keys = [] then
            .error "no trusted root: please configure trusted root certificate"
          else match cp.findCertChain org certChains with
            | some certChain => .ok certChain
            | none => .error ("authentication failed, signer does not belong to the " ++
                "organization it claims [claim: " ++ certMember.orgId ++ "]")

def newNoCacheMember (pbMember : PbMember) : Except String (CertificateMember × Bool) :=
  match cp.trustMembers.lookup pbMember.memberInfo with
  | some trusted =>
    (newCertMemberFromParam lib trusted.orgId trusted.role trusted.memberInfo).map (·, true)
  | none =>
    match newCertMemberFromPb lib pbMember with
    | .ok member => .ok (member, false)
    | .error err => .error ("new member failed: " ++ err)

def lookUpCertCache (certId : Bytes) : CertACProvider × Option Bytes :=
  match cp.certCache.get certId with
  | some cert => (cp, some cert)
  | none =>
    match cp.dataStore with
    | none => (cp, none)
    | some store =>
      match store (hexEncode certId) with
      | .ok (some cert) => ({ cp with certCache := cp.certCache.add certId cert }, some cert)
      | _ => (cp, none)

def resolveMember (pbMember : PbMember) : Except String (MemberCached CertificateMember) :=
  match cp.newNoCacheMember lib pbMember with
  | .error err => .error err
  | .ok (member, true) => .ok ⟨member, []⟩
  | .ok (member, false) => (cp.verifyMember lib member).map fun certChain => ⟨member, certChain⟩

def newMemberOfText (pbMember : PbMember) : CertACProvider × Except String CertificateMember :=
  match cp.acService.lookUpMemberInCache pbMember.memberInfo with
  | some cached => (cp, .ok cached.member)
  | none =>
    match cp.resolveMember lib pbMember with
    | .error err => (cp, .error ("new member failed: " ++ err))
    | .ok cached =>
      (cp.withService (cp.acService.addMemberToCache pbMember.memberInfo cached), .ok cached.member)

def newMember (pbMember : PbMember) : CertACProvider × Except String CertificateMember :=
  match pbMember.memberType with
  | .cert => cp.newMemberOfText lib pbMember
  | .certHash =>
    match cp.lookUpCertCache pbMember.memberInfo with
    | (cp, some memberInfo) => cp.newMemberOfText lib { pbMember with memberInfo := memberInfo }
    | (cp, none) =>
      (cp, .error "new member failed, the provided certificate ID is not registered")
  | _ => (cp, .error "new member failed: the member type does not match")

def getMemberStatus (pbMember : PbMember) : CertACProvider × MemberStatus :=
  match cp.newMember lib pbMember with
  | (cp, .error _) => (cp, .invalid)
  | (cp, .ok member) =>
    (cp, if (cp.checkCRL [member.cert]).isOk then
      if (cp.checkCertFrozenList [member.cert]).isOk then .normal else .frozen
    else .revoked)

/-! ### Principals -/

def verifyPrincipalSignerNotInCache (endorsement : EndorsementEntry) (msg : Bytes) :
    Except String (MemberCached CertificateMember) :=
  match cp.resolveMember lib endorsement.signer with
  | .error err => .error err
  | .ok cached =>
    match cached.member.verify lib msg endorsement.signature with
    | .error err => .error ("member verify signature failed: [" ++ err ++ "]")
    | .ok () => .ok cached

def verifyPrincipalSignerInCache (signerInfo : MemberCached CertificateMember)
    (endorsement : EndorsementEntry) (msg memInfo : Bytes) : Except String Unit := do
  if (cp.trustMembers.lookup memInfo).isNone then
    cp.checkCRL signerInfo.certChain
    cp.checkCertFrozenList signerInfo.certChain
    if endorsement.signer.orgId ≠ signerInfo.member.orgId then
      .error ("authentication failed, signer does not belong to the organization it claims " ++
        "[claim: " ++ endorsement.signer.orgId ++ ", root cert: " ++ signerInfo.member.orgId ++ "]")
  match signerInfo.member.verify lib msg endorsement.signature with
  | .error err => .error ("signer member verify signature failed: [" ++ err ++ "]")
  | .ok () => .ok ()

structure Refining where
  cp : CertACProvider
  refinedSigners : Finset Bytes
  refinedEndorsement : List EndorsementEntry
  -- Declared before the loop: an entry that does not set it finds the text of an earlier one.
  memInfo : Bytes

namespace Refining

def resolve (r : Refining) (entry : EndorsementEntry) :
    Option (CertACProvider × EndorsementEntry × Bytes) :=
  match entry.signer.memberType with
  | .cert => some (r.cp, entry, entry.signer.memberInfo)
  | .certHash =>
    match r.cp.lookUpCertCache entry.signer.memberInfo with
    | (cp, some memInfo) =>
      some (cp, { entry with signer := { entry.signer with memberInfo := memInfo } }, memInfo)
    | (_, none) => none
  | _ => some (r.cp, entry, r.memInfo)

def accept (cp : CertACProvider) (endorsement : EndorsementEntry) (msg memInfo : Bytes) :
    Option CertACProvider :=
  match cp.acService.lookUpMemberInCache memInfo with
  | some signerInfo =>
    match cp.verifyPrincipalSignerInCache lib signerInfo endorsement msg memInfo with
    | .ok () => some cp
    | .error _ => none
  | none =>
    match cp.verifyPrincipalSignerNotInCache lib endorsement msg with
    | .ok signerInfo => some (cp.withService (cp.acService.addMemberToCache memInfo signerInfo))
    | .error _ => none

def refineEntry (msg : Bytes) (r : Refining) (entry : EndorsementEntry) : Refining :=
  match r.resolve entry with
  | none => r
  | some (cp, endorsement, memInfo) =>
    match accept lib cp endorsement msg memInfo with
    | none => { r with cp := cp, memInfo := memInfo }
    | some cp =>
      if memInfo ∈ r.refinedSigners then { r with cp := cp, memInfo := memInfo }
      else
        { cp := cp
          refinedSigners := insert memInfo r.refinedSigners
          refinedEndorsement := r.refinedEndorsement ++ [endorsement]
          memInfo := memInfo }

end Refining

def refining (endorsements : List EndorsementEntry) (msg : Bytes) : Refining :=
  endorsements.foldl (Refining.refineEntry lib msg) ⟨cp, ∅, [], []⟩

def refineEndorsements (endorsements : List EndorsementEntry) (msg : Bytes) :
    CertACProvider × List EndorsementEntry :=
  let r := cp.refining lib endorsements msg
  (r.cp, r.refinedEndorsement)

def verifyPrincipal (skip : Bool) (principal : Principal) : CertACProvider × Except String Unit :=
  if cp.acService.orgNum = 0 then
    (cp, .error ("authentication failed: empty organization list or trusted node list on " ++
      "this chain"))
  else match cp.refineEndorsements lib principal.endorsement principal.message with
    | (cp, []) => (cp, .error ("authentication failed, [refine endorsements failed, all " ++
        "endorsers have failed verification]"))
    | (cp, refined) =>
      if skip then (cp, .ok ())
      else match cp.acService.lookUpPolicyByResourceName principal.resourceName with
        | .error err => (cp, .error ("authentication failed, [" ++ err ++ "]"))
        | .ok p =>
          (cp, cp.acService.verifyPrincipalPolicy principal
            { principal with endorsement := refined, targetOrg := "" } p)

def getValidEndorsements (principal : Principal) :
    CertACProvider × Except String (List EndorsementEntry) :=
  if cp.acService.orgNum = 0 then
    (cp, .error ("authentication fail: empty organization list or trusted node list on " ++
      "this chain"))
  else match cp.refineEndorsements lib principal.endorsement principal.message with
    | (cp, []) => (cp, .error ("authentication fail, not a member on this chain: [refine " ++
        "endorsements failed, all endorsers have failed verification]"))
    | (cp, refined) =>
      match cp.acService.lookUpPolicyByResourceName principal.resourceName with
      | .error err => (cp, .error ("authentication fail: [" ++ err ++ "]"))
      | .ok p => (cp, .ok (cp.acService.getValidEndorsements p.orgList.toFinset
          p.roleList.toFinset refined))

/-! ### Creation, configuration updates and callbacks -/

def unconfigured (config : ChainConfig) (localOrgId : String) (store : Option Store)
    (evictions certEvictions : List (List Bytes)) (trustMembers : TrustMembers) :
    CertACProvider where
  acService := initAccessControlService config.hash config.authType evictions _ _
  dataStore := store
  certCache := .empty certEvictions
  crl := ∅
  frozenList := ∅
  opts := ⟨[], []⟩
  localOrg := noOrganization localOrgId
  trustMembers := trustMembers

def newCertACProvider (config : ChainConfig) (localOrgId : String) (store : Option Store)
    (evictions certEvictions : List (List Bytes)) : Except String CertACProvider := do
  let trustMembers ← initTrustMembers lib config.trustMembers
  let cp := unconfigured config localOrgId store evictions certEvictions trustMembers
  let cp ← cp.initTrustRoots lib config.trustRoots localOrgId
  let cp := cp.withService (cp.acService.initResourcePolicy config.resourcePolicies localOrgId)
  let cp ← cp.loadCRL lib
  cp.loadCertFrozenList lib

-- An error leaves what has been assigned before it.
def watch (config : ChainConfig) : CertACProvider × Except String Unit :=
  let cp := cp.withService
    { cp.acService with hashType := config.hash, authType := config.authType }
  match cp.initTrustRootsForUpdatingChainConfig lib config.trustRoots cp.localOrg.id with
  | .error err => (cp, .error err)
  | .ok cp =>
    let acs := cp.acService.initResourcePolicy config.resourcePolicies cp.localOrg.id
    let cp := { cp with
      acService := { acs with memberCache := acs.memberCache.clear }
      certCache := cp.certCache.clear }
    match initTrustMembers lib config.trustMembers with
    | .error err => (cp, .error err)
    | .ok trustMembers => ({ cp with trustMembers := trustMembers }, .ok ())

def certFreezeCase (payload : Payload) : CertACProvider × Except String Unit :=
  match payload.parameters.lookup "certs" with
  | some value => ((lib.pemBlocks (splitLines value)).foldl freeze cp, .ok ())
  | none => (cp, .ok ())

def certUnfreezeCase (payload : Payload) : CertACProvider × Except String Unit :=
  match payload.parameters.lookup "certs" with
  | some value => ((lib.pemBlocks (splitLines value)).foldl unfreeze cp, .ok ())
  | none => (cp, .ok ())

def certRevokeCase (payload : Payload) : CertACProvider × Except String Unit :=
  match payload.parameters.lookup "cert_crl" with
  | some value =>
    match cp.validateCRL lib (splitLines value) with
    | .error err => (cp, .error ("update CRL failed, invalid CRLS: " ++ err))
    | .ok crls => storeCRLs "update CRL failed: " crls cp
  | none => (cp, .ok ())

def callback (payload : Payload) : CertACProvider × Except String Unit :=
  if payload.method = "CERTS_FREEZE" then cp.certFreezeCase lib payload
  else if payload.method = "CERTS_UNFREEZE" then cp.certUnfreezeCase lib payload
  else if payload.method = "CERTS_REVOKE" then cp.certRevokeCase lib payload
  else (cp, .ok ())

end CertACProvider

end ChainMaker.Ac
