import ChainMaker.Ac.PkMember

/-! The access control provider of the permissioned public key mode (`permissioned_pk_ac.go`).
The ledger changes between the calls, so that each of them gets the one it reads. -/

namespace ChainMaker.Ac

abbrev PkService (κ : Type) := AccessControlService (PkMember κ) Unit

namespace AccessControlService
variable {κ : Type} (lib : KeyLib κ) (acs : PkService κ)

def keepPkMember (member : PbMember) (mismatch : String) (pkMember : PkMember κ) :
    PkService κ × Except String (PkMember κ) :=
  if pkMember.orgId ≠ member.orgId ∧ member.orgId ≠ "" then (acs, .error mismatch)
  else (acs.addMemberToCache member.memberInfo ⟨pkMember, []⟩, .ok pkMember)

def newPkMember (ledger : KeyLedger) (member : PbMember) (adminList : GoMap Bytes AdminMemberModel)
    (consensusList : GoMap String String) : PkService κ × Except String (PkMember κ) :=
  match acs.getMemberFromCache member with
  | some cached => (acs, .ok cached)
  | none =>
    match newPkMemberFromAcs lib member adminList consensusList ledger acs.hashType with
    | .error err => (acs, .error ("new public key member failed: " ++ err))
    | .ok pkMember =>
      acs.keepPkMember member
        "new public key member failed: member orgId does not match on chain" pkMember

def newNodePkMember (ledger : KeyLedger) (member : PbMember)
    (consensusList : GoMap String String) : PkService κ × Except String (PkMember κ) :=
  match acs.getMemberFromCache member with
  | some cached =>
    if cached.role ≠ roleConsensusNode ∧ cached.role ≠ roleCommonNode then
      (acs, .error "get member from cache, the public key is not a node member")
    else (acs, .ok cached)
  | none =>
    match newPkNodeMemberFromAcs lib member consensusList ledger acs.hashType with
    | .error err => (acs, .error err)
    | .ok pkMember =>
      acs.keepPkMember member
        "new public key node member failed: member orgId does not match on chain" pkMember

end AccessControlService

structure PermissionedPkACProvider (κ : Type) where
  acService : PkService κ
  localOrg : String
  adminMember : GoMap Bytes AdminMemberModel
  consensusMember : GoMap String String

namespace PermissionedPkACProvider
variable {κ : Type} (lib : KeyLib κ) (pp : PermissionedPkACProvider κ)

def publicKeysParam : String := "pubkey"

def addAdmin (orgId : String) (admins : GoMap Bytes AdminMemberModel) (root : Bytes) :
    Except String (GoMap Bytes AdminMemberModel) :=
  match lib.publicKeyFromPEM root with
  | none => .error "init admin member failed: parse the public key from PEM failed"
  | some pk => .ok (admins.insert (lib.bytes pk) ⟨lib.bytes pk, orgId⟩)

def addTrustRoot (acc : GoMap Bytes AdminMemberModel × GoMap String Unit × ℕ)
    (trustRoot : TrustRootConfig) :
    Except String (GoMap Bytes AdminMemberModel × GoMap String Unit × ℕ) :=
  match trustRoot.root.foldlM (addAdmin lib trustRoot.orgId) acc.1, acc.2 with
  | .error err, _ => .error err
  | .ok admins, (orgList, orgNum) =>
    if (orgList.lookup trustRoot.orgId).isSome then .ok (admins, orgList, orgNum)
    else .ok (admins, orgList.insert trustRoot.orgId (), orgNum + 1)

def initAdminMembers (trustRootList : List TrustRootConfig) :
    Except String (PermissionedPkACProvider κ) :=
  match trustRootList.foldlM (addTrustRoot lib) (∅, ∅, 0) with
  | .error err => .error err
  | .ok (admins, orgList, orgNum) => .ok
      { pp with
        acService := { pp.acService with orgNum := orgNum, orgList := orgList }
        adminMember := admins }

def initConsensusMember (consensusConf : List OrgConfig) : PermissionedPkACProvider κ :=
  { pp with
    consensusMember := consensusConf.foldl (fun members conf =>
      conf.nodeId.foldl (fun members node => members.insert node conf.orgId) members) ∅ }

def newPermissionedPkACProvider (config : ChainConfig) (localOrgId : String)
    (evictions : List (List Bytes)) : Except String (PermissionedPkACProvider κ) :=
  let pp : PermissionedPkACProvider κ :=
    { acService := initAccessControlService config.hash (toLower config.authType) evictions _ _
      localOrg := localOrgId
      adminMember := ∅
      consensusMember := ∅ }
  match pp.initAdminMembers lib config.trustRoots with
  | .error err => .error err
  | .ok pp =>
    let pp := pp.initConsensusMember config.consensusNodes
    .ok { pp with
      acService := pp.acService.initResourcePolicy config.resourcePolicies localOrgId }

-- The type of authentication stays the one of the start.
def watch (config : ChainConfig) : PermissionedPkACProvider κ × Except String Unit :=
  let pp := { pp with acService := { pp.acService with hashType := config.hash } }
  match pp.initAdminMembers lib config.trustRoots with
  | .error err => (pp, .error ("update chainconfig error: " ++ err))
  | .ok pp =>
    let pp := pp.initConsensusMember config.consensusNodes
    let acs := pp.acService.initResourcePolicy config.resourcePolicies pp.localOrg
    ({ pp with acService := { acs with memberCache := acs.memberCache.clear } }, .ok ())

def deleteCase : List (String × Bytes) →
    PermissionedPkACProvider κ → PermissionedPkACProvider κ × Except String Unit
  | [], pp => (pp, .ok ())
  | (key, value) :: params, pp =>
    if key = publicKeysParam then
      match lib.publicKeyFromPEM value with
      | none => (pp, .error "delete member cache failed, [fail to parse public key]")
      | some pk => deleteCase params
          { pp with acService :=
            { pp.acService with memberCache := pp.acService.memberCache.remove (lib.string pk) } }
    else deleteCase params pp

def callback (payload : Payload) : PermissionedPkACProvider κ × Except String Unit :=
  if payload.method = "PUBKEY_DELETE" then deleteCase lib payload.parameters pp
  else (pp, .ok ())

def newMember (ledger : KeyLedger) (member : PbMember) :
    PermissionedPkACProvider κ × Except String (PkMember κ) :=
  let r := pp.acService.newPkMember lib ledger member pp.adminMember pp.consensusMember
  ({ pp with acService := r.1 }, r.2)

def newNodeMember (ledger : KeyLedger) (member : PbMember) :
    PermissionedPkACProvider κ × Except String (PkMember κ) :=
  let r := pp.acService.newNodePkMember lib ledger member pp.consensusMember
  ({ pp with acService := r.1 }, r.2)

inductive MemberStatus where
  | normal
  | invalid
deriving DecidableEq

def getMemberStatus (ledger : KeyLedger) (member : PbMember) :
    PermissionedPkACProvider κ × MemberStatus × Except String Unit :=
  match pp.newNodeMember lib ledger member with
  | (pp, .error err) => (pp, .invalid, .error err)
  | (pp, .ok _) => (pp, .normal, .ok ())

def getHashAlg : String := pp.acService.hashType

def source (ledger : KeyLedger) : MemberSource (PermissionedPkACProvider κ) κ :=
  ⟨fun pp member => pp.newMember lib ledger member, getHashAlg⟩

def refineEndorsements (ledger : KeyLedger) (endorsements : List EndorsementEntry) (msg : Bytes) :
    PermissionedPkACProvider κ × List EndorsementEntry :=
  refinePkEndorsements lib (source lib ledger) pp endorsements msg

def verifyPrincipal (ledger : KeyLedger) (skip : Bool) (principal : Principal) :
    PermissionedPkACProvider κ × Except String Unit :=
  if pp.acService.orgNum = 0 then
    (pp, .error ("authentication failed: empty organization list or trusted node list on " ++
      "this chain"))
  else match pp.refineEndorsements lib ledger principal.endorsement principal.message with
    | (pp, []) => (pp, .error ("authentication failed, [refine endorsements failed, all " ++
        "endorsers have failed verification]"))
    | (pp, refined) =>
      if skip then (pp, .ok ())
      else match pp.acService.lookUpPolicyByResourceName principal.resourceName with
        | .error err => (pp, .error ("authentication failed, [" ++ err ++ "]"))
        | .ok p => (pp, pp.acService.verifyPrincipalPolicy principal
            ⟨principal.resourceName, refined, principal.message, ""⟩ p)

def getValidEndorsements (ledger : KeyLedger) (principal : Principal) :
    PermissionedPkACProvider κ × Except String (List EndorsementEntry) :=
  if pp.acService.orgNum = 0 then
    (pp, .error ("authentication fail: empty organization list or trusted node list on " ++
      "this chain"))
  else match pp.refineEndorsements lib ledger principal.endorsement principal.message with
    | (pp, []) => (pp, .error ("authentication fail, not a member on this chain: [refine " ++
        "endorsements failed, all endorsers have failed verification]"))
    | (pp, refined) =>
      match pp.acService.lookUpPolicyByResourceName principal.resourceName with
      | .error err => (pp, .error ("authentication fail: [" ++ err ++ "]"))
      | .ok p => (pp, .ok (pp.acService.getValidEndorsements p.orgList.toFinset
          p.roleList.toFinset refined))

end PermissionedPkACProvider

namespace SmallChain

def keyConfig : ChainConfig where
  hash := "SHA256"
  authType := permissionedWithKey
  trustRoots := [⟨"org1", [[1]]⟩]
  trustMembers := []
  consensusNodes := []
  isDpos := false
  resourcePolicies := []

end SmallChain

end ChainMaker.Ac
