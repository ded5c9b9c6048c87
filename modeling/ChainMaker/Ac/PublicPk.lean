import ChainMaker.Ac.PkMember

/-! The access control provider of the public mode (`public_pk_ac.go`). -/

namespace ChainMaker.Ac

def pubPolicyConsensus : Policy := ⟨ruleAny, [], [roleConsensusNode]⟩
def pubPolicyManage : Policy := ⟨ruleAny, [], [roleAdmin]⟩
def pubPolicyMajorityAdmin : Policy := ⟨ruleMajority, [], [roleAdmin]⟩
def pubPolicyTransaction : Policy := ⟨ruleAny, [], []⟩
def pubPolicyForbidden : Policy := ⟨ruleForbidden, [], []⟩

def publicResourcePolicies : List (String × Policy) :=
  [(resourceNameConsensusNode, pubPolicyConsensus),
    ("QUERY_CONTRACT", pubPolicyTransaction),
    ("INVOKE_CONTRACT", pubPolicyTransaction),
    ("SUBSCRIBE", pubPolicyTransaction),
    ("ARCHIVE", pubPolicyManage),
    ("CHAIN_CONFIG-TRUST_ROOT_UPDATE", pubPolicyMajorityAdmin)]

def publicForbidden : List String :=
  [resourceNamePrivateCompute, "PRIVATE_COMPUTE-SAVE_CA_CERT",
    "PRIVATE_COMPUTE-SAVE_ENCLAVE_REPORT", "CHAIN_CONFIG-TRUST_MEMBER_ADD",
    "CHAIN_CONFIG-TRUST_MEMBER_DELETE", "CHAIN_CONFIG-TRUST_MEMBER_UPDATE",
    "CHAIN_CONFIG-NODE_ID_ADD", "CHAIN_CONFIG-NODE_ID_DELETE", "CHAIN_CONFIG-NODE_ID_UPDATE",
    "CHAIN_CONFIG-NODE_ORG_ADD", "CHAIN_CONFIG-NODE_ORG_UPDATE", "CHAIN_CONFIG-NODE_ORG_DELETE",
    "CHAIN_CONFIG-CONSENSUS_EXT_ADD", "CHAIN_CONFIG-CONSENSUS_EXT_UPDATE",
    "CHAIN_CONFIG-CONSENSUS_EXT_DELETE", "CHAIN_CONFIG-PERMISSION_ADD",
    "CHAIN_CONFIG-PERMISSION_UPDATE", "CHAIN_CONFIG-PERMISSION_DELETE", "CERT_MANAGE-CERT_ADD",
    "CERT_MANAGE-CERTS_FREEZE", "CERT_MANAGE-CERTS_UNFREEZE", "CERT_MANAGE-CERTS_DELETE",
    "CERT_MANAGE-CERTS_REVOKE", "PUBKEY_MANAGE-PUBKEY_ADD", "PUBKEY_MANAGE-PUBKEY_DELETE",
    "CHAIN_CONFIG-TRUST_ROOT_ADD", "CHAIN_CONFIG-TRUST_ROOT_DELETE", "MULTI_SIGN-REQ",
    "MULTI_SIGN-VOTE", "MULTI_SIGN-QUERY", "CONTRACT_MANAGE-GRANT_CONTRACT_ACCESS",
    "CONTRACT_MANAGE-REVOKE_CONTRACT_ACCESS", "CONTRACT_MANAGE-VERIFY_CONTRACT_ACCESS",
    "CONTRACT_MANAGE-GET_DISABLED_CONTRACT_LIST"]

def publicManaged : List String :=
  ["CHAIN_CONFIG-CORE_UPDATE", "CHAIN_CONFIG-BLOCK_UPDATE", "CONTRACT_MANAGE-UPGRADE_CONTRACT",
    "CONTRACT_MANAGE-FREEZE_CONTRACT", "CONTRACT_MANAGE-UNFREEZE_CONTRACT",
    "CONTRACT_MANAGE-REVOKE_CONTRACT"]

def publicExceptionalPolicies : List (String × Policy) :=
  publicForbidden.map (·, pubPolicyForbidden) ++ publicManaged.map (·, pubPolicyManage)

def adminPublicKey : String := "public"
def dposOrgId : String := "dpos_org_id"

structure PkACProvider (κ : Type) where
  hashType : String
  adminNum : ℕ
  adminMember : GoMap Bytes Bytes
  consensusMember : Finset String
  memberCache : BoundedCache Bytes (PkMember κ)
  resourceNamePolicyMap : PolicyMap
  exceptionalPolicyMap : PolicyMap

namespace PkACProvider
variable {κ : Type} (lib : KeyLib κ) (p : PkACProvider κ)

def addAdmin (admins : GoMap Bytes Bytes × ℕ) (root : Bytes) :
    Except String (GoMap Bytes Bytes × ℕ) :=
  match lib.publicKeyFromPEM root with
  | none => .error "init admin member failed: parse the public key from PEM failed"
  | some pk => .ok (admins.1.insert (lib.bytes pk) (lib.bytes pk), admins.2 + 1)

def adminRoots (trustRootList : List TrustRootConfig) : List Bytes :=
  (trustRootList.filter fun trustRoot => toLower trustRoot.orgId = adminPublicKey).flatMap
    fun trustRoot => trustRoot.root

def initAdminMembers (trustRootList : List TrustRootConfig) : Except String (PkACProvider κ) :=
  if trustRootList = [] then .ok p
  else match (adminRoots trustRootList).foldlM (addAdmin lib) (∅, 0) with
    | .error err => .error err
    | .ok (adminMember, adminNum) => .ok { p with adminMember := adminMember, adminNum := adminNum }

def initDPoSMember (consensusConf : List OrgConfig) : Except String (PkACProvider κ) :=
  match consensusConf with
  | [] => .error "update dpos consensus member failed: DPoS config can't be empty in chain config"
  | conf :: _ =>
    if conf.orgId ≠ dposOrgId then
      .error "update dpos consensus member failed: DPoS node config orgId do not match"
    else .ok { p with consensusMember := conf.nodeId.toFinset }

def initConsensusMember (config : ChainConfig) : Except String (PkACProvider κ) :=
  if config.isDpos then p.initDPoSMember config.consensusNodes
  else .error "public chain mode does not support other consensus"

def newPkACProvider (config : ChainConfig) (evictions : List (List Bytes)) :
    Except String (PkACProvider κ) :=
  let p : PkACProvider κ :=
    { hashType := config.hash
      adminNum := 0
      adminMember := ∅
      consensusMember := ∅
      memberCache := .empty evictions
      resourceNamePolicyMap := PolicyMap.storeAll publicResourcePolicies ∅
      exceptionalPolicyMap := PolicyMap.storeAll publicExceptionalPolicies ∅ }
  match p.initAdminMembers lib config.trustRoots with
  | .error err => .error ("new public AC provider failed: " ++ err)
  | .ok p =>
    match p.initConsensusMember config with
    | .error err => .error ("new public AC provider failed: " ++ err)
    | .ok p => .ok p

-- An error leaves what has been assigned before it, and the cache as it is.
def watch (config : ChainConfig) : PkACProvider κ × Except String Unit :=
  let p := { p with hashType := config.hash }
  match p.initAdminMembers lib config.trustRoots with
  | .error err => (p, .error ("new public AC provider failed: " ++ err))
  | .ok p =>
    match p.initConsensusMember config with
    | .error err => (p, .error ("new public AC provider failed: " ++ err))
    | .ok p => ({ p with memberCache := p.memberCache.clear }, .ok ())

def getMemberFromCache (member : PbMember) : Option (PkMember κ) :=
  p.memberCache.get member.memberInfo

def newMember (pbMember : PbMember) : PkACProvider κ × Except String (PkMember κ) :=
  match p.getMemberFromCache pbMember with
  | some cached => (p, .ok cached)
  | none =>
    match publicNewPkMemberFromAcs lib pbMember p.adminMember p.consensusMember p.hashType with
    | .error err => (p, .error ("new member failed: " ++ err))
    | .ok member =>
      ({ p with memberCache := p.memberCache.add pbMember.memberInfo member }, .ok member)

def source : MemberSource (PkACProvider κ) κ := ⟨newMember lib, hashType⟩

def refineEndorsements (endorsements : List EndorsementEntry) (msg : Bytes) :
    PkACProvider κ × List EndorsementEntry :=
  refinePkEndorsements lib (source lib) p endorsements msg

def getValidEndorsements (roleList : Finset Role) (endorsements : List EndorsementEntry) :
    List EndorsementEntry :=
  endorsements.filter fun e =>
    roleList = ∅ || (p.getMemberFromCache e.signer).any fun m => m.role ∈ roleList

def verifyRuleAnyCase (pol : Policy) (endorsements : List EndorsementEntry) : Except String Unit :=
  if endorsements.any fun e => pol.roleList = [] ||
      (p.getMemberFromCache e.signer).any fun m => m.role ∈ pol.roleList then .ok ()
  else .error ("authentication fail for any rule, policy: rule: [" ++ pol.rule ++ "],roleList: [" ++
    toString pol.roleList ++ "]")

def verifyRuleMajorityCase (endorsements : List EndorsementEntry) : Except String Unit :=
  let numOfValid := (p.getValidEndorsements {roleAdmin} endorsements).length
  if p.adminNum < 2 * numOfValid then .ok ()
  else .error (notEnough (toString (p.adminNum / 2 + 1)) numOfValid)

def verifyPrincipalPolicy (resourceName : String) (endorsements : List EndorsementEntry)
    (pol : Policy) : Except String Unit :=
  if pol.rule = ruleForbidden then
    .error ("public authentication fail: [" ++ resourceName ++ "] is forbidden to access")
  else if pol.rule = ruleAny then p.verifyRuleAnyCase pol endorsements
  else if pol.rule = ruleMajority then p.verifyRuleMajorityCase endorsements
  else .error ("public authentication fail: [" ++ pol.rule ++ "] is not supported")

def lookUpPolicyByResourceName (resourceName : String) : Except String Policy :=
  match p.resourceNamePolicyMap.lookup resourceName with
  | some pol => .ok pol
  | none =>
    match p.exceptionalPolicyMap.lookup resourceName with
    | some pol => .ok pol
    | none => .error ("look up access policy failed, did not configure access policy for " ++
        "resource " ++ resourceName)

def verifyPrincipal (skip : Bool) (principal : Principal) : PkACProvider κ × Except String Unit :=
  match p.refineEndorsements lib principal.endorsement principal.message with
  | (p, []) => (p, .error ("authentication failed, [refine endorsements failed, all endorsers " ++
      "have failed verification]"))
  | (p, refined) =>
    if skip then (p, .ok ())
    else match p.lookUpPolicyByResourceName principal.resourceName with
      | .error err => (p, .error ("authentication failed, [" ++ err ++ "]"))
      | .ok pol => (p, p.verifyPrincipalPolicy principal.resourceName refined pol)

end PkACProvider

end ChainMaker.Ac
