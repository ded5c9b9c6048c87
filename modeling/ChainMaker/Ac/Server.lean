import Mathlib.Data.Int.Log
import Mathlib.Data.Rat.Floor
import ChainMaker.Basic
import ChainMaker.Lib.BoundedCache

/-! Policies of the access control module (`policy.go`) and the ones that the service stores by
default (`ac_server.go`). A role is a text: certificates name arbitrary ones. -/

namespace ChainMaker.Ac
open List

abbrev Role := String

def roleAdmin : Role := "ADMIN"
def roleClient : Role := "CLIENT"
def roleLight : Role := "LIGHT"
def roleConsensusNode : Role := "CONSENSUS"
def roleCommonNode : Role := "COMMON"

def ruleMajority : String := "MAJORITY"
def ruleAll : String := "ALL"
def ruleAny : String := "ANY"
def ruleSelf : String := "SELF"
def ruleForbidden : String := "FORBIDDEN"
def ruleDelete : String := "DELETE"

def resourceNameReadData : String := "READ"
def resourceNameWriteData : String := "WRITE"
def resourceNameP2p : String := "P2P"
def resourceNameConsensusNode : String := "CONSENSUS"
def resourceNameUpdateConfig : String := "CONFIG"
def resourceNameUpdateSelfConfig : String := "SELF_CONFIG"
def resourceNameAllTest : String := "ALL_TEST"
def resourceNamePrivateCompute : String := "PRIVATE_COMPUTE"

structure Policy where
  rule : String
  orgList : List String
  roleList : List Role
deriving DecidableEq

structure PbPolicy where
  rule : String
  orgList : List String
  roleList : List String
deriving DecidableEq

structure ResourcePolicy where
  resourceName : String
  policy : Option PbPolicy
deriving DecidableEq

-- The letters with a case in ASCII: the source maps those of every script.
def toUpper (s : String) : String :=
  .ofList (s.toList.map fun c => if c = 'ı' then 'I' else if c = 'ſ' then 'S' else c.toUpper)
def toLower (s : String) : String :=
  .ofList (s.toList.map fun c => if c = 'İ' then 'i' else if c = '\u212a' then 'k' else c.toLower)

def newPolicyFromPb (input : PbPolicy) : Policy :=
  ⟨input.rule, input.orgList, input.roleList.map toUpper⟩

def policyRead : Policy :=
  ⟨ruleAny, [], [roleConsensusNode, roleCommonNode, roleClient, roleAdmin]⟩

def policySpecialRead : Policy :=
  ⟨ruleAny, [], [roleConsensusNode, roleCommonNode, roleClient, roleAdmin, roleLight]⟩

def policySpecialWrite : Policy := ⟨ruleAny, [], [roleClient, roleAdmin, roleLight]⟩
def policyWrite : Policy := ⟨ruleAny, [], [roleClient, roleAdmin]⟩
def policyConsensus : Policy := ⟨ruleAny, [], [roleConsensusNode]⟩
def policyP2P : Policy := ⟨ruleAny, [], [roleConsensusNode, roleCommonNode]⟩
def policyAdmin : Policy := ⟨ruleAny, [], [roleAdmin]⟩
def policySubscribe : Policy := ⟨ruleAny, [], [roleLight, roleClient, roleAdmin]⟩

def policyArchive (localOrgId : String) : Policy := ⟨ruleAny, [localOrgId], [roleAdmin]⟩

def policyConfig : Policy := ⟨ruleMajority, [], [roleAdmin]⟩
def policySelfConfig : Policy := ⟨ruleSelf, [], [roleAdmin]⟩
def policyForbidden : Policy := ⟨ruleForbidden, [], []⟩
def policyAllTest : Policy := ⟨ruleAll, [], [roleAdmin]⟩
def policyLimitTestAny : Policy := ⟨"2", [], []⟩
def policyLimitTestAdmin : Policy := ⟨"2", [], [roleAdmin]⟩
def policyPortionTestAny : Policy := ⟨"3/4", [], []⟩
def policyPortionTestAnyAdmin : Policy := ⟨"3/4", [], [roleAdmin]⟩

abbrev PolicyMap := GoMap String Policy

def PolicyMap.storeAll (entries : List (String × Policy)) (m : PolicyMap) : PolicyMap :=
  entries.foldl (fun m e => m.insert e.1 e.2) m

lemma PolicyMap.lookup_storeAll (entries : List (String × Policy)) (m : PolicyMap) (name : String) :
    (m.storeAll entries).lookup name = (entries.reverse.lookup name).or (m.lookup name) := by
  induction entries using reverseRecOn generalizing m with
  | nil => rfl
  | append_singleton es e ih =>
    have hlast : (m.storeAll (es ++ [e])).lookup name =
        ((m.storeAll es).insert e.1 e.2).lookup name := by
      rw [storeAll, foldl_append]
      rfl
    rw [hlast, reverse_append, reverse_singleton, singleton_append]
    by_cases hname : name = e.1
    · rw [hname, AList.lookup_insert, lookup_cons_self, Option.some_or]
    · have hne : (name == e.1) = false := beq_false_of_ne hname
      rw [AList.lookup_insert_ne hname, ih, lookup_cons, hne]

-- What `createDefaultResourcePolicy` and `createDefaultResourcePolicyForPK` both store.
def sharedResourcePolicies (localOrgId : String) : List (String × Policy) :=
  [(resourceNameReadData, policyRead),
    (resourceNameWriteData, policyWrite),
    (resourceNameUpdateSelfConfig, policySelfConfig),
    (resourceNameUpdateConfig, policyConfig),
    (resourceNameConsensusNode, policyConsensus),
    (resourceNameP2p, policyP2P),
    (resourceNameAllTest, policyAllTest),
    ("test_2", policyLimitTestAny),
    ("test_2_admin", policyLimitTestAdmin),
    ("test_3/4", policyPortionTestAny),
    ("test_3/4_admin", policyPortionTestAnyAdmin),
    ("QUERY_CONTRACT", policyRead),
    ("INVOKE_CONTRACT", policyWrite),
    ("SUBSCRIBE", policySubscribe),
    ("ARCHIVE", policyArchive localOrgId),
    (resourceNamePrivateCompute, policyWrite),
    ("PRIVATE_COMPUTE-SAVE_CA_CERT", policyConfig),
    ("PRIVATE_COMPUTE-SAVE_ENCLAVE_REPORT", policyConfig),
    ("CHAIN_CONFIG-CORE_UPDATE", policyConfig),
    ("CHAIN_CONFIG-BLOCK_UPDATE", policyConfig),
    ("CHAIN_CONFIG-TRUST_ROOT_ADD", policyConfig),
    ("CHAIN_CONFIG-TRUST_ROOT_DELETE", policyConfig),
    ("CHAIN_CONFIG-TRUST_ROOT_UPDATE", policySelfConfig),
    ("CHAIN_CONFIG-NODE_ID_ADD", policyConfig),
    ("CHAIN_CONFIG-NODE_ID_DELETE", policyConfig),
    ("CHAIN_CONFIG-NODE_ID_UPDATE", policySelfConfig),
    ("CHAIN_CONFIG-NODE_ORG_ADD", policyConfig),
    ("CHAIN_CONFIG-NODE_ORG_UPDATE", policyConfig),
    ("CHAIN_CONFIG-NODE_ORG_DELETE", policyConfig),
    ("CHAIN_CONFIG-CONSENSUS_EXT_ADD", policyConfig),
    ("CHAIN_CONFIG-CONSENSUS_EXT_UPDATE", policyConfig),
    ("CHAIN_CONFIG-CONSENSUS_EXT_DELETE", policyConfig),
    ("CHAIN_CONFIG-PERMISSION_ADD", policyConfig),
    ("CHAIN_CONFIG-PERMISSION_UPDATE", policyConfig),
    ("CHAIN_CONFIG-PERMISSION_DELETE", policyConfig),
    ("CONTRACT_MANAGE-INIT_CONTRACT", policyConfig),
    ("CONTRACT_MANAGE-UPGRADE_CONTRACT", policyConfig),
    ("CONTRACT_MANAGE-FREEZE_CONTRACT", policyConfig),
    ("CONTRACT_MANAGE-UNFREEZE_CONTRACT", policyConfig),
    ("CONTRACT_MANAGE-REVOKE_CONTRACT", policyConfig),
    ("CONTRACT_MANAGE-GRANT_CONTRACT_ACCESS", policyConfig),
    ("CONTRACT_MANAGE-REVOKE_CONTRACT_ACCESS", policyConfig),
    ("CONTRACT_MANAGE-VERIFY_CONTRACT_ACCESS", policyConfig)]

def sharedExceptionalPolicies : List (String × Policy) :=
  [("CHAIN_QUERY-GET_BLOCK_BY_HEIGHT", policySpecialRead),
    ("CHAIN_QUERY-GET_BLOCK_WITH_TXRWSETS_BY_HEIGHT", policySpecialRead),
    ("CHAIN_QUERY-GET_BLOCK_BY_HASH", policySpecialRead),
    ("CHAIN_QUERY-GET_BLOCK_WITH_TXRWSETS_BY_HASH", policySpecialRead),
    ("CHAIN_QUERY-GET_BLOCK_BY_TX_ID", policySpecialRead),
    ("CHAIN_QUERY-GET_TX_BY_TX_ID", policySpecialRead),
    ("CHAIN_QUERY-GET_LAST_CONFIG_BLOCK", policySpecialRead),
    ("CHAIN_QUERY-GET_LAST_BLOCK", policySpecialRead),
    ("CHAIN_QUERY-GET_FULL_BLOCK_BY_HEIGHT", policySpecialRead),
    ("CHAIN_QUERY-GET_BLOCK_HEIGHT_BY_TX_ID", policySpecialRead),
    ("CHAIN_QUERY-GET_BLOCK_HEIGHT_BY_HASH", policySpecialRead),
    ("CHAIN_QUERY-GET_BLOCK_HEADER_BY_HEIGHT", policySpecialRead),
    ("CHAIN_QUERY-GET_ARCHIVED_BLOCK_HEIGHT", policySpecialRead),
    ("CHAIN_CONFIG-GET_CHAIN_CONFIG", policySpecialRead),
    ("CERT_MANAGE-CERTS_QUERY", policySpecialRead),
    ("CERT_MANAGE-CERT_ADD", policySpecialWrite)]

def certResourcePolicies (localOrgId : String) : List (String × Policy) :=
  sharedResourcePolicies localOrgId ++
    [("CHAIN_CONFIG-TRUST_MEMBER_ADD", policyConfig),
      ("CHAIN_CONFIG-TRUST_MEMBER_DELETE", policyConfig),
      ("CHAIN_CONFIG-TRUST_MEMBER_UPDATE", policyConfig),
      ("CERT_MANAGE-CERTS_FREEZE", policyAdmin),
      ("CERT_MANAGE-CERTS_UNFREEZE", policyAdmin),
      ("CERT_MANAGE-CERTS_DELETE", policyAdmin),
      ("CERT_MANAGE-CERTS_REVOKE", policyAdmin)]

def certExceptionalPolicies : List (String × Policy) :=
  sharedExceptionalPolicies ++
    [("PUBKEY_MANAGE-PUBKEY_ADD", policyForbidden),
      ("PUBKEY_MANAGE-PUBKEY_DELETE", policyForbidden)]

def pkResourcePolicies (localOrgId : String) : List (String × Policy) :=
  sharedResourcePolicies localOrgId ++
    [("PUBKEY_MANAGE-PUBKEY_ADD", policySelfConfig),
      ("PUBKEY_MANAGE-PUBKEY_DELETE", policySelfConfig)]

-- `CERT_ADD` is stored a second time, and the later value stays.
def pkExceptionalPolicies : List (String × Policy) :=
  sharedExceptionalPolicies ++
    [("CERT_MANAGE-CERT_ADD", policyForbidden),
      ("CERT_MANAGE-CERTS_FREEZE", policyForbidden),
      ("CERT_MANAGE-CERTS_UNFREEZE", policyForbidden),
      ("CERT_MANAGE-CERTS_DELETE", policyForbidden),
      ("CERT_MANAGE-CERTS_REVOKE", policyForbidden),
      ("CHAIN_CONFIG-TRUST_MEMBER_ADD", policyForbidden),
      ("CHAIN_CONFIG-TRUST_MEMBER_DELETE", policyForbidden),
      ("CHAIN_CONFIG-TRUST_MEMBER_UPDATE", policyForbidden)]

/-! The access control service behind the certificate and the permissioned public key
providers (`ac_server.go`): organizations, resource policies, the member cache, and the rules
a principal is checked against. -/

inductive MemberType where
  | cert
  | certHash
  | publicKey
  | other (code : ℤ)
deriving DecidableEq

structure PbMember where
  orgId : String
  memberInfo : Bytes
  memberType : MemberType
deriving DecidableEq

structure EndorsementEntry where
  signer : PbMember
  signature : Bytes
deriving DecidableEq

structure Principal where
  resourceName : String
  endorsement : List EndorsementEntry
  message : Bytes
  targetOrg : String
deriving DecidableEq

structure TrustMemberConfig where
  memberInfo : Bytes
  orgId : String
  role : String
deriving DecidableEq

structure TrustRootConfig where
  orgId : String
  root : List Bytes
deriving DecidableEq

structure OrgConfig where
  orgId : String
  nodeId : List String
deriving DecidableEq

structure ChainConfig where
  hash : String
  authType : String
  trustRoots : List TrustRootConfig
  trustMembers : List TrustMemberConfig
  consensusNodes : List OrgConfig
  isDpos : Bool
  resourcePolicies : List ResourcePolicy
deriving DecidableEq

structure Payload where
  method : String
  parameters : List (String × Bytes)
deriving DecidableEq

structure Certificate where
  raw : Bytes
  organization : List String
  organizationalUnit : List String
  serialNumber : ℕ
  authorityKeyId : Bytes
  subjectKeyId : Bytes
  isCA : Bool
  signature : Bytes
deriving DecidableEq

class Member (μ : Type) where
  getOrgId : μ → String
  getRole : μ → Role

structure MemberCached (μ : Type) where
  member : μ
  certChain : List Certificate
deriving DecidableEq

structure AccessControlService (μ ο : Type) where
  orgNum : ℕ
  orgList : GoMap String ο
  resourceNamePolicyMap : PolicyMap
  exceptionalPolicyMap : PolicyMap
  memberCache : BoundedCache Bytes (MemberCached μ)
  hashType : String
  authType : String

def initAccessControlService (hashType authType : String) (evictions : List (List Bytes))
    (μ ο : Type) : AccessControlService μ ο where
  orgNum := 0
  orgList := ∅
  resourceNamePolicyMap := ∅
  exceptionalPolicyMap := ∅
  memberCache := .empty evictions
  hashType := hashType
  authType := authType

def permissionedWithCert : String := "permissionedwithcert"
def identity : String := "identity"
def permissionedWithKey : String := "permissionedwithkey"

def atoi (text : List Char) : Option ℤ :=
  let digits (ds : List Char) : Option ℤ :=
    if ds ≠ [] ∧ ds.all Char.isDigit then
      some (ds.foldl (fun n d => 10 * n + (d.toNat - '0'.toNat : ℕ)) 0)
    else none
  let value := match text with
    | '-' :: ds => (digits ds).map (-·)
    | '+' :: ds => digits ds
    | ds => digits ds
  value.filter fun n => -2 ^ 63 ≤ n ∧ n < 2 ^ 63

def ruleParts (rule : String) : List (List Char) := rule.toList.splitOn '/'

def roundEven (q : ℚ) : ℤ :=
  if round q - q = 1 / 2 ∧ ¬2 ∣ round q then round q - 1 else round q

/-- The nearest `float64`, of two the even one. The numbers of a rule are far from the ends of
its range. -/
def float64 (q : ℚ) : ℚ :=
  let ulp : ℚ := 2 ^ (Int.log 2 |q| - 52)
  roundEven (q / ulp) * ulp

def numRequired (orgs : ℕ) (numerator denominator : ℤ) : ℚ :=
  float64 (float64 (orgs * float64 numerator) / float64 denominator)

-- Over zero the quotient of the source is infinite, or not a number where both are zero.
def meetsPortion (orgs : ℕ) (numerator denominator : ℤ) (numOfValid : ℕ) : Bool :=
  if denominator = 0 then orgs * numerator < 0
  else numRequired orgs numerator denominator ≤ numOfValid

def formatRequired (orgs : ℕ) (numerator denominator : ℤ) : String :=
  if denominator = 0 then if orgs * numerator = 0 then "NaN" else "+Inf"
  else
    let micro := (roundEven (numRequired orgs numerator denominator * 1000000)).toNat
    let fraction := toString (micro % 1000000)
    toString (micro / 1000000) ++ "." ++
      String.ofList (replicate (6 - fraction.length) '0') ++ fraction

def restrainedResourceList : List String :=
  [resourceNameAllTest, resourceNameP2p, resourceNameConsensusNode,
    "QUERY_CONTRACT", "INVOKE_CONTRACT", "SUBSCRIBE", "ARCHIVE"]

def notEnoughParticipantsSupportError : String :=
  "authentication fail: not enough participants support this action"

def notEnough (required : String) (received : ℕ) : String :=
  notEnoughParticipantsSupportError ++ ": " ++ required ++ " valid endorsements required, " ++
    toString received ++ " valid endorsements received"

def checkResourcePolicyRuleSelfCase (resourceName : String) : Bool :=
  resourceName = "CHAIN_CONFIG-TRUST_ROOT_UPDATE" || resourceName = "CHAIN_CONFIG-NODE_ID_UPDATE"

def checkResourcePolicyRuleDefaultCase (policy : PbPolicy) : Bool :=
  match ruleParts policy.rule with
  | [threshold] => (atoi threshold).isSome
  | [numerator, denominator] =>
    match atoi numerator, atoi denominator with
    | some n, some d => 0 < n && 0 < d
    | _, _ => false
  | _ => false

-- The majority case only warns about what it is going to ignore.
def checkResourcePolicyRule (resourceName : String) (policy : PbPolicy) : Bool :=
  if policy.rule ∈ [ruleAny, ruleAll, ruleForbidden] then true
  else if policy.rule = ruleSelf then checkResourcePolicyRuleSelfCase resourceName
  else if policy.rule = ruleMajority then true
  else if policy.rule = ruleDelete then true
  else checkResourcePolicyRuleDefaultCase policy

def countOrgsFromEndorsements (endorsements : List EndorsementEntry) : ℕ :=
  (endorsements.map fun e => e.signer.orgId).toFinset.card

namespace AccessControlService
variable {μ ο : Type} (acs : AccessControlService μ ο)

def createDefaultResourcePolicy (localOrgId : String) : AccessControlService μ ο :=
  { acs with
    resourceNamePolicyMap :=
      acs.resourceNamePolicyMap.storeAll (certResourcePolicies localOrgId)
    exceptionalPolicyMap := acs.exceptionalPolicyMap.storeAll certExceptionalPolicies }

def createDefaultResourcePolicyForPK (localOrgId : String) : AccessControlService μ ο :=
  { acs with
    resourceNamePolicyMap := acs.resourceNamePolicyMap.storeAll (pkResourcePolicies localOrgId)
    exceptionalPolicyMap := acs.exceptionalPolicyMap.storeAll pkExceptionalPolicies }

def checkResourcePolicyOrgList (policy : PbPolicy) : Bool :=
  policy.orgList.all (fun org => (acs.orgList.lookup org).isSome) && policy.orgList.Nodup

def validateResourcePolicy (resourcePolicy : ResourcePolicy) : Bool :=
  if resourcePolicy.resourceName ∈ restrainedResourceList then false
  else match resourcePolicy.policy with
    | none => false
    | some policy =>
      acs.checkResourcePolicyOrgList policy &&
        checkResourcePolicyRule resourcePolicy.resourceName policy

def storeResourcePolicy (resourcePolicy : ResourcePolicy) : AccessControlService μ ο :=
  match resourcePolicy.policy with
  | some policy =>
    if acs.validateResourcePolicy resourcePolicy then
      { acs with
        resourceNamePolicyMap :=
          acs.resourceNamePolicyMap.insert resourcePolicy.resourceName (newPolicyFromPb policy) }
    else acs
  | none => acs

def initResourcePolicy (resourcePolicies : List ResourcePolicy) (localOrgId : String) :
    AccessControlService μ ο :=
  let acs :=
    if acs.authType = permissionedWithCert ∨ acs.authType = identity then
      acs.createDefaultResourcePolicy localOrgId
    else if acs.authType = permissionedWithKey then
      acs.createDefaultResourcePolicyForPK localOrgId
    else acs
  resourcePolicies.foldl storeResourcePolicy acs

lemma initResourcePolicy_frame (resourcePolicies : List ResourcePolicy) (localOrgId : String) :
    ∃ policies exceptional, acs.initResourcePolicy resourcePolicies localOrgId =
      { acs with resourceNamePolicyMap := policies, exceptionalPolicyMap := exceptional } := by
  have hstore : ∀ (ps : List ResourcePolicy) (acs : AccessControlService μ ο), ∃ policies,
      ps.foldl storeResourcePolicy acs = { acs with resourceNamePolicyMap := policies } := by
    intro ps
    induction ps with
    | nil => exact fun acs => ⟨_, rfl⟩
    | cons p ps ih =>
      intro acs
      obtain ⟨policies, hpolicies⟩ := ih (acs.storeResourcePolicy p)
      refine ⟨policies, ?_⟩
      rw [foldl_cons, hpolicies]
      unfold storeResourcePolicy
      split
      · split <;> rfl
      · rfl
  unfold initResourcePolicy
  split
  · obtain ⟨policies, hpolicies⟩ :=
      hstore resourcePolicies (acs.createDefaultResourcePolicy localOrgId)
    exact ⟨policies, _, hpolicies⟩
  split
  · obtain ⟨policies, hpolicies⟩ :=
      hstore resourcePolicies (acs.createDefaultResourcePolicyForPK localOrgId)
    exact ⟨policies, _, hpolicies⟩
  · obtain ⟨policies, hpolicies⟩ := hstore resourcePolicies acs
    exact ⟨policies, acs.exceptionalPolicyMap, hpolicies⟩

def lookUpMemberInCache (memberInfo : Bytes) : Option (MemberCached μ) :=
  acs.memberCache.get memberInfo

def addMemberToCache (memberInfo : Bytes) (member : MemberCached μ) : AccessControlService μ ο :=
  { acs with memberCache := acs.memberCache.add memberInfo member }

def addOrg (orgId : String) (orgInfo : ο) : AccessControlService μ ο :=
  { acs with
    orgList := acs.orgList.insert orgId orgInfo
    orgNum := if (acs.orgList.lookup orgId).isSome then acs.orgNum else acs.orgNum + 1 }

def lookUpPolicyByResourceName (resourceName : String) : Except String Policy :=
  match acs.resourceNamePolicyMap.lookup resourceName with
  | some p => .ok p
  | none =>
    match acs.exceptionalPolicyMap.lookup resourceName with
    | some p => .ok p
    | none => .error ("look up access policy failed, did not configure access policy for " ++
        "resource " ++ resourceName)

variable [Member μ]

def getMemberFromCache (member : PbMember) : Option μ :=
  match acs.lookUpMemberInCache member.memberInfo with
  | some cached => if Member.getOrgId cached.member = member.orgId then some cached.member else none
  | none => none

def getValidEndorsements (orgList : Finset String) (roleList : Finset Role)
    (endorsements : List EndorsementEntry) : List EndorsementEntry :=
  endorsements.filter fun e =>
    (orgList = ∅ || e.signer.orgId ∈ orgList) &&
      (roleList = ∅ || (acs.getMemberFromCache e.signer).any fun m => Member.getRole m ∈ roleList)

def countValidEndorsements (orgList : Finset String) (roleList : Finset Role)
    (endorsements : List EndorsementEntry) : ℕ :=
  countOrgsFromEndorsements (acs.getValidEndorsements orgList roleList endorsements)

-- Admins only, and of all the organizations of the chain: the policy itself is not read.
def verifyPrincipalPolicyRuleMajorityCase (endorsements : List EndorsementEntry) :
    Except String Unit :=
  let numOfValid := acs.countValidEndorsements ∅ {roleAdmin} endorsements
  if acs.orgNum < 2 * numOfValid then .ok ()
  else .error (notEnough (toString (acs.orgNum / 2 + 1)) numOfValid)

def verifyPrincipalPolicyRuleSelfCase (targetOrg : String)
    (endorsements : List EndorsementEntry) : Except String Unit :=
  if targetOrg = "" then
    .error "authentication fail: SELF keyword requires the owner of the affected target"
  else if endorsements.any fun e => e.signer.orgId = targetOrg &&
      (acs.getMemberFromCache e.signer).any fun m => Member.getRole m = roleAdmin then .ok ()
  else .error s!"authentication fail: target [{targetOrg}] does not belong to the signer"

def verifyPrincipalPolicyRuleAnyCase (p : Policy) (endorsements : List EndorsementEntry)
    (resourceName : String) : Except String Unit :=
  if endorsements.any fun e => (p.orgList = [] || e.signer.orgId ∈ p.orgList) &&
      (p.roleList = [] ||
        (acs.getMemberFromCache e.signer).any fun m => Member.getRole m ∈ p.roleList) then .ok ()
  else .error s!"authentication fail: signers do not meet the requirement ({resourceName})"

def verifyPrincipalPolicyRuleAllCase (p : Policy) (endorsements : List EndorsementEntry) :
    Except String Unit :=
  let orgList := p.orgList.toFinset
  let numOfValid := acs.countValidEndorsements orgList p.roleList.toFinset endorsements
  if orgList = ∅ ∧ numOfValid = acs.orgNum then .ok ()
  else if orgList ≠ ∅ ∧ numOfValid = orgList.card then .ok ()
  else .error "authentication fail: not all of the listed organtizations consend to this action"

def verifyPrincipalPolicyRuleDefaultCase (p : Policy) (endorsements : List EndorsementEntry) :
    Except String Unit :=
  let orgList := p.orgList.toFinset
  let numOfValid := acs.countValidEndorsements orgList p.roleList.toFinset endorsements
  match ruleParts p.rule with
  | [threshold] =>
    match atoi threshold with
    | none => .error ("authentication fail: unrecognized rule, should be ANY, MAJORITY, ALL, " ++
        "SELF, ac threshold (integer), or ac portion (fraction)")
    | some threshold =>
      if threshold ≤ numOfValid then .ok () else .error (notEnough (toString threshold) numOfValid)
  | [numerator, denominator] =>
    match atoi numerator, atoi denominator with
    | some numerator, some denominator =>
      let denominator := if denominator ≤ 0 then (acs.orgNum : ℤ) else denominator
      let orgs : ℕ := if orgList = ∅ then acs.orgNum else orgList.card
      if meetsPortion orgs numerator denominator numOfValid then .ok ()
      else .error (notEnough (formatRequired orgs numerator denominator) numOfValid)
    | _, _ => .error ("authentication fail: unrecognized rule, should be ANY, MAJORITY, ALL, " ++
        "SELF, an integer, or ac fraction")
  | _ => .error ("authentication fail: unrecognized principle type, should be ANY, MAJORITY, " ++
      "ALL, SELF, an integer (Threshold), or ac fraction (Portion)")

def verifyPrincipalPolicy (principal refinedPrincipal : Principal) (p : Policy) :
    Except String Unit :=
  let endorsements := refinedPrincipal.endorsement
  if p.rule = ruleForbidden then
    .error ("authentication fail: [" ++ refinedPrincipal.resourceName ++ "] is forbidden to access")
  else if p.rule = ruleMajority then acs.verifyPrincipalPolicyRuleMajorityCase endorsements
  else if p.rule = ruleSelf then
    acs.verifyPrincipalPolicyRuleSelfCase principal.targetOrg endorsements
  else if p.rule = ruleAny then
    acs.verifyPrincipalPolicyRuleAnyCase p endorsements principal.resourceName
  else if p.rule = ruleAll then acs.verifyPrincipalPolicyRuleAllCase p endorsements
  else acs.verifyPrincipalPolicyRuleDefaultCase p endorsements

end AccessControlService

end ChainMaker.Ac
