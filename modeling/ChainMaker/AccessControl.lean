import ChainMaker.Basic

/-! The access control provider as the consensus modules use it: a principal of one
endorsement, checked for the resource of the consensus nodes. -/

namespace ChainMaker

structure Member where
  orgId : Bytes
  memberInfo : Bytes
deriving DecidableEq

structure EndorsementEntry where
  signer : Member
  signature : Bytes
deriving DecidableEq

inductive Role
  | admin
  | client
  | light
  | consensusNode
  | commonNode
deriving DecidableEq

structure Policy where
  orgList : List Bytes
  roleList : List Role

def policyConsensus : Policy := ⟨[], [.consensusNode]⟩

structure AccessControl (μ : Type) where
  orgNum : ℕ
  verifySigner : Member → μ → Bytes → Bool
  role : Member → Option Role

namespace AccessControl
variable {μ : Type} (ac : AccessControl μ)

def refineEndorsements (endorsements : List EndorsementEntry) (msg : μ) : List EndorsementEntry :=
  endorsements.foldl (fun refined e =>
    if ac.verifySigner e.signer msg e.signature &&
        refined.all fun r => r.signer.memberInfo ≠ e.signer.memberInfo
    then refined ++ [e] else refined) []

def verifyPrincipalPolicyRuleAnyCase (p : Policy) (endorsements : List EndorsementEntry) : Bool :=
  endorsements.any fun e =>
    (p.orgList.isEmpty || p.orgList.contains e.signer.orgId) &&
      (p.roleList.isEmpty || (ac.role e.signer).any p.roleList.contains)

def verifyPrincipal (p : Policy) (endorsements : List EndorsementEntry) (msg : μ) : Bool :=
  let refined := ac.refineEndorsements endorsements msg
  0 < ac.orgNum && !refined.isEmpty && ac.verifyPrincipalPolicyRuleAnyCase p refined

/-- `CreatePrincipal` and `VerifyPrincipal` on one endorsement; a missing one is refused when
the principal is created. -/
def verifyConsensusNode (endorsement : Option EndorsementEntry) (msg : μ) : Bool :=
  match endorsement with
  | none => false
  | some e => ac.verifyPrincipal policyConsensus [e] msg

lemma verifyConsensusNode_iff {endorsement : Option EndorsementEntry} {msg : μ} :
    ac.verifyConsensusNode endorsement msg = true ↔ ∃ e, endorsement = some e ∧ 0 < ac.orgNum ∧
        ac.verifySigner e.signer msg e.signature = true ∧
        ac.role e.signer = some .consensusNode := by
  cases endorsement with
  | none => simp [verifyConsensusNode]
  | some e =>
    cases hs : ac.verifySigner e.signer msg e.signature <;>
      cases hr : ac.role e.signer <;>
      simp [verifyConsensusNode, verifyPrincipal, refineEndorsements,
        verifyPrincipalPolicyRuleAnyCase, policyConsensus, hs, hr]

end AccessControl

end ChainMaker
