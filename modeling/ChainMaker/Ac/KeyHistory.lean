import ChainMaker.Ac.KeyDeletion
import ChainMaker.Ac.Rules

/-! What earlier calls leave for later ones in the permissioned mode. The member cache is filled by
two constructors that do not agree on a key with two roles, and it is asked before the type of a
member is checked. -/

namespace ChainMaker.Ac
open AccessControlService BoundedCache List

lemma namedKey_of_publicKey {κ : Type} {lib : KeyLib κ} {what : String} {member : PbMember}
    (htype : member.memberType = .publicKey) :
    namedKey lib what member = namedKey lib what ⟨"", member.memberInfo, .publicKey⟩ := by
  simp only [namedKey, htype]

namespace PermissionedPkACProvider
variable {κ : Type} {lib : KeyLib κ} {ledger : KeyLedger} {pp q q' : PermissionedPkACProvider κ}
  {t : Bytes} {member : PbMember} {m m' : PkMember κ}

def memberOf (lib : KeyLib κ) (ledger : KeyLedger) (pp : PermissionedPkACProvider κ) (t : Bytes) :
    Except String (PkMember κ) :=
  newPkMemberFromAcs lib ⟨"", t, .publicKey⟩ pp.adminMember pp.consensusMember ledger pp.getHashAlg

lemma newPkMemberFromAcs_eq_memberOf (lib : KeyLib κ) (ledger : KeyLedger)
    (pp : PermissionedPkACProvider κ) (htype : member.memberType = .publicKey) :
    newPkMemberFromAcs lib member pp.adminMember pp.consensusMember ledger pp.getHashAlg =
      memberOf lib ledger pp member.memberInfo := by
  rw [memberOf, newPkMemberFromAcs, newPkMemberFromAcs, namedKey_of_publicKey htype]

lemma publicKey_of_newPkMemberFromAcs {adminList : GoMap Bytes AdminMemberModel}
    {consensusList : GoMap String String} {hashType : String}
    (h : newPkMemberFromAcs lib member adminList consensusList ledger hashType = .ok m) :
    member.memberType = .publicKey := by
  unfold newPkMemberFromAcs at h
  split at h
  case h_1 => cases h
  case h_2 hname => exact (namedKey_ok hname).1

/-- A key of an admin is no key of a node: neither of a consensus node nor, on the ledger, of a
common one. -/
def OneRole (lib : KeyLib κ) (ledger : KeyLedger) (pp : PermissionedPkACProvider κ) (k : κ) :
    Prop :=
  (pp.adminMember.lookup (lib.bytes k)).isSome →
    pp.consensusMember.lookup (lib.nodeId k) = none ∧
      ∀ info, ledger (lib.bytes k) = .ok (some info) → info.role ≠ roleCommonNode

lemma memberOf_of_newPkNodeMemberFromAcs
    (hrole : ∀ k, lib.publicKeyFromPEM member.memberInfo = some k → OneRole lib ledger pp k)
    (h : newPkNodeMemberFromAcs lib member pp.consensusMember ledger pp.getHashAlg = .ok m) :
    memberOf lib ledger pp member.memberInfo = .ok m := by
  unfold newPkNodeMemberFromAcs at h
  split at h
  case h_1 => cases h
  case h_2 k hname =>
  obtain ⟨htype, hpem⟩ := namedKey_ok hname
  have hname' : namedKey lib "new public key member failed" ⟨"", member.memberInfo, .publicKey⟩ =
      .ok k := by
    simp [namedKey, hpem]
  have hnode : pp.adminMember.lookup (lib.bytes k) = none := by
    by_contra hadmin
    obtain ⟨hconsensus, hcommon⟩ := hrole k hpem (Option.isSome_iff_ne_none.mpr hadmin)
    simp only [hconsensus] at h
    split at h
    case h_1 | h_2 => cases h
    case h_3 info hinfo =>
      rw [if_pos (hcommon info hinfo)] at h
      cases h
  simp only [memberOf, newPkMemberFromAcs, hname', hnode]
  split at h
  case h_1 horg => simpa only [horg] using h
  case h_2 hnone =>
  split at h
  case h_1 | h_2 => cases h
  case h_3 info hinfo =>
    split at h
    case isTrue => cases h
    case isFalse => simpa only [hnone, hinfo] using h

/-! ### Providers that differ in their caches -/

structure Canonical (lib : KeyLib κ) (ledger : KeyLedger) (pp q : PermissionedPkACProvider κ) :
    Prop where
  lists : ∃ cache, q = { pp with acService := { pp.acService with memberCache := cache } }
  unbounded : q.acService.memberCache.evictions = []
  cached : ∀ t c, q.cached t = some c → memberOf lib ledger pp t = .ok c.member ∧ c.certChain = []

namespace Canonical

variable (h : Canonical lib ledger pp q)
include h

lemma hashType : q.getHashAlg = pp.getHashAlg := by
  obtain ⟨cache, rfl⟩ := h.lists
  rfl

lemma add (hm : memberOf lib ledger pp t = .ok m) :
    Canonical lib ledger pp { q with acService := q.acService.addMemberToCache t ⟨m, []⟩ } ∧
      ∀ t', ({ q with acService := q.acService.addMemberToCache t ⟨m, []⟩ } :
        PermissionedPkACProvider κ).cached t' = if t' = t then some ⟨m, []⟩ else q.cached t' := by
  have hcached : ∀ t', ({ q with acService := q.acService.addMemberToCache t ⟨m, []⟩ } :
      PermissionedPkACProvider κ).cached t' = if t' = t then some ⟨m, []⟩ else q.cached t' := by
    intro t'
    by_cases ht : t' = t
    · rw [if_pos ht, ht]
      exact get_add_self _ _ _
    · rw [if_neg ht]
      exact get_add_of_ne h.unbounded ht
  refine ⟨⟨?_, ?_, fun t' c hc => ?_⟩, hcached⟩
  · obtain ⟨cache, rfl⟩ := h.lists
    exact ⟨_, rfl⟩
  · change q.acService.memberCache.evictions.tail = []
    rw [h.unbounded]
    rfl
  · rw [hcached] at hc
    split at hc
    case isTrue ht =>
      cases hc
      exact ⟨ht ▸ hm, rfl⟩
    case isFalse => exact h.cached t' c hc

lemma getMemberFromCache_eq_some_iff : q.acService.getMemberFromCache member = some m ↔
      (q.cached member.memberInfo).isSome = true ∧
        memberOf lib ledger pp member.memberInfo = .ok m ∧ m.orgId = member.orgId := by
  have hget : q.acService.lookUpMemberInCache member.memberInfo = q.cached member.memberInfo := rfl
  rw [getMemberFromCache, hget]
  cases hc : q.cached member.memberInfo with
  | none => simp
  | some c =>
    have hmember := (h.cached _ c hc).1
    have horg : Member.getOrgId c.member = c.member.orgId := rfl
    simp only [horg, Option.ite_none_right_eq_some, Option.some.injEq, Option.isSome_some,
      true_and, hmember, Except.ok.injEq]
    constructor
    · rintro ⟨horg, rfl⟩
      exact ⟨rfl, horg⟩
    · rintro ⟨rfl, horg⟩
      exact ⟨horg, rfl⟩

end Canonical

/-- When `NewMember` finds the member: the text names it, and the type and the organization are
right, or the cache has it under its organization. -/
def Admits (lib : KeyLib κ) (ledger : KeyLedger) (pp q : PermissionedPkACProvider κ)
    (member : PbMember) (m : PkMember κ) : Prop :=
  memberOf lib ledger pp member.memberInfo = .ok m ∧
    (member.memberType = .publicKey ∧ (m.orgId = member.orgId ∨ member.orgId = "") ∨
      (q.cached member.memberInfo).isSome = true ∧ m.orgId = member.orgId)

inductive NewMember (lib : KeyLib κ) (ledger : KeyLedger) (pp q : PermissionedPkACProvider κ)
    (member : PbMember) : PermissionedPkACProvider κ × Except String (PkMember κ) → Prop
  | refused {err : String} (h : ∀ m, ¬Admits lib ledger pp q member m) :
      NewMember lib ledger pp q member (q, .error err)
  | found {m : PkMember κ} {q' : PermissionedPkACProvider κ} (h : Admits lib ledger pp q member m)
      (hcanonical : Canonical lib ledger pp q')
      (hcached : ∀ t, (q'.cached t).isSome = true ↔
        t = member.memberInfo ∨ (q.cached t).isSome = true) :
      NewMember lib ledger pp q member (q', .ok m)

lemma Canonical.newMember (h : Canonical lib ledger pp q) (member : PbMember) :
    NewMember lib ledger pp q member (q.newMember lib ledger member) := by
  unfold PermissionedPkACProvider.newMember AccessControlService.newPkMember
  split
  case h_1 m hcached =>
    obtain ⟨hsome, hmember, horg⟩ := h.getMemberFromCache_eq_some_iff.mp hcached
    refine .found ⟨hmember, .inr ⟨hsome, horg⟩⟩ h fun t => ?_
    constructor
    · exact .inr
    · rintro (rfl | ht)
      · exact hsome
      · exact ht
  case h_2 hnone =>
  have hmiss : ∀ m, memberOf lib ledger pp member.memberInfo = .ok m →
      ¬((q.cached member.memberInfo).isSome = true ∧ m.orgId = member.orgId) := by
    rintro m hm ⟨hsome, horg⟩
    have hget := h.getMemberFromCache_eq_some_iff.mpr ⟨hsome, hm, horg⟩
    cases hnone.symm.trans hget
  obtain ⟨cache, rfl⟩ := h.lists
  split
  case h_1 err herr =>
    refine .refused fun m hadmits => ?_
    obtain ⟨hm, ⟨htype, -⟩ | hcached⟩ := hadmits
    · have hnew := newPkMemberFromAcs_eq_memberOf lib ledger pp htype
      cases (herr.symm.trans hnew).trans hm
    · exact hmiss m hm hcached
  case h_2 m hm =>
  have htype := publicKey_of_newPkMemberFromAcs hm
  have hmember : memberOf lib ledger pp member.memberInfo = .ok m :=
    (newPkMemberFromAcs_eq_memberOf lib ledger pp htype).symm.trans hm
  unfold keepPkMember
  split
  case isTrue horg =>
    refine .refused fun m' hadmits => ?_
    obtain ⟨hm', ⟨-, horg'⟩ | hcached⟩ := hadmits
    · cases hm'.symm.trans hmember
      exact horg'.elim horg.1 horg.2
    · exact hmiss m' hm' hcached
  case isFalse horg =>
  obtain ⟨hcanonical, hcached⟩ := h.add hmember
  refine .found ⟨hmember, .inl ⟨htype, ?_⟩⟩ hcanonical fun t => ?_
  · exact (not_and_or.mp horg).imp not_not.mp not_not.mp
  rw [hcached]
  by_cases ht : t = member.memberInfo
  · simp [ht]
  · simp [ht]

lemma Canonical.newNodeMember (h : Canonical lib ledger pp q)
    (hrole : ∀ k, lib.publicKeyFromPEM member.memberInfo = some k → OneRole lib ledger pp k) :
    Canonical lib ledger pp (q.newNodeMember lib ledger member).1 := by
  unfold PermissionedPkACProvider.newNodeMember AccessControlService.newNodePkMember
  split
  case h_1 => split <;> exact h
  obtain ⟨cache, rfl⟩ := h.lists
  split
  case h_1 => exact h
  case h_2 m hm =>
  unfold keepPkMember
  split
  case isTrue => exact h
  case isFalse => exact (h.add (memberOf_of_newPkNodeMemberFromAcs hrole hm)).1

/-! ### Two loops over the same endorsements -/

/-- No entry of another type names a text that the cache has under its organization. -/
def TypesChecked (q : PermissionedPkACProvider κ) (entries : List EndorsementEntry) : Prop :=
  ∀ e ∈ entries, e.signer.memberType ≠ .publicKey → q.acService.getMemberFromCache e.signer = none

/-- The loop on a provider that started as `q₀` and the loop on one that started without cache. -/
structure InStep (lib : KeyLib κ) (ledger : KeyLedger) (pp q₀ : PermissionedPkACProvider κ)
    (r r' : PkRefining (PermissionedPkACProvider κ)) : Prop where
  canonical : Canonical lib ledger pp r.provider
  canonical' : Canonical lib ledger pp r'.provider
  cached : ∀ t, (r.provider.cached t).isSome = true ↔
    (r'.provider.cached t).isSome = true ∨ (q₀.cached t).isSome = true
  signers : r.refinedSigners = r'.refinedSigners
  refined : r.refinedEndorsement = r'.refinedEndorsement
  members : ∀ e ∈ r'.refinedEndorsement, (r'.provider.cached e.signer.memberInfo).isSome = true

variable {q₀ : PermissionedPkACProvider κ} {r r' : PkRefining (PermissionedPkACProvider κ)}
  {entry : EndorsementEntry} {msg : Bytes}

lemma InStep.admits_iff (h : InStep lib ledger pp q₀ r r') (h₀ : Canonical lib ledger pp q₀)
    (htype : member.memberType ≠ .publicKey → q₀.acService.getMemberFromCache member = none) :
    Admits lib ledger pp r.provider member m ↔ Admits lib ledger pp r'.provider member m := by
  refine and_congr_right fun hm => ?_
  by_cases hpk : member.memberType = .publicKey
  · -- with the right type the cache does not matter
    simp only [hpk, true_and]
    constructor
    · rintro (horg | ⟨-, horg⟩)
      · exact .inl horg
      · exact .inl (.inl horg)
    · rintro (horg | ⟨-, horg⟩)
      · exact .inl horg
      · exact .inl (.inl horg)
  · have hmiss : ¬((q₀.cached member.memberInfo).isSome = true ∧ m.orgId = member.orgId) := by
      rintro ⟨hsome, horg⟩
      have hget := h₀.getMemberFromCache_eq_some_iff.mpr ⟨hsome, hm, horg⟩
      cases (htype hpk).symm.trans hget
    simp only [hpk, false_and, false_or, h.cached]
    constructor
    · rintro ⟨hsome | hsome, horg⟩
      · exact ⟨hsome, horg⟩
      · exact absurd ⟨hsome, horg⟩ hmiss
    · rintro ⟨hsome, horg⟩
      exact ⟨.inl hsome, horg⟩

lemma InStep.step (h : InStep lib ledger pp q₀ r r') (h₀ : Canonical lib ledger pp q₀)
    (htype : entry.signer.memberType ≠ .publicKey →
      q₀.acService.getMemberFromCache entry.signer = none) :
    InStep lib ledger pp q₀ (refineEntry lib (source lib ledger) msg r entry)
      (refineEntry lib (source lib ledger) msg r' entry) := by
  have hnew := h.canonical.newMember entry.signer
  have hnew' := h.canonical'.newMember entry.signer
  have hsource : ∀ q : PermissionedPkACProvider κ, (source lib ledger).newMember q entry.signer =
      q.newMember lib ledger entry.signer := fun _ => rfl
  have hiff : ∀ m, Admits lib ledger pp r.provider entry.signer m ↔
      Admits lib ledger pp r'.provider entry.signer m := fun m => h.admits_iff h₀ htype
  unfold refineEntry
  rw [hsource, hsource]
  generalize r.provider.newMember lib ledger entry.signer = res at hnew
  generalize r'.provider.newMember lib ledger entry.signer = res' at hnew'
  cases hnew with
  | refused hnone =>
    cases hnew' with
    | refused => exact h
    | found hfound => exact absurd ((hiff _).mpr hfound) (hnone _)
  | @found m q hfound hcanonical hcached =>
    cases hnew' with
    | refused hnone => exact absurd ((hiff _).mp hfound) (hnone _)
    | @found m' q' hfound' hcanonical' hcached' =>
      obtain rfl : m = m' := Except.ok.inj (hfound.1.symm.trans hfound'.1)
      have hsome : ∀ t, (q.cached t).isSome = true ↔
          (q'.cached t).isSome = true ∨ (q₀.cached t).isSome = true := fun t => by
        rw [hcached, hcached', h.cached, or_assoc]
      have hkept : ∀ e ∈ r'.refinedEndorsement, (q'.cached e.signer.memberInfo).isSome = true :=
        fun e he => (hcached' _).mpr (.inr (h.members e he))
      have hhash : (source lib ledger).hashType q = (source lib ledger).hashType q' :=
        hcanonical.hashType.trans hcanonical'.hashType.symm
      dsimp only
      rw [hhash, h.signers]
      split
      case h_1 => exact ⟨hcanonical, hcanonical', hsome, rfl, h.refined, hkept⟩
      split
      case isTrue => exact ⟨hcanonical, hcanonical', hsome, rfl, h.refined, hkept⟩
      refine ⟨hcanonical, hcanonical', hsome, rfl, congrArg (· ++ [entry]) h.refined, ?_⟩
      rw [forall_mem_append, forall_mem_singleton]
      exact ⟨hkept, (hcached' _).mpr (.inl rfl)⟩

lemma InStep.foldl (msg : Bytes) (h₀ : Canonical lib ledger pp q₀) {entries : List EndorsementEntry}
    (htypes : TypesChecked q₀ entries) (h : InStep lib ledger pp q₀ r r') :
    InStep lib ledger pp q₀ (entries.foldl (refineEntry lib (source lib ledger) msg) r)
      (entries.foldl (refineEntry lib (source lib ledger) msg) r') := by
  induction entries generalizing r r' with
  | nil => exact h
  | cons entry entries ih =>
    obtain ⟨htype, htypes⟩ := forall_mem_cons.mp htypes
    exact ih htypes (h.step h₀ htype)

/-! ### Histories -/

lemma canonical_newPermissionedPkACProvider (ledger : KeyLedger) {config : ChainConfig}
    {localOrgId : String} (h : newPermissionedPkACProvider lib config localOrgId [] = .ok pp) :
    Canonical lib ledger pp pp ∧ ∀ t, pp.cached t = none := by
  obtain ⟨-, hcache⟩ := newPermissionedPkACProvider_ok h
  have hnone (t : Bytes) : pp.cached t = none := by
    rw [cached, hcache]
    exact get_empty [] t
  refine ⟨⟨⟨_, rfl⟩, congrArg evictions hcache, fun t c hc => ?_⟩, hnone⟩
  cases (hnone t).symm.trans hc

namespace Canonical

lemma fst_newMember (h : Canonical lib ledger pp q) (member : PbMember) :
    Canonical lib ledger pp (q.newMember lib ledger member).1 := by
  have hnew := h.newMember member
  generalize q.newMember lib ledger member = res at hnew
  cases hnew with
  | refused => exact h
  | found _ hcanonical => exact hcanonical

end Canonical

def Call.OneRole (lib : KeyLib κ) (ledger : KeyLedger) (pp : PermissionedPkACProvider κ) :
    Call → Prop
  | .getMemberStatus member => ∀ k, lib.publicKeyFromPEM member.memberInfo = some k →
      PermissionedPkACProvider.OneRole lib ledger pp k
  | _ => True

lemma Canonical.handle (h : Canonical lib ledger pp q) {call : Call}
    (hrole : call.OneRole lib ledger pp) :
    Canonical lib ledger pp (q.handle lib (ledger, call)) := by
  refine handle_induction h (fun es msg => ?_) h.fst_newMember
    (fun member hmember => h.newNodeMember ?_) fun q t hq => ⟨?_, hq.unbounded, fun t c hc => ?_⟩
  · have hmember : ∀ (q : PermissionedPkACProvider κ) pb, Canonical lib ledger pp q →
        Canonical lib ledger pp ((source lib ledger).newMember q pb).1 ∧
          ∀ m, ((source lib ledger).newMember q pb).2 = .ok m → True :=
      fun _ pb hq => ⟨hq.fst_newMember pb, fun _ _ => trivial⟩
    exact (refinePkEndorsements_sound lib hmember (fun _ hq => hq.hashType) h es msg).1
  · subst hmember
    exact hrole
  · obtain ⟨cache, rfl⟩ := hq.lists
    exact ⟨_, rfl⟩
  · exact hq.cached t c (get_of_get_remove hc)

lemma Canonical.verifyPrincipal_eq (h : Canonical lib ledger pp q)
    (hpp : Canonical lib ledger pp pp) (hnone : ∀ t, pp.cached t = none) (skip : Bool)
    (principal : Principal) (htypes : TypesChecked q principal.endorsement) :
    (q.verifyPrincipal lib ledger skip principal).2 =
      (pp.verifyPrincipal lib ledger skip principal).2 := by
  have hstart : InStep lib ledger pp q ⟨q, ∅, []⟩ ⟨pp, ∅, []⟩ :=
    ⟨h, hpp, fun t => by simp [hnone t], rfl, rfl, forall_mem_nil _⟩
  obtain ⟨hcanonical, hcanonical', hcached, -, hrefined, hmembers⟩ :=
    InStep.foldl principal.message h htypes hstart
  have horgs : q.acService.orgNum = pp.acService.orgNum := by
    obtain ⟨cache, rfl⟩ := h.lists
    rfl
  unfold verifyPrincipal
  rw [horgs]
  split
  case isTrue => rfl
  unfold refineEndorsements refinePkEndorsements
  generalize principal.endorsement.foldl (refineEntry lib (source lib ledger) principal.message)
    ⟨q, ∅, []⟩ = r at hcanonical hcached hrefined
  generalize principal.endorsement.foldl (refineEntry lib (source lib ledger) principal.message)
    ⟨pp, ∅, []⟩ = r' at hcanonical' hcached hrefined hmembers
  obtain ⟨q₁, signers, refined⟩ := r
  obtain ⟨q₁', signers', refined'⟩ := r'
  subst hrefined
  have hlook : ∀ e ∈ refined, q₁.acService.getMemberFromCache e.signer =
      q₁'.acService.getMemberFromCache e.signer := by
    intro e he
    have hsome := hmembers e he
    refine Option.ext fun m => ?_
    rw [hcanonical.getMemberFromCache_eq_some_iff, hcanonical'.getMemberFromCache_eq_some_iff,
      hcached]
    simp [hsome]
  cases refined with
  | nil => rfl
  | cons e es =>
    dsimp only
    split
    case isTrue => rfl
    have hpolicy : q₁.acService.lookUpPolicyByResourceName principal.resourceName =
        q₁'.acService.lookUpPolicyByResourceName principal.resourceName := by
      obtain ⟨cache, rfl⟩ := hcanonical.lists
      obtain ⟨cache', rfl⟩ := hcanonical'.lists
      rfl
    have horgs : q₁.acService.orgNum = q₁'.acService.orgNum := by
      obtain ⟨cache, rfl⟩ := hcanonical.lists
      obtain ⟨cache', rfl⟩ := hcanonical'.lists
      rfl
    rw [hpolicy]
    split
    case h_1 => rfl
    case h_2 => exact verifyPrincipalPolicy_congr horgs hlook

theorem verifyPrincipal_history (lib : KeyLib κ) (config : ChainConfig) (localOrgId : String)
    (ledger : KeyLedger) (pp : PermissionedPkACProvider κ)
    (hnew : newPermissionedPkACProvider lib config localOrgId [] = .ok pp) (calls : List Call)
    (hroles : ∀ call ∈ calls, call.OneRole lib ledger pp) (skip : Bool) (principal : Principal)
    (htypes : TypesChecked ((calls.map (ledger, ·)).foldl (handle lib) pp) principal.endorsement) :
    (((calls.map (ledger, ·)).foldl (handle lib) pp).verifyPrincipal lib ledger skip principal).2 =
      (pp.verifyPrincipal lib ledger skip principal).2 := by
  obtain ⟨hpp, hnone⟩ := canonical_newPermissionedPkACProvider ledger hnew
  have hrun : ∀ q, Canonical lib ledger pp q →
      Canonical lib ledger pp ((calls.map (ledger, ·)).foldl (handle lib) q) := by
    clear htypes
    induction calls with
    | nil => exact fun q hq => hq
    | cons call calls ih =>
      obtain ⟨hrole, hroles⟩ := forall_mem_cons.mp hroles
      exact fun q hq => ih hroles _ (hq.handle hrole)
  exact (hrun pp hpp).verifyPrincipal_eq hpp hnone skip principal htypes

section Remembered
open SmallChain

def nodeConfig (node : String) : ChainConfig :=
  { keyConfig with consensusNodes := [⟨"org1", [node]⟩] }

def createdFrom (config : ChainConfig) : PermissionedPkACProvider UInt8 :=
  match newPermissionedPkACProvider keys config "org1" [] with
  | .ok pp => pp
  | .error _ => ⟨initAccessControlService "" "" [] _ _, "", ∅, ∅⟩

def noKeys : KeyLedger := fun _ => .ok none

def signedBy (memberType : MemberType) : Principal :=
  ⟨"CHAIN_CONFIG-BLOCK_UPDATE", [⟨⟨"org1", [1], memberType⟩, [1, 7]⟩], [7], ""⟩

theorem verifyPrincipal_history_node :
    ((createdFrom (nodeConfig "2")).handle keys
        (noKeys, .getMemberStatus ⟨"org1", [2], .publicKey⟩)).cached [2] =
      some ⟨⟨"org1", 2, roleConsensusNode⟩, []⟩ ∧
    (((createdFrom (nodeConfig "2")).handle keys
        (noKeys, .getMemberStatus ⟨"org1", [2], .publicKey⟩)).verifyPrincipal keys noKeys false
          (signedBy .publicKey)).2 =
      ((createdFrom (nodeConfig "2")).verifyPrincipal keys noKeys false
        (signedBy .publicKey)).2 := by
  refine ⟨by decide +kernel, ?_⟩
  refine verifyPrincipal_history keys (nodeConfig "2") "org1" noKeys (createdFrom (nodeConfig "2"))
    rfl [.getMemberStatus ⟨"org1", [2], .publicKey⟩] ?_ false (signedBy .publicKey) ?_
  · rw [List.forall_mem_singleton]
    intro k hk hadmin
    obtain rfl : 2 = k := Option.some.inj hk
    exact absurd hadmin (by decide +kernel)
  · exact fun e he htype => absurd (List.mem_singleton.mp he ▸ rfl) htype

/-- After a question for its status an admin that is also a consensus node is refused; and a signer
of a wrong type is accepted once its text is cached. -/
theorem verifyPrincipal_remembers :
    newPermissionedPkACProvider keys (nodeConfig "1") "org1" [] =
      .ok (createdFrom (nodeConfig "1")) ∧
    ((createdFrom (nodeConfig "1")).verifyPrincipal keys noKeys false (signedBy .publicKey)).2 =
      .ok () ∧
    (((createdFrom (nodeConfig "1")).handle keys
        (noKeys, .getMemberStatus ⟨"org1", [1], .publicKey⟩)).verifyPrincipal keys noKeys false
          (signedBy .publicKey)).2 ≠ .ok () ∧
    ((createdFrom (nodeConfig "1")).verifyPrincipal keys noKeys false (signedBy .cert)).2 ≠
      .ok () ∧
    (((createdFrom (nodeConfig "1")).handle keys
        (noKeys, .newMember ⟨"org1", [1], .publicKey⟩)).verifyPrincipal keys noKeys false
          (signedBy .cert)).2 = .ok () := by
  refine ⟨rfl, ?_⟩
  decide +kernel

end Remembered

end PermissionedPkACProvider
end ChainMaker.Ac
