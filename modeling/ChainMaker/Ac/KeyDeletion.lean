import ChainMaker.Ac.PermissionedPk

/-! What the deletion of a public key leaves in the member cache of the permissioned mode. -/

namespace ChainMaker.Ac
open Option AccessControlService BoundedCache List

namespace SmallChain

def clientLedger : KeyLedger := fun pkBytes =>
  if pkBytes = [5] then .ok (some ⟨"org1", "CLIENT"⟩) else .ok none

def deleteClient : Payload := ⟨"PUBKEY_DELETE", [("pubkey", [5])]⟩

end SmallChain

namespace PermissionedPkACProvider
variable {κ : Type} {lib : KeyLib κ} {ledger : KeyLedger} {k : κ}
  {pp pp' pp'' : PermissionedPkACProvider κ} {hashType : String}

inductive Call where
  | verifyPrincipal (skip : Bool) (principal : Principal)
  | newMember (member : PbMember)
  | getMemberStatus (member : PbMember)
  | getValidEndorsements (principal : Principal)
  | callback (payload : Payload)

def handle (lib : KeyLib κ) (pp : PermissionedPkACProvider κ) (call : KeyLedger × Call) :
    PermissionedPkACProvider κ :=
  match call.2 with
  | .verifyPrincipal skip principal => (pp.verifyPrincipal lib call.1 skip principal).1
  | .newMember member => (pp.newMember lib call.1 member).1
  | .getMemberStatus member => (pp.getMemberStatus lib call.1 member).1
  | .getValidEndorsements principal => (pp.getValidEndorsements lib call.1 principal).1
  | .callback payload => (pp.callback lib payload).1

lemma handle_induction {P : PermissionedPkACProvider κ → Prop} {call : Call} (h : P pp)
    (hrefine : ∀ es msg, P (pp.refineEndorsements lib ledger es msg).1)
    (hnew : ∀ member, P (pp.newMember lib ledger member).1)
    (hnode : ∀ member, call = .getMemberStatus member → P (pp.newNodeMember lib ledger member).1)
    (hremove : ∀ q t, P q → P { q with acService := { q.acService with
      memberCache := q.acService.memberCache.remove t } }) : P (pp.handle lib (ledger, call)) := by
  have hdelete : ∀ params q, P q → P (deleteCase lib params q).1 := by
    intro params
    induction params with
    | nil => exact fun q hq => hq
    | cons param params ih =>
      intro q hq
      unfold deleteCase
      split
      case isFalse => exact ih q hq
      split
      case h_1 => exact hq
      case h_2 => exact ih _ (hremove q _ hq)
  unfold handle
  cases call with
  | verifyPrincipal skip principal =>
    have hrefined := hrefine principal.endorsement principal.message
    dsimp only [verifyPrincipal]
    split
    case isTrue => exact h
    split
    case h_1 heq => exact congrArg Prod.fst heq ▸ hrefined
    case h_2 heq =>
    rw [heq] at hrefined
    split
    case isTrue => exact hrefined
    case isFalse => split <;> exact hrefined
  | newMember member => exact hnew member
  | getMemberStatus member =>
    have hfound := hnode member rfl
    dsimp only [getMemberStatus]
    split <;> rename_i heq <;> exact congrArg Prod.fst heq ▸ hfound
  | getValidEndorsements principal =>
    have hrefined := hrefine principal.endorsement principal.message
    dsimp only [getValidEndorsements]
    split
    case isTrue => exact h
    split
    case h_1 heq => exact congrArg Prod.fst heq ▸ hrefined
    case h_2 heq =>
      rw [heq] at hrefined
      split <;> exact hrefined
  | callback payload =>
    dsimp only [callback]
    split
    case isTrue => exact hdelete _ pp h
    case isFalse => exact h

inductive Reached (lib : KeyLib κ) : PermissionedPkACProvider κ → Prop where
  | created {config : ChainConfig} {localOrgId : String} {evictions : List (List Bytes)}
    {pp : PermissionedPkACProvider κ}
    (h : newPermissionedPkACProvider lib config localOrgId evictions = .ok pp) : Reached lib pp
  | watched {pp : PermissionedPkACProvider κ} (h : Reached lib pp) (config : ChainConfig) :
    Reached lib (pp.watch lib config).1
  | called {pp : PermissionedPkACProvider κ} (h : Reached lib pp) (call : KeyLedger × Call) :
    Reached lib (pp.handle lib call)

def cached (pp : PermissionedPkACProvider κ) (t : Bytes) : Option (MemberCached (PkMember κ)) :=
  pp.acService.memberCache.get t

def OnLedger (lib : KeyLib κ) (ledger : KeyLedger) (k : κ) : Prop :=
  ∃ info, ledger (lib.bytes k) = .ok (some info)

def Known (lib : KeyLib κ) (ledger : KeyLedger) (pp : PermissionedPkACProvider κ) (k : κ) : Prop :=
  (∃ admin, pp.adminMember.lookup (lib.bytes k) = some admin) ∨
    (∃ orgId, pp.consensusMember.lookup (lib.nodeId k) = some orgId) ∨ OnLedger lib ledger k

def AdminsKeyed (admins : GoMap Bytes AdminMemberModel) : Prop :=
  ∀ b admin, admins.lookup b = some admin → admin.pkBytes = b

/-- What a call may do to the provider: cache members of known keys under their texts, and drop
members. -/
structure Effect (lib : KeyLib κ) (ledger : KeyLedger) (pp pp' : PermissionedPkACProvider κ) :
    Prop where
  adminMember : pp'.adminMember = pp.adminMember
  consensusMember : pp'.consensusMember = pp.consensusMember
  hashType : pp'.getHashAlg = pp.getHashAlg
  cached : ∀ t c, pp'.cached t = some c → pp.cached t = some c ∨
    lib.publicKeyFromPEM t = some c.member.pk ∧ Known lib ledger pp c.member.pk

lemma Effect.refl : Effect lib ledger pp pp := ⟨rfl, rfl, rfl, fun _ _ h => .inl h⟩

section
variable (h : Effect lib ledger pp pp')
include h

lemma Effect.known : Known lib ledger pp' k ↔ Known lib ledger pp k := by
  rw [Known, Known, h.adminMember, h.consensusMember]

lemma Effect.trans (h' : Effect lib ledger pp' pp'') : Effect lib ledger pp pp'' where
  adminMember := h'.adminMember.trans h.adminMember
  consensusMember := h'.consensusMember.trans h.consensusMember
  hashType := h'.hashType.trans h.hashType
  cached t c hc := by
    obtain hc' | ⟨hpem, hknown⟩ := h'.cached t c hc
    · exact h.cached t c hc'
    · exact .inr ⟨hpem, h.known.mp hknown⟩

lemma Effect.adminsKeyed (hkeyed : AdminsKeyed pp.adminMember) :
    AdminsKeyed pp'.adminMember := by rwa [h.adminMember]

end

/-! ### One call -/

variable {member : PbMember} {m : PkMember κ}

lemma newPkMemberFromAcs_known (hkeyed : AdminsKeyed pp.adminMember)
    (h : newPkMemberFromAcs lib member pp.adminMember pp.consensusMember ledger hashType = .ok m) :
    lib.publicKeyFromPEM member.memberInfo = some m.pk ∧ Known lib ledger pp m.pk := by
  unfold newPkMemberFromAcs at h
  split at h
  case h_1 => cases h
  case h_2 pk hname =>
  have hpem := (namedKey_ok hname).2
  split at h
  case h_1 admin hadmin =>
    rw [hkeyed _ _ hadmin] at h
    have hpk : m.pk = pk := pk_newPkMemberFromParam_bytes h
    exact hpk ▸ ⟨hpem, .inl ⟨admin, hadmin⟩⟩
  case h_2 =>
  split at h
  case h_1 orgId horg =>
    have hpk : m.pk = pk := pk_newPkMemberFromParam_bytes h
    exact hpk ▸ ⟨hpem, .inr (.inl ⟨orgId, horg⟩)⟩
  case h_2 =>
  split at h
  case h_1 | h_2 => cases h
  case h_3 info hinfo =>
    have hpk : m.pk = pk := pk_newPkMemberFromParam_bytes h
    exact hpk ▸ ⟨hpem, .inr (.inr ⟨info, hinfo⟩)⟩

lemma newPkNodeMemberFromAcs_known
    (h : newPkNodeMemberFromAcs lib member pp.consensusMember ledger hashType = .ok m) :
    lib.publicKeyFromPEM member.memberInfo = some m.pk ∧ Known lib ledger pp m.pk := by
  unfold newPkNodeMemberFromAcs at h
  split at h
  case h_1 => cases h
  case h_2 pk hname =>
  have hpem := (namedKey_ok hname).2
  split at h
  case h_1 orgId horg =>
    have hpk : m.pk = pk := pk_newPkMemberFromParam_bytes h
    exact hpk ▸ ⟨hpem, .inr (.inl ⟨orgId, horg⟩)⟩
  case h_2 =>
  split at h
  case h_1 | h_2 => cases h
  case h_3 info hinfo =>
  split at h
  case isTrue => cases h
  have hpk : m.pk = pk := pk_newPkMemberFromParam_bytes h
  exact hpk ▸ ⟨hpem, .inr (.inr ⟨info, hinfo⟩)⟩

def Finds (lib : KeyLib κ) (ledger : KeyLedger) (pp : PermissionedPkACProvider κ) (t : Bytes)
    (m : PkMember κ) : Prop :=
  (∃ c, pp.cached t = some c ∧ c.member = m) ∨
    lib.publicKeyFromPEM t = some m.pk ∧ Known lib ledger pp m.pk

lemma Effect.finds (h : Effect lib ledger pp pp') {t : Bytes} (hm : Finds lib ledger pp' t m) :
    Finds lib ledger pp t m := by
  obtain ⟨c, hc, rfl⟩ | ⟨hpem, hknown⟩ := hm
  · exact (h.cached t c hc).imp_left fun hc => ⟨c, hc, rfl⟩
  · exact .inr ⟨hpem, h.known.mp hknown⟩

lemma getMemberFromCache_finds (h : pp.acService.getMemberFromCache member = some m) :
    Finds lib ledger pp member.memberInfo m := by
  unfold getMemberFromCache at h
  split at h
  case h_2 => cases h
  case h_1 c hc =>
    split at h
    case isFalse => cases h
    case isTrue => exact .inl ⟨c, hc, some.inj h⟩

lemma effect_keepPkMember
    (hm : lib.publicKeyFromPEM member.memberInfo = some m.pk ∧ Known lib ledger pp m.pk)
    (mismatch : String) : Effect lib ledger pp { pp with acService :=
        (pp.acService.keepPkMember member mismatch m).1 } ∧
      ∀ m', (pp.acService.keepPkMember member mismatch m).2 = .ok m' →
        Finds lib ledger pp member.memberInfo m' := by
  unfold keepPkMember
  split
  case isTrue => exact ⟨.refl, fun _ h => nomatch h⟩
  refine ⟨⟨rfl, rfl, rfl, fun t c hc => ?_⟩, fun m' hm' => ?_⟩
  · have hget : (pp.acService.memberCache.add member.memberInfo ⟨m, []⟩).get t = some c := hc
    by_cases ht : t = member.memberInfo
    · rw [ht, get_add_self] at hget
      cases hget
      exact .inr (ht ▸ hm)
    · exact .inl (get_of_get_add ht hget)
  · cases hm'
    exact .inr hm

lemma effect_newMember (hkeyed : AdminsKeyed pp.adminMember) (member : PbMember) :
    Effect lib ledger pp (pp.newMember lib ledger member).1 ∧
      ∀ m, (pp.newMember lib ledger member).2 = .ok m →
        Finds lib ledger pp member.memberInfo m := by
  unfold newMember newPkMember
  split
  case h_1 m hcached =>
    refine ⟨.refl, fun m' hm' => ?_⟩
    cases hm'
    exact getMemberFromCache_finds hcached
  case h_2 =>
    split
    case h_1 => exact ⟨.refl, fun _ h => nomatch h⟩
    case h_2 hnew => exact effect_keepPkMember (newPkMemberFromAcs_known hkeyed hnew) _

lemma effect_newNodeMember (member : PbMember) :
    Effect lib ledger pp (pp.newNodeMember lib ledger member).1 := by
  unfold newNodeMember newNodePkMember
  split
  case h_1 => split <;> exact .refl
  split
  case h_1 => exact .refl
  case h_2 hnew => exact (effect_keepPkMember (newPkNodeMemberFromAcs_known hnew) _).1

lemma effect_refineEndorsements (lib : KeyLib κ) (ledger : KeyLedger)
    (hkeyed : AdminsKeyed pp.adminMember) (endorsements : List EndorsementEntry) (msg : Bytes) :
    Effect lib ledger pp (pp.refineEndorsements lib ledger endorsements msg).1 ∧
      ∀ e ∈ (pp.refineEndorsements lib ledger endorsements msg).2, ∃ m : PkMember κ,
        Finds lib ledger pp e.signer.memberInfo m ∧
          m.verify lib pp.getHashAlg msg e.signature = .ok () := by
  have hmember : ∀ (q : PermissionedPkACProvider κ) pb, Effect lib ledger pp q →
      Effect lib ledger pp ((source lib ledger).newMember q pb).1 ∧
        ∀ m, ((source lib ledger).newMember q pb).2 = .ok m →
          Finds lib ledger pp pb.memberInfo m := by
    intro q pb hq
    have hnew : Effect lib ledger q (q.newMember lib ledger pb).1 ∧ _ :=
      effect_newMember (hq.adminsKeyed hkeyed) pb
    exact ⟨hq.trans hnew.1, fun m hm => hq.finds (hnew.2 m hm)⟩
  have hsound := refinePkEndorsements_sound lib hmember (fun _ hq => hq.hashType)
    Effect.refl endorsements msg
  exact ⟨hsound.1, fun e he => (hsound.2.1 e he).2⟩

lemma effect_handle (hkeyed : AdminsKeyed pp.adminMember) (call : KeyLedger × Call) :
    Effect lib call.1 pp (pp.handle lib call) :=
  handle_induction .refl (fun es msg => (effect_refineEndorsements lib call.1 hkeyed es msg).1)
    (fun member => (effect_newMember hkeyed member).1) (fun member _ => effect_newNodeMember member)
    fun _ _ hq => hq.trans ⟨rfl, rfl, rfl, fun _ _ hc => .inl (get_of_get_remove hc)⟩

/-! ### Every reached provider -/

lemma adminsKeyed_addAdmin {orgId : String} {root : Bytes}
    {admins admins' : GoMap Bytes AdminMemberModel} (hkeyed : AdminsKeyed admins)
    (h : addAdmin lib orgId admins root = .ok admins') : AdminsKeyed admins' := by
  unfold addAdmin at h
  split at h
  case h_1 => cases h
  case h_2 pk _ =>
  cases h
  intro b admin hlookup
  obtain ⟨rfl, rfl⟩ | hlookup := GoMap.lookup_insert_cases hlookup
  · rfl
  · exact hkeyed b admin hlookup

lemma adminsKeyed_addTrustRoot {acc acc' : GoMap Bytes AdminMemberModel × GoMap String Unit × ℕ}
    {trustRoot : TrustRootConfig} (hkeyed : AdminsKeyed acc.1)
    (h : addTrustRoot lib acc trustRoot = .ok acc') : AdminsKeyed acc'.1 := by
  unfold addTrustRoot at h
  split at h
  case h_1 => cases h
  case h_2 admins _ _ hadmins _ =>
    have hadmins' : AdminsKeyed admins :=
      foldlM_ok (fun _ _ _ => adminsKeyed_addAdmin) hkeyed hadmins
    split at h <;> exact Except.ok.inj h ▸ hadmins'

lemma initAdminMembers_ok {roots : List TrustRootConfig}
    (h : pp.initAdminMembers lib roots = .ok pp') :
    AdminsKeyed pp'.adminMember ∧ pp'.acService.memberCache = pp.acService.memberCache := by
  unfold initAdminMembers at h
  split at h
  case h_1 => cases h
  case h_2 hfold =>
  cases h
  have hstart : AdminsKeyed (∅ : GoMap Bytes AdminMemberModel) := fun b admin hlookup => by
    simp at hlookup
  exact ⟨foldlM_ok (P := fun acc => AdminsKeyed acc.1)
    (fun _ _ _ => adminsKeyed_addTrustRoot) hstart hfold, rfl⟩

lemma newPermissionedPkACProvider_ok {config : ChainConfig} {localOrgId : String}
    {evictions : List (List Bytes)}
    (h : newPermissionedPkACProvider lib config localOrgId evictions = .ok pp) :
    AdminsKeyed pp.adminMember ∧ pp.acService.memberCache = .empty evictions := by
  unfold newPermissionedPkACProvider at h
  dsimp only at h
  split at h
  case h_1 => cases h
  case h_2 pp' hadmin =>
  obtain ⟨hkeyed, hcache⟩ := initAdminMembers_ok hadmin
  obtain ⟨_, _, hframe⟩ := (pp'.initConsensusMember config.consensusNodes).acService
    |>.initResourcePolicy_frame config.resourcePolicies localOrgId
  cases h
  exact ⟨hkeyed, (congrArg (·.memberCache) hframe).trans hcache⟩

structure Sound (lib : KeyLib κ) (pp : PermissionedPkACProvider κ) : Prop where
  admins : AdminsKeyed pp.adminMember
  cache : ∀ t c, pp.cached t = some c → lib.publicKeyFromPEM t = some c.member.pk

lemma Sound.watch (h : Sound lib pp) (config : ChainConfig) :
    Sound lib (pp.watch lib config).1 := by
  unfold PermissionedPkACProvider.watch
  dsimp only
  split
  case h_1 => exact ⟨h.admins, h.cache⟩
  case h_2 pp' hadmin =>
    refine ⟨(initAdminMembers_ok hadmin).1, fun t c hc => ?_⟩
    exact nomatch (get_clear _ t).symm.trans hc

lemma Sound.effect (h : Sound lib pp) (he : Effect lib ledger pp pp') : Sound lib pp' := by
  refine ⟨he.adminsKeyed h.admins, fun t c hc => ?_⟩
  obtain hc | ⟨hpem, -⟩ := he.cached t c hc
  · exact h.cache t c hc
  · exact hpem

lemma Reached.sound (h : Reached lib pp) : Sound lib pp := by
  induction h with
  | created h =>
    obtain ⟨hkeyed, hcache⟩ := newPermissionedPkACProvider_ok h
    refine ⟨hkeyed, fun t c hc => ?_⟩
    rw [cached, hcache, get_empty] at hc
    cases hc
  | watched _ config ih => exact ih.watch config
  | called _ call ih => exact ih.effect (effect_handle ih.admins call)

/-! ### Deletion -/

def deletedKeys (lib : KeyLib κ) (params : List (String × Bytes)) : List κ :=
  (params.filter fun param => param.1 = publicKeysParam).filterMap
    fun param => lib.publicKeyFromPEM param.2

/-- The payload deletes public keys, `k` among them, and each of its texts names one. -/
structure Deletes (lib : KeyLib κ) (payload : Payload) (k : κ) : Prop where
  method : payload.method = "PUBKEY_DELETE"
  parse : ∀ param ∈ payload.parameters, param.1 = publicKeysParam →
    (lib.publicKeyFromPEM param.2).isSome = true
  mem : k ∈ deletedKeys lib payload.parameters

lemma cached_deleteCase {params : List (String × Bytes)}
    (hparse : ∀ param ∈ params, param.1 = publicKeysParam →
      (lib.publicKeyFromPEM param.2).isSome = true) (t : Bytes) :
    (deleteCase lib params pp).1.cached t =
      if t ∈ (deletedKeys lib params).map lib.string then none else pp.cached t := by
  induction params generalizing pp with
  | nil => rfl
  | cons param params ih =>
    obtain ⟨key, value⟩ := param
    rw [forall_mem_cons] at hparse
    unfold deleteCase
    split
    case isFalse hkey =>
      have hkeys : deletedKeys lib ((key, value) :: params) = deletedKeys lib params := by
        simp [deletedKeys, hkey]
      rw [ih hparse.2, hkeys]
    case isTrue hkey =>
    split
    case h_1 hnone =>
      have hsome := hparse.1 hkey
      rw [hnone] at hsome
      cases hsome
    case h_2 pk hpk =>
    have hkeys : deletedKeys lib ((key, value) :: params) = pk :: deletedKeys lib params := by
      simp [deletedKeys, hkey, hpk]
    rw [ih hparse.2, hkeys, map_cons]
    by_cases ht : t = lib.string pk
    · subst ht
      simp only [mem_cons, true_or, if_true]
      split
      case isTrue => rfl
      case isFalse => exact get_remove_self _ _
    · have hkept : (pp.acService.memberCache.remove (lib.string pk)).get t = pp.cached t :=
        get_remove_of_ne ht
      simp only [mem_cons, ht, false_or]
      congr 1

lemma Deletes.cached_callback {payload : Payload} (h : Deletes lib payload k) (t : Bytes) :
    (pp.callback lib payload).1.cached t =
      if t ∈ (deletedKeys lib payload.parameters).map lib.string then none else pp.cached t := by
  rw [callback, if_pos h.method, cached_deleteCase h.parse]

/-- No endorsement of the key survives, with any ledger that does not have the key. -/
def Gone (lib : KeyLib κ) (k : κ) (pp : PermissionedPkACProvider κ) : Prop :=
  ∀ ledger endorsements msg, ¬ OnLedger lib ledger k →
    ∀ e ∈ (pp.refineEndorsements lib ledger endorsements msg).2,
      lib.publicKeyFromPEM e.signer.memberInfo ≠ some k

/-- The key is gone, and stays so for as long as it is not added again. -/
def StaysGone (lib : KeyLib κ) (k : κ) (pp : PermissionedPkACProvider κ) : Prop :=
  ∀ calls : List (KeyLedger × Call), (∀ call ∈ calls, ¬ OnLedger lib call.1 k) →
    Gone lib k (calls.foldl (handle lib) pp)

def CanSign (lib : KeyLib κ) (k : κ) (hashType : String) : Prop :=
  lib.supportsHash hashType = true ∧ ∃ msg sig, lib.verifyWithOpts k hashType msg sig = true

structure Ordinary (lib : KeyLib κ) (k : κ) (pp : PermissionedPkACProvider κ) : Prop where
  admin : pp.adminMember.lookup (lib.bytes k) = none
  consensus : pp.consensusMember.lookup (lib.nodeId k) = none

lemma Ordinary.not_known (h : Ordinary lib k pp) (hledger : ¬ OnLedger lib ledger k) :
    ¬ Known lib ledger pp k := by
  rintro (⟨admin, hadmin⟩ | ⟨orgId, horg⟩ | hon)
  · exact nomatch h.admin.symm.trans hadmin
  · exact nomatch h.consensus.symm.trans horg
  · exact hledger hon

lemma Ordinary.effect (h : Ordinary lib k pp) (he : Effect lib ledger pp pp') :
    Ordinary lib k pp' := by
  refine ⟨?_, ?_⟩
  · rw [he.adminMember, h.admin]
  · rw [he.consensusMember, h.consensus]

lemma Sound.survives (h : Sound lib pp) (hk : Ordinary lib k pp)
    (hledger : ¬ OnLedger lib ledger k) {endorsements : List EndorsementEntry} {msg : Bytes}
    {e : EndorsementEntry} (he : e ∈ (pp.refineEndorsements lib ledger endorsements msg).2)
    (hpem : lib.publicKeyFromPEM e.signer.memberInfo = some k) :
    (∃ c, pp.cached e.signer.memberInfo = some c) ∧ CanSign lib k pp.getHashAlg := by
  obtain ⟨m, hfinds, hverify⟩ :=
    (effect_refineEndorsements lib ledger h.admins endorsements msg).2 e he
  obtain ⟨hhash, hsig⟩ := pkVerify_ok.mp hverify
  obtain ⟨c, hc, rfl⟩ | ⟨hpem', hknown⟩ := hfinds
  · have hpk : c.member.pk = k := mem_unique (h.cache _ c hc) hpem
    exact ⟨⟨c, hc⟩, hhash, msg, e.signature, hpk ▸ hsig⟩
  · have hpk : m.pk = k := mem_unique hpem' hpem
    exact absurd (hpk ▸ hknown) (hk.not_known hledger)

lemma survives_of_cached (h : Sound lib pp) {t : Bytes} {c : MemberCached (PkMember κ)}
    (hc : pp.cached t = some c) (hpem : lib.publicKeyFromPEM t = some k) {msg sig : Bytes}
    (hhash : lib.supportsHash pp.getHashAlg = true)
    (hsig : lib.verifyWithOpts k pp.getHashAlg msg sig = true) (ledger : KeyLedger) :
    (pp.refineEndorsements lib ledger [⟨⟨c.member.orgId, t, .publicKey⟩, sig⟩] msg).2 =
      [⟨⟨c.member.orgId, t, .publicKey⟩, sig⟩] := by
  have hpk : c.member.pk = k := mem_unique (h.cache t c hc) hpem
  have hfound : pp.acService.getMemberFromCache
      ⟨c.member.orgId, t, .publicKey⟩ = some c.member := by
    have hget : pp.acService.lookUpMemberInCache t = some c := hc
    simp only [getMemberFromCache, hget]
    exact if_pos rfl
  have hnew : (source lib ledger).newMember pp ⟨c.member.orgId, t, .publicKey⟩ =
      (pp, .ok c.member) := by
    simp only [source, newMember, newPkMember, hfound]
  have hverify : c.member.verify lib ((source lib ledger).hashType pp) msg sig = .ok () :=
    pkVerify_ok.mpr ⟨hhash, hpk ▸ hsig⟩
  simp [refineEndorsements, refinePkEndorsements, refineEntry, hnew, hverify]

lemma staysGone_of_not_cached (h : Sound lib pp) (hk : Ordinary lib k pp)
    (hnone : ∀ t c, pp.cached t = some c → lib.publicKeyFromPEM t = some k →
      ¬ CanSign lib k pp.getHashAlg) : StaysGone lib k pp := by
  intro calls
  induction calls generalizing pp with
  | nil =>
    intro _ ledger endorsements msg hledger e he hpem
    obtain ⟨⟨c, hc⟩, hsign⟩ := h.survives hk hledger he hpem
    exact hnone _ c hc hpem hsign
  | cons call calls ih =>
    intro hcalls
    rw [forall_mem_cons] at hcalls
    have heffect : Effect lib call.1 pp (pp.handle lib call) := effect_handle h.admins call
    refine ih (h.effect heffect) (hk.effect heffect) (fun t c hc hpem => ?_) hcalls.2
    rw [heffect.hashType]
    obtain hc | ⟨hpem', hknown⟩ := heffect.cached t c hc
    · exact hnone t c hc hpem
    have hpk : c.member.pk = k := mem_unique hpem' hpem
    exact absurd (hpk ▸ hknown) (hk.not_known hcalls.1)

theorem staysGone_callback_iff (hpp : Reached lib pp) (hk : Ordinary lib k pp)
    {payload : Payload} (hdelete : Deletes lib payload k) :
    StaysGone lib k (pp.callback lib payload).1 ↔
      (CanSign lib k pp.getHashAlg → ∀ t, (pp.cached t).isSome = true →
        lib.publicKeyFromPEM t = some k →
          t ∈ (deletedKeys lib payload.parameters).map lib.string) := by
  have heffect : Effect lib (fun _ => .ok none) pp (pp.callback lib payload).1 :=
    effect_handle hpp.sound.admins (_, .callback payload)
  have hsound := hpp.sound.effect heffect
  constructor
  · rintro hgone ⟨hhash, msg, sig, hsig⟩ t ht hpem
    obtain ⟨c, hc⟩ := isSome_iff_exists.mp ht
    by_contra hkept
    have hc' : (pp.callback lib payload).1.cached t = some c := by
      rw [hdelete.cached_callback, if_neg hkept, hc]
    have hoff : ¬ OnLedger lib (fun _ => .ok none) k := by
      rintro ⟨info, hinfo⟩
      cases hinfo
    rw [← heffect.hashType] at hhash hsig
    have hsurvives := survives_of_cached hsound hc' hpem hhash hsig (fun _ => .ok none)
    have hmem := hsurvives ▸ mem_singleton_self _
    exact hgone [] (forall_mem_nil _) _ _ msg hoff _ hmem hpem
  · intro hcanonical
    refine staysGone_of_not_cached hsound (hk.effect heffect) fun t c hc hpem hsign => ?_
    rw [heffect.hashType] at hsign
    rw [hdelete.cached_callback] at hc
    split at hc
    case isTrue => cases hc
    case isFalse hkept =>
      exact hkept (hcanonical hsign t (isSome_iff_exists.mpr ⟨c, hc⟩) hpem)

section Deleted
open SmallChain

def seenClient (t : Bytes) : PermissionedPkACProvider UInt8 :=
  match newPermissionedPkACProvider keys keyConfig "org1" [] with
  | .ok pp => pp.handle keys (clientLedger, .newMember ⟨"org1", t, .publicKey⟩)
  | .error _ => ⟨initAccessControlService "" "" [] _ _, "", ∅, ∅⟩

lemma reached_seenClient (t : Bytes) : Reached keys (seenClient t) := by
  have hnew : ∃ pp, newPermissionedPkACProvider keys keyConfig "org1" [] = .ok pp ∧
      seenClient t = pp.handle keys (clientLedger, .newMember ⟨"org1", t, .publicKey⟩) :=
    ⟨_, rfl, rfl⟩
  obtain ⟨pp, hpp, hseen⟩ := hnew
  exact hseen ▸ .called (.created hpp) _

theorem staysGone_callback_iff_canonical :
    ((seenClient [5]).cached [5]).isSome = true ∧
      StaysGone keys 5 ((seenClient [5]).callback keys deleteClient).1 := by
  have hordinary : Ordinary keys 5 (seenClient [5]) := ⟨rfl, rfl⟩
  have hdelete : Deletes keys deleteClient 5 := ⟨rfl, by decide, by decide⟩
  refine ⟨by decide +kernel,
    (staysGone_callback_iff (reached_seenClient [5]) hordinary hdelete).mpr
      fun _ t ht _ => ?_⟩
  by_contra hne
  obtain ⟨c, hc⟩ := isSome_iff_exists.mp ht
  have hne' : t ≠ [5] := fun h => hne (h ▸ by decide)
  exact nomatch (get_empty [] t).symm.trans (get_of_get_add hne' hc)

/-- Seen under its text with a newline, the client is still a member after the deletion. -/
theorem refineEndorsements_deleted :
    clientLedger (keys.bytes 5) ≠ .ok none ∧
      (seenClient [5, 10]).adminMember.lookup (keys.bytes 5) = none ∧
      (seenClient [5, 10]).consensusMember.lookup (keys.nodeId 5) = none ∧
      (((seenClient [5, 10]).callback keys deleteClient).1.refineEndorsements keys
        (fun _ => .ok none) [⟨⟨"org1", [5], .publicKey⟩, [5, 7]⟩,
          ⟨⟨"org1", [5, 10], .publicKey⟩, [5, 7]⟩] [7]).2 =
        [⟨⟨"org1", [5, 10], .publicKey⟩, [5, 7]⟩] := by
  decide +kernel

end Deleted

end PermissionedPkACProvider

end ChainMaker.Ac
