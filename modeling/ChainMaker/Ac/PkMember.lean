import ChainMaker.Ac.Server

/-! Public key members (`pk_member.go`). A public key is identified with its DER bytes; a text may
denote a key in more than one way, or none. -/

namespace ChainMaker.Ac
open List

structure KeyLib (κ : Type) where
  publicKeyFromPEM : Bytes → Option κ
  publicKeyFromDER : Bytes → Option κ
  bytes : κ → Bytes
  publicKeyFromDER_bytes : ∀ k, publicKeyFromDER (bytes k) = some k
  string : κ → Bytes
  nodeId : κ → String
  supportsHash : String → Bool
  verifyWithOpts : κ → String → Bytes → Bytes → Bool

structure PkMember (κ : Type) where
  orgId : String
  pk : κ
  role : Role
deriving DecidableEq

instance {κ : Type} : Member (PkMember κ) where
  getOrgId := PkMember.orgId
  getRole := PkMember.role

structure AdminMemberModel where
  pkBytes : Bytes
  orgId : String
deriving DecidableEq

structure PKInfo where
  orgId : String
  role : String
deriving DecidableEq

abbrev KeyLedger := Bytes → Except String (Option PKInfo)

lemma KeyLib.bytes_injective {κ : Type} (lib : KeyLib κ) : lib.bytes.Injective := by
  intro k k' h
  have hder := congrArg lib.publicKeyFromDER h
  rw [lib.publicKeyFromDER_bytes, lib.publicKeyFromDER_bytes] at hder
  exact Option.some.inj hder

variable {κ : Type} (lib : KeyLib κ) {m : PkMember κ} {orgId : String} {role : Role} {pk : κ}

def KeyLib.withVerify (verifyWithOpts : κ → String → Bytes → Bytes → Bool) : KeyLib κ :=
  { lib with verifyWithOpts := verifyWithOpts }

def PkMember.verify (pm : PkMember κ) (hashType : String) (msg sig : Bytes) : Except String Unit :=
  if ! lib.supportsHash hashType then
    .error "cert member verify signature failed: unsupport hash type"
  else if lib.verifyWithOpts pm.pk hashType msg sig then .ok ()
  else .error "cert member verify signature failed: invalid signature"

def newPkMemberFromParam (orgId : String) (pkBytes : Bytes) (role : Role) (hashType : String) :
    Except String (PkMember κ) :=
  if ! lib.supportsHash hashType then .error "sign failed: unsupport hash type"
  else match lib.publicKeyFromDER pkBytes with
    | some pk => .ok ⟨orgId, pk, role⟩
    | none => .error "setup pk member failed, err: parse the public key from DER failed"

def namedKey (what : String) (member : PbMember) : Except String κ :=
  if member.memberType ≠ .publicKey then
    .error (what ++ ": memberType and authType do not match")
  else match lib.publicKeyFromPEM member.memberInfo with
    | some pk => .ok pk
    | none => .error (what ++ ": parse the public key from PEM failed")

def newPkMemberFromAcs (member : PbMember) (adminList : GoMap Bytes AdminMemberModel)
    (consensusList : GoMap String String) (ledger : KeyLedger) (hashType : String) :
    Except String (PkMember κ) :=
  match namedKey lib "new public key member failed" member with
  | .error err => .error err
  | .ok pk =>
    match adminList.lookup (lib.bytes pk) with
    | some admin => newPkMemberFromParam lib admin.orgId admin.pkBytes roleAdmin hashType
    | none =>
      match consensusList.lookup (lib.nodeId pk) with
      | some orgId => newPkMemberFromParam lib orgId (lib.bytes pk) roleConsensusNode hashType
      | none =>
        match ledger (lib.bytes pk) with
        | .error err => .error ("new public key member failed: " ++ err)
        | .ok none => .error ("new public key member failed: the public key doesn't belong to " ++
            "a member on chain")
        | .ok (some info) =>
          newPkMemberFromParam lib info.orgId (lib.bytes pk) info.role hashType

def newPkNodeMemberFromAcs (member : PbMember) (consensusList : GoMap String String)
    (ledger : KeyLedger) (hashType : String) : Except String (PkMember κ) :=
  match namedKey lib "new public key node member failed" member with
  | .error err => .error err
  | .ok pk =>
    match consensusList.lookup (lib.nodeId pk) with
    | some orgId => newPkMemberFromParam lib orgId (lib.bytes pk) roleConsensusNode hashType
    | none =>
      match ledger (lib.bytes pk) with
      | .error err => .error ("new public key node member failed: " ++ err)
      | .ok none => .error ("new public key node member failed: the public key doesn't belong " ++
          "to a member on chain")
      | .ok (some info) =>
        if info.role ≠ roleCommonNode then
          .error "new public key node member failed: the public key is not a node member"
        else newPkMemberFromParam lib info.orgId (lib.bytes pk) info.role hashType

/-- Members of the public mode have no organization; who is neither admin nor consensus node has
no role. -/
def publicNewPkMemberFromAcs (member : PbMember) (adminList : GoMap Bytes Bytes)
    (consensusList : Finset String) (hashType : String) : Except String (PkMember κ) :=
  match namedKey lib "new public key member failed" member with
  | .error err => .error err
  | .ok pk =>
    match adminList.lookup (lib.bytes pk) with
    | some pkBytes => newPkMemberFromParam lib "" pkBytes roleAdmin hashType
    | none =>
      newPkMemberFromParam lib "" (lib.bytes pk)
        (if lib.nodeId pk ∈ consensusList then roleConsensusNode else "") hashType

variable {lib}

lemma namedKey_ok {what : String} {member : PbMember} (h : namedKey lib what member = .ok pk) :
    member.memberType = .publicKey ∧ lib.publicKeyFromPEM member.memberInfo = some pk := by
  unfold namedKey at h
  split at h
  case isTrue => cases h
  case isFalse htype =>
    split at h
    case h_1 hpem => exact ⟨not_not.mp htype, hpem.trans (congrArg some (Except.ok.inj h))⟩
    case h_2 => cases h

variable {hashType : String}

lemma newPkMemberFromParam_ok {pkBytes : Bytes}
    (h : newPkMemberFromParam lib orgId pkBytes role hashType = .ok m) : lib.supportsHash hashType =
    true ∧ lib.publicKeyFromDER pkBytes = some m.pk ∧ m.orgId = orgId ∧ m.role = role := by
  unfold newPkMemberFromParam at h
  split at h
  case isTrue => cases h
  case isFalse hhash =>
  split at h
  case h_2 => cases h
  case h_1 pk hder =>
    cases h
    exact ⟨by simpa using hhash, hder, rfl, rfl⟩

lemma pk_newPkMemberFromParam_bytes
    (h : newPkMemberFromParam lib orgId (lib.bytes pk) role hashType = .ok m) : m.pk = pk := by
  have hder := (newPkMemberFromParam_ok h).2.1
  rw [lib.publicKeyFromDER_bytes] at hder
  exact (Option.some.inj hder).symm

lemma pkVerify_ok {msg sig : Bytes} : m.verify lib hashType msg sig = .ok () ↔
      lib.supportsHash hashType = true ∧ lib.verifyWithOpts m.pk hashType msg sig = true := by
  cases hhash : lib.supportsHash hashType <;>
    cases hsig : lib.verifyWithOpts m.pk hashType msg sig <;>
    simp [PkMember.verify, hhash, hsig]

/-! ### Refining endorsements

The loops of the two public key providers differ in the provider alone. -/

structure MemberSource (σ κ : Type) where
  newMember : σ → PbMember → σ × Except String (PkMember κ)
  hashType : σ → String

structure PkRefining (σ : Type) where
  provider : σ
  refinedSigners : Finset Bytes
  refinedEndorsement : List EndorsementEntry

section Refining
variable {σ : Type}

def refineEntry (lib : KeyLib κ) (source : MemberSource σ κ) (msg : Bytes) (r : PkRefining σ)
    (entry : EndorsementEntry) : PkRefining σ :=
  match source.newMember r.provider entry.signer with
  | (p, .error _) => { r with provider := p }
  | (p, .ok remoteMember) =>
    match remoteMember.verify lib (source.hashType p) msg entry.signature with
    | .error _ => { r with provider := p }
    | .ok () =>
      if entry.signer.memberInfo ∈ r.refinedSigners then { r with provider := p }
      else
        { provider := p
          refinedSigners := insert entry.signer.memberInfo r.refinedSigners
          refinedEndorsement := r.refinedEndorsement ++ [entry] }

def refinePkEndorsements (lib : KeyLib κ) (source : MemberSource σ κ) (p : σ)
    (endorsements : List EndorsementEntry) (msg : Bytes) : σ × List EndorsementEntry :=
  let r := endorsements.foldl (refineEntry lib source msg) ⟨p, ∅, []⟩
  (r.provider, r.refinedEndorsement)

/-- What is known of the loop: an invariant of the provider, and of each refined entry that it
is one of the list whose signature verified under a member found for its signer. -/
structure PkRefining.Sound (lib : KeyLib κ) (Inv : σ → Prop) (R : PbMember → PkMember κ → Prop)
    (hashType : String) (msg : Bytes) (entries : List EndorsementEntry) (r : PkRefining σ) :
    Prop where
  inv : Inv r.provider
  refined : ∀ e ∈ r.refinedEndorsement, e ∈ entries ∧ ∃ m, R e.signer m ∧
    m.verify lib hashType msg e.signature = .ok ()
  texts : ∀ e ∈ r.refinedEndorsement, e.signer.memberInfo ∈ r.refinedSigners
  nodup : (r.refinedEndorsement.map fun e => e.signer.memberInfo).Nodup

variable {source : MemberSource σ κ} {Inv : σ → Prop} {R : PbMember → PkMember κ → Prop}
  {hashType : String}
  (hmember : ∀ p pb, Inv p → Inv (source.newMember p pb).1 ∧
    ∀ m, (source.newMember p pb).2 = .ok m → R pb m)
  (hhash : ∀ p, Inv p → source.hashType p = hashType)
include hmember hhash

lemma PkRefining.Sound.step {msg : Bytes} {entries : List EndorsementEntry} {r : PkRefining σ}
    (hr : r.Sound lib Inv R hashType msg entries) {entry : EndorsementEntry}
    (hentry : entry ∈ entries) :
    (refineEntry lib source msg r entry).Sound lib Inv R hashType msg entries := by
  obtain ⟨hinv, hfound⟩ := hmember r.provider entry.signer hr.inv
  unfold refineEntry
  split
  case h_1 hnew =>
    rw [hnew] at hinv
    exact { hr with inv := hinv }
  case h_2 p m hnew =>
  rw [hnew] at hinv hfound
  split
  case h_1 => exact { hr with inv := hinv }
  case h_2 hverify =>
  split_ifs with hfirst
  · exact { hr with inv := hinv }
  rw [hhash p hinv] at hverify
  refine ⟨hinv, ?_, ?_, ?_⟩
  · rw [forall_mem_append, forall_mem_singleton]
    exact ⟨hr.refined, hentry, m, hfound m rfl, hverify⟩
  · rw [forall_mem_append, forall_mem_singleton]
    exact ⟨fun e he => Finset.mem_insert_of_mem (hr.texts e he), Finset.mem_insert_self _ _⟩
  · rw [map_append, map_singleton]
    refine hr.nodup.append (nodup_singleton _) ?_
    rw [disjoint_singleton]
    intro hmem
    obtain ⟨e, he, hsame⟩ := mem_map.mp hmem
    exact hfirst (hsame ▸ hr.texts e he)

variable (lib) in
lemma refinePkEndorsements_sound {p : σ} (hp : Inv p) (endorsements : List EndorsementEntry)
    (msg : Bytes) : Inv (refinePkEndorsements lib source p endorsements msg).1 ∧
      (∀ e ∈ (refinePkEndorsements lib source p endorsements msg).2, e ∈ endorsements ∧
        ∃ m, R e.signer m ∧ m.verify lib hashType msg e.signature = .ok ()) ∧
      ((refinePkEndorsements lib source p endorsements msg).2.map fun e =>
        e.signer.memberInfo).Nodup := by
  have hloop : ∀ (rest : List EndorsementEntry) (r : PkRefining σ), rest ⊆ endorsements →
      r.Sound lib Inv R hashType msg endorsements →
      (rest.foldl (refineEntry lib source msg) r).Sound lib Inv R hashType msg endorsements := by
    intro rest
    induction rest with
    | nil => exact fun r _ hr => hr
    | cons entry rest ih =>
      intro r hsub hr
      obtain ⟨hentry, hrest⟩ := cons_subset.mp hsub
      exact ih _ hrest (hr.step hmember hhash hentry)
  have hstart : PkRefining.Sound lib Inv R hashType msg endorsements ⟨p, ∅, []⟩ :=
    ⟨hp, forall_mem_nil _, forall_mem_nil _, nodup_nil⟩
  have hend := hloop endorsements _ (Subset.refl _) hstart
  exact ⟨hend.inv, hend.refined, hend.nodup⟩

end Refining

namespace SmallChain

def keys : KeyLib UInt8 where
  publicKeyFromPEM
    | [k] => some k
    | [k, 10] => some k
    | _ => none
  publicKeyFromDER
    | [k] => some k
    | _ => none
  bytes k := [k]
  publicKeyFromDER_bytes _ := rfl
  string k := [k]
  nodeId k := toString k
  supportsHash hashType := hashType = "SHA256"
  verifyWithOpts k _ msg sig := sig = k :: msg

end SmallChain

end ChainMaker.Ac
