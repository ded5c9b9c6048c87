import ChainMaker.Ac.CertMember

/-! What each rule of a policy grants, and which of the policies that a chain configuration may
set can grant without a signer that they name. -/

namespace ChainMaker.Ac
open List Finset ChainMaker.Ac.Member

namespace AccessControlService
variable {μ ο : Type} [Member μ] (acs : AccessControlService μ ο) {p : Policy} {num den : List Char}
  {policy : PbPolicy}

def Permits (orgList : List String) (roleList : List Role) (e : EndorsementEntry) : Prop :=
  (orgList = [] ∨ e.signer.orgId ∈ orgList) ∧
    (roleList = [] ∨ ∃ m, acs.getMemberFromCache e.signer = some m ∧ getRole m ∈ roleList)

instance (orgList : List String) (roleList : List Role) (e : EndorsementEntry) :
    Decidable (acs.Permits orgList roleList e) :=
  inferInstanceAs (Decidable ((orgList = [] ∨ e.signer.orgId ∈ orgList) ∧ (roleList = [] ∨
    ∃ m ∈ acs.getMemberFromCache e.signer, getRole m ∈ roleList)))

def validOrgs (orgList : List String) (roleList : List Role) (es : List EndorsementEntry) :
    Finset String :=
  ((acs.getValidEndorsements orgList.toFinset roleList.toFinset es).map
    fun e => e.signer.orgId).toFinset

variable {acs} {principal refined : Principal} {e : EndorsementEntry} {rp : ResourcePolicy}
variable {orgList : List String} {roleList : List Role} {es : List EndorsementEntry}

lemma mem_getValidEndorsements :
    e ∈ acs.getValidEndorsements orgList.toFinset roleList.toFinset es ↔ e ∈ es ∧
      acs.Permits orgList roleList e := by
  simp [getValidEndorsements, Permits, Option.any_eq_true]

lemma mem_validOrgs {org : String} : org ∈ acs.validOrgs orgList roleList es ↔ ∃ e ∈ es,
      acs.Permits orgList roleList e ∧ e.signer.orgId = org := by
  simp [validOrgs, mem_getValidEndorsements, and_assoc]

lemma countValidEndorsements_eq (orgList : List String) (roleList : List Role)
    (es : List EndorsementEntry) :
    acs.countValidEndorsements orgList.toFinset roleList.toFinset es =
      #(acs.validOrgs orgList roleList es) := rfl

lemma verifyPrincipalPolicy_congr {acs' : AccessControlService μ ο}
    (horgs : acs'.orgNum = acs.orgNum) (hmembers : ∀ e ∈ refined.endorsement,
      acs'.getMemberFromCache e.signer = acs.getMemberFromCache e.signer) :
    acs'.verifyPrincipalPolicy principal refined p =
      acs.verifyPrincipalPolicy principal refined p := by
  have hcount : ∀ orgList roleList,
      acs'.countValidEndorsements orgList roleList refined.endorsement =
        acs.countValidEndorsements orgList roleList refined.endorsement := fun orgList roleList =>
    congrArg countOrgsFromEndorsements (filter_congr fun e he => by rw [hmembers e he])
  have hany : ∀ f : EndorsementEntry → Option μ → Bool,
      (refined.endorsement.any fun e => f e (acs'.getMemberFromCache e.signer)) =
        refined.endorsement.any fun e => f e (acs.getMemberFromCache e.signer) := by
    intro f
    rw [Bool.eq_iff_iff]
    simp only [any_eq_true]
    exact exists_congr fun e => and_congr_right fun he => by rw [hmembers e he]
  have hmajority : acs'.verifyPrincipalPolicyRuleMajorityCase refined.endorsement =
      acs.verifyPrincipalPolicyRuleMajorityCase refined.endorsement := by
    unfold verifyPrincipalPolicyRuleMajorityCase
    rw [hcount, horgs]
  have hself : acs'.verifyPrincipalPolicyRuleSelfCase principal.targetOrg refined.endorsement =
      acs.verifyPrincipalPolicyRuleSelfCase principal.targetOrg refined.endorsement := by
    unfold verifyPrincipalPolicyRuleSelfCase
    rw [hany fun e m => e.signer.orgId = principal.targetOrg &&
      m.any fun m => getRole m = roleAdmin]
  have hanyone : acs'.verifyPrincipalPolicyRuleAnyCase p refined.endorsement
      principal.resourceName = acs.verifyPrincipalPolicyRuleAnyCase p refined.endorsement
        principal.resourceName := by
    unfold verifyPrincipalPolicyRuleAnyCase
    rw [hany fun e m => (p.orgList = [] || e.signer.orgId ∈ p.orgList) &&
      (p.roleList = [] || m.any fun m => getRole m ∈ p.roleList)]
  have hall : acs'.verifyPrincipalPolicyRuleAllCase p refined.endorsement =
      acs.verifyPrincipalPolicyRuleAllCase p refined.endorsement := by
    unfold verifyPrincipalPolicyRuleAllCase
    dsimp only
    rw [hcount, horgs]
  have hdefault : acs'.verifyPrincipalPolicyRuleDefaultCase p refined.endorsement =
      acs.verifyPrincipalPolicyRuleDefaultCase p refined.endorsement := by
    unfold verifyPrincipalPolicyRuleDefaultCase
    dsimp only
    rw [hcount, horgs]
  simp only [verifyPrincipalPolicy, hmajority, hself, hanyone, hall, hdefault]

/-- The ways in which a policy grants access to endorsements. -/
inductive Grants (acs : AccessControlService μ ο) (targetOrg : String) (p : Policy)
    (es : List EndorsementEntry) : Prop
  | majority (hrule : p.rule = ruleMajority)
      (h : acs.orgNum < 2 * #(acs.validOrgs [] [roleAdmin] es))
  | self (hrule : p.rule = ruleSelf) (htarget : targetOrg ≠ "")
      (h : targetOrg ∈ acs.validOrgs [] [roleAdmin] es)
  | any (hrule : p.rule = ruleAny) (h : (acs.validOrgs p.orgList p.roleList es).Nonempty)
  | all (hrule : p.rule = ruleAll)
      (h : #(acs.validOrgs p.orgList p.roleList es) =
        if p.orgList = [] then acs.orgNum else #p.orgList.toFinset)
  | threshold {text : List Char} {threshold : ℤ} (hrule : ruleParts p.rule = [text])
      (hthreshold : atoi text = some threshold)
      (h : threshold ≤ #(acs.validOrgs p.orgList p.roleList es))
  | portion {num den : List Char} {n d : ℤ} (hrule : ruleParts p.rule = [num, den])
      (hn : atoi num = some n) (hd : atoi den = some d)
      (h : meetsPortion (if p.orgList = [] then acs.orgNum else #p.orgList.toFinset) n
        (if d ≤ 0 then acs.orgNum else d) #(acs.validOrgs p.orgList p.roleList es) = true)

section keywords
variable {rule : String}

variable (hrule : rule ∈ [ruleMajority, ruleSelf, ruleAny, ruleAll, ruleForbidden, ruleDelete])
include hrule

lemma atoi_keyword {text : List Char} (hparts : ruleParts rule = [text]) : atoi text = none := by
  have hall : ∀ rule ∈ [ruleMajority, ruleSelf, ruleAny, ruleAll, ruleForbidden, ruleDelete],
      ∀ text ∈ ruleParts rule, atoi text = none := by decide
  exact hall rule hrule text (hparts ▸ List.mem_singleton_self text)

lemma ruleParts_keyword : ruleParts rule ≠ [num, den] := by
  have hall : ∀ rule ∈ [ruleMajority, ruleSelf, ruleAny, ruleAll, ruleForbidden, ruleDelete],
      (ruleParts rule).length = 1 := by decide
  intro hparts
  have hlen := hall rule hrule
  rw [hparts] at hlen
  cases hlen

end keywords

section rules
variable {targetOrg resourceName : String} {p : Policy} {es : List EndorsementEntry}

lemma majorityCase_ok : acs.verifyPrincipalPolicyRuleMajorityCase es = .ok () ↔
      acs.orgNum < 2 * #(acs.validOrgs [] [roleAdmin] es) := by
  have hcount : acs.countValidEndorsements ∅ {roleAdmin} es =
      #(acs.validOrgs [] [roleAdmin] es) := rfl
  simp [verifyPrincipalPolicyRuleMajorityCase, hcount]

lemma selfCase_ok : acs.verifyPrincipalPolicyRuleSelfCase targetOrg es = .ok () ↔
      targetOrg ≠ "" ∧ targetOrg ∈ acs.validOrgs [] [roleAdmin] es := by
  have hmem : targetOrg ∈ acs.validOrgs [] [roleAdmin] es ↔
      (es.any fun e => e.signer.orgId = targetOrg &&
        (acs.getMemberFromCache e.signer).any fun m => getRole m = roleAdmin) = true := by
    simp only [mem_validOrgs, Permits, true_or, true_and, cons_ne_nil, false_or,
      List.mem_singleton, List.any_eq_true, Bool.and_eq_true, decide_eq_true_eq,
      Option.any_eq_true, and_comm]
  rw [hmem]
  unfold verifyPrincipalPolicyRuleSelfCase
  split
  case isTrue htarget => simp [htarget]
  case isFalse htarget =>
    split
    case isTrue hany => exact iff_of_true rfl ⟨htarget, hany⟩
    case isFalse hany => exact iff_of_false (fun h => by cases h) fun h => hany h.2

lemma anyCase_ok : acs.verifyPrincipalPolicyRuleAnyCase p es resourceName = .ok () ↔
      (acs.validOrgs p.orgList p.roleList es).Nonempty := by
  have hmem : (acs.validOrgs p.orgList p.roleList es).Nonempty ↔
      (es.any fun e => (p.orgList = [] || e.signer.orgId ∈ p.orgList) && (p.roleList = [] ||
        (acs.getMemberFromCache e.signer).any fun m => getRole m ∈ p.roleList)) = true := by
    simp only [Finset.Nonempty, mem_validOrgs, Permits, List.any_eq_true, Bool.and_eq_true,
      Bool.or_eq_true, decide_eq_true_eq, Option.any_eq_true]
    exact ⟨fun ⟨_, e, he, hp, _⟩ => ⟨e, he, hp⟩, fun ⟨e, he, hp⟩ => ⟨_, e, he, hp, rfl⟩⟩
  rw [hmem]
  unfold verifyPrincipalPolicyRuleAnyCase
  split
  case isTrue hany => exact iff_of_true rfl hany
  case isFalse hany => exact iff_of_false (fun h => by cases h) hany

lemma allCase_ok : acs.verifyPrincipalPolicyRuleAllCase p es = .ok () ↔
      #(acs.validOrgs p.orgList p.roleList es) =
        if p.orgList = [] then acs.orgNum else #p.orgList.toFinset := by
  rw [verifyPrincipalPolicyRuleAllCase, countValidEndorsements_eq]
  by_cases horgs : p.orgList = []
  · simp [horgs]
  · simp [horgs, toFinset_eq_empty_iff]

lemma defaultCase_ok : acs.verifyPrincipalPolicyRuleDefaultCase p es = .ok () ↔
      (∃ text threshold, ruleParts p.rule = [text] ∧ atoi text = some threshold ∧
        threshold ≤ #(acs.validOrgs p.orgList p.roleList es)) ∨
      ∃ num den n d, ruleParts p.rule = [num, den] ∧ atoi num = some n ∧ atoi den = some d ∧
        meetsPortion (if p.orgList = [] then acs.orgNum else #p.orgList.toFinset) n
          (if d ≤ 0 then acs.orgNum else d) #(acs.validOrgs p.orgList p.roleList es) = true := by
  rw [verifyPrincipalPolicyRuleDefaultCase, countValidEndorsements_eq]
  split
  case h_1 text hparts =>
    cases hatoi : atoi text with
    | none | some => simp [hparts, hatoi]
  case h_2 num den hparts =>
    cases hn : atoi num with
    | none => simp [hparts, hn]
    | some n =>
      cases hd : atoi den with
      | none => simp [hparts, hd]
      | some d => simp [hparts, hn, hd, toFinset_eq_empty_iff]
  case h_3 hone htwo =>
  refine iff_of_false (fun h => by cases h) ?_
  rintro (⟨text, threshold, hparts, -⟩ | ⟨num, den, n, d, hparts, -⟩)
  · exact hone text hparts
  · exact htwo num den hparts

end rules

lemma verifyPrincipalPolicy_ok_iff : acs.verifyPrincipalPolicy principal refined p = .ok () ↔
      acs.Grants principal.targetOrg p refined.endorsement := by
  constructor
  · intro h
    unfold verifyPrincipalPolicy at h
    split at h
    case isTrue => cases h
    split at h
    case isTrue hrule => exact .majority hrule (majorityCase_ok.mp h)
    split at h
    case isTrue hrule => exact .self hrule (selfCase_ok.mp h).1 (selfCase_ok.mp h).2
    split at h
    case isTrue hrule => exact .any hrule (anyCase_ok.mp h)
    split at h
    case isTrue hrule => exact .all hrule (allCase_ok.mp h)
    rcases defaultCase_ok.mp h with ⟨_, _, hparts, hatoi, hle⟩ | ⟨_, _, _, _, hparts, hn, hd, hle⟩
    · exact .threshold hparts hatoi hle
    · exact .portion hparts hn hd hle
  · have hkeyword : p.rule ∉
        [ruleMajority, ruleSelf, ruleAny, ruleAll, ruleForbidden, ruleDelete] →
        acs.verifyPrincipalPolicy principal refined p =
          acs.verifyPrincipalPolicyRuleDefaultCase p refined.endorsement := by
      intro hrule
      simp only [List.mem_cons, List.not_mem_nil, or_false, not_or] at hrule
      obtain ⟨hmajority, hself, hany, hall, hforbidden, -⟩ := hrule
      simp [verifyPrincipalPolicy, hmajority, hself, hany, hall, hforbidden]
    intro h
    cases h with
    | majority hrule h =>
      simpa [verifyPrincipalPolicy, hrule, ruleMajority, ruleForbidden] using majorityCase_ok.mpr h
    | self hrule htarget h =>
      simpa [verifyPrincipalPolicy, hrule, ruleMajority, ruleForbidden, ruleSelf]
        using selfCase_ok.mpr ⟨htarget, h⟩
    | any hrule h =>
      simpa [verifyPrincipalPolicy, hrule, ruleMajority, ruleForbidden, ruleSelf, ruleAny]
        using anyCase_ok.mpr h
    | all hrule h =>
      simpa [verifyPrincipalPolicy, hrule, ruleMajority, ruleForbidden, ruleSelf, ruleAny, ruleAll]
        using allCase_ok.mpr h
    | threshold hparts hatoi hle =>
      rw [hkeyword fun hrule => by simp [atoi_keyword hrule hparts] at hatoi]
      exact defaultCase_ok.mpr (.inl ⟨_, _, hparts, hatoi, hle⟩)
    | portion hparts hn hd hle =>
      rw [hkeyword fun hrule => ruleParts_keyword hrule hparts]
      exact defaultCase_ok.mpr (.inr ⟨_, _, _, _, hparts, hn, hd, hle⟩)

/-! ### Grants without a qualified signer -/

/-- The signer is one that the policy names; under `MAJORITY` and `SELF` the role is admin. -/
def Qualifies (acs : AccessControlService μ ο) (p : Policy) (e : EndorsementEntry) : Prop :=
  acs.Permits p.orgList
    (if p.rule = ruleMajority ∨ p.rule = ruleSelf then [roleAdmin] else p.roleList) e

instance (p : Policy) (e : EndorsementEntry) : Decidable (acs.Qualifies p e) :=
  inferInstanceAs (Decidable (acs.Permits _ _ _))

/-- Whoever is cached and whoever signs, a grant has a qualified signer. -/
def GrantsQualified (acs : AccessControlService μ ο) (p : Policy) : Prop :=
  ∀ (cache : BoundedCache Bytes (MemberCached μ)) (principal refined : Principal),
    { acs with memberCache := cache }.verifyPrincipalPolicy principal refined p = .ok () →
      ∃ e ∈ refined.endorsement, { acs with memberCache := cache }.Qualifies p e

/-- The rule asks for somebody, and does not leave out the organizations of the policy: a
threshold is positive, `ALL` and a portion are of some organization, and `MAJORITY` and `SELF`,
which read no organizations, are given none. -/
structure Demanding (orgNum : ℕ) (p : Policy) : Prop where
  unlisted : p.rule = ruleMajority ∨ p.rule = ruleSelf → p.orgList = []
  orgs : p.rule = ruleAll ∨ (ruleParts p.rule).length = 2 → p.orgList ≠ [] ∨ orgNum ≠ 0
  positive : ∀ text n, ruleParts p.rule = [text] → atoi text = some n → 0 < n

lemma Permits.qualifies (h : acs.Permits p.orgList p.roleList e) (hmajority : p.rule ≠ ruleMajority)
    (hself : p.rule ≠ ruleSelf) : acs.Qualifies p e := by
  rw [Qualifies, if_neg (not_or.mpr ⟨hmajority, hself⟩)]
  exact h

lemma one_le_roundEven {q : ℚ} (hq : 1 ≤ q) : 1 ≤ roundEven q := by
  have hround : 1 ≤ round q := by
    rw [round_eq]
    exact Int.le_floor.mpr (by push_cast; linarith)
  unfold roundEven
  split_ifs with htie
  · -- at a tie the integer above is larger than `q`
    have hlt : (1 : ℚ) < round q := by linarith [htie.1]
    have hlt' : 1 < round q := by exact_mod_cast hlt
    omega
  · exact hround

lemma float64_pos {q : ℚ} (hq : 0 < q) : 0 < float64 q := by
  have hulp : (0 : ℚ) < 2 ^ (Int.log 2 |q| - 52) := zpow_pos two_pos _
  have hle : (2 : ℚ) ^ (Int.log 2 |q| - 52) ≤ q :=
    calc (2 : ℚ) ^ (Int.log 2 |q| - 52) ≤ 2 ^ Int.log 2 |q| :=
          zpow_le_zpow_right₀ one_le_two (by omega)
      _ ≤ |q| := Int.zpow_log_le_self one_lt_two (abs_pos.mpr hq.ne')
      _ = q := abs_of_pos hq
  have hround := one_le_roundEven ((one_le_div hulp).mpr hle)
  exact mul_pos (Int.cast_pos.mpr (by omega)) hulp

lemma numRequired_pos {orgs : ℕ} {n d : ℤ} (horgs : 0 < orgs) (hn : 0 < n) (hd : 0 < d) :
    0 < numRequired orgs n d := by
  have hnum := float64_pos (Int.cast_pos.mpr hn)
  have hden := float64_pos (Int.cast_pos.mpr hd)
  exact float64_pos (div_pos (float64_pos (mul_pos (Nat.cast_pos.mpr horgs) hnum)) hden)

lemma numRequired_zero (n d : ℤ) : numRequired 0 n d = 0 := by
  simp [numRequired, float64, roundEven]

-- A portion above one is one where its numerator is not a `float64`.
example : meetsPortion 1 9007199254740993 9007199254740992 1 = true := by decide +kernel

lemma exists_permits (h : 0 < #(acs.validOrgs orgList roleList es)) :
    ∃ e ∈ es, acs.Permits orgList roleList e := by
  obtain ⟨org, horg⟩ := card_pos.mp h
  obtain ⟨e, he, hp, -⟩ := mem_validOrgs.mp horg
  exact ⟨e, he, hp⟩

omit [Member μ] in
lemma portion_of_valid (hpolicy : rp.policy = some policy)
    (hvalid : acs.validateResourcePolicy rp = true) (hparts : ruleParts policy.rule = [num, den]) :
    ∃ n d, atoi num = some n ∧ atoi den = some d ∧ 0 < n ∧ 0 < d := by
  have hrule : checkResourcePolicyRule rp.resourceName policy = true := by
    rw [validateResourcePolicy, hpolicy] at hvalid
    split at hvalid
    · cases hvalid
    · exact (Bool.and_eq_true _ _ ▸ hvalid).2
  have hkeyword : ∀ rule ∈ [ruleMajority, ruleSelf, ruleAny, ruleAll, ruleForbidden, ruleDelete],
      policy.rule ≠ rule := fun rule hmem heq => ruleParts_keyword (heq ▸ hmem) hparts
  simp only [List.forall_mem_cons, List.not_mem_nil, false_imp_iff, implies_true, and_true]
    at hkeyword
  obtain ⟨hmajority, hself, hany, hall, hforbidden, hdelete⟩ := hkeyword
  simp only [checkResourcePolicyRule, List.mem_cons, List.not_mem_nil, hany, hall,
    hforbidden, hself, hmajority, hdelete, or_self, if_false, checkResourcePolicyRuleDefaultCase,
    hparts] at hrule
  cases hn : atoi num with
  | none => simp [hn] at hrule
  | some n =>
    cases hd : atoi den with
    | none => simp [hn, hd] at hrule
    | some d => exact ⟨n, d, rfl, rfl, by simpa [hn, hd] using hrule⟩

lemma Grants.exists_qualified {targetOrg : String}
    (hpolicy : rp.policy = some policy) (hvalid : acs.validateResourcePolicy rp = true)
    (hdemanding : Demanding acs.orgNum (newPolicyFromPb policy))
    (h : acs.Grants targetOrg (newPolicyFromPb policy) es) :
    ∃ e ∈ es, acs.Qualifies (newPolicyFromPb policy) e := by
  set p := newPolicyFromPb policy with hp
  -- An admin qualifies under the rules that are given no organizations.
  have hadmin : ∀ (hrule : p.rule = ruleMajority ∨ p.rule = ruleSelf),
      0 < #(acs.validOrgs [] [roleAdmin] es) → ∃ e ∈ es, acs.Qualifies p e := by
    intro hrule hpos
    obtain ⟨e, he, hpermits⟩ := exists_permits hpos
    refine ⟨e, he, ?_⟩
    rw [Qualifies, if_pos hrule, hdemanding.unlisted hrule]
    exact hpermits
  have hother : p.rule ≠ ruleMajority → p.rule ≠ ruleSelf →
      0 < #(acs.validOrgs p.orgList p.roleList es) → ∃ e ∈ es, acs.Qualifies p e := by
    intro hmajority hself hpos
    obtain ⟨e, he, hpermits⟩ := exists_permits hpos
    exact ⟨e, he, hpermits.qualifies hmajority hself⟩
  have horgs : p.orgList ≠ [] ∨ acs.orgNum ≠ 0 →
      0 < if p.orgList = [] then acs.orgNum else #p.orgList.toFinset := by
    intro hsome
    split
    case isTrue hnil => exact Nat.pos_of_ne_zero (hsome.resolve_left (not_not.mpr hnil))
    case isFalse hne => exact card_pos.mpr (toFinset_nonempty_iff _ |>.mpr hne)
  cases h with
  | majority hrule h => exact hadmin (.inl hrule) (by omega)
  | self hrule _ h => exact hadmin (.inr hrule) (card_pos.mpr ⟨_, h⟩)
  | any hrule h =>
    exact hother (by rw [hrule]; decide) (by rw [hrule]; decide) (card_pos.mpr h)
  | all hrule h =>
    refine hother (by rw [hrule]; decide) (by rw [hrule]; decide) ?_
    rw [h]
    exact horgs (hdemanding.orgs (.inl hrule))
  | threshold hparts hatoi hle =>
    have hpos := hdemanding.positive _ _ hparts hatoi
    refine hother (fun hrule => ?_) (fun hrule => ?_) (by omega)
    · rw [atoi_keyword (by simp [hrule]) hparts] at hatoi
      cases hatoi
    · rw [atoi_keyword (by simp [hrule]) hparts] at hatoi
      cases hatoi
  | portion hparts hn hd hle =>
    obtain ⟨n, d, hn', hd', hnpos, hdpos⟩ := portion_of_valid hpolicy hvalid hparts
    obtain rfl := Option.mem_unique hn' hn
    obtain rfl := Option.mem_unique hd' hd
    have hpos := horgs (hdemanding.orgs (.inr (by rw [hparts]; rfl)))
    refine hother (fun hrule => ruleParts_keyword (by simp [hrule]) hparts)
      (fun hrule => ruleParts_keyword (by simp [hrule]) hparts) (Nat.pos_of_ne_zero fun hzero => ?_)
    rw [hzero, if_neg hdpos.not_ge, meetsPortion, if_neg hdpos.ne'] at hle
    have hrequired := numRequired_pos hpos hnpos hdpos
    exact hrequired.not_ge (by simpa using hle)

lemma exists_admins (hmembers : ∀ org role, ∃ m : μ, getOrgId m = org ∧ getRole m = role)
    (acs : AccessControlService μ ο) (W : Finset String) :
    ∃ (cache : BoundedCache Bytes (MemberCached μ)) (es : List EndorsementEntry),
      { acs with memberCache := cache }.validOrgs [] [roleAdmin] es = W ∧
        ∀ e ∈ es, e.signer.orgId ∈ W := by
  choose member horg hrole using fun org => hmembers org roleAdmin
  -- The text of a member is as long as the place of its organization.
  let text : String → Bytes := fun org => replicate (W.toList.idxOf org) 0
  let orgOf : Bytes → String := fun info => W.toList.getD info.length ""
  let cache := BoundedCache.ofKeys (fun info => MemberCached.mk (member (orgOf info)) [])
    (W.toList.map text)
  have hcached : ∀ org ∈ W, { acs with memberCache := cache }.getMemberFromCache
      ⟨org, text org, .cert⟩ = some (member org) := by
    intro org hmem
    have hidx : W.toList.idxOf org < W.toList.length := idxOf_lt_length_of_mem (mem_toList.mpr hmem)
    have horgOf : orgOf (text org) = org := by
      simp only [orgOf, text, length_replicate]
      rw [getD_eq_getElem?_getD, getElem?_eq_getElem hidx, Option.getD_some, getElem_idxOf hidx]
    have hget : cache.get (text org) = some ⟨member org, []⟩ := by
      rw [BoundedCache.get_ofKeys, if_pos (mem_map_of_mem (mem_toList.mpr hmem)), horgOf]
    simp only [getMemberFromCache, lookUpMemberInCache, hget]
    exact if_pos (horg org)
  refine ⟨cache, W.toList.map fun org => ⟨⟨org, text org, .cert⟩, []⟩, ?_, fun e he => ?_⟩
  · ext org
    rw [mem_validOrgs]
    constructor
    · rintro ⟨e, he, -, rfl⟩
      obtain ⟨org, hmem, rfl⟩ := mem_map.mp he
      exact mem_toList.mp hmem
    · intro hmem
      exact ⟨_, mem_map_of_mem (mem_toList.mpr hmem), ⟨.inl rfl, .inr ⟨member org,
        hcached org hmem, List.mem_singleton.mpr (hrole org)⟩⟩, rfl⟩
  · obtain ⟨org, hmem, rfl⟩ := mem_map.mp he
    exact mem_toList.mp hmem

lemma exists_unlisted (orgList : List String) (n : ℕ) :
    ∃ W : Finset String, #W = n ∧ ∀ org ∈ W, org ∉ orgList ∧ org ≠ "" := by
  obtain ⟨T, hsub, hcard⟩ := Infinite.exists_superset_card_eq (insert "" orgList.toFinset)
    (#(insert "" orgList.toFinset) + n) (Nat.le_add_right _ _)
  refine ⟨T \ insert "" orgList.toFinset, ?_, fun org horg => ?_⟩
  · rw [card_sdiff_of_subset hsub, hcard, Nat.add_sub_cancel_left]
  · have hout := (mem_sdiff.mp horg).2
    rw [mem_insert, mem_toFinset, not_or] at hout
    exact ⟨hout.2, hout.1⟩

lemma GrantsQualified.demanding {rp : ResourcePolicy} {policy : PbPolicy}
    (hmembers : ∀ org role, ∃ m : μ, getOrgId m = org ∧ getRole m = role)
    (hpolicy : rp.policy = some policy) (hvalid : acs.validateResourcePolicy rp = true)
    (h : acs.GrantsQualified (newPolicyFromPb policy)) :
    Demanding acs.orgNum (newPolicyFromPb policy) := by
  set p := newPolicyFromPb policy with hp
  have hgrants : ∀ (cache : BoundedCache Bytes (MemberCached μ)) targetOrg es,
      { acs with memberCache := cache }.Grants targetOrg p es →
      ∃ e ∈ es, { acs with memberCache := cache }.Qualifies p e := by
    intro cache targetOrg es hgrant
    exact h cache ⟨"", es, [], targetOrg⟩ ⟨"", es, [], targetOrg⟩
      (verifyPrincipalPolicy_ok_iff.mpr hgrant)
  have hnobody : ¬acs.Grants "" p [] := by
    intro hgrant
    obtain ⟨e, he, -⟩ := hgrants acs.memberCache "" [] hgrant
    exact absurd he not_mem_nil
  refine ⟨fun hrule => ?_, fun hrule => ?_, fun text n hparts hatoi => ?_⟩
  · -- Admins of enough organizations that the policy does not list.
    by_contra hlisted
    obtain ⟨W, hcard, hW⟩ := exists_unlisted p.orgList (acs.orgNum + 1)
    obtain ⟨org, horg⟩ : W.Nonempty := card_pos.mp (by omega)
    obtain ⟨cache, es, hvalidOrgs, hes⟩ := exists_admins hmembers acs W
    have hgrant : { acs with memberCache := cache }.Grants org p es := by
      rcases hrule with hrule | hrule
      · refine .majority hrule ?_
        rw [hvalidOrgs, hcard]
        show acs.orgNum < 2 * (acs.orgNum + 1)
        omega
      · exact .self hrule (hW org horg).2 (hvalidOrgs ▸ horg)
    obtain ⟨e, he, hqualifies⟩ := hgrants cache org es hgrant
    exact (hW _ (hes e he)).1 (hqualifies.1.resolve_left hlisted)
  · by_contra hnone
    obtain ⟨hnil, hzero⟩ := not_or.mp hnone
    rw [not_not] at hnil hzero
    rcases hrule with hrule | hparts
    · refine hnobody (.all hrule ?_)
      rw [if_pos hnil, hzero]
      rfl
    obtain ⟨num, den, hparts⟩ := length_eq_two.mp hparts
    obtain ⟨n, d, hn, hd, -, hdpos⟩ := portion_of_valid hpolicy hvalid hparts
    refine hnobody (.portion hparts hn hd ?_)
    rw [if_pos hnil, hzero, if_neg hdpos.not_ge, meetsPortion, if_neg hdpos.ne', numRequired_zero]
    exact decide_eq_true (Nat.cast_nonneg _)
  · by_contra hle
    exact hnobody (.threshold hparts hatoi (not_lt.mp hle))

theorem grantsQualified_iff (acs : AccessControlService μ ο) (rp : ResourcePolicy)
    (policy : PbPolicy)
    (hmembers : ∀ org role, ∃ m : μ, getOrgId m = org ∧ getRole m = role)
    (hpolicy : rp.policy = some policy) (hvalid : acs.validateResourcePolicy rp = true) :
    acs.GrantsQualified (newPolicyFromPb policy) ↔
      Demanding acs.orgNum (newPolicyFromPb policy) := by
  refine ⟨GrantsQualified.demanding hmembers hpolicy hvalid, ?_⟩
  intro hdemanding cache principal refined hok
  exact (verifyPrincipalPolicy_ok_iff.mp hok).exists_qualified hpolicy hvalid hdemanding

def threeOrgs : AccessControlService CertificateMember Unit where
  orgNum := 3
  orgList := [("org1", ()), ("org2", ()), ("org3", ())].foldr (fun e m => m.insert e.1 e.2) ∅
  resourceNamePolicyMap := ∅
  exceptionalPolicyMap := ∅
  memberCache := .ofKeys
    (fun info => ⟨⟨if info = [2] then "org2" else "org3", ⟨info, [], [], 0, [], [], false, []⟩,
      if info = [4] then roleClient else roleAdmin⟩, []⟩) [[2], [3], [4]]
  hashType := ""
  authType := permissionedWithCert

def threeOrgsPrincipal (signers : List PbMember) : Principal :=
  ⟨"T", signers.map fun signer => ⟨signer, []⟩, [], ""⟩

/-- The threshold 0 lets a client pass where admins are named, and a majority of other
organizations passes where one organization is named. -/
theorem grants_unqualified :
    let unbounded : PbPolicy := ⟨"0", [], ["admin"]⟩
    let listed : PbPolicy := ⟨ruleMajority, ["org1"], ["admin"]⟩
    let client := threeOrgsPrincipal [⟨"org3", [4], .cert⟩]
    let admins := threeOrgsPrincipal [⟨"org2", [2], .cert⟩, ⟨"org3", [3], .cert⟩]
    (threeOrgs.validateResourcePolicy ⟨"T", some unbounded⟩ = true ∧
      threeOrgs.verifyPrincipalPolicy client client (newPolicyFromPb unbounded) = .ok () ∧
      ∀ e ∈ client.endorsement, ¬threeOrgs.Qualifies (newPolicyFromPb unbounded) e) ∧
    threeOrgs.validateResourcePolicy ⟨"T", some listed⟩ = true ∧
      threeOrgs.verifyPrincipalPolicy admins admins (newPolicyFromPb listed) = .ok () ∧
      ∀ e ∈ admins.endorsement, ¬threeOrgs.Qualifies (newPolicyFromPb listed) e := by
  decide +kernel

theorem grantsQualified_portion :
    threeOrgs.validateResourcePolicy ⟨"T", some ⟨"2/3", ["org1", "org2"], ["admin"]⟩⟩ = true ∧
      threeOrgs.GrantsQualified (newPolicyFromPb ⟨"2/3", ["org1", "org2"], ["admin"]⟩) := by
  have hvalid : threeOrgs.validateResourcePolicy
      ⟨"T", some ⟨"2/3", ["org1", "org2"], ["admin"]⟩⟩ = true := by decide +kernel
  refine ⟨hvalid, (grantsQualified_iff threeOrgs _ _ (fun org role => ?_) rfl hvalid).mpr ?_⟩
  · exact ⟨⟨org, ⟨[], [], [], 0, [], [], false, []⟩, role⟩, rfl, rfl⟩
  · refine ⟨by decide, fun _ => .inl (by decide), fun text n hparts _ => ?_⟩
    have hlen : (ruleParts "2/3").length = 1 := congrArg length hparts
    exact absurd hlen (by decide)

end AccessControlService
end ChainMaker.Ac
