import ChainMaker.Basic
import ChainMaker.Lib.Runs

/-! The calls between contracts during one query (`tx_query_sim_context.go`). The VM may be any
program that makes further calls, so a query is any sequence of calls and returns. -/

namespace ChainMaker.Rpc
open Option List

structure QueryEnv where
  callContractDepth : ℕ
  gasLimit : ℕ
  getContractBytecode : String → Option Bytes

structure ContractCall where
  contractName : String
  method : String
  byteCode : Bytes
  parameter : List (String × Bytes)
  gasUsed : ℕ

structure CallContractResult where
  contractName : String
  method : String
  param : List (String × Bytes)
  depth : ℤ
  gasUsed : ℕ
  result : Bytes

structure TxQuerySimContext where
  gasUsed : ℕ := 0
  currentDepth : ℤ := 0
  currentResult : Bytes := []
  hisResult : List CallContractResult := []

inductive CallFailure where
  | tooDeep
  | notEnoughGas
  | noByteCode
deriving DecidableEq

namespace TxQuerySimContext
variable (s : TxQuerySimContext) (call : ContractCall)

-- `CallContract` up to its checks, the three checks that return at once, and what follows the VM

def callContract : TxQuerySimContext :=
  { s with gasUsed := call.gasUsed, currentDepth := s.currentDepth + 1 }

def callFailure (env : QueryEnv) : Option CallFailure :=
  if (env.callContractDepth : ℤ) < s.currentDepth then some .tooDeep
  else if env.gasLimit < s.gasUsed then some .notEnoughGas
  else if call.byteCode = [] ∧ env.getContractBytecode call.contractName = none then
    some .noByteCode
  else none

def callReturned (result : Bytes) : TxQuerySimContext :=
  { s with
    hisResult := s.hisResult ++
      [⟨call.contractName, call.method, call.parameter, s.currentDepth, s.gasUsed, result⟩]
    currentResult := result
    currentDepth := s.currentDepth - 1 }

end TxQuerySimContext

/-- A call that has returned: its depth in the tree of calls, and `currentDepth` before and after.
-/
structure ReturnedCall where
  nesting : ℕ
  before : ℤ
  after : ℤ
  tooDeep : Bool
deriving DecidableEq

structure Query where
  context : TxQuerySimContext := {}
  frames : List (ContractCall × ℤ) := []
  returned : List ReturnedCall := []

inductive QueryEvent where
  | call (call : ContractCall)
  | ret (result : Bytes)

namespace Query
variable (env : QueryEnv) (q : Query)

def step : QueryEvent → Option Query
  | .call call =>
    let before := q.context.currentDepth
    let context := q.context.callContract call
    match context.callFailure call env with
    | none => some { q with context, frames := (call, before) :: q.frames }
    | some e => some { q with
        context
        returned := ⟨q.frames.length + 1, before, context.currentDepth,
          e = .tooDeep⟩ :: q.returned }
  | .ret result =>
    match q.frames with
    | [] => none
    | (call, before) :: frames =>
      let context := q.context.callReturned call result
      some ⟨context, frames, ⟨frames.length + 1, before, context.currentDepth, false⟩ :: q.returned⟩

def Balanced : Prop :=
  ∀ r ∈ q.returned, r.after = r.before ∧ (r.tooDeep = true ↔ env.callContractDepth < r.nesting)

/-- The call does not fail before the VM runs. -/
def Admitted : QueryEvent → Prop
  | .call call => q.frames.length < env.callContractDepth ∧ call.gasUsed ≤ env.gasLimit ∧
      ¬ (call.byteCode = [] ∧ env.getContractBytecode call.contractName = none)
  | .ret _ => True

instance : ∀ e, Decidable (Admitted env q e)
  | .call _ => inferInstanceAs (Decidable (_ ∧ _))
  | .ret _ => .isTrue trivial

def Nested : List (ContractCall × ℤ) → Prop
  | [] => True
  | frame :: frames => frame.2 = frames.length ∧ Nested frames

/-- No call has left its mark on `currentDepth`. -/
structure Level : Prop where
  depth : q.context.currentDepth = q.frames.length
  nested : Nested q.frames
  le : q.frames.length ≤ env.callContractDepth
  balanced : q.Balanced env

variable {env q} {q' : Query} {e : QueryEvent} {es : List QueryEvent} {call : ContractCall}

lemma Level.callFailure_eq_none_iff (h : q.Level env) :
    (q.context.callContract call).callFailure call env = none ↔ Admitted env q (.call call) := by
  unfold TxQuerySimContext.callFailure TxQuerySimContext.callContract Admitted
  rw [h.depth]
  split_ifs <;> grind

lemma Level.step (h : q.Level env) (hP : Admitted env q e) (hstep : step env q e = some q') :
    q'.Level env := by
  cases e with
  | call call =>
    dsimp only [step] at hstep
    rw [h.callFailure_eq_none_iff.mpr hP] at hstep
    obtain rfl := some.inj hstep
    exact ⟨congrArg (· + 1) h.depth, ⟨h.depth, h.nested⟩, hP.1, h.balanced⟩
  | ret result =>
    obtain ⟨hdepth, hnested, hle, hbalanced⟩ := h
    cases hframes : q.frames with
    | nil => simp [step, hframes] at hstep
    | cons frame frames =>
      rw [hframes] at hdepth hnested hle
      simp only [step, hframes] at hstep
      obtain rfl := some.inj hstep
      have hback : q.context.currentDepth - 1 = frames.length := by simp [hdepth]
      refine ⟨hback, hnested.2, (Nat.le_succ _).trans hle,
        forall_mem_cons.mpr ⟨⟨?_, ?_⟩, hbalanced⟩⟩
      · exact hback.trans hnested.1.symm
      · simpa using hle

lemma mem_returned_of_step {r : ReturnedCall} (hr : r ∈ q.returned)
    (hstep : step env q e = some q') : r ∈ q'.returned := by
  unfold step at hstep
  grind

/-- A call that fails before the VM runs leaves `currentDepth` one higher. -/
lemma Level.exists_ne (h : q.Level env) (hP : ¬ Admitted env q e)
    (hstep : Query.step env q e = some q') : ∃ r ∈ q'.returned, r.after ≠ r.before := by
  cases e with
  | call call =>
    obtain ⟨e, he⟩ := ne_none_iff_exists'.mp (mt h.callFailure_eq_none_iff.mp hP)
    dsimp only [Query.step] at hstep
    rw [he] at hstep
    obtain rfl := some.inj hstep
    exact ⟨_, mem_cons_self, (Int.lt_succ _).ne'⟩
  | ret result => exact absurd trivial hP

/-- Over every query the depth is balanced exactly when no call failed before the VM ran. -/
lemma Level.balanced_iff_meets (h : q.Level env) (hrun : Runs.run (Query.step env) q es = some q') :
    q'.Balanced env ↔ Runs.Meets (Query.step env) (Admitted env) q es := by
  induction es generalizing q with
  | nil =>
    obtain rfl := some.inj hrun
    exact iff_of_true h.balanced trivial
  | cons e es ih =>
    obtain ⟨t, ht, hrun⟩ := Runs.run_cons.mp hrun
    by_cases hP : Admitted env q e
    · rw [ih (h.step hP ht) hrun]
      simp [Runs.Meets, hP, ht]
    obtain ⟨r, hr, hne⟩ := h.exists_ne hP ht
    have hr' := Runs.run_induction_all (I := fun q => r ∈ q.returned)
      (fun _ _ _ hr hstep => mem_returned_of_step hr hstep) hr hrun
    exact iff_of_false (fun hb => hne (hb r hr').1) fun hM => hP hM.1

theorem callContract_balanced_iff (hrun : Runs.run (step env) {} es = some q) :
    q.Balanced env ↔ Runs.Meets (step env) (Admitted env) {} es :=
  Level.balanced_iff_meets ⟨rfl, trivial, Nat.zero_le _, by simp [Balanced]⟩ hrun

theorem callContract_balanced_nested :
    let env : QueryEnv := ⟨2, 10, fun _ => none⟩
    let es := [.call ⟨"a", "get", [0], [], 3⟩, .call ⟨"b", "get", [1], [], 4⟩, .ret [7], .ret [8]]
    ∃ q, Runs.run (step env) {} es = some q ∧ q.Balanced env := by
  intro env es
  have hrun : Runs.run (step env) {} es = some _ := rfl
  exact ⟨_, hrun, (callContract_balanced_iff hrun).mpr (by decide)⟩

/-- A call that costs too much gas stays on the depth, so the next is too deep at nesting one. -/
theorem callContract_failed_tooDeep :
    let env : QueryEnv := ⟨1, 10, fun _ => none⟩
    (Runs.run (step env) {} [.call ⟨"a", "get", [0], [], 11⟩, .call ⟨"b", "get", [1], [], 0⟩]).map
      returned = some [⟨1, 1, 2, true⟩, ⟨1, 0, 1, false⟩] := by
  decide

end Query
end ChainMaker.Rpc
