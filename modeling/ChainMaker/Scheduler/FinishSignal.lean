import ChainMaker.Basic
import ChainMaker.Lib.Runs

/-! The channel `scheduleFinishC`, which all runs of a `TxScheduler` share. It has no buffer: a
sender waits until a run receives, whichever run that is. The lock of the scheduler lets one run go
on at a time. -/

namespace ChainMaker.Scheduler
open List

/-- A goroutine that sends on the channel: the loop of a run whose transactions are all applied, or
whose timer has fired, and a caller of `Halt` with the run that it was called in. -/
inductive Signal where
  | applied (run : ℕ)
  | timeout (run : ℕ)
  | halt (during : Option ℕ)
deriving DecidableEq

def Signal.IsFor (run : ℕ) : Signal → Prop
  | .applied r | .timeout r => r = run
  | .halt during => during = some run

/-- The loop of a run, with the number of transactions that are not applied yet. -/
structure RunLoop where
  run : ℕ
  missing : ℕ
deriving DecidableEq

structure FinishChannel where
  started : ℕ := 0
  running : Option ℕ := none
  waiting : Bool := false
  /-- The runs whose loop is still in its `select`. -/
  loops : List RunLoop := []
  senders : List Signal := []
  ended : List (ℕ × Signal) := []
deriving DecidableEq

inductive FinishEvent where
  | start (txBatchSize : ℕ)
  | apply (n : ℕ)
  | send (n : ℕ) (timedOut : Bool)
  | halt
  | receive (n : ℕ)
  | unlock
deriving DecidableEq

namespace FinishChannel
variable {c c' : FinishChannel}

def step (c : FinishChannel) : FinishEvent → Option FinishChannel
  | .start txBatchSize =>
    if c.running.isSome then none
    else some { c with
      started := c.started + 1, running := some c.started, waiting := true
      loops := c.loops ++ [⟨c.started, txBatchSize⟩] }
  -- Before the lock is released the snapshot is sealed.
  | .apply n => c.loops[n]?.bind fun loop =>
    if c.running = some loop.run ∧ loop.missing ≠ 0 then
      some { c with loops := c.loops.set n { loop with missing := loop.missing - 1 } }
    else none
  | .send n timedOut => c.loops[n]?.bind fun loop =>
    if timedOut ∨ loop.missing = 0 then
      some { c with
        loops := c.loops.eraseIdx n
        senders := c.senders ++ [if timedOut then .timeout loop.run else .applied loop.run] }
    else none
  | .halt => some { c with senders := c.senders ++ [.halt c.running] }
  | .receive n =>
    match c.running, c.waiting, c.senders[n]? with
    | some run, true, some s =>
      some { c with
        waiting := false, senders := c.senders.eraseIdx n, ended := (run, s) :: c.ended }
    | _, _, _ => none
  | .unlock => if c.waiting then none else some { c with running := none }

def Isolated (c : FinishChannel) : Prop := ∀ e ∈ c.ended, e.2.IsFor e.1

/-- A run starts when the loops of the earlier ones have ended and nobody sends. -/
def Settled (c : FinishChannel) : FinishEvent → Prop
  | .start _ => c.loops = [] ∧ c.senders = []
  | _ => True

/-- Whoever sends, or may still send, does so for the run that goes on. -/
structure Inv (c : FinishChannel) : Prop where
  isolated : c.Isolated
  loops : ∀ run, c.running = some run → ∀ loop ∈ c.loops, loop.run = run
  senders : ∀ run, c.running = some run → ∀ s ∈ c.senders, s.IsFor run

lemma Inv.step {e : FinishEvent} (h : c.Inv) (hsettled : c.Settled e) (hs : c.step e = some c') :
    c'.Inv := by
  cases e with
  | start =>
    obtain ⟨hloops, hsenders⟩ := hsettled
    obtain ⟨-, hs⟩ := Option.ite_none_left_eq_some.mp hs
    cases hs
    refine ⟨h.isolated, fun run hrun r hr => ?_, fun run _ s hs => ?_⟩
    · rw [hloops, nil_append, mem_singleton] at hr
      exact hr ▸ Option.some.inj hrun
    · exact absurd (hsenders ▸ hs) not_mem_nil
  | apply n =>
    obtain ⟨loop, hn, hs⟩ := Option.bind_eq_some_iff.mp hs
    obtain ⟨-, hs⟩ := Option.ite_none_right_eq_some.mp hs
    cases hs
    refine ⟨h.isolated, fun r hr x hx => ?_, h.senders⟩
    rcases mem_or_eq_of_mem_set hx with hx | rfl
    · exact h.loops r hr x hx
    · exact h.loops r hr loop (mem_of_getElem? hn)
  | send n timedOut =>
    obtain ⟨loop, hn, hs⟩ := Option.bind_eq_some_iff.mp hs
    obtain ⟨-, hs⟩ := Option.ite_none_right_eq_some.mp hs
    cases hs
    refine ⟨h.isolated, fun r hr x hx => h.loops r hr x (mem_of_mem_eraseIdx hx), fun r hr =>
      forall_mem_concat (h.senders r hr) ?_⟩
    have hown := h.loops r hr loop (mem_of_getElem? hn)
    cases timedOut <;> exact hown
  | halt =>
    cases hs
    exact ⟨h.isolated, h.loops, fun r hr => forall_mem_concat (h.senders r hr) hr⟩
  | receive n =>
    simp only [FinishChannel.step] at hs
    split at hs
    · next run s hrun _ hn =>
      cases hs
      have hown := h.senders run hrun s (mem_of_getElem? hn)
      exact ⟨forall_mem_cons.mpr ⟨hown, h.isolated⟩, h.loops,
        fun r hr s hs => h.senders r hr s (mem_of_mem_eraseIdx hs)⟩
    · cases hs
  | unlock =>
    obtain ⟨-, hs⟩ := Option.ite_none_left_eq_some.mp hs
    cases hs
    exact ⟨h.isolated, fun _ hr => (nomatch hr), fun _ hr => (nomatch hr)⟩

end FinishChannel
end ChainMaker.Scheduler
