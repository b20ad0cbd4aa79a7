/-! # Loops with a variant

One pass of a loop evaluates its condition and its body: it goes on with a new
state or leaves with a result. A loop carries a variant that each pass
decreases, so running it is a total function.
-/

namespace BpfBackend.Loop

universe u v w

inductive Pass (State : Type u) (Result : Type v) where
  | again (state : State)
  | leave (result : Result)

structure VariantLoop (State : Type u) (Result : Type v) where
  body : State → Pass State Result
  variant : State → Nat
  decreases : ∀ {state next}, body state = .again next → variant next < variant state

/-- Finitely many passes lead from a state to a result. -/
inductive Completes {State : Type u} {Result : Type v} (body : State → Pass State Result) :
    State → Result → Prop where
  | leave {state : State} {result : Result} :
      body state = .leave result → Completes body state result
  | again {state next : State} {result : Result} :
      body state = .again next → Completes body next result → Completes body state result

namespace VariantLoop

variable {State : Type u} {Result : Type v}

/-- The bound on the number of passes left is above the variant. -/
def runWithin (loop : VariantLoop State Result) :
    (bound : Nat) → (state : State) → loop.variant state < bound → Result
  | 0, state, below => absurd below (Nat.not_lt_zero (loop.variant state))
  | bound + 1, state, below =>
      match pass : loop.body state with
      | .leave result => result
      | .again next =>
          loop.runWithin bound next
            (Nat.lt_of_lt_of_le (loop.decreases pass) (Nat.le_of_lt_succ below))

def run (loop : VariantLoop State Result) (state : State) : Result :=
  loop.runWithin (loop.variant state + 1) state (Nat.lt_succ_self _)

theorem completes_runWithin (loop : VariantLoop State Result) (bound : Nat) (state : State)
    (below : loop.variant state < bound) :
    Completes loop.body state (loop.runWithin bound state below) := by
  induction bound generalizing state with
  | zero => exact absurd below (Nat.not_lt_zero _)
  | succ bound induction =>
      rw [runWithin]
      split
      · rename_i result pass
        exact .leave pass
      · rename_i next pass
        exact .again pass (induction next _)

end VariantLoop

theorem Completes.unique {State : Type u} {Result : Type v} {body : State → Pass State Result}
    {state : State} {left right : Result} (first : Completes body state left)
    (second : Completes body state right) : left = right := by
  induction first with
  | leave pass =>
      cases second with
      | leave otherPass => exact Pass.leave.inj (pass.symm.trans otherPass)
      | again otherPass rest => cases pass.symm.trans otherPass
  | again pass rest induction =>
      cases second with
      | leave otherPass => cases pass.symm.trans otherPass
      | again otherPass otherRest =>
          rw [← Pass.again.inj (pass.symm.trans otherPass)] at otherRest
          exact induction otherRest

namespace VariantLoop

variable {State : Type u} {Result : Type v} (loop : VariantLoop State Result)

theorem completes_run (state : State) : Completes loop.body state (loop.run state) :=
  loop.completes_runWithin _ state _

theorem run_eq_of_leave {state : State} {result : Result}
    (pass : loop.body state = .leave result) : loop.run state = result :=
  (loop.completes_run state).unique (.leave pass)

theorem run_eq_of_again {state next : State} (pass : loop.body state = .again next) :
    loop.run state = loop.run next :=
  (loop.completes_run state).unique (.again pass (loop.completes_run next))

/-- The invariant rule. -/
theorem run_invariant {Invariant : State → Prop} {Post : Result → Prop}
    (again : ∀ {state next}, Invariant state → loop.body state = .again next → Invariant next)
    (leave : ∀ {state result}, Invariant state → loop.body state = .leave result → Post result)
    {state : State} (holds : Invariant state) : Post (loop.run state) := by
  have completes := loop.completes_run state
  generalize loop.run state = result at completes ⊢
  induction completes with
  | leave pass => exact leave holds pass
  | again pass rest induction => exact induction (again holds pass)

theorem run_conserves {Quantity : Sort w} {before : State → Quantity} {after : Result → Quantity}
    (again : ∀ {state next}, loop.body state = .again next → before next = before state)
    (leave : ∀ {state result}, loop.body state = .leave result → after result = before state)
    (state : State) : after (loop.run state) = before state :=
  @run_invariant _ _ loop (fun current => before current = before state)
    (fun result => after result = before state)
    (fun holds pass => (again pass).trans holds)
    (fun holds pass => (leave pass).trans holds) state rfl

end VariantLoop

end BpfBackend.Loop
