import BpfBackend.MC.Machine

/-! # Condition codes

`NegateCC` swaps the operands of a comparison so that only the six codes with a
jump instruction remain.
-/

namespace BpfBackend.CodeGen

open MC

inductive CondCode where
  | SETEQ | SETNE | SETGT | SETGE | SETLT | SETLE
  | SETUGT | SETUGE | SETULT | SETULE
  deriving DecidableEq, Repr

namespace CondCode

def holds : CondCode → BitVec 64 → BitVec 64 → Bool
  | SETEQ, left, right => left = right
  | SETNE, left, right => left ≠ right
  | SETGT, left, right => right.slt left
  | SETGE, left, right => right.sle left
  | SETLT, left, right => left.slt right
  | SETLE, left, right => left.sle right
  | SETUGT, left, right => right.ult left
  | SETUGE, left, right => right.ule left
  | SETULT, left, right => left.ult right
  | SETULE, left, right => left.ule right

end CondCode

def NegateCC (LHS RHS : α) : CondCode → α × α × CondCode
  | .SETULT => (RHS, LHS, .SETUGT)
  | .SETULE => (RHS, LHS, .SETUGE)
  | .SETLT => (RHS, LHS, .SETGT)
  | .SETLE => (RHS, LHS, .SETGE)
  | CC => (LHS, RHS, CC)

/-- The jump for a condition code, as `EmitInstrWithCustomInserter` picks it. -/
def selectBranch : CondCode → Compile JccOp
  | .SETGT => .ok .JSGT
  | .SETUGT => .ok .JUGT
  | .SETGE => .ok .JSGE
  | .SETUGE => .ok .JUGE
  | .SETEQ => .ok .JEQ
  | .SETNE => .ok .JNE
  | _ => .error (.report_fatal_error "unimplemented select CondCode ")

theorem holds_NegateCC (CC : CondCode) (LHS RHS : α) (value : α → BitVec 64) :
    (NegateCC LHS RHS CC).2.2.holds (value (NegateCC LHS RHS CC).1)
        (value (NegateCC LHS RHS CC).2.1) =
      CC.holds (value LHS) (value RHS) := by
  cases CC <;> rfl

theorem taken_of_selectBranch {CC : CondCode} {op : JccOp} (branch : selectBranch CC = .ok op)
    (left right : BitVec 64) : op.taken left right = CC.holds left right := by
  cases CC <;> cases branch <;> rfl

def CondCode.HasBranch (CC : CondCode) : Prop := ∃ op, selectBranch CC = .ok op

theorem hasBranch_NegateCC (CC : CondCode) (LHS RHS : α) :
    (NegateCC LHS RHS CC).2.2.HasBranch := by
  cases CC <;> exact ⟨_, rfl⟩

end BpfBackend.CodeGen
