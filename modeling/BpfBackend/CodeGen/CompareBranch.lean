import BpfBackend.CodeGen.InstructionSelection
import BpfBackend.CodeGen.OperationLegality

/-! # Compare and branch

A comparison of two values, from `LowerBR_CC` and the jump patterns of
`BPFInstrInfo.td` to the encoded conditional jump.
-/

namespace BpfBackend.CodeGen

open MC

/-! ## Jump patterns -/

/-- `BPF_CC_EQ` and its siblings, by the jump that each guards. -/
def JccOp.Cond : JccOp → CondCode → Bool
  | .JEQ, CC => CC = .SETEQ
  | .JUGT, CC => CC = .SETUGT
  | .JUGE, CC => CC = .SETUGE
  | .JNE, CC => CC = .SETNE
  | .JSGT, CC => CC = .SETGT
  | .JSGE, CC => CC = .SETGE

inductive MachineBranch where
  | J_rr (op : JccOp) (rA rX : MachineNode)
  | J_ri (op : JccOp) (rA : MachineNode) (imm : BitVec 64)
  deriving DecidableEq, Repr

inductive SelectsBranch (known : KnownBits) (LHS RHS : SDValue) (CC : CondCode) :
    MachineBranch → Prop where
  | JMP_RR {op : JccOp} {rA rX : MachineNode} :
      JccOp.Cond op CC = true → Selects known LHS rA → Selects known RHS rX →
      SelectsBranch known LHS RHS CC (.J_rr op rA rX)
  | JMP_RI {op : JccOp} {rA : MachineNode} {imm : BitVec 64} :
      JccOp.Cond op CC = true → isInt 32 imm = true → Selects known LHS rA →
      RHS = .Constant imm → SelectsBranch known LHS RHS CC (.J_ri op rA imm)

/-- The predicates pair the codes with the jumps as
`EmitInstrWithCustomInserter` does. -/
theorem cond_iff_selectBranch (op : JccOp) (CC : CondCode) :
    JccOp.Cond op CC = true ↔ selectBranch CC = .ok op := by
  cases op <;> cases CC <;> decide

/-! ## Operands -/

inductive CompareOperand where
  | register (number : Nat)
  | constant (value : BitVec 64)
  deriving DecidableEq, Repr

namespace CompareOperand

def toSDValue : CompareOperand → SDValue
  | register number => .CopyFromReg number
  | constant value => .Constant value

def value (state : DagState) : CompareOperand → BitVec 64
  | register number => state.regs number
  | constant value => value

theorem exists_selects (operand : CompareOperand) (known : KnownBits) :
    ∃ tree, Selects known operand.toSDValue tree := by
  cases operand with
  | register number => exact ⟨_, .CopyFromReg number⟩
  | constant value => exact ⟨_, .LD_IMM64 value⟩

theorem exec_of_selects {operand : CompareOperand} {known : KnownBits} {tree : MachineNode}
    (selects : Selects known operand.toSDValue tree) (state : DagState) :
    tree.exec state = some (operand.value state) := by
  cases operand with
  | register number =>
      cases selects
      rfl
  | constant value =>
      cases selects with
      | MOV_RI fits => exact congrArg some (signExtend32_of_isInt fits)
      | LD_IMM64 => rfl

end CompareOperand

/-! ## The encoded jump -/

/-- The jump in allocated registers; `rX` is not used by the immediate form. -/
def MachineBranch.toMCInst (rA rX : Reg) (dst : MCSymbol) : MachineBranch → MCInst
  | J_rr op _ _ => ⟨.J_rr op, [.reg rA, .reg rX, .expr (.SymbolRef dst)]⟩
  | J_ri op _ imm => ⟨.J_ri op, [.reg rA, .imm imm, .expr (.SymbolRef dst)]⟩

def MachineBranch.OperandsHeld (state : DagState) (regs : Reg → BitVec 64) (rA rX : Reg) :
    MachineBranch → Prop
  | J_rr _ left right => left.exec state = some (regs rA) ∧ right.exec state = some (regs rX)
  | J_ri _ left _ => left.exec state = some (regs rA)

def jumpTaken (regs : Reg → BitVec 64) (bytes : List Byte) : Option Bool :=
  match decodeInst bytes with
  | some (⟨.J_rr op, [.reg rA, .reg rX, _]⟩, []) => some (op.taken (regs rA) (regs rX))
  | some (⟨.J_ri op, [.reg rA, .imm imm, _]⟩, []) => some (op.taken (regs rA) imm)
  | _ => none

def encodedTaken (regs : Reg → BitVec 64) (inst : MCInst) : Option Bool :=
  match encodeInstruction inst with
  | .error _ => none
  | .ok (bytes, _) => jumpTaken regs bytes

private theorem encodedTaken_J_rr (regs : Reg → BitVec 64) (op : JccOp) (rA rX : Reg)
    (dst : MCSymbol) :
    encodedTaken regs ⟨.J_rr op, [.reg rA, .reg rX, .expr (.SymbolRef dst)]⟩ =
      some (op.taken (regs rA) (regs rX)) := by
  have encodes := encodeInstruction_toMCInst (.JMP_RR op rA rX (.symbol dst))
  simp only [Form.toMCInst, Target.operand] at encodes
  rw [encodedTaken, encodes]
  dsimp only
  rw [jumpTaken, decodeInst_form]
  rfl

private theorem encodedTaken_J_ri (regs : Reg → BitVec 64) (op : JccOp) (rA : Reg) (imm : BitVec 64)
    (dst : MCSymbol) :
    encodedTaken regs ⟨.J_ri op, [.reg rA, .imm imm, .expr (.SymbolRef dst)]⟩ =
      some (op.taken (regs rA) (signExtend32 imm)) := by
  have encodes := encodeInstruction_toMCInst (.JMP_RI op rA imm (.symbol dst))
  simp only [Form.toMCInst, Target.operand] at encodes
  rw [encodedTaken, encodes]
  dsimp only
  rw [jumpTaken, decodeInst_form]
  rfl

/-! ## Comparisons -/

theorem SelectsBranch.taken_eq {known : KnownBits} {LHS RHS : CompareOperand} {CC : CondCode}
    {branch : MachineBranch} (selects : SelectsBranch known LHS.toSDValue RHS.toSDValue CC branch)
    {state : DagState} {regs : Reg → BitVec 64} {rA rX : Reg}
    (held : branch.OperandsHeld state regs rA rX) (dst : MCSymbol) :
    encodedTaken regs (branch.toMCInst rA rX dst) =
      some (CC.holds (LHS.value state) (RHS.value state)) := by
  cases selects with
  | JMP_RR guarded left right =>
      rw [MachineBranch.OperandsHeld, CompareOperand.exec_of_selects left,
        CompareOperand.exec_of_selects right] at held
      rw [MachineBranch.toMCInst, encodedTaken_J_rr, Option.some.inj held.1,
        Option.some.inj held.2, taken_of_selectBranch ((cond_iff_selectBranch _ _).mp guarded)]
  | JMP_RI guarded fits left constant =>
      rw [MachineBranch.OperandsHeld, CompareOperand.exec_of_selects left] at held
      rw [MachineBranch.toMCInst, encodedTaken_J_ri, Option.some.inj held,
        taken_of_selectBranch ((cond_iff_selectBranch _ _).mp guarded), signExtend32_of_isInt fits]
      cases RHS with
      | register number => cases constant
      | constant value =>
          cases constant
          rfl

theorem exists_selectsBranch (known : KnownBits) (LHS RHS : CompareOperand) {CC : CondCode}
    (hasBranch : CC.HasBranch) :
    ∃ op rA rX, SelectsBranch known LHS.toSDValue RHS.toSDValue CC (.J_rr op rA rX) ∧
      ∀ state, rA.exec state = some (LHS.value state) ∧
        rX.exec state = some (RHS.value state) := by
  rcases hasBranch with ⟨op, branch⟩
  rcases LHS.exists_selects known with ⟨rA, left⟩
  rcases RHS.exists_selects known with ⟨rX, right⟩
  exact ⟨op, rA, rX, .JMP_RR ((cond_iff_selectBranch op CC).mpr branch) left right,
    fun state => ⟨CompareOperand.exec_of_selects left state,
      CompareOperand.exec_of_selects right state⟩⟩

/-- Whatever jump is selected for a comparison, as encoded it is taken exactly
when the comparison holds of the original operands; and the register form can
always be selected. -/
theorem LowerBR_CC_faithful (known : KnownBits) (CC : CondCode) (LHS RHS : CompareOperand) :
    (∀ branch, SelectsBranch known (LowerBR_CC LHS RHS CC).1.toSDValue
        (LowerBR_CC LHS RHS CC).2.1.toSDValue (LowerBR_CC LHS RHS CC).2.2 branch →
      ∀ state regs rA rX dst, branch.OperandsHeld state regs rA rX →
        encodedTaken regs (branch.toMCInst rA rX dst) =
          some (CC.holds (LHS.value state) (RHS.value state))) ∧
    ∃ op rA rX, SelectsBranch known (LowerBR_CC LHS RHS CC).1.toSDValue
        (LowerBR_CC LHS RHS CC).2.1.toSDValue (LowerBR_CC LHS RHS CC).2.2 (.J_rr op rA rX) ∧
      ∀ state, rA.exec state = some ((LowerBR_CC LHS RHS CC).1.value state) ∧
        rX.exec state = some ((LowerBR_CC LHS RHS CC).2.1.value state) := by
  constructor
  · intro branch selects state regs rA rX dst held
    rw [selects.taken_eq held dst]
    exact congrArg some (holds_NegateCC CC LHS RHS (CompareOperand.value state))
  · exact exists_selectsBranch known _ _ (hasBranch_NegateCC CC LHS RHS)

theorem LowerBR_CC_faithful_le :
    encodedTaken (fun register => if register = .R3 then 5 else 9)
      ⟨.J_rr .JSGE, [.reg .R3, .reg .R4, .expr (.SymbolRef (.block 7))]⟩ = some false :=
  (LowerBR_CC_faithful .ofConstants .SETLE (.register 1) (.constant 5)).1
    (.J_rr .JSGE (.MOV_ri 5) (.COPY 1))
    (.JMP_RR (by decide) (.MOV_RI (by decide)) (.CopyFromReg 1))
    ⟨fun _ => 9, fun _ => 0, fun _ => 0, fun _ => 0⟩ _ .R3 .R4 (.block 7)
    ⟨by decide, by decide⟩

end BpfBackend.CodeGen
