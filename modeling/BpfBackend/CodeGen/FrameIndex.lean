import BpfBackend.CodeGen.SymbolReferences

/-! # Frame indices

`BPFRegisterInfo::eliminateFrameIndex` replaces the frame index of an
instruction by the frame register and an offset.
-/

namespace BpfBackend.CodeGen

open MC ByteMemory

/-! ## Instructions with frame indices -/

inductive FrameOperand where
  | MO_FrameIndex (index : Int)
  | plain (operand : MachineOperand)
  deriving DecidableEq, Repr

structure FrameInstr where
  opcode : Opcode
  operands : List FrameOperand
  deriving DecidableEq, Repr

namespace FrameInstr

def getOperand (inst : FrameInstr) (index : Nat) : Compile FrameOperand :=
  match inst.operands[index]? with
  | some operand => .ok operand
  | none => .error (.assertion "i < getNumOperands() && \"getOperand() out of range!\"")

def getReg (inst : FrameInstr) (index : Nat) : Compile Reg := do
  match ← inst.getOperand index with
  | .plain (.MO_Register register _) => .ok register
  | _ => .error (.assertion "isReg() && \"This is not a register operand!\"")

def getImm (inst : FrameInstr) (index : Nat) : Compile (BitVec 64) := do
  match ← inst.getOperand index with
  | .plain (.MO_Immediate imm) => .ok imm
  | _ => .error (.assertion "isImm() && \"Wrong MachineOperand accessor\"")

/-- `ChangeToRegister` and `ChangeToImmediate`. -/
def setOperand (inst : FrameInstr) (index : Nat) (operand : MachineOperand) : FrameInstr :=
  { inst with operands := inst.operands.set index (.plain operand) }

end FrameInstr

def registerOperand (register : Reg) : MachineOperand := .MO_Register register false

/-! ## `eliminateFrameIndex` -/

def findFrameIndex : List FrameOperand → Nat → Compile (Nat × Int)
  | [], _ =>
      .error (.assertion
        "i < MI.getNumOperands() && \"Instr doesn't have FrameIndex operand!\"")
  | .MO_FrameIndex index :: _, i => .ok (i, index)
  | .plain _ :: rest, i => findFrameIndex rest (i + 1)

def getFrameRegister : Reg := .R10

/-- The instructions that take the place of one instruction. `int Offset` keeps
32 bits of what is computed with 64, and only then is its range checked. -/
def rewriteFrameIndex (getObjectOffset : Int → BitVec 64) (MI : FrameInstr) :
    Compile (List FrameInstr) := do
  let (i, FrameIndex) ← findFrameIndex MI.operands 0
  if MI.opcode = .MOV_rr then
    let Offset := signExtend32 (getObjectOffset FrameIndex)
    let moved := MI.setOperand i (registerOperand getFrameRegister)
    let reg ← moved.getReg (i - 1)
    pure [moved, ⟨.ALU_ri .ADD, [.plain (registerOperand reg), .plain (registerOperand reg),
      .plain (.MO_Immediate Offset)]⟩]
  else
    let imm ← MI.getImm (i + 1)
    let Offset := signExtend32 (getObjectOffset FrameIndex + imm)
    if isInt 32 Offset = false then
      .error (.llvm_unreachable "bug in frame offset")
    else
      pure [(MI.setOperand i (registerOperand getFrameRegister)).setOperand (i + 1)
        (.MO_Immediate Offset)]

def eliminateFrameIndex (getObjectOffset : Int → BitVec 64) (MBB : List FrameInstr) (II : Nat)
    (SPAdj : Int) : Compile (List FrameInstr) :=
  if SPAdj ≠ 0 then .error (.assertion "SPAdj == 0 && \"Unexpected\"")
  else
    match MBB[II]? with
    | none => .error (.assertion "II != MBB.end()")
    | some MI => do
        let rewritten ← rewriteFrameIndex getObjectOffset MI
        pure (MBB.take II ++ rewritten ++ MBB.drop (II + 1))

/-! ## Where frame indices come from -/

/-- The instructions with a frame index: the move that `Select` makes of one,
and any access to memory whose base is one. -/
inductive FrameUse where
  | MOV_rr (dst : Reg) (index : Int)
  | memory (access : MemoryAccess) (index : Int) (imm : BitVec 64)
  deriving DecidableEq, Repr

def FrameUse.toInstr : FrameUse → FrameInstr
  | MOV_rr dst index => ⟨.MOV_rr, [.plain (registerOperand dst), .MO_FrameIndex index]⟩
  | memory (.LD size rA) index imm =>
      ⟨.LD size, [.plain (registerOperand rA), .MO_FrameIndex index, .plain (.MO_Immediate imm)]⟩
  | memory (.ST size rX) index imm =>
      ⟨.ST size, [.plain (registerOperand rX), .MO_FrameIndex index, .plain (.MO_Immediate imm)]⟩
  | memory (.XADD size dst) index imm =>
      ⟨.XADD size, [.plain (registerOperand dst), .MO_FrameIndex index,
        .plain (.MO_Immediate imm), .plain (registerOperand dst)]⟩

def FrameUse.displacement (getObjectOffset : Int → BitVec 64) : FrameUse → BitVec 64
  | MOV_rr _ index => getObjectOffset index
  | memory _ index imm => getObjectOffset index + imm

def storeRegToStackSlot (SrcReg : Reg) (FI : Int) : FrameUse := .memory (.ST .D SrcReg) FI 0

def loadRegFromStackSlot (DestReg : Reg) (FI : Int) : FrameUse := .memory (.LD .D DestReg) FI 0

/-! ## What the rewritten instructions do -/

def FrameOperand.toMachineOperand : FrameOperand → Option MachineOperand
  | MO_FrameIndex _ => none
  | plain operand => some operand

def FrameInstr.toMCInst (inst : FrameInstr) : Option MCInst := do
  let operands ← inst.operands.mapM FrameOperand.toMachineOperand
  (Lower ⟨inst.opcode, operands⟩).toOption

def runInsts : List MCInst → MachineState → Option MachineState
  | [], state => some state
  | inst :: rest, state => do
      let next ← execInst inst state
      runInsts rest next

/-- The instructions compute the address of the frame object in the destination
register, or access memory there with the operands of the original. -/
def FrameUse.Exact (getObjectOffset : Int → BitVec 64) (use : FrameUse) (insts : List MCInst) :
    Prop :=
  match use with
  | .MOV_rr dst index =>
      ∃ imm, insts = [⟨.MOV_rr, [.reg dst, .reg .R10]⟩,
          ⟨.ALU_ri .ADD, [.reg dst, .reg dst, .imm imm]⟩] ∧
        ∀ state, runInsts insts state =
          some (state.setReg dst (state.regs .R10 + getObjectOffset index))
  | .memory access index imm =>
      ∃ offset, insts = [access.toMCInst .R10 offset] ∧
        ∀ regs, (access.toMCInst .R10 offset).effectiveAddress regs =
          some (regs .R10 + (getObjectOffset index + imm))

/-- The rewritten block addresses the frame object exactly, or compilation stops
at the check because the offset does not fit 32 bits. -/
def FrameOutcome (getObjectOffset : Int → BitVec 64) (use : FrameUse)
    (above below : List FrameInstr) : Compile (List FrameInstr) → Prop
  | .error stop =>
      stop = .llvm_unreachable "bug in frame offset" ∧
        isInt 32 (use.displacement getObjectOffset) = false
  | .ok MBB =>
      ∃ rewritten insts, MBB = above ++ rewritten ++ below ∧
        rewritten.mapM FrameInstr.toMCInst = some insts ∧ use.Exact getObjectOffset insts

/-! ## The offset that is emitted -/

/-- The check comes after the narrowing and never fails. -/
theorem isInt_signExtend32 (value : BitVec 64) : isInt 32 (signExtend32 value) = true := by
  rw [isInt_iff (by decide) (by decide)]
  exact congrArg (BitVec.signExtend 64) (setWidth_signExtend (by decide) _)

def FrameUse.rewritten (getObjectOffset : Int → BitVec 64) : FrameUse → List MCInst
  | MOV_rr dst index =>
      [⟨.MOV_rr, [.reg dst, .reg .R10]⟩,
        ⟨.ALU_ri .ADD, [.reg dst, .reg dst, .imm (signExtend32 (getObjectOffset index))]⟩]
  | memory access index imm =>
      [access.toMCInst .R10 (signExtend32 (getObjectOffset index + imm))]

private theorem rewriteFrameIndex_toInstr (getObjectOffset : Int → BitVec 64) (use : FrameUse) :
    ∃ rewritten, rewriteFrameIndex getObjectOffset use.toInstr = .ok rewritten ∧
      rewritten.mapM FrameInstr.toMCInst = some (use.rewritten getObjectOffset) := by
  cases use with
  | MOV_rr dst index => exact ⟨_, rfl, rfl⟩
  | memory access index imm =>
      have passes := isInt_signExtend32 (getObjectOffset index + imm)
      have unchecked : ¬ isInt 32 (signExtend32 (getObjectOffset index + imm)) = false := by
        rw [passes]
        exact Bool.true_eq_false_eq_False
      cases access with
      | LD size rA => exact ⟨_, if_neg unchecked, rfl⟩
      | ST size rX => exact ⟨_, if_neg unchecked, rfl⟩
      | XADD size dst => exact ⟨_, if_neg unchecked, rfl⟩

private theorem eliminateFrameIndex_toInstr (getObjectOffset : Int → BitVec 64) (use : FrameUse)
    (above below : List FrameInstr) :
    ∃ rewritten, eliminateFrameIndex getObjectOffset (above ++ use.toInstr :: below)
        above.length 0 = .ok (above ++ rewritten ++ below) ∧
      rewritten.mapM FrameInstr.toMCInst = some (use.rewritten getObjectOffset) := by
  rcases rewriteFrameIndex_toInstr getObjectOffset use with ⟨rewritten, rewrites, lowers⟩
  refine ⟨rewritten, ?_, lowers⟩
  have at_use : (above ++ use.toInstr :: below)[above.length]? = some use.toInstr := by simp
  rw [eliminateFrameIndex, if_neg (by decide), at_use]
  simp only [rewrites, bind, Except.bind, pure, Except.pure]
  simp

theorem runInsts_mov_add (dst : Reg) (imm : BitVec 64) (state : MachineState) :
    runInsts [⟨.MOV_rr, [.reg dst, .reg .R10]⟩,
        ⟨.ALU_ri .ADD, [.reg dst, .reg dst, .imm imm]⟩] state =
      some (state.setReg dst (state.regs .R10 + imm)) := by
  simp only [runInsts, execInst, AluOp.exec, MachineState.setReg, bind, Option.bind, if_pos]
  congr 2
  funext other
  by_cases same : other = dst
  · rw [if_pos same, if_pos same]
  · rw [if_neg same, if_neg same, if_neg same]

private theorem effectiveAddress_toMCInst (access : MemoryAccess) (base : Reg) (offset : BitVec 64)
    (regs : Reg → BitVec 64) :
    (access.toMCInst base offset).effectiveAddress regs = some (regs base + offset) := by
  cases access <;> rfl

private theorem setReg_inj {state : MachineState} {register : Reg} {left right : BitVec 64}
    (same : state.setReg register left = state.setReg register right) : left = right := by
  have value := congrFun (congrArg MachineState.regs same) register
  simpa [MachineState.setReg] using value

theorem FrameUse.exact_rewritten_iff (getObjectOffset : Int → BitVec 64) (use : FrameUse) :
    use.Exact getObjectOffset (use.rewritten getObjectOffset) ↔
      isInt 32 (use.displacement getObjectOffset) = true := by
  rw [isInt_iff (by decide) (by decide)]
  change _ ↔ signExtend32 (use.displacement getObjectOffset) = use.displacement getObjectOffset
  cases use with
  | MOV_rr dst index =>
      constructor
      · intro isExact
        rcases isExact with ⟨imm, _, runs⟩
        have sums := runs ⟨fun _ => 0, fun _ => 0⟩
        rw [FrameUse.rewritten, runInsts_mov_add] at sums
        exact (BitVec.add_right_inj _).mp (setReg_inj (Option.some.inj sums))
      · intro fits
        refine ⟨signExtend32 (getObjectOffset index), rfl, fun state => ?_⟩
        rw [FrameUse.rewritten, runInsts_mov_add]
        exact congrArg (fun offset => some (state.setReg dst (state.regs .R10 + offset))) fits
  | memory access index imm =>
      constructor
      · intro isExact
        rcases isExact with ⟨offset, insts, addresses⟩
        have emitted := addresses fun _ => 0
        rw [← List.singleton_injective insts, effectiveAddress_toMCInst] at emitted
        exact (BitVec.add_right_inj _).mp (Option.some.inj emitted)
      · intro fits
        refine ⟨_, rfl, fun regs => ?_⟩
        rw [effectiveAddress_toMCInst]
        exact congrArg (fun offset => some (regs .R10 + offset)) fits

/-! ## Frame addresses -/

private theorem frameOutcome_iff_exact (getObjectOffset : Int → BitVec 64) (use : FrameUse)
    (above below : List FrameInstr) :
    FrameOutcome getObjectOffset use above below (eliminateFrameIndex getObjectOffset
        (above ++ use.toInstr :: below) above.length 0) ↔
      use.Exact getObjectOffset (use.rewritten getObjectOffset) := by
  rcases eliminateFrameIndex_toInstr getObjectOffset use above below with
    ⟨rewritten, eliminates, lowers⟩
  rw [eliminates]
  constructor
  · intro outcome
    rcases outcome with ⟨other, insts, block, otherLowers, isExact⟩
    have same : rewritten = other := by simpa using block
    rw [← same, lowers] at otherLowers
    rw [Option.some.inj otherLowers]
    exact isExact
  · intro isExact
    exact ⟨rewritten, _, rfl, lowers, isExact⟩

/-- In any block, a use of a frame object addresses the object exactly when the
distance from the frame register fits 32 bits; it is never refused. -/
theorem eliminateFrameIndex_iff (getObjectOffset : Int → BitVec 64) (use : FrameUse)
    (above below : List FrameInstr) :
    FrameOutcome getObjectOffset use above below (eliminateFrameIndex getObjectOffset
        (above ++ use.toInstr :: below) above.length 0) ↔
      isInt 32 (use.displacement getObjectOffset) = true := by
  rw [frameOutcome_iff_exact]
  exact use.exact_rewritten_iff getObjectOffset

/-- An object 8 bytes below the lowest 32-bit offset is accessed above the frame
register. -/
theorem eliminateFrameIndex_wraps :
    eliminateFrameIndex (fun _ => -0x80000008)
        [(FrameUse.memory (.LD .D .R1) 0 0).toInstr] 0 0 =
      .ok [⟨.LD .D, [.plain (registerOperand .R1), .plain (registerOperand .R10),
        .plain (.MO_Immediate 0x7FFFFFF8)]⟩] ∧
    ¬ FrameOutcome (fun _ => -0x80000008) (.memory (.LD .D .R1) 0 0) [] []
        (eliminateFrameIndex (fun _ => -0x80000008)
          [(FrameUse.memory (.LD .D .R1) 0 0).toInstr] 0 0) := by
  refine ⟨by decide, ?_⟩
  intro outcome
  have isExact := (frameOutcome_iff_exact _ _ [] []).mp outcome
  rw [FrameUse.exact_rewritten_iff] at isExact
  revert isExact
  decide

end BpfBackend.CodeGen
