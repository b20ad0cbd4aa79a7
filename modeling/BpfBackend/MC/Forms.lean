import BpfBackend.MC.CodeEmitter

/-! # Well-formed machine instructions

An `MCInst` is a bare opcode with a list of operands. The instructions that
the formats of `BPFInstrInfo.td` describe are also an ordinary inductive type,
`Form`, with one constructor for each format class.
-/

namespace BpfBackend.MC

open BitFields

/-! ## Operands that fit a format -/

def OperandType.accepts : OperandType → MCOperand → Bool
  | GPR, .reg _ => true
  | s32imm, .imm _ => true
  | i32imm, .imm _ => true
  | u64imm, .imm _ => true
  | u64imm, .expr (.SymbolRef _) => true
  | brtarget, .imm _ => true
  | brtarget, .expr (.SymbolRef _) => true
  | calltarget, .imm _ => true
  | calltarget, .expr (.SymbolRef _) => true
  | _, _ => false

def operandsMatch : List (FieldName × OperandType) → List MCOperand → Bool
  | [], [] => true
  | (_, .MEMri) :: types, .reg _ :: .imm _ :: operands =>
      operandsMatch types operands
  | (_, operandType) :: types, operand :: operands =>
      operandType.accepts operand && operandsMatch types operands
  | _, _ => false

def constraintHolds (format : InstBPF) (operands : List MCOperand) : Bool :=
  match format.constraint with
  | none => true
  | some (left, right) =>
      match findOperand left (format.outs ++ format.ins) 0,
          findOperand right (format.outs ++ format.ins) 0 with
      | some (leftIndex, _), some (rightIndex, _) =>
          operands[leftIndex]? = operands[rightIndex]?
      | _, _ => false

def MCInst.isWellFormed (inst : MCInst) : Bool :=
  match inst.opcode.format with
  | none => false
  | some format =>
      operandsMatch (format.outs ++ format.ins) inst.operands &&
        constraintHolds format inst.operands

/-- The instruction is not a pseudo instruction, its operands are those of its
format, and tied operands are equal. -/
def MCInst.WellFormed (inst : MCInst) : Prop := inst.isWellFormed = true

instance (inst : MCInst) : Decidable inst.WellFormed :=
  inferInstanceAs (Decidable (inst.isWellFormed = true))

/-! ## Forms -/

inductive Target where
  | imm (value : BitVec 64)
  | symbol (name : MCSymbol)
  deriving DecidableEq, Repr

namespace Target

def operand : Target → MCOperand
  | imm value => .imm value
  | symbol name => .expr (.SymbolRef name)

def bits : Target → BitVec 64
  | imm value => value
  | symbol _ => 0

def fixups (kind : MCFixupKind) : Target → List MCFixup
  | imm _ => []
  | symbol name => [⟨0, .SymbolRef name, kind⟩]

end Target

inductive Form where
  | JMP_RR (jcc : JccOp) (rA rX : Reg) (dst : Target)
  | JMP_RI (jcc : JccOp) (rA : Reg) (imm : BitVec 64) (dst : Target)
  | ALU_RR (alu : AluOp) (rA rX : Reg)
  | ALU_RI (alu : AluOp) (rA : Reg) (imm : BitVec 64)
  | MOV_RR (rA rX : Reg)
  | MOV_RI (rA : Reg) (imm : BitVec 64)
  | LD_IMM64 (rA : Reg) (imm : Target)
  | STORE (size : SizeOp) (rX base : Reg) (offset : BitVec 64)
  | LOAD (size : SizeOp) (rA base : Reg) (offset : BitVec 64)
  | BRANCH (dst : Target)
  | CALL (dst : Target)
  | NOP_I (imm : BitVec 64)
  | RET
  | XADD (size : SizeOp) (dst base : Reg) (offset : BitVec 64)
  deriving DecidableEq, Repr

def Form.toMCInst : Form → MCInst
  | JMP_RR jcc rA rX dst => ⟨.J_rr jcc, [.reg rA, .reg rX, dst.operand]⟩
  | JMP_RI jcc rA imm dst => ⟨.J_ri jcc, [.reg rA, .imm imm, dst.operand]⟩
  | ALU_RR alu rA rX => ⟨.ALU_rr alu, [.reg rA, .reg rA, .reg rX]⟩
  | ALU_RI alu rA imm => ⟨.ALU_ri alu, [.reg rA, .reg rA, .imm imm]⟩
  | MOV_RR rA rX => ⟨.MOV_rr, [.reg rA, .reg rX]⟩
  | MOV_RI rA imm => ⟨.MOV_ri, [.reg rA, .imm imm]⟩
  | LD_IMM64 rA imm => ⟨.LD_imm64, [.reg rA, imm.operand]⟩
  | STORE size rX base offset => ⟨.ST size, [.reg rX, .reg base, .imm offset]⟩
  | LOAD size rA base offset => ⟨.LD size, [.reg rA, .reg base, .imm offset]⟩
  | BRANCH dst => ⟨.JMP, [dst.operand]⟩
  | CALL dst => ⟨.JAL, [dst.operand]⟩
  | NOP_I imm => ⟨.NOP, [.imm imm]⟩
  | RET => ⟨.RET, []⟩
  | XADD size dst base offset =>
      ⟨.XADD size, [.reg dst, .reg base, .imm offset, .reg dst]⟩

theorem Form.toMCInst_wellFormed (form : Form) : form.toMCInst.WellFormed := by
  cases form <;>
    simp [toMCInst, MCInst.WellFormed, MCInst.isWellFormed, Opcode.format, operandsMatch,
      constraintHolds, findOperand, OperandType.accepts, OperandType.miOperands,
      MC.JMP_RR, MC.JMP_RI, MC.ALU_RR, MC.ALU_RI, MC.MOV_RR, MC.MOV_RI,
      MC.LD_IMM64, MC.STORE, MC.LOAD, MC.BRANCH, MC.CALL, MC.NOP_I, MC.RET,
      MC.XADD]
  all_goals rename_i target; cases target <;> simp [Target.operand]

/-! ## Every well-formed instruction has a form -/

section Inversion

variable {name : FieldName} {types : List (FieldName × OperandType)}
variable {operands : List MCOperand}

private theorem operandsMatch_nil_iff : operandsMatch [] operands = true ↔ operands = [] := by
  cases operands <;> simp [operandsMatch]

private theorem operandsMatch_MEMri_iff :
    operandsMatch ((name, .MEMri) :: types) operands = true ↔
      ∃ base offset rest, operands = .reg base :: .imm offset :: rest ∧
        operandsMatch types rest = true := by
  rcases operands with _ | ⟨first, _ | ⟨second, rest⟩⟩
  · simp [operandsMatch]
  · cases first <;> simp [operandsMatch, OperandType.accepts]
  · cases first <;> cases second <;>
      simp [operandsMatch, OperandType.accepts, and_assoc]

private theorem operandsMatch_cons (operandType : OperandType) (single : operandType ≠ .MEMri)
    (first : MCOperand) (rest : List MCOperand) :
    operandsMatch ((name, operandType) :: types) (first :: rest) =
      (operandType.accepts first && operandsMatch types rest) := by
  cases operandType <;> first | contradiction | simp [operandsMatch]

/-- An operand type whose operands are all built by `make`. -/
private theorem operandsMatch_iff_of_accepts {operandType : OperandType}
    (single : operandType ≠ .MEMri) (make : α → MCOperand)
    (accepts_iff : ∀ operand,
      operandType.accepts operand = true ↔ ∃ value, operand = make value) :
    operandsMatch ((name, operandType) :: types) operands = true ↔
      ∃ value rest, operands = make value :: rest ∧
        operandsMatch types rest = true := by
  cases operands with
  | nil => cases operandType <;> simp [operandsMatch]
  | cons first rest =>
      rw [operandsMatch_cons operandType single, Bool.and_eq_true, accepts_iff]
      constructor
      · intro holds
        rcases holds with ⟨⟨value, rfl⟩, restMatches⟩
        exact ⟨value, rest, rfl, restMatches⟩
      · intro holds
        rcases holds with ⟨value, other, equal, otherMatches⟩
        cases equal
        exact ⟨⟨value, rfl⟩, otherMatches⟩

private theorem accepts_target_iff {operandType : OperandType}
    (isTarget : operandType ∈ [OperandType.u64imm, .brtarget, .calltarget])
    (operand : MCOperand) :
    operandType.accepts operand = true ↔
      ∃ target : Target, operand = target.operand := by
  constructor
  · intro accepted
    rcases operand with register | value | (symbol | value | _)
    · cases operandType <;> simp [OperandType.accepts] at isTarget accepted
    · exact ⟨.imm value, rfl⟩
    · exact ⟨.symbol symbol, rfl⟩
    all_goals cases operandType <;> simp [OperandType.accepts] at isTarget accepted
  · intro holds
    rcases holds with ⟨target, rfl⟩
    cases target <;> cases operandType <;>
      simp [OperandType.accepts, Target.operand] at isTarget ⊢

private theorem operandsMatch_GPR_iff :
    operandsMatch ((name, .GPR) :: types) operands = true ↔
      ∃ register rest, operands = .reg register :: rest ∧
        operandsMatch types rest = true :=
  operandsMatch_iff_of_accepts (by simp) MCOperand.reg
    fun operand => by cases operand <;> simp [OperandType.accepts]

private theorem operandsMatch_s32imm_iff :
    operandsMatch ((name, .s32imm) :: types) operands = true ↔
      ∃ value rest, operands = .imm value :: rest ∧
        operandsMatch types rest = true :=
  operandsMatch_iff_of_accepts (by simp) MCOperand.imm
    fun operand => by cases operand <;> simp [OperandType.accepts]

private theorem operandsMatch_i32imm_iff :
    operandsMatch ((name, .i32imm) :: types) operands = true ↔
      ∃ value rest, operands = .imm value :: rest ∧
        operandsMatch types rest = true :=
  operandsMatch_iff_of_accepts (by simp) MCOperand.imm
    fun operand => by cases operand <;> simp [OperandType.accepts]

private theorem operandsMatch_u64imm_iff :
    operandsMatch ((name, .u64imm) :: types) operands = true ↔
      ∃ target rest, operands = Target.operand target :: rest ∧
        operandsMatch types rest = true :=
  operandsMatch_iff_of_accepts (by simp) Target.operand (accepts_target_iff (by simp))

private theorem operandsMatch_brtarget_iff :
    operandsMatch ((name, .brtarget) :: types) operands = true ↔
      ∃ target rest, operands = Target.operand target :: rest ∧
        operandsMatch types rest = true :=
  operandsMatch_iff_of_accepts (by simp) Target.operand (accepts_target_iff (by simp))

private theorem operandsMatch_calltarget_iff :
    operandsMatch ((name, .calltarget) :: types) operands = true ↔
      ∃ target rest, operands = Target.operand target :: rest ∧
        operandsMatch types rest = true :=
  operandsMatch_iff_of_accepts (by simp) Target.operand (accepts_target_iff (by simp))

end Inversion

theorem MCInst.WellFormed.exists_form {inst : MCInst} (wellFormed : inst.WellFormed) :
    ∃ form : Form, form.toMCInst = inst := by
  rcases inst with ⟨opcode, operands⟩
  cases opcode
  all_goals
    simp only [MCInst.WellFormed, MCInst.isWellFormed, Opcode.format, Bool.and_eq_true,
      Bool.false_eq_true, MC.JMP_RR, MC.JMP_RI, MC.ALU_RR,
      MC.ALU_RI, MC.MOV_RR, MC.MOV_RI, MC.LD_IMM64, MC.STORE, MC.LOAD, MC.BRANCH,
      MC.CALL, MC.NOP_I, MC.RET, MC.XADD, List.nil_append, List.cons_append,
      operandsMatch_nil_iff, operandsMatch_MEMri_iff, operandsMatch_GPR_iff,
      operandsMatch_s32imm_iff, operandsMatch_i32imm_iff, operandsMatch_u64imm_iff,
      operandsMatch_brtarget_iff, operandsMatch_calltarget_iff] at wellFormed
  case J_rr jcc =>
    rcases wellFormed with ⟨⟨rA, _, rfl, rX, _, rfl, dst, _, rfl, rfl⟩, -⟩
    exact ⟨.JMP_RR jcc rA rX dst, rfl⟩
  case J_ri jcc =>
    rcases wellFormed with ⟨⟨rA, _, rfl, imm, _, rfl, dst, _, rfl, rfl⟩, -⟩
    exact ⟨.JMP_RI jcc rA imm dst, rfl⟩
  case ALU_rr alu =>
    rcases wellFormed with ⟨⟨rA, _, rfl, rS, _, rfl, rX, _, rfl, rfl⟩, tied⟩
    have same : rA = rS := by simpa [constraintHolds, findOperand,
      OperandType.miOperands] using tied
    exact ⟨.ALU_RR alu rA rX, by rw [← same]; rfl⟩
  case ALU_ri alu =>
    rcases wellFormed with ⟨⟨rA, _, rfl, rS, _, rfl, imm, _, rfl, rfl⟩, tied⟩
    have same : rA = rS := by simpa [constraintHolds, findOperand,
      OperandType.miOperands] using tied
    exact ⟨.ALU_RI alu rA imm, by rw [← same]; rfl⟩
  case MOV_rr =>
    rcases wellFormed with ⟨⟨rA, _, rfl, rX, _, rfl, rfl⟩, -⟩
    exact ⟨.MOV_RR rA rX, rfl⟩
  case MOV_ri =>
    rcases wellFormed with ⟨⟨rA, _, rfl, imm, _, rfl, rfl⟩, -⟩
    exact ⟨.MOV_RI rA imm, rfl⟩
  case LD_imm64 =>
    rcases wellFormed with ⟨⟨rA, _, rfl, imm, _, rfl, rfl⟩, -⟩
    exact ⟨.LD_IMM64 rA imm, rfl⟩
  case ST size =>
    rcases wellFormed with ⟨⟨rX, _, rfl, base, offset, _, rfl, rfl⟩, -⟩
    exact ⟨.STORE size rX base offset, rfl⟩
  case LD size =>
    rcases wellFormed with ⟨⟨rA, _, rfl, base, offset, _, rfl, rfl⟩, -⟩
    exact ⟨.LOAD size rA base offset, rfl⟩
  case JMP =>
    rcases wellFormed with ⟨⟨dst, _, rfl, rfl⟩, -⟩
    exact ⟨.BRANCH dst, rfl⟩
  case JAL =>
    rcases wellFormed with ⟨⟨dst, _, rfl, rfl⟩, -⟩
    exact ⟨.CALL dst, rfl⟩
  case NOP =>
    rcases wellFormed with ⟨⟨imm, _, rfl, rfl⟩, -⟩
    exact ⟨.NOP_I imm, rfl⟩
  case RET =>
    rcases wellFormed with ⟨rfl, -⟩
    exact ⟨.RET, rfl⟩
  case XADD size =>
    rcases wellFormed with ⟨⟨dst, _, rfl, base, offset, _, rfl, val, _, rfl, rfl⟩, tied⟩
    have same : dst = val := by simpa [constraintHolds, findOperand,
      OperandType.miOperands] using tied
    exact ⟨.XADD size dst base offset, by rw [← same]; rfl⟩

end BpfBackend.MC
