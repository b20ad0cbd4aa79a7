import BpfBackend.MC.Decoder
import Mathlib.Data.List.Basic

/-! # The instruction printer

`BPFInstPrinter.cpp`, the assembly strings of `BPFInstrInfo.td` and the printer
that TableGen generates from them. What is printed is compared with what the
encoded instruction reads back as.
-/

namespace BpfBackend.MC

/-! ## Assembly strings -/

inductive AsmPiece where
  | text (literal : String)
  | operand (name : FieldName)

def JccOp.asmstr : JccOp → String
  | JEQ => "jeq"
  | JUGT => "jgt"
  | JUGE => "jge"
  | JNE => "jne"
  | JSGT => "jsgt"
  | JSGE => "jsge"

def AluOp.asmstr : AluOp → String
  | ADD => "add"
  | SUB => "sub"
  | OR => "or"
  | AND => "and"
  | SLL => "sll"
  | SRL => "srl"
  | XOR => "xor"
  | SRA => "sra"
  | MUL => "mul"
  | DIV => "div"

def SizeOp.storeAsm : SizeOp → String
  | W => "stw"
  | H => "sth"
  | B => "stb"
  | D => "std"

def SizeOp.loadAsm : SizeOp → String
  | W => "ldw"
  | H => "ldh"
  | B => "ldb"
  | D => "ldd"

def SizeOp.xaddAsm : SizeOp → String
  | W => "xadd32"
  | H => "xadd16"
  | B => "xadd8"
  | D => "xadd64"

/-- The assembly string of each instruction; the pseudo instructions do not
reach the printer. -/
def Opcode.asmString : Opcode → List AsmPiece
  | J_rr jcc =>
      [.text jcc.asmstr, .text "\t", .operand .rA, .text ", ", .operand .rX, .text " goto ",
        .operand .dst]
  | J_ri jcc =>
      [.text jcc.asmstr, .text "i\t", .operand .rA, .text ", ", .operand .imm, .text " goto ",
        .operand .dst]
  | ALU_rr alu => [.text alu.asmstr, .text "\t", .operand .rA, .text ", ", .operand .rX]
  | ALU_ri alu => [.text alu.asmstr, .text "i\t", .operand .rA, .text ", ", .operand .imm]
  | MOV_rr => [.text "mov", .text "\t", .operand .rA, .text ", ", .operand .rX]
  | MOV_ri => [.text "mov", .text "\t", .operand .rA, .text ", ", .operand .imm]
  | LD_imm64 => [.text "ld_64", .text "\t", .operand .rA, .text ", ", .operand .imm]
  | ST size => [.text size.storeAsm, .text "\t", .operand .addr, .text ", ", .operand .rX]
  | LD size => [.text size.loadAsm, .text "\t", .operand .rA, .text ", ", .operand .addr]
  | JMP => [.text "jmp", .text "\t", .operand .dst]
  | JAL => [.text "call", .text "\t", .operand .dst]
  | NOP => [.text "nop", .text "\t", .operand .imm]
  | RET => [.text "ret"]
  | XADD size =>
      [.text size.xaddAsm, .text "\t", .operand .dst, .text ", ", .operand .addr, .text ", ",
        .operand .val]
  | ADJCALLSTACKDOWN | ADJCALLSTACKUP | Select => []

/-! ## Printing -/

/-- What is written to the stream; `operand` is the dump of a whole operand. -/
inductive AsmToken where
  | text (literal : String)
  | register (name : String)
  | integer (value : Int)
  | expr (expression : MCExpr)
  | operand (operand : MCOperand)
  deriving DecidableEq, Repr

def getRegisterName : Reg → String
  | .R0 => "r0"
  | .R1 => "r1"
  | .R2 => "r2"
  | .R3 => "r3"
  | .R4 => "r4"
  | .R5 => "r5"
  | .R6 => "r6"
  | .R7 => "r7"
  | .R8 => "r8"
  | .R9 => "r9"
  | .R10 => "r10"
  | .R11 => "r11"

def printExpr : MCExpr → Compile AsmToken
  | .Binary (.SymbolRef symbol) rhs => .ok (.expr (.Binary (.SymbolRef symbol) rhs))
  | .SymbolRef symbol => .ok (.expr (.SymbolRef symbol))
  | _ => .error (.assertion "SRE && \"Unexpected MCExpr type.\"")

def int32 (value : BitVec 64) : Int := (value.setWidth 32).toInt

def printOperand (inst : MCInst) (OpNo : Nat) : Compile (List AsmToken) := do
  match ← inst.getOperand OpNo with
  | .reg register => pure [.register (getRegisterName register)]
  | .imm value => pure [.integer (int32 value)]
  | .expr expression => do
      let token ← printExpr expression
      pure [token]

def printMemOperand (inst : MCInst) (OpNo : Nat) : Compile (List AsmToken) := do
  let RegOp ← inst.getOperand OpNo
  let OffsetOp ← inst.getOperand (OpNo + 1)
  match OffsetOp with
  | .imm offset =>
      match RegOp with
      | .reg register =>
          pure [.integer offset.toInt, .text "(", .register (getRegisterName register), .text ")"]
      | _ => .error (.assertion "RegOp.isReg() && \"Register operand not a register\"")
  | _ => .error (.assertion "0 && \"Expected an immediate\"")

def printImm64Operand (inst : MCInst) (OpNo : Nat) : Compile (List AsmToken) := do
  match ← inst.getOperand OpNo with
  | .imm value => pure [.integer value.toNat]
  | operand => pure [.operand operand]

/-- `PrintMethod`. -/
def OperandType.print : OperandType → MCInst → Nat → Compile (List AsmToken)
  | MEMri => printMemOperand
  | u64imm => printImm64Operand
  | GPR | s32imm | i32imm | brtarget | calltarget => printOperand

def printPieces (inst : MCInst) (format : InstBPF) : List AsmPiece → Compile (List AsmToken)
  | [] => .ok []
  | .text literal :: rest => do
      let tokens ← printPieces inst format rest
      pure (.text literal :: tokens)
  | .operand name :: rest =>
      match findOperand name (format.outs ++ format.ins) 0 with
      | none => .error (.llvm_unreachable "no such operand")
      | some (index, operandType) => do
          let printed ← operandType.print inst index
          let tokens ← printPieces inst format rest
          pure (printed ++ tokens)

def printInst (inst : MCInst) : Compile (List AsmToken) :=
  match inst.opcode.format with
  | none => .error (.llvm_unreachable "pseudo instruction")
  | some format => printPieces inst format inst.opcode.asmString

/-! ## The text of a decoded instruction -/

def registerToken (register : Reg) : AsmToken :=
  .register ("r" ++ toString (getBPFRegisterNumbering register).toNat)

def fieldTokens (inst : MCInst) (index : Nat) : OperandType → Option (List AsmToken)
  | .MEMri =>
      match inst.operands[index]?, inst.operands[index + 1]? with
      | some (.reg base), some (.imm offset) =>
          some [.integer offset.toInt, .text "(", registerToken base, .text ")"]
      | _, _ => none
  | .u64imm =>
      match inst.operands[index]? with
      | some (.imm value) => some [.integer value.toNat]
      | _ => none
  | _ =>
      match inst.operands[index]? with
      | some (.reg register) => some [registerToken register]
      | some (.imm value) => some [.integer value.toInt]
      | _ => none

def describePieces (inst : MCInst) (format : InstBPF) : List AsmPiece → Option (List AsmToken)
  | [] => some []
  | .text literal :: rest => do
      let tokens ← describePieces inst format rest
      some (.text literal :: tokens)
  | .operand name :: rest => do
      let (index, operandType) ← findOperand name (format.outs ++ format.ins) 0
      let described ← fieldTokens inst index operandType
      let tokens ← describePieces inst format rest
      some (described ++ tokens)

def describe (inst : MCInst) : Option (List AsmToken) := do
  let format ← inst.opcode.format
  describePieces inst format inst.opcode.asmString

/-- A symbol is printed by name and stands for no integer. -/
def AsmToken.agrees : AsmToken → AsmToken → Prop
  | .expr _, _ => True
  | .operand _, _ => True
  | printed, described => printed = described

/-- Every register and every integer that is printed is the one in the bytes. -/
def PrintsEncoding (inst : MCInst) : Prop :=
  ∃ bytes fixups decoded printed described,
    encodeInstruction inst = .ok (bytes, fixups) ∧ decodeInst bytes = some (decoded, []) ∧
      printInst inst = .ok printed ∧ describe decoded = some described ∧
      List.Forall₂ AsmToken.agrees printed described

/-- The offset of a memory operand is the sign-extended 16-bit field that it is
encoded in, and so is the 32-bit integer printed for a branch target that is no
symbol. -/
def MCInst.halvesFit (inst : MCInst) : Bool :=
  match inst.opcode, inst.operands with
  | .ST _, [_, _, .imm offset] => signExtend16 offset = offset
  | .LD _, [_, _, .imm offset] => signExtend16 offset = offset
  | .XADD _, [_, _, .imm offset, _] => signExtend16 offset = offset
  | .J_rr _, [_, _, .imm dst] => signExtend16 dst = signExtend32 dst
  | .J_ri _, [_, _, .imm dst] => signExtend16 dst = signExtend32 dst
  | .JMP, [.imm dst] => signExtend16 dst = signExtend32 dst
  | _, _ => true

/-! ## Printed and encoded operands -/

theorem registerToken_eq (register : Reg) :
    registerToken register = .register (getRegisterName register) := by
  cases register <;> rfl

@[simp] theorem agrees_text (literal : String) :
    AsmToken.agrees (.text literal) (.text literal) := rfl

@[simp] theorem agrees_register (register : Reg) :
    AsmToken.agrees (.register (getRegisterName register)) (registerToken register) :=
  (registerToken_eq register).symm

@[simp] theorem agrees_expr (expression : MCExpr) (described : AsmToken) :
    AsmToken.agrees (.expr expression) described := trivial

@[simp] theorem agrees_operand (operand : MCOperand) (described : AsmToken) :
    AsmToken.agrees (.operand operand) described := trivial

@[simp] theorem agrees_unsigned (value : BitVec 64) :
    AsmToken.agrees (.integer value.toNat) (.integer value.toNat) := rfl

private theorem agrees_integer_iff {left right : BitVec 64} :
    AsmToken.agrees (.integer left.toInt) (.integer right.toInt) ↔ right = left := by
  constructor
  · intro agree
    exact (BitVec.toInt_inj.mp (AsmToken.integer.inj agree)).symm
  · intro same
    rw [same]
    rfl

private theorem int32_eq (value : BitVec 64) : int32 value = (signExtend32 value).toInt :=
  (BitVec.toInt_signExtend_of_le (by decide)).symm

@[simp] theorem agrees_signExtend32 (value : BitVec 64) :
    AsmToken.agrees (.integer (int32 value)) (.integer (signExtend32 value).toInt) := by
  rw [int32_eq]
  exact agrees_integer_iff.mpr rfl

@[simp] theorem agrees_offset_iff (offset : BitVec 64) :
    AsmToken.agrees (.integer offset.toInt) (.integer (signExtend16 offset).toInt) ↔
      signExtend16 offset = offset := agrees_integer_iff

@[simp] theorem agrees_branch_iff (dst : BitVec 64) :
    AsmToken.agrees (.integer (int32 dst)) (.integer (signExtend16 dst).toInt) ↔
      signExtend16 dst = signExtend32 dst := by
  rw [int32_eq]
  exact agrees_integer_iff

private theorem printsEncoding_toMCInst_iff {form : Form} {printed described : List AsmToken}
    (prints : printInst form.toMCInst = .ok printed)
    (describes : describe form.decoded = some described) :
    PrintsEncoding form.toMCInst ↔ List.Forall₂ AsmToken.agrees printed described := by
  have decodes := decodeInst_bytes form []
  rw [List.append_nil] at decodes
  constructor
  · intro holds
    rcases holds with ⟨bytes, fixups, decoded, tokens, text, encodes, reads, printsTokens,
      describesText, agree⟩
    rw [encodeInstruction_toMCInst] at encodes
    cases encodes
    rw [decodes] at reads
    cases reads
    rw [prints] at printsTokens
    cases printsTokens
    rw [describes] at describesText
    cases describesText
    exact agree
  · intro agree
    exact ⟨_, _, _, _, _, encodeInstruction_toMCInst form, decodes, prints, describes, agree⟩

private theorem Form.printed_as_encoded_iff (form : Form)
    (encodesOperands : form.toMCInst.opcode ≠ .NOP) :
    PrintsEncoding form.toMCInst ↔ form.toMCInst.halvesFit = true := by
  cases form with
  | NOP_I imm => exact absurd rfl encodesOperands
  | JMP_RR jcc rA rX dst =>
      cases dst with
      | imm value =>
          rw [printsEncoding_toMCInst_iff rfl rfl]
          simp [MCInst.halvesFit, toMCInst, Target.operand, Target.bits]
      | symbol name =>
          rw [printsEncoding_toMCInst_iff rfl rfl]
          simp [MCInst.halvesFit, toMCInst, Target.operand]
  | JMP_RI jcc rA imm dst =>
      cases dst with
      | imm value =>
          rw [printsEncoding_toMCInst_iff rfl rfl]
          simp [MCInst.halvesFit, toMCInst, Target.operand, Target.bits]
      | symbol name =>
          rw [printsEncoding_toMCInst_iff rfl rfl]
          simp [MCInst.halvesFit, toMCInst, Target.operand]
  | BRANCH dst =>
      cases dst with
      | imm value =>
          rw [printsEncoding_toMCInst_iff rfl rfl]
          simp [MCInst.halvesFit, toMCInst, Target.operand, Target.bits]
      | symbol name =>
          rw [printsEncoding_toMCInst_iff rfl rfl]
          simp [MCInst.halvesFit, toMCInst, Target.operand]
  | CALL dst =>
      cases dst with
      | imm value =>
          rw [printsEncoding_toMCInst_iff rfl rfl]
          simp [MCInst.halvesFit, toMCInst, Target.bits]
      | symbol name =>
          rw [printsEncoding_toMCInst_iff rfl rfl]
          simp [MCInst.halvesFit, toMCInst]
  | LD_IMM64 rA imm =>
      cases imm with
      | imm value =>
          rw [printsEncoding_toMCInst_iff rfl rfl]
          simp [MCInst.halvesFit, toMCInst, Target.bits]
      | symbol name =>
          rw [printsEncoding_toMCInst_iff rfl rfl]
          simp [MCInst.halvesFit, toMCInst]
  | ALU_RR alu rA rX =>
      rw [printsEncoding_toMCInst_iff rfl rfl]
      simp [MCInst.halvesFit, toMCInst]
  | ALU_RI alu rA imm =>
      rw [printsEncoding_toMCInst_iff rfl rfl]
      simp [MCInst.halvesFit, toMCInst]
  | MOV_RR rA rX =>
      rw [printsEncoding_toMCInst_iff rfl rfl]
      simp [MCInst.halvesFit, toMCInst]
  | MOV_RI rA imm =>
      rw [printsEncoding_toMCInst_iff rfl rfl]
      simp [MCInst.halvesFit, toMCInst]
  | STORE size rX base offset =>
      rw [printsEncoding_toMCInst_iff rfl rfl]
      simp [MCInst.halvesFit, toMCInst]
  | LOAD size rA base offset =>
      rw [printsEncoding_toMCInst_iff rfl rfl]
      simp [MCInst.halvesFit, toMCInst]
  | RET =>
      rw [printsEncoding_toMCInst_iff rfl rfl]
      simp [MCInst.halvesFit, toMCInst]
  | XADD size dst base offset =>
      rw [printsEncoding_toMCInst_iff rfl rfl]
      simp [MCInst.halvesFit, toMCInst]

/-! ## The assembly file and the object file -/

/-- The two outputs describe the same instruction exactly when no offset is too
wide for its field: the encoder keeps 16 bits of it, the printer all or 32. -/
theorem printsEncoding_iff {inst : MCInst} (wellFormed : inst.WellFormed)
    (encodesOperands : inst.opcode ≠ .NOP) :
    PrintsEncoding inst ↔ inst.halvesFit = true := by
  rcases wellFormed.exists_form with ⟨form, rfl⟩
  exact form.printed_as_encoded_iff encodesOperands

theorem printsEncoding_iff_load :
    PrintsEncoding ⟨.LD .D, [.reg .R1, .reg .R10, .imm (-8)]⟩ ↔
      MCInst.halvesFit ⟨.LD .D, [.reg .R1, .reg .R10, .imm (-8)]⟩ = true :=
  printsEncoding_iff (by decide) (by decide)

/-- `ldd r1, 32768(r2)` is encoded with the offset -32768. -/
theorem printsEncoding_wide_offset :
    MCInst.WellFormed ⟨.LD .D, [.reg .R1, .reg .R2, .imm 32768]⟩ ∧
      printInst ⟨.LD .D, [.reg .R1, .reg .R2, .imm 32768]⟩ =
        .ok [.text "ldd", .text "\t", .register "r1", .text ", ", .integer 32768, .text "(",
          .register "r2", .text ")"] ∧
      ¬ PrintsEncoding ⟨.LD .D, [.reg .R1, .reg .R2, .imm 32768]⟩ := by
  refine ⟨by decide, rfl, ?_⟩
  intro holds
  have fits := (Form.printed_as_encoded_iff (.LOAD .D .R1 .R2 32768) (by decide)).mp holds
  revert fits
  decide

end BpfBackend.MC
