import BpfBackend.Foundation.BitFields
import BpfBackend.MC.MCInst

/-! # Instruction formats

The format classes of `BPFInstrInfo.td`. A class lists its operands, the bits
of `Inst` that it fixes and the bits it takes from an operand.
-/

namespace BpfBackend.MC

open BitFields

inductive FieldName where
  | rA | rX | rS | imm | dst | addr | val
  deriving DecidableEq, Repr

inductive OperandType where
  | GPR | s32imm | u64imm | i32imm | brtarget | calltarget | MEMri
  deriving DecidableEq, Repr

/-- The number of machine operands in `MIOperandInfo`. -/
def OperandType.miOperands : OperandType → Nat
  | MEMri => 2
  | _ => 1

/-- `Inst{lo + width - 1 .. lo} = field{fieldLo + width - 1 .. fieldLo}`. -/
structure Piece where
  lo : Nat
  width : Nat
  fieldLo : Nat

structure OperandField where
  name : FieldName
  pieces : List Piece

/-- An instruction format: its operands in order, a tie between two of them,
the fixed bits of `Inst`, and the bits taken from operands. -/
structure InstBPF where
  outs : List (FieldName × OperandType)
  ins : List (FieldName × OperandType)
  constraint : Option (FieldName × FieldName)
  fixed : List Placed
  fields : List OperandField

/-! ## Fixed bits -/

def bpfClass (value : BitVec 3) : Placed := ⟨56, 3, value⟩
def op (value : BitVec 4) : Placed := ⟨60, 4, value⟩
def src (value : BitVec 1) : Placed := ⟨59, 1, value⟩
def mode (value : BitVec 3) : Placed := ⟨61, 3, value⟩
def size (value : BitVec 2) : Placed := ⟨59, 2, value⟩

/-! ## Bits taken from operands -/

def lowNibble (name : FieldName) : OperandField := ⟨name, [⟨48, 4, 0⟩]⟩

def highNibble (name : FieldName) : OperandField := ⟨name, [⟨52, 4, 0⟩]⟩

def half (name : FieldName) : OperandField := ⟨name, [⟨32, 16, 0⟩]⟩

def low (name : FieldName) : OperandField := ⟨name, [⟨0, 32, 0⟩]⟩

def address (baseLo : Nat) : OperandField :=
  ⟨.addr, [⟨baseLo, 4, 16⟩, ⟨32, 16, 0⟩]⟩

/-! ## Format classes -/

def JMP_RR (br_op : BitVec 4) : InstBPF where
  outs := []
  ins := [(.rA, .GPR), (.rX, .GPR), (.dst, .brtarget)]
  constraint := none
  fixed := [op br_op, src 1, bpfClass 5]
  fields := [lowNibble .rA, highNibble .rX, half .dst]

def JMP_RI (br_op : BitVec 4) : InstBPF where
  outs := []
  ins := [(.rA, .GPR), (.imm, .s32imm), (.dst, .brtarget)]
  constraint := none
  fixed := [op br_op, src 0, bpfClass 5]
  fields := [lowNibble .rA, half .dst, low .imm]

def ALU_RI (aluOp : BitVec 4) : InstBPF where
  outs := [(.rA, .GPR)]
  ins := [(.rS, .GPR), (.imm, .s32imm)]
  constraint := some (.rA, .rS)
  fixed := [op aluOp, src 0, bpfClass 7]
  fields := [lowNibble .rA, low .imm]

def ALU_RR (aluOp : BitVec 4) : InstBPF where
  outs := [(.rA, .GPR)]
  ins := [(.rS, .GPR), (.rX, .GPR)]
  constraint := some (.rA, .rS)
  fixed := [op aluOp, src 1, bpfClass 7]
  fields := [lowNibble .rA, highNibble .rX]

def MOV_RR : InstBPF where
  outs := [(.rA, .GPR)]
  ins := [(.rX, .GPR)]
  constraint := none
  fixed := [op 0xb, src 1, bpfClass 7]
  fields := [lowNibble .rA, highNibble .rX]

def MOV_RI : InstBPF where
  outs := [(.rA, .GPR)]
  ins := [(.imm, .s32imm)]
  constraint := none
  fixed := [op 0xb, src 0, bpfClass 7]
  fields := [lowNibble .rA, low .imm]

def LD_IMM64 (pseudo : BitVec 4) : InstBPF where
  outs := [(.rA, .GPR)]
  ins := [(.imm, .u64imm)]
  constraint := none
  fixed := [mode 0, size 3, ⟨52, 4, pseudo⟩, ⟨32, 16, 0⟩, bpfClass 0]
  fields := [lowNibble .rA, low .imm]

def STORE (sizeOp : BitVec 2) : InstBPF where
  outs := []
  ins := [(.rX, .GPR), (.addr, .MEMri)]
  constraint := none
  fixed := [mode 3, size sizeOp, bpfClass 3]
  fields := [highNibble .rX, address 48]

def LOAD (sizeOp : BitVec 2) : InstBPF where
  outs := [(.rA, .GPR)]
  ins := [(.addr, .MEMri)]
  constraint := none
  fixed := [mode 3, size sizeOp, bpfClass 1]
  fields := [lowNibble .rA, address 52]

def BRANCH (subOp : BitVec 4) : InstBPF where
  outs := []
  ins := [(.dst, .brtarget)]
  constraint := none
  fixed := [op subOp, src 0, bpfClass 5]
  fields := [half .dst]

def CALL : InstBPF where
  outs := []
  ins := [(.dst, .calltarget)]
  constraint := none
  fixed := [op 8, src 0, bpfClass 5]
  fields := [low .dst]

/-- `mov r0, r0`; the printed operand `imm` is not part of `Inst`. -/
def NOP_I : InstBPF where
  outs := []
  ins := [(.imm, .i32imm)]
  constraint := none
  fixed := [op 0xb, src 1, ⟨52, 4, 0⟩, ⟨48, 4, 0⟩, bpfClass 7]
  fields := []

def RET : InstBPF where
  outs := []
  ins := []
  constraint := none
  fixed := [op 9, src 0, ⟨0, 32, 0⟩, bpfClass 5]
  fields := []

/-- The field `rX` names no operand of the class. -/
def XADD (sizeOp : BitVec 2) : InstBPF where
  outs := [(.dst, .GPR)]
  ins := [(.addr, .MEMri), (.val, .GPR)]
  constraint := some (.dst, .val)
  fixed := [mode 6, size sizeOp, bpfClass 3]
  fields := [highNibble .rX, address 48]

/-! ## Instructions -/

def JccOp.br_op : JccOp → BitVec 4
  | JEQ => 0x1
  | JUGT => 0x2
  | JUGE => 0x3
  | JNE => 0x5
  | JSGT => 0x6
  | JSGE => 0x7

def AluOp.aluOp : AluOp → BitVec 4
  | ADD => 0x0
  | SUB => 0x1
  | OR => 0x4
  | AND => 0x5
  | SLL => 0x6
  | SRL => 0x7
  | XOR => 0xa
  | SRA => 0xc
  | MUL => 0x2
  | DIV => 0x3

def SizeOp.sizeOp : SizeOp → BitVec 2
  | W => 0x0
  | H => 0x1
  | B => 0x2
  | D => 0x3

def Opcode.format : Opcode → Option InstBPF
  | J_rr jcc => some (JMP_RR jcc.br_op)
  | J_ri jcc => some (JMP_RI jcc.br_op)
  | ALU_rr alu => some (ALU_RR alu.aluOp)
  | ALU_ri alu => some (ALU_RI alu.aluOp)
  | MOV_rr => some MOV_RR
  | MOV_ri => some MOV_RI
  | LD_imm64 => some (LD_IMM64 0)
  | ST size => some (STORE size.sizeOp)
  | LD size => some (LOAD size.sizeOp)
  | JMP => some (BRANCH 0x0)
  | JAL => some CALL
  | NOP => some NOP_I
  | RET => some MC.RET
  | XADD size => some (MC.XADD size.sizeOp)
  | ADJCALLSTACKDOWN => none
  | ADJCALLSTACKUP => none
  | Select => none

end BpfBackend.MC
