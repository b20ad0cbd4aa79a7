/-! # Machine-code instructions

The instruction, operand, expression and fixup types that pass between the
streamer, the code emitter and the assembler backend.
-/

namespace BpfBackend.MC

abbrev Byte := BitVec 8

/-- The ways in which a compilation stops. An `llvm_unreachable` and a failed
assertion are undefined behaviour in a build without assertions. -/
inductive Stop where
  | report_fatal_error (message : String)
  | llvm_unreachable (message : String)
  | assertion (condition : String)
  deriving DecidableEq, Repr

abbrev Compile := Except Stop

theorem bind_eq_ok {α β : Type} {first : Compile α} {rest : α → Compile β} {result : β}
    (succeeds : (first >>= rest) = .ok result) :
    ∃ value, first = .ok value ∧ rest value = .ok result := by
  cases first with
  | error stop => cases succeeds
  | ok value => exact ⟨value, rfl, succeeds⟩

/-! ## Registers -/

inductive Reg where
  | R0 | R1 | R2 | R3 | R4 | R5 | R6 | R7 | R8 | R9 | R10 | R11
  deriving DecidableEq, Repr

def getBPFRegisterNumbering : Reg → BitVec 32
  | .R0 => 0
  | .R1 => 1
  | .R2 => 2
  | .R3 => 3
  | .R4 => 4
  | .R5 => 5
  | .R6 => 6
  | .R7 => 7
  | .R8 => 8
  | .R9 => 9
  | .R10 => 10
  | .R11 => 11

/-! ## Opcodes

The multiclasses `J` and `ALU` define an `_rr` and an `_ri` instruction for
each of their `defm` lines; a `defm` line is an element of `JccOp` or `AluOp`. -/

inductive JccOp where
  | JEQ | JUGT | JUGE | JNE | JSGT | JSGE
  deriving DecidableEq, Repr

inductive AluOp where
  | ADD | SUB | OR | AND | SLL | SRL | XOR | SRA | MUL | DIV
  deriving DecidableEq, Repr

inductive SizeOp where
  | W | H | B | D
  deriving DecidableEq, Repr

inductive Opcode where
  | J_rr (op : JccOp)
  | J_ri (op : JccOp)
  | ALU_rr (op : AluOp)
  | ALU_ri (op : AluOp)
  | MOV_rr
  | MOV_ri
  | LD_imm64
  | ST (size : SizeOp)
  | LD (size : SizeOp)
  | JMP
  | JAL
  | NOP
  | RET
  | XADD (size : SizeOp)
  | ADJCALLSTACKDOWN
  | ADJCALLSTACKUP
  | Select
  deriving DecidableEq, Repr

namespace Opcode

def isPseudo : Opcode → Bool
  | ADJCALLSTACKDOWN | ADJCALLSTACKUP | Select => true
  | _ => false

end Opcode

/-! ## Operands -/

/-- A symbol is the label of a basic block of the function at hand or the name
of a global value. -/
inductive MCSymbol where
  | block (number : Nat)
  | global (name : String)
  deriving DecidableEq, Repr

inductive MCExpr where
  | SymbolRef (symbol : MCSymbol)
  | Constant (value : BitVec 64)
  | Binary (lhs rhs : MCExpr)
  deriving DecidableEq, Repr

inductive MCOperand where
  | reg (register : Reg)
  | imm (value : BitVec 64)
  | expr (expression : MCExpr)
  deriving DecidableEq, Repr

structure MCInst where
  opcode : Opcode
  operands : List MCOperand
  deriving DecidableEq, Repr

def MCInst.getOperand (inst : MCInst) (index : Nat) : Compile MCOperand :=
  match inst.operands[index]? with
  | some operand => .ok operand
  | none => .error (.assertion "idx < size()")

/-! ## Fixups -/

inductive MCFixupKind where
  | FK_PCRel_2
  | FK_SecRel_4
  | FK_SecRel_8
  deriving DecidableEq, Repr

structure MCFixup where
  offset : Nat
  value : MCExpr
  kind : MCFixupKind
  deriving DecidableEq, Repr

end BpfBackend.MC
