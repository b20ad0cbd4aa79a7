import BpfBackend.Foundation.ByteMemory
import BpfBackend.MC.Decoder

/-! # The machine

What a decoded instruction other than a jump, a call or an exit does to the
registers and the memory, and when a conditional jump is taken.
-/

namespace BpfBackend.MC

open ByteMemory

def SizeOp.bytes : SizeOp → Nat
  | W => 4
  | H => 2
  | B => 1
  | D => 8

/-- 64-bit arithmetic. A shift by 64 or more and a division by zero have no
result. -/
def AluOp.exec : AluOp → BitVec 64 → BitVec 64 → Option (BitVec 64)
  | ADD, left, right => some (left + right)
  | SUB, left, right => some (left - right)
  | OR, left, right => some (left ||| right)
  | AND, left, right => some (left &&& right)
  | SLL, left, right => if right.toNat < 64 then some (left <<< right) else none
  | SRL, left, right => if right.toNat < 64 then some (left >>> right) else none
  | XOR, left, right => some (left ^^^ right)
  | SRA, left, right => if right.toNat < 64 then some (left.sshiftRight' right) else none
  | MUL, left, right => some (left * right)
  | DIV, left, right => if right = 0 then none else some (left / right)

def JccOp.taken : JccOp → BitVec 64 → BitVec 64 → Bool
  | JEQ, left, right => left = right
  | JUGT, left, right => right.ult left
  | JUGE, left, right => right.ule left
  | JNE, left, right => left ≠ right
  | JSGT, left, right => right.slt left
  | JSGE, left, right => right.sle left

structure MachineState where
  regs : Reg → BitVec 64
  memory : Memory 64

namespace MachineState

def setReg (state : MachineState) (register : Reg) (value : BitVec 64) : MachineState :=
  { state with regs := fun other => if other = register then value else state.regs other }

def loadMem (state : MachineState) (size : SizeOp) (address : BitVec 64) :
    BitVec (8 * size.bytes) :=
  load state.memory address size.bytes

def storeMem (state : MachineState) (size : SizeOp) (address : BitVec 64)
    (value : BitVec (8 * size.bytes)) : MachineState :=
  { state with memory := store state.memory address size.bytes value }

end MachineState

def MCInst.effectiveAddress (inst : MCInst) (regs : Reg → BitVec 64) :
    Option (BitVec 64) :=
  match inst.opcode, inst.operands with
  | .LD _, [_, .reg base, .imm offset] => some (regs base + offset)
  | .ST _, [_, .reg base, .imm offset] => some (regs base + offset)
  | .XADD _, [_, .reg base, .imm offset, _] => some (regs base + offset)
  | _, _ => none

/-- `XADD` adds its source register to memory and writes no register. -/
def execInst (inst : MCInst) (state : MachineState) : Option MachineState :=
  match inst.opcode, inst.operands with
  | .ALU_rr op, [.reg rA, _, .reg rX] => do
      let value ← op.exec (state.regs rA) (state.regs rX)
      some (state.setReg rA value)
  | .ALU_ri op, [.reg rA, _, .imm imm] => do
      let value ← op.exec (state.regs rA) imm
      some (state.setReg rA value)
  | .MOV_rr, [.reg rA, .reg rX] => some (state.setReg rA (state.regs rX))
  | .MOV_ri, [.reg rA, .imm imm] => some (state.setReg rA imm)
  | .LD_imm64, [.reg rA, .imm imm] => some (state.setReg rA imm)
  | .LD size, [.reg rA, _, _] => do
      let address ← inst.effectiveAddress state.regs
      some (state.setReg rA ((state.loadMem size address).setWidth 64))
  | .ST size, [.reg rX, _, _] => do
      let address ← inst.effectiveAddress state.regs
      some (state.storeMem size address ((state.regs rX).setWidth _))
  | .XADD size, [.reg rX, _, _, _] => do
      let address ← inst.effectiveAddress state.regs
      some (state.storeMem size address
        (state.loadMem size address + (state.regs rX).setWidth _))
  | _, _ => none

end BpfBackend.MC
