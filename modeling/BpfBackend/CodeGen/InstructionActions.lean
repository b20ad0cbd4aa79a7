import BpfBackend.CodeGen.SymbolReferences
import BpfBackend.MC.Execution

/-! # What machine instructions do

The meaning of a machine instruction, taken from its opcode and its operands
before anything lowers them.
-/

namespace BpfBackend.CodeGen

open MC

/-! ## Operands -/

/-- Implicit registers and register masks say what a call leaves of the
registers. -/
def MachineOperand.isExplicit : MachineOperand → Bool
  | MO_Register _ implicit => !implicit
  | MO_RegisterMask => false
  | _ => true

def SelectedInstr.explicitOperands (inst : SelectedInstr) : List MachineOperand :=
  inst.operands.filter MachineOperand.isExplicit

/-- A constant, relative to a symbol if there is one. -/
abbrev SymbolicValue := Option MCSymbol × BitVec 64

def MachineOperand.constant : MachineOperand → Option SymbolicValue
  | MO_Immediate imm => some (none, imm)
  | MO_GlobalAddress name offset => some (some (.global name), offset)
  | MO_ExternalSymbol name => some (some (.global name), 0)
  | _ => none

/-! ## Accesses to memory -/

def MemoryAccess.size : MemoryAccess → SizeOp
  | LD size _ | ST size _ | XADD size _ => size

/-- An `XADD` leaves its register as it is. -/
def MemoryAccess.perform (access : MemoryAccess) (address : BitVec 64) (state : MachineState) :
    MachineState :=
  match access with
  | LD size rA => state.setReg rA ((state.loadMem size address).setWidth 64)
  | ST size rX => state.storeMem size address ((state.regs rX).setWidth _)
  | XADD size dst =>
      state.storeMem size address (state.loadMem size address + (state.regs dst).setWidth _)

/-! ## Actions -/

/-- An instruction that does not transfer control defines a register, accesses
memory or calls. A pseudo instruction of the call frame is idle. -/
inductive InstrAction where
  | idle
  | define (rA : Reg) (value : Environment → (Reg → BitVec 64) → Option (BitVec 64))
  | access (access : MemoryAccess) (base : Reg) (offset : BitVec 64)
  | call (symbol : Option MCSymbol) (value : BitVec 64)

def InstrAction.run (environment : Environment) (state : MachineState) :
    InstrAction → Option MachineState
  | .idle => some state
  | .define rA value => do
      let result ← value environment state.regs
      some (state.setReg rA result)
  | .access transfer base offset => some (transfer.perform (state.regs base + offset) state)
  | .call symbol value => environment.call symbol value state

def actionOf : Opcode → List MachineOperand → Option InstrAction
  | .ALU_rr op, [.MO_Register rA false, .MO_Register rS false, .MO_Register rX false] =>
      some (.define rA fun _ regs => op.exec (regs rS) (regs rX))
  | .ALU_ri op, [.MO_Register rA false, .MO_Register rS false, .MO_Immediate imm] =>
      some (.define rA fun _ regs => op.exec (regs rS) imm)
  | .MOV_rr, [.MO_Register rA false, .MO_Register rX false] =>
      some (.define rA fun _ regs => some (regs rX))
  | .MOV_ri, [.MO_Register rA false, .MO_Immediate imm] => some (.define rA fun _ _ => some imm)
  | .LD_imm64, [.MO_Register rA false, imm] => do
      let (symbol, value) ← imm.constant
      some (.define rA fun environment _ => some (environment.constant symbol value))
  | .JAL, [dst] => do
      let (symbol, value) ← dst.constant
      some (.call symbol value)
  | .LD size, [.MO_Register rA false, .MO_Register base false, .MO_Immediate offset] =>
      some (.access (.LD size rA) base offset)
  | .ST size, [.MO_Register rX false, .MO_Register base false, .MO_Immediate offset] =>
      some (.access (.ST size rX) base offset)
  | .XADD size, [.MO_Register _ false, .MO_Register base false, .MO_Immediate offset,
      .MO_Register val false] =>
      some (.access (.XADD size val) base offset)
  | _, _ => none

def SelectedInstr.action (inst : SelectedInstr) : Option InstrAction :=
  actionOf inst.opcode inst.explicitOperands

def SelectedInstr.run (environment : Environment) (inst : SelectedInstr)
    (state : MachineState) : Option MachineState :=
  inst.action.bind (·.run environment state)

/-! ## Calls -/

def SelectedInstr.callee (inst : SelectedInstr) : Option SymbolicValue :=
  match inst.action with
  | some (.call symbol value) => some (symbol, value)
  | _ => none

/-- The callee that a node denotes; a pointer in a register has no pattern. -/
def SDValue.callee : SDValue → Option SymbolicValue
  | TargetGlobalAddress name offset => some (some (.global name), offset)
  | TargetExternalSymbol name => some (some (.global name), 0)
  | Constant value => some (none, value)
  | _ => none

theorem callee_of_selectCall {node : SDValue} {inst : SelectedInstr}
    (selected : selectCall node = some inst) : inst.callee = node.callee := by
  cases node with
  | TargetGlobalAddress name offset =>
      cases selected
      rfl
  | Constant value =>
      cases selected
      rfl
  | _ => cases selected

/-! ## Instructions that are ready for emission -/

/-- Tied operands are in one register, immediates fit their fields, and symbols
have no offset. -/
def areEmittable : Opcode → List MachineOperand → Bool
  | .ALU_rr _, [.MO_Register rA false, .MO_Register rS false, .MO_Register _ false] => rA = rS
  | .ALU_ri _, [.MO_Register rA false, .MO_Register rS false, .MO_Immediate imm] =>
      rA = rS && isInt 32 imm
  | .MOV_rr, [.MO_Register _ false, .MO_Register _ false] => true
  | .MOV_ri, [.MO_Register _ false, .MO_Immediate imm] => isInt 32 imm
  | .LD_imm64, [.MO_Register _ false, .MO_Immediate _] => true
  | .LD_imm64, [.MO_Register _ false, .MO_GlobalAddress _ offset] => offset = 0
  | .JAL, [.MO_Immediate imm] => isInt 32 imm
  | .JAL, [.MO_GlobalAddress _ offset] => offset = 0
  | .LD _, [.MO_Register _ false, .MO_Register _ false, .MO_Immediate offset] =>
      isInt 16 offset
  | .ST _, [.MO_Register _ false, .MO_Register _ false, .MO_Immediate offset] =>
      isInt 16 offset
  | .XADD _, [.MO_Register dst false, .MO_Register _ false, .MO_Immediate offset,
      .MO_Register val false] => dst = val && isInt 16 offset
  | _, _ => false

def SelectedInstr.isEmittable (inst : SelectedInstr) : Bool :=
  areEmittable inst.opcode inst.explicitOperands

end BpfBackend.CodeGen
