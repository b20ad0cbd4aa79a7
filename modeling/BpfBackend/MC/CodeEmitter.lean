import BpfBackend.MC.InstrInfo

/-! # The code emitter

`BPFMCCodeEmitter.cpp` together with the emitter that TableGen generates from
the format classes.
-/

namespace BpfBackend.MC

open BitFields

def getMachineOpValue (inst : MCInst) (operand : MCOperand) :
    Compile (BitVec 32 × List MCFixup) :=
  match operand with
  | .reg register => .ok (getBPFRegisterNumbering register, [])
  | .imm value => .ok (value.setWidth 32, [])
  | .expr (.SymbolRef symbol) =>
      if inst.opcode = .JAL then
        .ok (0, [⟨0, .SymbolRef symbol, .FK_SecRel_4⟩])
      else if inst.opcode = .LD_imm64 then
        .ok (0, [⟨0, .SymbolRef symbol, .FK_SecRel_8⟩])
      else
        .ok (0, [⟨0, .SymbolRef symbol, .FK_PCRel_2⟩])
  | .expr _ => .error (.assertion "Kind == MCExpr::SymbolRef")

/-- The operand index `Op` is ignored: operands 1 and 2 are read. -/
def getMemoryOpValue (inst : MCInst) (_Op : Nat) :
    Compile (BitVec 64 × List MCFixup) := do
  match ← inst.getOperand 1 with
  | .reg base =>
      let encoding := (getBPFRegisterNumbering base).setWidth 64 <<< 16
      match ← inst.getOperand 2 with
      | .imm offset => .ok (encoding ||| (offset &&& 0xffff#64), [])
      | _ => .error (.assertion "Second operand is not immediate.")
  | _ => .error (.assertion "First operand is not register.")

/-! ## The generated emitter -/

def findOperand (name : FieldName) :
    List (FieldName × OperandType) → Nat → Option (Nat × OperandType)
  | [], _ => none
  | (other, operandType) :: rest, index =>
      if other = name then some (index, operandType)
      else findOperand name rest (index + operandType.miOperands)

/-- The value from which a field of `Inst` is filled. A field that names no
operand takes the first positional one. -/
def encodeField (inst : MCInst) (format : InstBPF) (name : FieldName) :
    Compile (BitVec 64 × List MCFixup) :=
  match findOperand name (format.outs ++ format.ins) 0 with
  | some (index, .MEMri) => getMemoryOpValue inst index
  | some (index, _) => do
      let (value, fixups) ← getMachineOpValue inst (← inst.getOperand index)
      pure (value.setWidth 64, fixups)
  | none => do
      let (value, fixups) ← getMachineOpValue inst (← inst.getOperand 0)
      pure (value.setWidth 64, fixups)

def Piece.place (value : BitVec 64) (piece : Piece) : Placed :=
  ⟨piece.lo, piece.width, value.extractLsb' piece.fieldLo piece.width⟩

def encodeFields (inst : MCInst) (format : InstBPF) :
    List OperandField → Compile (List Placed × List MCFixup)
  | [] => .ok ([], [])
  | field :: rest => do
      let (value, fixups) ← encodeField inst format field.name
      let (placed, restFixups) ← encodeFields inst format rest
      pure (field.pieces.map (Piece.place value) ++ placed, fixups ++ restFixups)

def getBinaryCodeForInstr (inst : MCInst) :
    Compile (BitVec 64 × List MCFixup) :=
  match inst.opcode.format with
  | some format => do
      let (placed, fixups) ← encodeFields inst format format.fields
      pure (assemble 64 (format.fixed ++ placed), fixups)
  | none => .error (.report_fatal_error "Not supported instr: ")

/-! ## Emitted bytes -/

def emitByte (value : BitVec 64) : Byte := value.setWidth 8

/-- The calls pass sizes 2 and 4, within the assertion `Size <= 8`. -/
def emitLEConstant (value : BitVec 64) : Nat → List Byte
  | 0 => []
  | size + 1 => emitByte (value &&& 255#64) :: emitLEConstant (value >>> 8) size

def encodeInstruction (inst : MCInst) : Compile (List Byte × List MCFixup) := do
  if inst.opcode = .LD_imm64 then
    let (value, fixups) ← getBinaryCodeForInstr inst
    let operand ← inst.getOperand 1
    let imm : BitVec 64 := match operand with
      | .imm value => value
      | _ => 0
    pure ([emitByte (value >>> 56), emitByte ((value >>> 48) &&& 0xff#64)] ++
      emitLEConstant 0 2 ++ emitLEConstant (value &&& 0xffffFFFF#64) 4 ++
      [emitByte 0, emitByte 0] ++
      emitLEConstant 0 2 ++ emitLEConstant (imm >>> 32) 4, fixups)
  else
    let (value, fixups) ← getBinaryCodeForInstr inst
    pure ([emitByte (value >>> 56), emitByte ((value >>> 48) &&& 0xff#64)] ++
      emitLEConstant ((value >>> 32) &&& 0xffff#64) 2 ++
      emitLEConstant (value &&& 0xffffFFFF#64) 4, fixups)

end BpfBackend.MC
