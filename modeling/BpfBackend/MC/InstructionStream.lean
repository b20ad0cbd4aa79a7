import BpfBackend.MC.Decoder

/-! # Streams of instructions

The object streamer appends the bytes of each instruction to a fragment and
moves the instruction's fixups to the place where the bytes landed.
-/

namespace BpfBackend.MC

open ItemStream

def MCFixup.shift (start : Nat) (fixup : MCFixup) : MCFixup :=
  { fixup with offset := start + fixup.offset }

/-- `EmitInstToData` for each instruction in turn, the first at `start`. -/
def emitInstructions (start : Nat) :
    List MCInst → Compile (List Byte × List MCFixup)
  | [] => .ok ([], [])
  | inst :: rest => do
      let (bytes, fixups) ← encodeInstruction inst
      let (restBytes, restFixups) ← emitInstructions (start + bytes.length) rest
      pure (bytes ++ restBytes, fixups.map (MCFixup.shift start) ++ restFixups)

/-! ## Streams of forms -/

def formBytes (forms : List Form) : List Byte := forms.flatMap Form.bytes

def formFixups : Nat → List Form → List MCFixup
  | _, [] => []
  | start, form :: rest =>
      form.fixups.map (MCFixup.shift start) ++
        formFixups (start + form.bytes.length) rest

theorem emitInstructions_forms (start : Nat) (forms : List Form) :
    emitInstructions start (forms.map Form.toMCInst) =
      .ok (formBytes forms, formFixups start forms) := by
  induction forms generalizing start with
  | nil => rfl
  | cons form rest induction =>
      rw [List.map_cons, emitInstructions, encodeInstruction_toMCInst]
      simp only [bind, Except.bind]
      rw [induction]
      rfl

theorem exists_forms {insts : List MCInst}
    (wellFormed : ∀ inst ∈ insts, inst.WellFormed) :
    ∃ forms : List Form, forms.map Form.toMCInst = insts := by
  induction insts with
  | nil => exact ⟨[], rfl⟩
  | cons inst rest induction =>
      rcases (wellFormed inst List.mem_cons_self).exists_form with ⟨form, rfl⟩
      rcases induction fun other member =>
        wellFormed other (List.mem_cons_of_mem _ member) with ⟨forms, rfl⟩
      exact ⟨form :: forms, rfl⟩

theorem Form.bytes_ne_nil (form : Form) : form.bytes ≠ [] := by
  cases form <;> simp [bytes, slotBytes]

theorem decodeStream_formBytes (forms : List Form) :
    decodeStream (formBytes forms) = some (forms.map Form.decoded) :=
  readAll_flatMap (fun form _ => form.bytes_ne_nil)
    fun form _ rest => decodeInst_bytes form rest

/-! ## What an encoded instruction denotes -/

def OperandType.narrow : OperandType → BitVec 64 → BitVec 64
  | s32imm, value | calltarget, value => signExtend32 value
  | brtarget, value | MEMri, value => signExtend16 value
  | GPR, value | u64imm, value | i32imm, value => value

def narrowOperands : List (FieldName × OperandType) → List MCOperand → List MCOperand
  | (_, .MEMri) :: types, base :: .imm offset :: operands =>
      base :: .imm (OperandType.narrow .MEMri offset) :: narrowOperands types operands
  | (_, operandType) :: types, .imm value :: operands =>
      .imm (operandType.narrow value) :: narrowOperands types operands
  | _ :: types, operand :: operands => operand :: narrowOperands types operands
  | _, operands => operands

/-- The instruction with every immediate reduced to its field and `NOP` as the
register move that it is. -/
def MCInst.asEncoded (inst : MCInst) : MCInst :=
  if inst.opcode = .NOP then
    ⟨.MOV_rr, [.reg .R0, .reg .R0]⟩
  else
    match inst.opcode.format with
    | some format => ⟨inst.opcode, narrowOperands (format.outs ++ format.ins) inst.operands⟩
    | none => inst

/-! ## Immediates that fit their fields -/

def OperandType.holds : OperandType → BitVec 64 → Bool
  | s32imm, value | calltarget, value => isInt 32 value
  | brtarget, value | MEMri, value => isInt 16 value
  | GPR, _ | u64imm, _ | i32imm, _ => true

def operandsHold : List (FieldName × OperandType) → List MCOperand → Bool
  | (_, .MEMri) :: types, _ :: .imm offset :: operands =>
      OperandType.holds .MEMri offset && operandsHold types operands
  | (_, operandType) :: types, .imm value :: operands =>
      operandType.holds value && operandsHold types operands
  | _ :: types, _ :: operands => operandsHold types operands
  | _, _ => true

def MCInst.fitsFields (inst : MCInst) : Bool :=
  match inst.opcode.format with
  | some format => operandsHold (format.outs ++ format.ins) inst.operands
  | none => true

def MCInst.withoutNOP (inst : MCInst) : MCInst :=
  if inst.opcode = .NOP then ⟨.MOV_rr, [.reg .R0, .reg .R0]⟩ else inst

private theorem OperandType.narrow_of_holds {operandType : OperandType} {value : BitVec 64}
    (fits : operandType.holds value = true) : operandType.narrow value = value := by
  cases operandType with
  | s32imm | calltarget => exact signExtend32_of_isInt fits
  | brtarget | MEMri => exact signExtend16_of_isInt fits
  | GPR | u64imm | i32imm => rfl

private theorem narrowOperands_of_operandsHold {types : List (FieldName × OperandType)}
    {operands : List MCOperand} (fits : operandsHold types operands = true) :
    narrowOperands types operands = operands := by
  fun_induction narrowOperands types operands <;>
    simp_all [operandsHold, OperandType.narrow_of_holds]

theorem MCInst.asEncoded_of_fitsFields {inst : MCInst} (fits : inst.fitsFields = true) :
    inst.asEncoded = inst.withoutNOP := by
  rw [asEncoded, withoutNOP]
  split
  · rfl
  · rw [fitsFields] at fits
    cases encoding : inst.opcode.format with
    | none => rfl
    | some format =>
        rw [encoding] at fits
        dsimp only at fits ⊢
        rw [narrowOperands_of_operandsHold fits]

/-! ## Encoding and decoding a stream -/

def MCOperand.isConcrete : MCOperand → Bool
  | reg _ | imm _ => true
  | expr _ => false

@[simp] theorem MCOperand.isConcrete_reg (register : Reg) :
    (MCOperand.reg register).isConcrete = true := rfl

@[simp] theorem MCOperand.isConcrete_imm (value : BitVec 64) :
    (MCOperand.imm value).isConcrete = true := rfl

private theorem Target.fixups_of_concrete {target : Target} (kind : MCFixupKind)
    (concrete : target.operand.isConcrete = true) : target.fixups kind = [] := by
  cases target with
  | imm value => rfl
  | symbol name => cases concrete

theorem Target.narrowOperands_operand {operandType : OperandType} {target : Target}
    {name : FieldName} {types : List (FieldName × OperandType)} {operands : List MCOperand}
    (single : operandType ≠ .MEMri) (concrete : target.operand.isConcrete = true) :
    narrowOperands ((name, operandType) :: types) (target.operand :: operands) =
      .imm (operandType.narrow target.bits) :: narrowOperands types operands := by
  cases target with
  | imm value => cases operandType <;> first | contradiction | rfl
  | symbol name => cases concrete

private theorem Form.asEncoded_toMCInst (form : Form)
    (concrete : form.toMCInst.operands.all MCOperand.isConcrete = true) :
    form.toMCInst.asEncoded = form.decoded := by
  cases form
  case NOP_I imm => rfl
  all_goals
    simp [toMCInst] at concrete
    simp [toMCInst, MCInst.asEncoded, Opcode.format, MC.JMP_RR, MC.JMP_RI, MC.ALU_RR,
      MC.ALU_RI, MC.MOV_RR, MC.MOV_RI, MC.LD_IMM64, MC.STORE, MC.LOAD, MC.BRANCH,
      MC.CALL, MC.RET, MC.XADD, narrowOperands, Target.narrowOperands_operand, concrete,
      OperandType.narrow, decoded]

private theorem Form.fixups_of_concrete (form : Form)
    (concrete : form.toMCInst.operands.all MCOperand.isConcrete = true) :
    form.fixups = [] := by
  cases form <;> simp [toMCInst] at concrete <;>
    first
    | rfl
    | exact Target.fixups_of_concrete _ concrete

theorem formFixups_of_concrete {forms : List Form} (start : Nat)
    (concrete : ∀ form ∈ forms,
      form.toMCInst.operands.all MCOperand.isConcrete = true) :
    formFixups start forms = [] := by
  induction forms generalizing start with
  | nil => rfl
  | cons form rest induction =>
      rw [formFixups, form.fixups_of_concrete (concrete form List.mem_cons_self),
        induction _ fun other member => concrete other (List.mem_cons_of_mem _ member)]
      rfl

/-- Encoding is uniquely decodable: the bytes of a stream of well-formed
instructions read back, front to back, as the same instructions with the same
register roles, immediates being reduced to their fields, and the bytes hold
nothing that an instruction does not use. -/
theorem decodeStream_emitInstructions (insts : List MCInst)
    (wellFormed : ∀ inst ∈ insts, inst.WellFormed)
    (concrete : ∀ inst ∈ insts, inst.operands.all MCOperand.isConcrete = true) :
    ∃ bytes, emitInstructions 0 insts = .ok (bytes, []) ∧
      decodeStream bytes = some (insts.map MCInst.asEncoded) ∧
      ∀ inst ∈ insts, ∃ instBytes, encodeInstruction inst = .ok (instBytes, []) ∧
        CanonicalInst inst.opcode instBytes := by
  rcases exists_forms wellFormed with ⟨forms, rfl⟩
  have formsConcrete : ∀ form ∈ forms,
      form.toMCInst.operands.all MCOperand.isConcrete = true :=
    fun form member => concrete _ (List.mem_map_of_mem member)
  have noFixups := formFixups_of_concrete 0 formsConcrete
  refine ⟨formBytes forms, ?_, ?_, ?_⟩
  · rw [emitInstructions_forms, noFixups]
  · rw [decodeStream_formBytes, List.map_map]
    congr 1
    apply List.map_congr_left
    intro form member
    exact (form.asEncoded_toMCInst (formsConcrete form member)).symm
  · intro inst member
    rcases List.mem_map.mp member with ⟨form, formMember, rfl⟩
    refine ⟨form.bytes, ?_, form.canonicalInst⟩
    rw [encodeInstruction_toMCInst, form.fixups_of_concrete (formsConcrete form formMember)]

theorem decodeStream_emitInstructions_sample :
    let insts : List MCInst :=
      [⟨.LD_imm64, [.reg .R1, .imm 0x1122334455667788]⟩,
        ⟨.J_ri .JSGT, [.reg .R1, .imm (-1), .imm (-3)]⟩,
        ⟨.XADD .W, [.reg .R2, .reg .R10, .imm (-8), .reg .R2]⟩, ⟨.NOP, [.imm 7]⟩]
    ∃ bytes, emitInstructions 0 insts = .ok (bytes, []) ∧
      decodeStream bytes = some (insts.map MCInst.asEncoded) ∧
      ∀ inst ∈ insts, ∃ instBytes, encodeInstruction inst = .ok (instBytes, []) ∧
        CanonicalInst inst.opcode instBytes :=
  decodeStream_emitInstructions _ (by decide) (by decide)

end BpfBackend.MC
