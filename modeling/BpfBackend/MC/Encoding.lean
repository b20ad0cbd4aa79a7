import BpfBackend.MC.Forms
import Mathlib.Algebra.Order.Ring.Nat

/-! # The bytes of each form

The word that the generated emitter assembles for each form and the eight or
sixteen bytes that `encodeInstruction` writes for it.
-/

namespace BpfBackend.MC

open BitFields

/-! ## Operand bits -/

def Reg.nibble (register : Reg) : BitVec 4 :=
  (getBPFRegisterNumbering register).setWidth 4

@[simp] theorem extract_registerNumbering (register : Reg) :
    ((getBPFRegisterNumbering register).setWidth 64).extractLsb' 0 4 =
      register.nibble := by
  cases register <;> rfl

theorem and_lowMask (value : BitVec 64) (kept : Nat) (fits : kept < 64) :
    value &&& BitVec.ofNat 64 (2 ^ kept - 1) = (value.setWidth kept).setWidth 64 := by
  have maskFits : 2 ^ kept - 1 < 2 ^ 64 := by
    have := Nat.pow_lt_pow_right (by omega : 1 < 2) fits
    omega
  have keptFits : value.toNat % 2 ^ kept < 2 ^ 64 :=
    Nat.lt_of_le_of_lt (Nat.mod_le _ _) value.isLt
  apply BitVec.eq_of_toNat_eq
  rw [BitVec.toNat_and, BitVec.toNat_ofNat, Nat.mod_eq_of_lt maskFits,
    Nat.and_two_pow_sub_one_eq_mod, BitVec.toNat_setWidth, BitVec.toNat_setWidth,
    Nat.mod_eq_of_lt keptFits]

@[simp] theorem extract_imm_low (value : BitVec 64) :
    ((value.setWidth 32).setWidth 64).extractLsb' 0 32 = value.setWidth 32 := by
  ext index inRange
  have inDouble : index < 64 := by omega
  simp [inRange, inDouble]

@[simp] theorem extract_imm_half (value : BitVec 64) :
    ((value.setWidth 32).setWidth 64).extractLsb' 0 16 = value.setWidth 16 := by
  ext index inRange
  have inWord : index < 32 := by omega
  have inDouble : index < 64 := by omega
  simp [inWord, inDouble]

@[simp] theorem extract_memoryOp_base (base : Reg) (offset : BitVec 64) :
    ((getBPFRegisterNumbering base).setWidth 64 <<< 16 |||
      (offset &&& 0xffff#64)).extractLsb' 16 4 = base.nibble := by
  have maskClear : (0xffff#64).extractLsb' 16 4 = 0 := by rfl
  have number : ((getBPFRegisterNumbering base).setWidth 64 <<< 16).extractLsb' 16 4 =
      base.nibble := by cases base <;> rfl
  rw [BitVec.extractLsb'_or, BitVec.extractLsb'_and, maskClear, number]
  simp

@[simp] theorem extract_memoryOp_offset (base : Reg) (offset : BitVec 64) :
    ((getBPFRegisterNumbering base).setWidth 64 <<< 16 |||
      (offset &&& 0xffff#64)).extractLsb' 0 16 = offset.setWidth 16 := by
  have maskFull : (0xffff#64).extractLsb' 0 16 = BitVec.allOnes 16 := by rfl
  have number : ((getBPFRegisterNumbering base).setWidth 64 <<< 16).extractLsb' 0 16 = 0 := by
    cases base <;> rfl
  rw [BitVec.extractLsb'_or, BitVec.extractLsb'_and, maskFull, number, BitVec.and_allOnes]
  ext index inRange
  simp

/-! ## The word of each form -/

def Form.placed : Form → List Placed
  | JMP_RR jcc rA rX dst =>
      [op jcc.br_op, src 1, bpfClass 5, ⟨48, 4, rA.nibble⟩, ⟨52, 4, rX.nibble⟩,
        ⟨32, 16, dst.bits.setWidth 16⟩]
  | JMP_RI jcc rA imm dst =>
      [op jcc.br_op, src 0, bpfClass 5, ⟨48, 4, rA.nibble⟩,
        ⟨32, 16, dst.bits.setWidth 16⟩, ⟨0, 32, imm.setWidth 32⟩]
  | ALU_RR alu rA rX =>
      [op alu.aluOp, src 1, bpfClass 7, ⟨48, 4, rA.nibble⟩, ⟨52, 4, rX.nibble⟩]
  | ALU_RI alu rA imm =>
      [op alu.aluOp, src 0, bpfClass 7, ⟨48, 4, rA.nibble⟩, ⟨0, 32, imm.setWidth 32⟩]
  | MOV_RR rA rX =>
      [op 0xb, src 1, bpfClass 7, ⟨48, 4, rA.nibble⟩, ⟨52, 4, rX.nibble⟩]
  | MOV_RI rA imm =>
      [op 0xb, src 0, bpfClass 7, ⟨48, 4, rA.nibble⟩, ⟨0, 32, imm.setWidth 32⟩]
  | LD_IMM64 rA imm =>
      [mode 0, MC.size 3, ⟨52, 4, 0⟩, ⟨32, 16, 0⟩, bpfClass 0, ⟨48, 4, rA.nibble⟩,
        ⟨0, 32, imm.bits.setWidth 32⟩]
  | STORE size rX base offset =>
      [mode 3, MC.size size.sizeOp, bpfClass 3, ⟨52, 4, rX.nibble⟩, ⟨48, 4, base.nibble⟩,
        ⟨32, 16, offset.setWidth 16⟩]
  | LOAD size rA base offset =>
      [mode 3, MC.size size.sizeOp, bpfClass 1, ⟨48, 4, rA.nibble⟩, ⟨52, 4, base.nibble⟩,
        ⟨32, 16, offset.setWidth 16⟩]
  | BRANCH dst => [op 0, src 0, bpfClass 5, ⟨32, 16, dst.bits.setWidth 16⟩]
  | CALL dst => [op 8, src 0, bpfClass 5, ⟨0, 32, dst.bits.setWidth 32⟩]
  | NOP_I _ => [op 0xb, src 1, ⟨52, 4, 0⟩, ⟨48, 4, 0⟩, bpfClass 7]
  | RET => [op 9, src 0, ⟨0, 32, 0⟩, bpfClass 5]
  | XADD size dst base offset =>
      [mode 6, MC.size size.sizeOp, bpfClass 3, ⟨52, 4, dst.nibble⟩, ⟨48, 4, base.nibble⟩,
        ⟨32, 16, offset.setWidth 16⟩]

def Form.word (form : Form) : BitVec 64 := assemble 64 form.placed

def Form.fixups : Form → List MCFixup
  | JMP_RR _ _ _ dst | JMP_RI _ _ _ dst | BRANCH dst => dst.fixups .FK_PCRel_2
  | CALL dst => dst.fixups .FK_SecRel_4
  | LD_IMM64 _ imm => imm.fixups .FK_SecRel_8
  | _ => []

/-! ## The emitter on forms -/

private theorem getMachineOpValue_reg (inst : MCInst) (register : Reg) :
    getMachineOpValue inst (.reg register) =
      .ok (getBPFRegisterNumbering register, []) := rfl

private theorem getMachineOpValue_imm (inst : MCInst) (value : BitVec 64) :
    getMachineOpValue inst (.imm value) = .ok (value.setWidth 32, []) := rfl

private theorem getMachineOpValue_target (inst : MCInst) (target : Target) :
    getMachineOpValue inst target.operand =
      .ok (target.bits.setWidth 32, target.fixups
        (if inst.opcode = .JAL then .FK_SecRel_4
        else if inst.opcode = .LD_imm64 then .FK_SecRel_8
        else .FK_PCRel_2)) := by
  cases target with
  | imm value => rfl
  | symbol name =>
      simp only [Target.operand, getMachineOpValue, Target.bits, Target.fixups]
      split
      · rfl
      · split <;> rfl

private theorem getMemoryOpValue_memory (opcode : Opcode) (index : Nat) (first : MCOperand)
    (base : Reg) (offset : BitVec 64) (rest : List MCOperand) :
    getMemoryOpValue ⟨opcode, first :: .reg base :: .imm offset :: rest⟩ index =
      .ok ((getBPFRegisterNumbering base).setWidth 64 <<< 16 ||| (offset &&& 0xffff#64), []) :=
  rfl

private theorem Form.getBinaryCodeForInstr_toMCInst (form : Form) :
    getBinaryCodeForInstr form.toMCInst = .ok (form.word, form.fixups) := by
  cases form <;>
    simp [toMCInst, getBinaryCodeForInstr, Opcode.format, MC.JMP_RR, MC.JMP_RI,
      MC.ALU_RR, MC.ALU_RI, MC.MOV_RR, MC.MOV_RI, MC.LD_IMM64, MC.STORE, MC.LOAD,
      MC.BRANCH, MC.CALL, MC.NOP_I, MC.RET, MC.XADD, encodeFields, encodeField,
      lowNibble, highNibble, half, low, address, findOperand,
      OperandType.miOperands, MCInst.getOperand, getMachineOpValue_reg,
      getMachineOpValue_imm, getMachineOpValue_target, getMemoryOpValue_memory,
      Piece.place, word, placed, fixups, bind, Except.bind, pure, Except.pure]

/-! ## Slots of eight bytes -/

/-- The bytes of a slot: the opcode byte, the register byte, the offset and the
immediate, the last two least-significant byte first. -/
def slotBytes (word : BitVec 64) : List Byte :=
  [word.extractLsb' 56 8, word.extractLsb' 48 8,
    word.extractLsb' 32 8, word.extractLsb' 40 8,
    word.extractLsb' 0 8, word.extractLsb' 8 8,
    word.extractLsb' 16 8, word.extractLsb' 24 8]

@[simp] theorem slotBytes_length (word : BitVec 64) : (slotBytes word).length = 8 := rfl

private theorem emitByte_shift (value : BitVec 64) (lo : Nat) :
    emitByte (value >>> lo) = value.extractLsb' lo 8 := by
  apply BitVec.eq_of_toNat_eq
  simp [emitByte]

private theorem emitByte_and_ff (value : BitVec 64) :
    emitByte (value &&& 0xff#64) = value.extractLsb' 0 8 := by
  have masked : value &&& 0xff#64 = _ := and_lowMask value 8 (by omega)
  rw [emitByte, masked]
  ext index inRange
  simp [(by omega : index < 64)]

private theorem emitLEConstant_eq (value : BitVec 64) (size : Nat) :
    emitLEConstant value size =
      (List.range size).map fun index => value.extractLsb' (8 * index) 8 := by
  induction size generalizing value with
  | zero => rfl
  | succ size induction =>
      rw [emitLEConstant, induction, List.range_succ_eq_map, List.map_cons, List.map_map]
      congr 1
      · exact emitByte_and_ff value
      · apply List.map_congr_left
        intro index _
        apply BitVec.eq_of_toNat_eq
        simp [← Nat.shiftRight_add, Nat.mul_add, Nat.add_comm]

theorem extract_shift_and (value : BitVec 64) {shift kept lo : Nat}
    (fits : kept < 64) (inside : lo + 8 ≤ kept) :
    ((value >>> shift) &&& BitVec.ofNat 64 (2 ^ kept - 1)).extractLsb' lo 8 =
      value.extractLsb' (shift + lo) 8 := by
  rw [and_lowMask _ kept fits]
  ext index inRange
  have inKept : lo + index < kept := by omega
  have inWord : lo + index < 64 := by omega
  simp [inKept, inWord, Nat.add_assoc]

private theorem emitHalf_eq (value : BitVec 64) :
    emitLEConstant ((value >>> 32) &&& 0xffff#64) 2 =
      [value.extractLsb' 32 8, value.extractLsb' 40 8] := by
  rw [emitLEConstant_eq]
  have low := @extract_shift_and value 32 16 0 (by omega) (by omega)
  have high := @extract_shift_and value 32 16 8 (by omega) (by omega)
  simpa [List.range_succ] using And.intro low high

private theorem emitWord_eq (value : BitVec 64) :
    emitLEConstant (value &&& 0xffffFFFF#64) 4 =
      [value.extractLsb' 0 8, value.extractLsb' 8 8, value.extractLsb' 16 8,
        value.extractLsb' 24 8] := by
  have bytes : ∀ lo, lo + 8 ≤ 32 →
      (value &&& 0xffffFFFF#64).extractLsb' lo 8 = value.extractLsb' lo 8 := by
    intro lo inside
    have shifted := @extract_shift_and value 0 32 lo (by omega) inside
    simpa using shifted
  rw [emitLEConstant_eq]
  simp [List.range_succ, bytes]

private theorem emitRegisters_eq (value : BitVec 64) :
    emitByte ((value >>> 48) &&& 0xff#64) = value.extractLsb' 48 8 := by
  rw [emitByte_and_ff]
  apply BitVec.eq_of_toNat_eq
  simp

private theorem emitSlot_eq (value : BitVec 64) :
    [emitByte (value >>> 56), emitByte ((value >>> 48) &&& 0xff#64)] ++
      emitLEConstant ((value >>> 32) &&& 0xffff#64) 2 ++
      emitLEConstant (value &&& 0xffffFFFF#64) 4 = slotBytes value := by
  rw [emitByte_shift, emitRegisters_eq, emitHalf_eq, emitWord_eq]
  rfl

/-- The second slot of a wide load holds the high half of its immediate. -/
def immSlot (imm : BitVec 64) : BitVec 64 := (imm.extractLsb' 32 32).setWidth 64

def Form.bytes : Form → List Byte
  | LD_IMM64 rA imm =>
      slotBytes (Form.word (.LD_IMM64 rA imm)) ++ slotBytes (immSlot imm.bits)
  | form => slotBytes form.word

private theorem encodeInstruction_of_ne_LD_imm64 {inst : MCInst} {value : BitVec 64}
    {fixups : List MCFixup} (narrow : inst.opcode ≠ .LD_imm64)
    (encoded : getBinaryCodeForInstr inst = .ok (value, fixups)) :
    encodeInstruction inst = .ok (slotBytes value, fixups) := by
  rw [encodeInstruction, if_neg narrow, encoded, ← emitSlot_eq]
  rfl

theorem extract_offset_LD_IMM64 (rA : Reg) (imm : Target) :
    (Form.word (.LD_IMM64 rA imm)).extractLsb' 32 16 = 0 := by
  -- `exact id rfl` states the evaluated side condition with its own type.
  simp (disch := first | exact id rfl | fail) only [Form.word, Form.placed, mode, MC.size, bpfClass,
    extract_assemble_cons_of_avoids, extract_assemble_cons]

private theorem extract_byte_of_half_eq_zero {value : BitVec 64} {lo : Nat}
    (zero : value.extractLsb' lo 16 = 0) :
    value.extractLsb' lo 8 = 0 ∧ value.extractLsb' (lo + 8) 8 = 0 := by
  have bits : ∀ index < 16, value.getLsbD (lo + index) = false := by
    intro index inRange
    have bit := congrArg (fun half => half.getLsbD index) zero
    simpa [inRange] using bit
  constructor
  · apply BitVec.eq_of_getLsbD_eq
    intro index inRange
    simp [bits index (by omega)]
  · apply BitVec.eq_of_getLsbD_eq
    intro index inRange
    simp [Nat.add_assoc, bits (8 + index) (by omega)]

private theorem emitLEConstant_zero_two : emitLEConstant 0 2 = [0, 0] := by rfl

private theorem emitSlot_LD_imm64 {value : BitVec 64} (offset : value.extractLsb' 32 16 = 0) :
    [emitByte (value >>> 56), emitByte ((value >>> 48) &&& 0xff#64)] ++
      emitLEConstant 0 2 ++ emitLEConstant (value &&& 0xffffFFFF#64) 4 =
      slotBytes value := by
  have bytes := extract_byte_of_half_eq_zero offset
  rw [emitByte_shift, emitRegisters_eq, emitLEConstant_zero_two, emitWord_eq, slotBytes,
    bytes.1, bytes.2]
  rfl

private theorem emitSlot_imm (imm : BitVec 64) :
    [emitByte 0, emitByte 0] ++ emitLEConstant 0 2 ++ emitLEConstant (imm >>> 32) 4 =
      slotBytes (immSlot imm) := by
  have high : ∀ lo, 32 ≤ lo → (immSlot imm).extractLsb' lo 8 = 0 := by
    intro lo above
    apply BitVec.eq_of_getLsbD_eq
    intro index inRange
    have outside : ¬lo + index < 32 := by omega
    simp [immSlot, outside]
  have low : ∀ lo, lo + 8 ≤ 32 →
      (imm >>> 32).extractLsb' lo 8 = (immSlot imm).extractLsb' lo 8 := by
    intro lo inside
    apply BitVec.eq_of_getLsbD_eq
    intro index inRange
    have inWord : lo + index < 32 := by omega
    have inDouble : lo + index < 64 := by omega
    simp [immSlot, inRange, inWord, inDouble]
  rw [emitLEConstant_zero_two, emitLEConstant_eq, slotBytes, high 56 (by omega),
    high 48 (by omega), high 40 (by omega), high 32 (by omega), ← low 0 (by omega),
    ← low 8 (by omega), ← low 16 (by omega), ← low 24 (by omega)]
  rfl

private theorem encodeInstruction_LD_IMM64 (rA : Reg) (imm : Target) :
    encodeInstruction (Form.toMCInst (.LD_IMM64 rA imm)) =
      .ok (Form.bytes (.LD_IMM64 rA imm), Form.fixups (.LD_IMM64 rA imm)) := by
  have encoded := Form.getBinaryCodeForInstr_toMCInst (.LD_IMM64 rA imm)
  have first := emitSlot_LD_imm64 (extract_offset_LD_IMM64 rA imm)
  have second := emitSlot_imm imm.bits
  have wide : (Form.toMCInst (.LD_IMM64 rA imm)).opcode = .LD_imm64 := rfl
  rw [encodeInstruction, if_pos wide, encoded, Form.bytes, ← first, ← second]
  cases imm <;>
    simp [Form.toMCInst, MCInst.getOperand, Target.operand, Target.bits, bind,
      Except.bind, pure, Except.pure]

theorem encodeInstruction_toMCInst (form : Form) :
    encodeInstruction form.toMCInst = .ok (form.bytes, form.fixups) := by
  cases form with
  | LD_IMM64 rA imm => exact encodeInstruction_LD_IMM64 rA imm
  | _ =>
      exact encodeInstruction_of_ne_LD_imm64 (by simp [Form.toMCInst])
        (Form.getBinaryCodeForInstr_toMCInst _)

example : encodeInstruction ⟨.XADD .D, [.reg .R3, .reg .R1, .imm 16, .reg .R3]⟩ =
    .ok ([0xdb, 0x31, 0x10, 0, 0, 0, 0, 0], []) := by rfl

end BpfBackend.MC
