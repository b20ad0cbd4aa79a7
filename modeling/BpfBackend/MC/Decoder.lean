import BpfBackend.Foundation.ItemStream
import BpfBackend.MC.Encoding
import Mathlib.Algebra.Order.Ring.Int

/-! # Decoding instruction streams

A reader of the emitted bytes, written from the format classes: the opcode byte
splits into operation, source and class for jumps and ALU instructions, and
into mode, size and class for loads and stores.
-/

namespace BpfBackend.MC

open BitFields ItemStream

/-! ## Slots -/

def readSlot : List Byte → Option (BitVec 64 × List Byte)
  | b0 :: b1 :: b2 :: b3 :: b4 :: b5 :: b6 :: b7 :: rest =>
      some (assemble 64 [⟨56, 8, b0⟩, ⟨48, 8, b1⟩, ⟨32, 8, b2⟩, ⟨40, 8, b3⟩,
        ⟨0, 8, b4⟩, ⟨8, 8, b5⟩, ⟨16, 8, b6⟩, ⟨24, 8, b7⟩], rest)
  | _ => none

@[simp] theorem readSlot_slotBytes (word : BitVec 64) (rest : List Byte) :
    readSlot (slotBytes word ++ rest) = some (word, rest) := by
  have whole : assemble 64 (pieces word [(56, 8), (48, 8), (32, 8), (40, 8), (0, 8),
      (8, 8), (16, 8), (24, 8)]) = word := by
    apply assemble_pieces
    intro index inRange
    simp only [List.mem_cons, List.not_mem_nil, or_false, exists_eq_or_imp,
      exists_eq_left]
    omega
  exact congrArg (fun word => some (word, rest)) whole

def slotClass (word : BitVec 64) : BitVec 3 := word.extractLsb' 56 3
def slotOp (word : BitVec 64) : BitVec 4 := word.extractLsb' 60 4
def slotSrc (word : BitVec 64) : BitVec 1 := word.extractLsb' 59 1
def slotMode (word : BitVec 64) : BitVec 3 := word.extractLsb' 61 3
def slotSize (word : BitVec 64) : BitVec 2 := word.extractLsb' 59 2
def slotLow (word : BitVec 64) : BitVec 4 := word.extractLsb' 48 4
def slotHigh (word : BitVec 64) : BitVec 4 := word.extractLsb' 52 4
def slotOffset (word : BitVec 64) : BitVec 16 := word.extractLsb' 32 16
def slotImm (word : BitVec 64) : BitVec 32 := word.extractLsb' 0 32

/-! ## Opcodes and registers from their bits -/

def Reg.ofNibble : BitVec 4 → Option Reg
  | 0 => some R0
  | 1 => some R1
  | 2 => some R2
  | 3 => some R3
  | 4 => some R4
  | 5 => some R5
  | 6 => some R6
  | 7 => some R7
  | 8 => some R8
  | 9 => some R9
  | 10 => some R10
  | 11 => some R11
  | _ => none

def JccOp.ofBits : BitVec 4 → Option JccOp
  | 0x1 => some JEQ
  | 0x2 => some JUGT
  | 0x3 => some JUGE
  | 0x5 => some JNE
  | 0x6 => some JSGT
  | 0x7 => some JSGE
  | _ => none

def AluOp.ofBits : BitVec 4 → Option AluOp
  | 0x0 => some ADD
  | 0x1 => some SUB
  | 0x2 => some MUL
  | 0x3 => some DIV
  | 0x4 => some OR
  | 0x5 => some AND
  | 0x6 => some SLL
  | 0x7 => some SRL
  | 0xa => some XOR
  | 0xc => some SRA
  | _ => none

def SizeOp.ofBits : BitVec 2 → SizeOp
  | 0x0 => W
  | 0x1 => H
  | 0x2 => B
  | _ => D

@[simp] theorem Reg.ofNibble_nibble (register : Reg) :
    Reg.ofNibble register.nibble = some register := by
  cases register <;> rfl

@[simp] theorem Reg.ofNibble_zero : Reg.ofNibble 0#4 = some R0 := rfl

@[simp] theorem JccOp.ofBits_br_op (jcc : JccOp) : JccOp.ofBits jcc.br_op = some jcc := by
  cases jcc <;> rfl

@[simp] theorem AluOp.ofBits_aluOp (alu : AluOp) : AluOp.ofBits alu.aluOp = some alu := by
  cases alu <;> rfl

@[simp] theorem SizeOp.ofBits_sizeOp (size : SizeOp) :
    SizeOp.ofBits size.sizeOp = size := by
  cases size <;> rfl

/-! ## Instructions -/

def signedOffset (word : BitVec 64) : MCOperand :=
  .imm ((slotOffset word).signExtend 64)

def signedImm (word : BitVec 64) : MCOperand :=
  .imm ((slotImm word).signExtend 64)

def decodeJump (word : BitVec 64) : Option MCInst :=
  if slotOp word = 0x0 then
    some ⟨.JMP, [signedOffset word]⟩
  else if slotOp word = 0x8 then
    some ⟨.JAL, [signedImm word]⟩
  else if slotOp word = 0x9 then
    some ⟨.RET, []⟩
  else do
    let jcc ← JccOp.ofBits (slotOp word)
    let rA ← Reg.ofNibble (slotLow word)
    if slotSrc word = 1 then
      let rX ← Reg.ofNibble (slotHigh word)
      some ⟨.J_rr jcc, [.reg rA, .reg rX, signedOffset word]⟩
    else
      some ⟨.J_ri jcc, [.reg rA, signedImm word, signedOffset word]⟩

def decodeAlu64 (word : BitVec 64) : Option MCInst := do
  let rA ← Reg.ofNibble (slotLow word)
  if slotOp word = 0xb then
    if slotSrc word = 1 then
      let rX ← Reg.ofNibble (slotHigh word)
      some ⟨.MOV_rr, [.reg rA, .reg rX]⟩
    else
      some ⟨.MOV_ri, [.reg rA, signedImm word]⟩
  else
    let alu ← AluOp.ofBits (slotOp word)
    if slotSrc word = 1 then
      let rX ← Reg.ofNibble (slotHigh word)
      some ⟨.ALU_rr alu, [.reg rA, .reg rA, .reg rX]⟩
    else
      some ⟨.ALU_ri alu, [.reg rA, .reg rA, signedImm word]⟩

def decodeLoad (word : BitVec 64) : Option MCInst := do
  let rA ← Reg.ofNibble (slotLow word)
  let base ← Reg.ofNibble (slotHigh word)
  if slotMode word = 3 then
    some ⟨.LD (SizeOp.ofBits (slotSize word)), [.reg rA, .reg base, signedOffset word]⟩
  else
    none

def decodeStore (word : BitVec 64) : Option MCInst := do
  let rX ← Reg.ofNibble (slotHigh word)
  let base ← Reg.ofNibble (slotLow word)
  if slotMode word = 3 then
    some ⟨.ST (SizeOp.ofBits (slotSize word)), [.reg rX, .reg base, signedOffset word]⟩
  else if slotMode word = 6 then
    some ⟨.XADD (SizeOp.ofBits (slotSize word)),
      [.reg rX, .reg base, signedOffset word, .reg rX]⟩
  else
    none

def decodeSlot (word : BitVec 64) : Option MCInst :=
  if slotClass word = 5 then decodeJump word
  else if slotClass word = 7 then decodeAlu64 word
  else if slotClass word = 1 then decodeLoad word
  else if slotClass word = 3 then decodeStore word
  else none

def isWide (word : BitVec 64) : Bool :=
  slotClass word = 0 && slotMode word = 0 && slotSize word = 3

def decodeInst (bytes : List Byte) : Option (MCInst × List Byte) := do
  let (word, rest) ← readSlot bytes
  if isWide word then
    let (second, rest) ← readSlot rest
    let rA ← Reg.ofNibble (slotLow word)
    some (⟨.LD_imm64, [.reg rA, .imm (slotImm second ++ slotImm word)]⟩, rest)
  else
    let inst ← decodeSlot word
    some (inst, rest)

def decodeStream : List Byte → Option (List MCInst) := readAll decodeInst

/-! ## Decoding the bytes of a form -/

def signExtend16 (value : BitVec 64) : BitVec 64 := (value.setWidth 16).signExtend 64
def signExtend32 (value : BitVec 64) : BitVec 64 := (value.setWidth 32).signExtend 64

theorem setWidth_signExtend {bits : Nat} (narrow : bits ≤ 64) (low : BitVec bits) :
    (low.signExtend 64).setWidth bits = low := by
  apply BitVec.eq_of_getElem_eq
  intro index inRange
  have inRegister : index < 64 := Nat.lt_of_lt_of_le inRange narrow
  simp [BitVec.getElem_signExtend, inRange, inRegister]

def isInt (bits : Nat) (value : BitVec 64) : Bool :=
  -(2 ^ (bits - 1) : Int) ≤ value.toInt ∧ value.toInt < 2 ^ (bits - 1)

theorem isInt_iff {bits : Nat} (positive : 0 < bits) (narrow : bits ≤ 64) (value : BitVec 64) :
    isInt bits value = true ↔ (value.setWidth bits).signExtend 64 = value := by
  have extended : ((value.setWidth bits).signExtend 64).toInt = value.toInt.bmod (2 ^ bits) := by
    rw [BitVec.toInt_signExtend_of_le narrow, BitVec.toInt_setWidth,
      BitVec.toInt_eq_toNat_bmod]
    exact (Int.bmod_bmod_of_dvd (Nat.pow_dvd_pow 2 narrow)).symm
  have doubled : 2 ^ bits = 2 * 2 ^ (bits - 1) := by
    rw [← Nat.pow_succ', Nat.succ_eq_add_one, Nat.sub_add_cancel positive]
  rw [← BitVec.toInt_inj, extended, Int.bmod_eq_iff (Nat.two_pow_pos bits), doubled]
  have half : ((2 : Int) ^ (bits - 1)) = ((2 ^ (bits - 1) : Nat) : Int) := by push_cast; rfl
  simp only [isInt, half, decide_eq_true_eq, Int.sub_self]
  constructor
  · intro fits
    exact ⟨by omega, by omega, Int.dvd_zero _⟩
  · intro fits
    omega

theorem signExtend16_of_isInt {value : BitVec 64} (fits : isInt 16 value = true) :
    signExtend16 value = value :=
  (isInt_iff (by decide) (by decide) value).mp fits

theorem signExtend32_of_isInt {value : BitVec 64} (fits : isInt 32 value = true) :
    signExtend32 value = value :=
  (isInt_iff (by decide) (by decide) value).mp fits

/-- The instruction that the bytes of a form denote. -/
def Form.decoded : Form → MCInst
  | JMP_RR jcc rA rX dst => ⟨.J_rr jcc, [.reg rA, .reg rX, .imm (signExtend16 dst.bits)]⟩
  | JMP_RI jcc rA imm dst =>
      ⟨.J_ri jcc, [.reg rA, .imm (signExtend32 imm), .imm (signExtend16 dst.bits)]⟩
  | ALU_RR alu rA rX => ⟨.ALU_rr alu, [.reg rA, .reg rA, .reg rX]⟩
  | ALU_RI alu rA imm => ⟨.ALU_ri alu, [.reg rA, .reg rA, .imm (signExtend32 imm)]⟩
  | MOV_RR rA rX => ⟨.MOV_rr, [.reg rA, .reg rX]⟩
  | MOV_RI rA imm => ⟨.MOV_ri, [.reg rA, .imm (signExtend32 imm)]⟩
  | LD_IMM64 rA imm => ⟨.LD_imm64, [.reg rA, .imm imm.bits]⟩
  | STORE size rX base offset =>
      ⟨.ST size, [.reg rX, .reg base, .imm (signExtend16 offset)]⟩
  | LOAD size rA base offset =>
      ⟨.LD size, [.reg rA, .reg base, .imm (signExtend16 offset)]⟩
  | BRANCH dst => ⟨.JMP, [.imm (signExtend16 dst.bits)]⟩
  | CALL dst => ⟨.JAL, [.imm (signExtend32 dst.bits)]⟩
  | NOP_I _ => ⟨.MOV_rr, [.reg .R0, .reg .R0]⟩
  | RET => ⟨.RET, []⟩
  | XADD size dst base offset =>
      ⟨.XADD size, [.reg dst, .reg base, .imm (signExtend16 offset), .reg dst]⟩

section OpcodeBits

variable (jcc : JccOp) (alu : AluOp)

@[simp] theorem JccOp.br_op_ne_JMP : jcc.br_op ≠ 0x0#4 := by cases jcc <;> decide

@[simp] theorem JccOp.br_op_ne_JAL : jcc.br_op ≠ 0x8#4 := by cases jcc <;> decide

@[simp] theorem JccOp.br_op_ne_RET : jcc.br_op ≠ 0x9#4 := by cases jcc <;> decide

@[simp] theorem AluOp.aluOp_ne_MOV : alu.aluOp ≠ 0xb#4 := by cases alu <;> decide

end OpcodeBits

theorem Form.decodeSlot_word (form : Form)
    (narrow : form.toMCInst.opcode ≠ .LD_imm64) :
    isWide form.word = false ∧ decodeSlot form.word = some form.decoded := by
  cases form
  case LD_IMM64 rA imm => exact absurd rfl narrow
  all_goals
    -- Side conditions compare positions; `id` states each evaluated one.
    constructor <;>
      simp (disch := first | exact id rfl | fail) [word, placed, isWide, decodeSlot, decodeJump,
        decodeAlu64, decodeLoad, decodeStore, slotClass, slotOp, slotSrc, slotMode,
        slotSize, slotLow, slotHigh, slotOffset, slotImm, signedOffset, signedImm,
        op, src, mode, MC.size, bpfClass, extract_assemble_cons_of_avoids,
        extract_assemble_cons, decoded, signExtend16, signExtend32]

private theorem Form.slots_LD_IMM64 (rA : Reg) (imm : Target) :
    isWide (Form.word (.LD_IMM64 rA imm)) = true ∧
      slotLow (Form.word (.LD_IMM64 rA imm)) = rA.nibble ∧
      slotImm (Form.word (.LD_IMM64 rA imm)) = imm.bits.setWidth 32 := by
  refine ⟨?_, ?_, ?_⟩ <;>
    simp (disch := first | exact id rfl | fail) [word, placed, isWide, slotClass, slotMode,
      slotSize, slotLow, slotImm, mode, MC.size, bpfClass, extract_assemble_cons_of_avoids,
      extract_assemble_cons]

theorem slotImm_immSlot (imm : BitVec 64) : slotImm (immSlot imm) = imm.extractLsb' 32 32 := by
  ext index inRange
  have inDouble : index < 64 := by omega
  simp [slotImm, immSlot, inRange, inDouble]

private theorem append_halves (imm : BitVec 64) :
    imm.extractLsb' 32 32 ++ imm.setWidth 32 = imm := by
  rw [BitVec.setWidth_eq_extractLsb' (by decide)]
  have joined : imm.extractLsb' 32 32 ++ imm.extractLsb' 0 32 = imm.extractLsb' 0 64 :=
    BitVec.extractLsb'_append_extractLsb'_eq_extractLsb' rfl
  exact joined.trans BitVec.extractLsb'_eq_self

private theorem decodeInst_narrow (form : Form) (narrow : form.toMCInst.opcode ≠ .LD_imm64)
    (rest : List Byte) :
    decodeInst (slotBytes form.word ++ rest) = some (form.decoded, rest) := by
  have slot := form.decodeSlot_word narrow
  simp [decodeInst, slot]

private theorem decodeInst_LD_IMM64 (rA : Reg) (imm : Target) (rest : List Byte) :
    decodeInst (Form.bytes (.LD_IMM64 rA imm) ++ rest) =
      some (Form.decoded (.LD_IMM64 rA imm), rest) := by
  have slots := Form.slots_LD_IMM64 rA imm
  simp [decodeInst, Form.bytes, slots, slotImm_immSlot, append_halves, Form.decoded]

theorem decodeInst_bytes (form : Form) (rest : List Byte) :
    decodeInst (form.bytes ++ rest) = some (form.decoded, rest) := by
  cases form with
  | LD_IMM64 rA imm => exact decodeInst_LD_IMM64 rA imm rest
  | _ => exact decodeInst_narrow _ (by simp [Form.toMCInst]) rest

/-! ## Unused fields -/

/-- The fields of a slot that an instruction need not use. A load or a store has
no source bit: the bit belongs to the size of the access. -/
inductive SlotField where
  | source | low | high | offset | imm
  deriving DecidableEq, Repr

def SlotField.isZero (word : BitVec 64) : SlotField → Prop
  | source => slotSrc word = 0
  | low => slotLow word = 0
  | high => slotHigh word = 0
  | offset => slotOffset word = 0
  | imm => slotImm word = 0

def Opcode.usedFields : Opcode → List SlotField
  | J_rr _ => [.source, .low, .high, .offset]
  | J_ri _ => [.source, .low, .offset, .imm]
  | ALU_rr _ | MOV_rr => [.source, .low, .high]
  | ALU_ri _ | MOV_ri | LD_imm64 => [.source, .low, .imm]
  | ST _ | LD _ | XADD _ => [.source, .low, .high, .offset]
  | JMP => [.offset]
  | JAL => [.imm]
  | NOP => [.source]
  | RET | ADJCALLSTACKDOWN | ADJCALLSTACKUP | Select => []

def CanonicalSlot (opcode : Opcode) (word : BitVec 64) : Prop :=
  ∀ field : SlotField, field ∉ opcode.usedFields → field.isZero word

/-- The bytes of an instruction hold nothing that it does not use; a second slot
holds nothing above its immediate. -/
def CanonicalInst (opcode : Opcode) (bytes : List Byte) : Prop :=
  ∃ word rest, readSlot bytes = some (word, rest) ∧ CanonicalSlot opcode word ∧
    (rest = [] ∨ ∃ second, readSlot rest = some (second, []) ∧
      second.extractLsb' 32 32 = 0)

theorem Form.canonicalSlot_word (form : Form) :
    CanonicalSlot form.toMCInst.opcode form.word := by
  intro field unused
  cases form <;> cases field <;>
    simp [toMCInst, Opcode.usedFields] at unused <;>
    simp (disch := first | exact id rfl | fail) [SlotField.isZero, word, placed, slotSrc, slotLow,
      slotHigh, slotOffset, slotImm, op, src, mode, MC.size, bpfClass,
      extract_assemble_cons_of_avoids, extract_assemble_cons]

theorem extract_immSlot (imm : BitVec 64) : (immSlot imm).extractLsb' 32 32 = 0 := by
  ext index inRange
  simp [immSlot]

theorem readSlot_slotBytes_self (word : BitVec 64) :
    readSlot (slotBytes word) = some (word, []) := by
  have read := readSlot_slotBytes word []
  rwa [List.append_nil] at read

theorem Form.canonicalInst_of_slot {opcode : Opcode} (form : Form)
    (canonical : CanonicalSlot opcode form.word) : CanonicalInst opcode form.bytes := by
  cases form with
  | LD_IMM64 rA imm =>
      exact ⟨_, _, readSlot_slotBytes _ _, canonical,
        .inr ⟨_, readSlot_slotBytes_self _, extract_immSlot imm.bits⟩⟩
  | _ => exact ⟨_, [], readSlot_slotBytes_self _, canonical, .inl rfl⟩

theorem Form.canonicalInst (form : Form) : CanonicalInst form.toMCInst.opcode form.bytes :=
  form.canonicalInst_of_slot form.canonicalSlot_word

end BpfBackend.MC
