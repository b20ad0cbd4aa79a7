import BpfBackend.MC.InstructionStream

/-! # Streams that the emitter writes

The bytes that read as instructions, and those among them that the emitter
writes: every field that an instruction does not use is zero.
-/

namespace BpfBackend.MC

open BitFields ItemStream

/-! ## Codes from their bits -/

private theorem Reg.nibble_of_ofNibble {bits : BitVec 4} {register : Reg}
    (reads : Reg.ofNibble bits = some register) : register.nibble = bits := by
  unfold ofNibble at reads
  split at reads <;> cases reads <;> rfl

private theorem JccOp.br_op_of_ofBits {bits : BitVec 4} {jcc : JccOp}
    (reads : JccOp.ofBits bits = some jcc) : jcc.br_op = bits := by
  unfold ofBits at reads
  split at reads <;> cases reads <;> rfl

private theorem AluOp.aluOp_of_ofBits {bits : BitVec 4} {alu : AluOp}
    (reads : AluOp.ofBits bits = some alu) : alu.aluOp = bits := by
  unfold ofBits at reads
  split at reads <;> cases reads <;> rfl

private theorem SizeOp.sizeOp_ofBits (bits : BitVec 2) : (SizeOp.ofBits bits).sizeOp = bits := by
  revert bits
  decide

/-! ## Slots -/

/-- The fields of a slot. The code is the operation and the source of a jump or
an ALU instruction, and the mode and the size of a memory access. -/
structure SlotContents where
  cls : BitVec 3
  code : BitVec 5
  low : BitVec 4
  high : BitVec 4
  offset : BitVec 16
  imm : BitVec 32

def slotCode (word : BitVec 64) : BitVec 5 := word.extractLsb' 59 5

private theorem slotCode_eq_op (word : BitVec 64) :
    slotCode word = slotOp word ++ slotSrc word := by
  have joined : word.extractLsb' 60 4 ++ word.extractLsb' 59 1 = word.extractLsb' 59 5 :=
    BitVec.extractLsb'_append_extractLsb'_eq_extractLsb' rfl
  exact joined.symm

private theorem slotCode_eq_mode (word : BitVec 64) :
    slotCode word = slotMode word ++ slotSize word := by
  have joined : word.extractLsb' 61 3 ++ word.extractLsb' 59 2 = word.extractLsb' 59 5 :=
    BitVec.extractLsb'_append_extractLsb'_eq_extractLsb' rfl
  exact joined.symm

def slotContents (word : BitVec 64) : SlotContents :=
  ⟨slotClass word, slotCode word, slotLow word, slotHigh word, slotOffset word, slotImm word⟩

private theorem eq_of_slotContents {left right : BitVec 64}
    (same : slotContents left = slotContents right) : left = right := by
  simp only [slotContents, SlotContents.mk.injEq] at same
  apply eq_of_extracts [(56, 3), (59, 5), (48, 4), (52, 4), (32, 16), (0, 32)]
  · simp only [List.mem_cons, List.not_mem_nil, or_false, exists_eq_or_imp, exists_eq_left]
    omega
  · simp only [List.forall_mem_cons, List.not_mem_nil, false_implies, implies_true, and_true]
    exact same

def Form.contents : Form → SlotContents
  | JMP_RR jcc rA rX dst =>
      ⟨5, jcc.br_op ++ 1#1, rA.nibble, rX.nibble, dst.bits.setWidth 16, 0⟩
  | JMP_RI jcc rA imm dst =>
      ⟨5, jcc.br_op ++ 0#1, rA.nibble, 0, dst.bits.setWidth 16, imm.setWidth 32⟩
  | ALU_RR alu rA rX => ⟨7, alu.aluOp ++ 1#1, rA.nibble, rX.nibble, 0, 0⟩
  | ALU_RI alu rA imm => ⟨7, alu.aluOp ++ 0#1, rA.nibble, 0, 0, imm.setWidth 32⟩
  | MOV_RR rA rX => ⟨7, 0xb#4 ++ 1#1, rA.nibble, rX.nibble, 0, 0⟩
  | MOV_RI rA imm => ⟨7, 0xb#4 ++ 0#1, rA.nibble, 0, 0, imm.setWidth 32⟩
  | LD_IMM64 rA imm => ⟨0, 0#3 ++ 3#2, rA.nibble, 0, 0, imm.bits.setWidth 32⟩
  | STORE size rX base offset =>
      ⟨3, 3#3 ++ size.sizeOp, base.nibble, rX.nibble, offset.setWidth 16, 0⟩
  | LOAD size rA base offset =>
      ⟨1, 3#3 ++ size.sizeOp, rA.nibble, base.nibble, offset.setWidth 16, 0⟩
  | BRANCH dst => ⟨5, 0#4 ++ 0#1, 0, 0, dst.bits.setWidth 16, 0⟩
  | CALL dst => ⟨5, 8#4 ++ 0#1, 0, 0, 0, dst.bits.setWidth 32⟩
  | NOP_I _ => ⟨7, 0xb#4 ++ 1#1, 0, 0, 0, 0⟩
  | RET => ⟨5, 9#4 ++ 0#1, 0, 0, 0, 0⟩
  | XADD size dst base offset =>
      ⟨3, 6#3 ++ size.sizeOp, base.nibble, dst.nibble, offset.setWidth 16, 0⟩

private theorem Form.slotContents_word (form : Form) : slotContents form.word = form.contents := by
  cases form
  case STORE | LOAD | XADD | LD_IMM64 =>
    all_goals
      simp (disch := first | exact id rfl | fail) [slotContents, slotCode_eq_mode, contents,
        word, placed, slotClass, slotMode, slotSize, slotLow, slotHigh, slotOffset, slotImm,
        mode, MC.size, bpfClass, extract_assemble_cons_of_avoids, extract_assemble_cons]
  all_goals
    simp (disch := first | exact id rfl | fail) [slotContents, slotCode_eq_op, contents, word,
      placed, slotClass, slotOp, slotSrc, slotLow, slotHigh, slotOffset, slotImm, op, src,
      bpfClass, extract_assemble_cons_of_avoids, extract_assemble_cons]

/-! ## Forms from slots -/

private theorem CanonicalSlot.zeros {opcode : Opcode} {word : BitVec 64}
    (canonical : CanonicalSlot opcode word) :
    (.source ∉ opcode.usedFields → slotSrc word = 0) ∧
      (.low ∉ opcode.usedFields → slotLow word = 0) ∧
      (.high ∉ opcode.usedFields → slotHigh word = 0) ∧
      (.offset ∉ opcode.usedFields → slotOffset word = 0) ∧
      (.imm ∉ opcode.usedFields → slotImm word = 0) :=
  ⟨canonical .source, canonical .low, canonical .high, canonical .offset, canonical .imm⟩

/-- The instruction that a slot reads as is a form. If the slot is canonical, it
is the slot of this form. -/
structure Form.ReadFrom (form : Form) (word : BitVec 64) (inst : MCInst) : Prop where
  toMCInst : form.toMCInst = inst
  decoded : form.decoded = inst
  narrow : inst.opcode ≠ .LD_imm64
  concrete : inst.operands.all MCOperand.isConcrete = true
  contents : CanonicalSlot inst.opcode word → form.contents = slotContents word

@[simp] theorem setWidth_signedOffset (word : BitVec 64) :
    ((slotOffset word).signExtend 64).setWidth 16 = slotOffset word :=
  setWidth_signExtend (by decide) (slotOffset word)

@[simp] theorem setWidth_signedImm (word : BitVec 64) :
    ((slotImm word).signExtend 64).setWidth 32 = slotImm word :=
  setWidth_signExtend (by decide) (slotImm word)

section Slots

variable {word : BitVec 64} {inst : MCInst}

private theorem source_of_ne_one (register : slotSrc word ≠ 1) : slotSrc word = 0 := by
  generalize slotSrc word = bit at register
  revert register
  revert bit
  decide

private theorem decodeJump_forms (cls : slotClass word = 5) (reads : decodeJump word = some inst) :
    ∃ form : Form, form.ReadFrom word inst := by
  unfold decodeJump at reads
  split at reads
  · rename_i operation
    cases reads
    refine ⟨.BRANCH (.imm ((slotOffset word).signExtend 64)), rfl, ?_, by simp, rfl, ?_⟩
    · simp [Form.decoded, Target.bits, signExtend16, signedOffset]
    · intro canonical
      have zeros := canonical.zeros
      simp [Opcode.usedFields] at zeros
      simp [Form.contents, slotContents, slotCode_eq_op, cls, operation, zeros, Target.bits]
  · split at reads
    · rename_i operation
      cases reads
      refine ⟨.CALL (.imm ((slotImm word).signExtend 64)), rfl, ?_, by simp, rfl, ?_⟩
      · simp [Form.decoded, Target.bits, signExtend32, signedImm]
      · intro canonical
        have zeros := canonical.zeros
        simp [Opcode.usedFields] at zeros
        simp [Form.contents, slotContents, slotCode_eq_op, cls, operation, zeros, Target.bits]
    · split at reads
      · rename_i operation
        cases reads
        refine ⟨.RET, rfl, rfl, by simp, rfl, ?_⟩
        intro canonical
        have zeros := canonical.zeros
        simp [Opcode.usedFields] at zeros
        simp [Form.contents, slotContents, slotCode_eq_op, cls, operation, zeros]
      · rcases Option.bind_eq_some_iff.mp reads with ⟨jcc, condition, reads⟩
        rcases Option.bind_eq_some_iff.mp reads with ⟨rA, first, reads⟩
        have operation := JccOp.br_op_of_ofBits condition
        have left := Reg.nibble_of_ofNibble first
        split at reads
        · rename_i source
          rcases Option.bind_eq_some_iff.mp reads with ⟨rX, second, reads⟩
          have right := Reg.nibble_of_ofNibble second
          cases reads
          refine ⟨.JMP_RR jcc rA rX (.imm ((slotOffset word).signExtend 64)), rfl, ?_, by simp,
            rfl, ?_⟩
          · simp [Form.decoded, Target.bits, signExtend16, signedOffset]
          · intro canonical
            have zeros := canonical.zeros
            simp [Opcode.usedFields] at zeros
            simp [Form.contents, slotContents, slotCode_eq_op, cls, operation, source, left,
              right, zeros, Target.bits]
        · rename_i register
          have source := source_of_ne_one register
          cases reads
          refine ⟨.JMP_RI jcc rA ((slotImm word).signExtend 64)
            (.imm ((slotOffset word).signExtend 64)), rfl, ?_, by simp, rfl, ?_⟩
          · simp [Form.decoded, Target.bits, signExtend16, signExtend32, signedOffset, signedImm]
          · intro canonical
            have zeros := canonical.zeros
            simp [Opcode.usedFields] at zeros
            simp [Form.contents, slotContents, slotCode_eq_op, cls, operation, source, left,
              zeros, Target.bits]

private theorem decodeAlu64_forms (cls : slotClass word = 7)
    (reads : decodeAlu64 word = some inst) :
    ∃ form : Form, form.ReadFrom word inst := by
  rcases Option.bind_eq_some_iff.mp reads with ⟨rA, first, reads⟩
  have left := Reg.nibble_of_ofNibble first
  split at reads
  · rename_i operation
    split at reads
    · rename_i source
      rcases Option.bind_eq_some_iff.mp reads with ⟨rX, second, reads⟩
      have right := Reg.nibble_of_ofNibble second
      cases reads
      refine ⟨.MOV_RR rA rX, rfl, rfl, by simp, rfl, ?_⟩
      intro canonical
      have zeros := canonical.zeros
      simp [Opcode.usedFields] at zeros
      simp [Form.contents, slotContents, slotCode_eq_op, cls, operation, source, left, right,
        zeros]
    · rename_i register
      have source := source_of_ne_one register
      cases reads
      refine ⟨.MOV_RI rA ((slotImm word).signExtend 64), rfl, ?_, by simp, rfl, ?_⟩
      · simp [Form.decoded, signExtend32, signedImm]
      · intro canonical
        have zeros := canonical.zeros
        simp [Opcode.usedFields] at zeros
        simp [Form.contents, slotContents, slotCode_eq_op, cls, operation, source, left, zeros]
  · rcases Option.bind_eq_some_iff.mp reads with ⟨alu, code, reads⟩
    have operation := AluOp.aluOp_of_ofBits code
    split at reads
    · rename_i source
      rcases Option.bind_eq_some_iff.mp reads with ⟨rX, second, reads⟩
      have right := Reg.nibble_of_ofNibble second
      cases reads
      refine ⟨.ALU_RR alu rA rX, rfl, rfl, by simp, rfl, ?_⟩
      intro canonical
      have zeros := canonical.zeros
      simp [Opcode.usedFields] at zeros
      simp [Form.contents, slotContents, slotCode_eq_op, cls, operation, source, left, right,
        zeros]
    · rename_i register
      have source := source_of_ne_one register
      cases reads
      refine ⟨.ALU_RI alu rA ((slotImm word).signExtend 64), rfl, ?_, by simp, rfl, ?_⟩
      · simp [Form.decoded, signExtend32, signedImm]
      · intro canonical
        have zeros := canonical.zeros
        simp [Opcode.usedFields] at zeros
        simp [Form.contents, slotContents, slotCode_eq_op, cls, operation, source, left, zeros]

private theorem decodeLoad_forms (cls : slotClass word = 1) (reads : decodeLoad word = some inst) :
    ∃ form : Form, form.ReadFrom word inst := by
  rcases Option.bind_eq_some_iff.mp reads with ⟨rA, first, reads⟩
  rcases Option.bind_eq_some_iff.mp reads with ⟨base, second, reads⟩
  have register := Reg.nibble_of_ofNibble first
  have address := Reg.nibble_of_ofNibble second
  have size := SizeOp.sizeOp_ofBits (slotSize word)
  split at reads
  · rename_i mode
    cases reads
    refine ⟨.LOAD (SizeOp.ofBits (slotSize word)) rA base ((slotOffset word).signExtend 64), rfl,
      ?_, by simp, rfl, ?_⟩
    · simp [Form.decoded, signExtend16, signedOffset]
    · intro canonical
      have zeros := canonical.zeros
      simp [Opcode.usedFields] at zeros
      simp [Form.contents, slotContents, slotCode_eq_mode, cls, mode, size, register, address,
        zeros]
  · cases reads

private theorem decodeStore_forms (cls : slotClass word = 3)
    (reads : decodeStore word = some inst) :
    ∃ form : Form, form.ReadFrom word inst := by
  rcases Option.bind_eq_some_iff.mp reads with ⟨rX, first, reads⟩
  rcases Option.bind_eq_some_iff.mp reads with ⟨base, second, reads⟩
  have register := Reg.nibble_of_ofNibble first
  have address := Reg.nibble_of_ofNibble second
  have size := SizeOp.sizeOp_ofBits (slotSize word)
  split at reads
  · rename_i mode
    cases reads
    refine ⟨.STORE (SizeOp.ofBits (slotSize word)) rX base ((slotOffset word).signExtend 64), rfl,
      ?_, by simp, rfl, ?_⟩
    · simp [Form.decoded, signExtend16, signedOffset]
    · intro canonical
      have zeros := canonical.zeros
      simp [Opcode.usedFields] at zeros
      simp [Form.contents, slotContents, slotCode_eq_mode, cls, mode, size, register, address,
        zeros]
  · split at reads
    · rename_i mode
      cases reads
      refine ⟨.XADD (SizeOp.ofBits (slotSize word)) rX base ((slotOffset word).signExtend 64), rfl,
        ?_, by simp, rfl, ?_⟩
      · simp [Form.decoded, signExtend16, signedOffset]
      · intro canonical
        have zeros := canonical.zeros
        simp [Opcode.usedFields] at zeros
        simp [Form.contents, slotContents, slotCode_eq_mode, cls, mode, size, register, address,
          zeros]
    · cases reads

private theorem decodeSlot_forms (reads : decodeSlot word = some inst) :
    ∃ form : Form, form.ReadFrom word inst := by
  unfold decodeSlot at reads
  split at reads
  · exact decodeJump_forms ‹_› reads
  · split at reads
    · exact decodeAlu64_forms ‹_› reads
    · split at reads
      · exact decodeLoad_forms ‹_› reads
      · split at reads
        · exact decodeStore_forms ‹_› reads
        · cases reads

end Slots

/-! ## Instructions from bytes -/

private theorem eq_of_readSlot {bytes rest : List Byte} {word : BitVec 64}
    (reads : readSlot bytes = some (word, rest)) : bytes = slotBytes word ++ rest := by
  unfold readSlot at reads
  split at reads
  · cases reads
    simp (disch := first | exact id rfl | fail) [slotBytes, extract_assemble_cons_of_avoids,
      extract_assemble_cons]
  · cases reads

private theorem decodeInst_cases {bytes rest : List Byte} {inst : MCInst}
    (reads : decodeInst bytes = some (inst, rest)) :
    (∃ word, isWide word = false ∧ decodeSlot word = some inst ∧
      bytes = slotBytes word ++ rest) ∨
    ∃ word second rA, isWide word = true ∧ Reg.ofNibble (slotLow word) = some rA ∧
      inst = ⟨.LD_imm64, [.reg rA, .imm (slotImm second ++ slotImm word)]⟩ ∧
      bytes = slotBytes word ++ (slotBytes second ++ rest) := by
  unfold decodeInst at reads
  rcases Option.bind_eq_some_iff.mp reads with ⟨⟨word, afterFirst⟩, first, reads⟩
  dsimp only at reads
  split at reads
  · rename_i wide
    rcases Option.bind_eq_some_iff.mp reads with ⟨⟨second, afterSecond⟩, last, reads⟩
    rcases Option.bind_eq_some_iff.mp reads with ⟨rA, register, reads⟩
    cases reads
    right
    refine ⟨word, second, rA, wide, register, rfl, ?_⟩
    rw [eq_of_readSlot first, eq_of_readSlot last]
  · rename_i narrow
    rcases Option.bind_eq_some_iff.mp reads with ⟨decoded, slot, reads⟩
    cases reads
    left
    exact ⟨word, by simpa using narrow, slot, eq_of_readSlot first⟩

theorem Form.canonicalSlot_decoded (form : Form) :
    CanonicalSlot form.decoded.opcode form.word := by
  have canonical := form.canonicalSlot_word
  cases form with
  | NOP_I imm =>
      intro field unused
      apply canonical field
      intro used
      rw [List.mem_singleton.mp used] at unused
      exact unused List.mem_cons_self
  | _ => exact canonical

/-- The form is the instruction that the bytes read as. The emitter writes as
many bytes for it, and the same ones if the bytes are canonical. -/
structure Form.ReadFromBytes (form : Form) (inst : MCInst) (bytes : List Byte) : Prop where
  toMCInst : form.toMCInst = inst
  decoded : form.decoded = inst
  concrete : inst.operands.all MCOperand.isConcrete = true
  length : form.bytes.length = bytes.length
  bytes_eq : CanonicalInst inst.opcode bytes → form.bytes = bytes

private theorem Form.bytes_of_narrow {form : Form} (narrow : form.toMCInst.opcode ≠ .LD_imm64) :
    form.bytes = slotBytes form.word := by
  cases form
  case LD_IMM64 => exact absurd rfl narrow
  all_goals rfl

theorem Form.ReadFrom.bytes {form : Form} {word : BitVec 64} {inst : MCInst}
    (slot : form.ReadFrom word inst) : form.ReadFromBytes inst (slotBytes word) := by
  have narrow : form.toMCInst.opcode ≠ .LD_imm64 := by rw [slot.toMCInst]; exact slot.narrow
  have written := Form.bytes_of_narrow narrow
  refine ⟨slot.toMCInst, slot.decoded, slot.concrete, ?_, ?_⟩
  · rw [written, slotBytes_length, slotBytes_length]
  · rintro ⟨other, rest, reads, canonical, -⟩
    rw [readSlot_slotBytes_self] at reads
    cases reads
    rw [written]
    apply congrArg slotBytes
    apply eq_of_slotContents
    rw [form.slotContents_word, slot.contents canonical]

private theorem immSlot_of_high_eq_zero {second : BitVec 64} (low : BitVec 32)
    (high : second.extractLsb' 32 32 = 0) : immSlot (slotImm second ++ low) = second := by
  apply eq_of_extracts [(0, 32), (32, 32)]
  · simp only [List.mem_cons, List.not_mem_nil, or_false, exists_eq_or_imp, exists_eq_left]
    omega
  · simp only [List.forall_mem_cons, List.not_mem_nil, false_implies, implies_true, and_true]
    constructor
    · have low := slotImm_immSlot (slotImm second ++ low)
      rwa [BitVec.extractLsb'_append_eq_left] at low
    · rw [extract_immSlot, high]

theorem readFromBytes_LD_IMM64 {word second : BitVec 64} {rA : Reg} (wide : isWide word = true)
    (register : Reg.ofNibble (slotLow word) = some rA) :
    (Form.LD_IMM64 rA (.imm (slotImm second ++ slotImm word))).ReadFromBytes
      ⟨.LD_imm64, [.reg rA, .imm (slotImm second ++ slotImm word)]⟩
      (slotBytes word ++ slotBytes second) := by
  refine ⟨rfl, rfl, rfl, rfl, ?_⟩
  rintro ⟨first, rest, reads, canonical, tail⟩
  rw [readSlot_slotBytes] at reads
  cases reads
  have zeros := canonical.zeros
  simp [Opcode.usedFields] at zeros
  simp [isWide] at wide
  have lowHalf : (slotImm second ++ slotImm word).setWidth 32 = slotImm word :=
    BitVec.setWidth_append_eq_right
  have firstWord : Form.word (.LD_IMM64 rA (.imm (slotImm second ++ slotImm word))) = word := by
    apply eq_of_slotContents
    rw [Form.slotContents_word]
    simp [Form.contents, slotContents, slotCode_eq_mode, wide, zeros, Target.bits,
      Reg.nibble_of_ofNibble register, lowHalf]
  have secondWord : immSlot (slotImm second ++ slotImm word) = second := by
    rcases tail with absent | ⟨other, reads, high⟩
    · cases absent
    · rw [readSlot_slotBytes_self] at reads
      cases reads
      exact immSlot_of_high_eq_zero _ high
  rw [Form.bytes, firstWord, Target.bits, secondWord]

private theorem exists_form_of_decodeInst {bytes : List Byte} {inst : MCInst}
    (reads : decodeInst bytes = some (inst, [])) :
    ∃ form : Form, form.ReadFromBytes inst bytes := by
  rcases decodeInst_cases reads with ⟨word, -, slot, rfl⟩ |
    ⟨word, second, rA, wide, register, rfl, rfl⟩
  · rcases decodeSlot_forms slot with ⟨form, readFrom⟩
    rw [List.append_nil]
    exact ⟨form, readFrom.bytes⟩
  · rw [List.append_nil]
    exact ⟨_, readFromBytes_LD_IMM64 wide register⟩

/-! ## Streams -/

theorem decodeInst_cuts (bytes : List Byte) (inst : MCInst) (rest : List Byte)
    (reads : decodeInst bytes = some (inst, rest)) :
    ∃ block, bytes = block ++ rest ∧ decodeInst block = some (inst, []) := by
  rcases decodeInst_cases reads with ⟨word, narrow, slot, rfl⟩ |
    ⟨word, second, rA, wide, register, rfl, rfl⟩
  · refine ⟨slotBytes word, rfl, ?_⟩
    simp [decodeInst, readSlot_slotBytes_self, narrow, slot]
  · refine ⟨slotBytes word ++ slotBytes second, (List.append_assoc _ _ _).symm, ?_⟩
    simp [decodeInst, readSlot_slotBytes_self, wide, register]

/-- The bytes are blocks, each of which is a canonical instruction. -/
def CanonicalStream (bytes : List Byte) : Prop :=
  ∃ blocks : List (MCInst × List Byte), blocks.flatMap Prod.snd = bytes ∧
    ∀ block ∈ blocks, decodeInst block.2 = some (block.1, []) ∧
      CanonicalInst block.1.opcode block.2

theorem exists_forms_of_blocks {blocks : List (MCInst × List Byte)}
    (reads : ∀ block ∈ blocks, decodeInst block.2 = some (block.1, [])) :
    ∃ formOf : MCInst × List Byte → Form,
      ∀ block ∈ blocks, (formOf block).ReadFromBytes block.1 block.2 := by
  have exists_form : ∀ block : MCInst × List Byte, ∃ form : Form,
      decodeInst block.2 = some (block.1, []) → form.ReadFromBytes block.1 block.2 := by
    intro block
    by_cases reads : decodeInst block.2 = some (block.1, [])
    · rcases exists_form_of_decodeInst reads with ⟨form, readFrom⟩
      exact ⟨form, fun _ => readFrom⟩
    · exact ⟨.RET, fun read => absurd read reads⟩
  choose formOf readFrom using exists_form
  exact ⟨formOf, fun block member => readFrom block (reads block member)⟩

section Blocks

variable {blocks : List (MCInst × List Byte)} {formOf : MCInst × List Byte → Form}

private theorem map_toMCInst_of_blocks
    (readFrom : ∀ block ∈ blocks, (formOf block).ReadFromBytes block.1 block.2) :
    (blocks.map formOf).map Form.toMCInst = blocks.map Prod.fst := by
  rw [List.map_map]
  apply List.map_congr_left
  intro block member
  exact (readFrom block member).toMCInst

theorem emitInstructions_blocks
    (readFrom : ∀ block ∈ blocks, (formOf block).ReadFromBytes block.1 block.2) :
    emitInstructions 0 (blocks.map Prod.fst) =
      .ok (blocks.flatMap fun block => (formOf block).bytes, []) := by
  have noFixups : formFixups 0 (blocks.map formOf) = [] := by
    apply formFixups_of_concrete
    intro form member
    rcases List.mem_map.mp member with ⟨block, blockMember, rfl⟩
    rw [(readFrom block blockMember).toMCInst]
    exact (readFrom block blockMember).concrete
  rw [← map_toMCInst_of_blocks readFrom, emitInstructions_forms, noFixups, formBytes,
    List.flatMap_map]

private theorem decodeStream_blocks
    (readFrom : ∀ block ∈ blocks, (formOf block).ReadFromBytes block.1 block.2) :
    decodeStream (blocks.flatMap fun block => (formOf block).bytes) =
      some (blocks.map Prod.fst) := by
  have decoded := decodeStream_formBytes (blocks.map formOf)
  rw [formBytes, List.flatMap_map, List.map_map] at decoded
  rw [decoded]
  congr 1
  apply List.map_congr_left
  intro block member
  exact (readFrom block member).decoded

end Blocks

private theorem emitInstructions_of_canonicalStream {bytes : List Byte}
    (canonical : CanonicalStream bytes) :
    ∃ insts, decodeStream bytes = some insts ∧ (∀ inst ∈ insts, inst.WellFormed) ∧
      emitInstructions 0 insts = .ok (bytes, []) := by
  rcases canonical with ⟨blocks, rfl, blocksCanonical⟩
  rcases exists_forms_of_blocks fun block member => (blocksCanonical block member).1 with
    ⟨formOf, readFrom⟩
  have written : blocks.flatMap (fun block => (formOf block).bytes) = blocks.flatMap Prod.snd := by
    rw [List.flatMap_def, List.flatMap_def]
    apply congrArg List.flatten
    apply List.map_congr_left
    intro block member
    exact (readFrom block member).bytes_eq (blocksCanonical block member).2
  rw [← written]
  refine ⟨blocks.map Prod.fst, decodeStream_blocks readFrom, ?_, emitInstructions_blocks readFrom⟩
  intro inst member
  rcases List.mem_map.mp member with ⟨block, blockMember, rfl⟩
  rw [← (readFrom block blockMember).toMCInst]
  exact (formOf block).toMCInst_wellFormed

private theorem canonicalStream_formBytes (forms : List Form) :
    CanonicalStream (formBytes forms) := by
  refine ⟨forms.map fun form => (form.decoded, form.bytes), ?_, ?_⟩
  · rw [List.flatMap_map, formBytes]
  · intro block member
    rcases List.mem_map.mp member with ⟨form, -, rfl⟩
    have reads := decodeInst_bytes form []
    rw [List.append_nil] at reads
    exact ⟨reads, form.canonicalInst_of_slot form.canonicalSlot_decoded⟩

theorem canonicalStream_iff_emitted {bytes : List Byte} :
    CanonicalStream bytes ↔ ∃ insts fixups, (∀ inst ∈ insts, inst.WellFormed) ∧
      emitInstructions 0 insts = .ok (bytes, fixups) := by
  constructor
  · intro canonical
    rcases emitInstructions_of_canonicalStream canonical with ⟨insts, -, wellFormed, emits⟩
    exact ⟨insts, [], wellFormed, emits⟩
  · rintro ⟨insts, fixups, wellFormed, emits⟩
    rcases exists_forms wellFormed with ⟨forms, rfl⟩
    rw [emitInstructions_forms] at emits
    cases emits
    exact canonicalStream_formBytes forms

/-- Bytes that read as instructions can be written again: the emitter writes as
many bytes, which read as the same instructions. They are the same bytes if and
only if these hold nothing that an instruction does not use, and if and only if
they are what the emitter writes for some well-formed instructions. -/
theorem emitInstructions_decodeStream (bytes : List Byte) (insts : List MCInst)
    (reads : decodeStream bytes = some insts) :
    ∃ emitted, emitInstructions 0 insts = .ok (emitted, []) ∧
      decodeStream emitted = some insts ∧ emitted.length = bytes.length ∧
      (emitted = bytes ↔ CanonicalStream bytes) ∧
      (emitted = bytes ↔ ∃ source fixups, (∀ inst ∈ source, inst.WellFormed) ∧
        emitInstructions 0 source = .ok (bytes, fixups)) := by
  rcases readAll_blocks decodeInst_cuts reads with ⟨blocks, rfl, rfl, blocksRead⟩
  rcases exists_forms_of_blocks blocksRead with ⟨formOf, readFrom⟩
  have emits := emitInstructions_blocks readFrom
  have same : blocks.flatMap (fun block => (formOf block).bytes) = blocks.flatMap Prod.snd ↔
      CanonicalStream (blocks.flatMap Prod.snd) := by
    constructor
    · intro same
      have written := canonicalStream_formBytes (blocks.map formOf)
      rwa [formBytes, List.flatMap_map, same] at written
    · intro canonical
      rcases emitInstructions_of_canonicalStream canonical with ⟨insts, otherReads, -, otherEmits⟩
      rw [reads] at otherReads
      cases otherReads
      rw [emits, Except.ok.injEq, Prod.mk.injEq] at otherEmits
      exact otherEmits.1
  refine ⟨_, emits, decodeStream_blocks readFrom, ?_, same, same.trans canonicalStream_iff_emitted⟩
  rw [List.length_flatMap, List.length_flatMap]
  congr 1
  apply List.map_congr_left
  intro block member
  exact (readFrom block member).length

theorem emitInstructions_decodeStream_jumpAndWideLoad :
    let bytes : List Byte := [0x05, 0x21, 2, 0, 0, 0, 0, 0,
      0x18, 0x01, 0, 0, 1, 0, 0, 0, 0, 0, 0, 0, 0, 0, 0, 0x80]
    let insts : List MCInst :=
      [⟨.JMP, [.imm 2]⟩, ⟨.LD_imm64, [.reg .R1, .imm 0x8000000000000001]⟩]
    ∃ emitted, emitInstructions 0 insts = .ok (emitted, []) ∧
      decodeStream emitted = some insts ∧ emitted.length = bytes.length ∧
      (emitted = bytes ↔ CanonicalStream bytes) ∧
      (emitted = bytes ↔ ∃ source fixups, (∀ inst ∈ source, inst.WellFormed) ∧
        emitInstructions 0 source = .ok (bytes, fixups)) :=
  emitInstructions_decodeStream _ _ (by decide)

end BpfBackend.MC
