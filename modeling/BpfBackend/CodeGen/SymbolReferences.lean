import BpfBackend.CodeGen.AddressSelection
import BpfBackend.MC.AsmBackend

/-! # Symbol references

A global value with a byte offset, from its node in the selection DAG to the
relocation and the addend in the object file.
-/

namespace BpfBackend.CodeGen

open MC

/-! ## Lowering of the nodes -/

/-- The target node is made without the offset of the original. -/
def LowerGlobalAddress : SDValue → Compile SDValue
  | .GlobalAddress name _ => .ok (.Wrapper (.TargetGlobalAddress name 0))
  | _ => .error (.assertion "cast<GlobalAddressSDNode>")

/-- The callee of `LowerCall`: the target node keeps the offset. -/
def LowerCallee : SDValue → SDValue
  | .GlobalAddress name offset => .TargetGlobalAddress name offset
  | callee => callee

/-! ## Machine operands -/

inductive MachineOperand where
  | MO_Register (register : Reg) (implicit : Bool)
  | MO_Immediate (imm : BitVec 64)
  | MO_MachineBasicBlock (number : Nat)
  | MO_RegisterMask
  | MO_GlobalAddress (name : String) (offset : BitVec 64)
  | MO_ExternalSymbol (name : String)
  deriving DecidableEq, Repr

structure SelectedInstr where
  opcode : Opcode
  operands : List MachineOperand
  deriving DecidableEq, Repr

/-- `Pat<(BPFWrapper tglobaladdr:$in), (LD_imm64 tglobaladdr:$in)>`. -/
def selectWrapper (rA : Reg) : SDValue → Option SelectedInstr
  | .Wrapper (.TargetGlobalAddress name offset) =>
      some ⟨.LD_imm64, [.MO_Register rA false, .MO_GlobalAddress name offset]⟩
  | _ => none

/-- `Pat<(call tglobaladdr:$dst), (JAL tglobaladdr:$dst)>` and
`Pat<(call imm:$dst), (JAL imm:$dst)>`. -/
def selectCall : SDValue → Option SelectedInstr
  | .TargetGlobalAddress name offset => some ⟨.JAL, [.MO_GlobalAddress name offset]⟩
  | .Constant value => some ⟨.JAL, [.MO_Immediate value]⟩
  | _ => none

/-! ## Lowering of the operands -/

def LowerSymbolOperand (offset : BitVec 64) (symbol : MCSymbol) : Compile MCOperand :=
  if offset ≠ 0 then .error (.llvm_unreachable "unknown symbol op")
  else .ok (.expr (.SymbolRef symbol))

/-- No operand for implicit registers and register masks. -/
def lowerOperand : MachineOperand → Compile (List MCOperand)
  | .MO_Register register implicit => .ok (if implicit then [] else [.reg register])
  | .MO_Immediate imm => .ok [.imm imm]
  | .MO_MachineBasicBlock number => .ok [.expr (.SymbolRef (.block number))]
  | .MO_RegisterMask => .ok []
  | .MO_GlobalAddress name offset => do
      let operand ← LowerSymbolOperand offset (.global name)
      pure [operand]
  | .MO_ExternalSymbol _ => .error (.llvm_unreachable "unknown operand type")

def lowerOperands : List MachineOperand → Compile (List MCOperand)
  | [] => .ok []
  | operand :: rest => do
      let lowered ← lowerOperand operand
      let restLowered ← lowerOperands rest
      pure (lowered ++ restLowered)

def Lower (inst : SelectedInstr) : Compile MCInst := do
  let operands ← lowerOperands inst.operands
  pure ⟨inst.opcode, operands⟩

/-! ## The object file -/

structure EmittedReference where
  relocation : RelocType
  operandOffset : BitVec 64
  bytes : List Byte

def EmittedReference.inPlaceAddend (emitted : EmittedReference) : Option (BitVec 64) :=
  match decodeInst emitted.bytes with
  | some (⟨.LD_imm64, [_, .imm addend]⟩, _) => some addend
  | some (⟨.JAL, [.imm addend]⟩, _) => some addend
  | _ => none

inductive SymbolUse where
  | address (rA : Reg)
  | callee
  deriving DecidableEq, Repr

def SymbolUse.select (use : SymbolUse) (node : SDValue) :
    Compile (Option SelectedInstr) :=
  match use with
  | address rA => do
      let lowered ← LowerGlobalAddress node
      pure (selectWrapper rA lowered)
  | callee => .ok (selectCall (LowerCallee node))

def SelectedInstr.globalOffset (inst : SelectedInstr) : BitVec 64 :=
  match inst.operands.getLast? with
  | some (.MO_GlobalAddress _ offset) => offset
  | _ => 0

def emitSelected (build : Build) (placement : Placement) (inst : SelectedInstr) :
    Compile EmittedReference := do
  let (bytes, fixups) ← encodeInstruction (← Lower inst)
  match fixups with
  | [fixup] => do
      let relocation ← GetRelocType fixup
      let bytes ← applyFixup build fixup bytes placement.fixupValue
      pure ⟨relocation, inst.globalOffset, bytes⟩
  | _ => .error (.assertion "one fixup")

def emitReference (build : Build) (use : SymbolUse) (placement : Placement)
    (node : SDValue) : Compile EmittedReference := do
  match ← use.select node with
  | none => .error (.report_fatal_error "Cannot select")
  | some inst => emitSelected build placement inst

/-! ## What a relocation denotes -/

/-- The relocation with the addend in place denotes the symbol plus the offset
of its node; the operand has kept that offset and the instruction has kept the
value of the fixup. -/
def ReferenceKept (placement : Placement) (symbolAddress offset : BitVec 64)
    (emitted : EmittedReference) : Prop :=
  emitted.operandOffset = offset ∧
    ∃ addend, emitted.inPlaceAddend = some addend ∧ addend = placement.fixupValue ∧
      placement.relocationTarget symbolAddress + addend = symbolAddress + offset

/-- The compilation stops with an error or keeps the reference. An
`llvm_unreachable` is an error only where assertions are compiled, and a failed
assertion never counts. -/
def ReferenceOutcome (build : Build) (placement : Placement)
    (symbolAddress offset : BitVec 64) : Compile EmittedReference → Prop
  | .error (.report_fatal_error _) => True
  | .error (.llvm_unreachable _) => build = .assertions
  | .error (.assertion _) => False
  | .ok emitted => ReferenceKept placement symbolAddress offset emitted

/-! ## References without an offset -/

def SymbolUse.form (use : SymbolUse) (name : String) : Form :=
  match use with
  | address rA => .LD_IMM64 rA (.symbol (.global name))
  | callee => .CALL (.symbol (.global name))

def SymbolUse.relocation : SymbolUse → RelocType
  | address _ => .R_X86_64_64
  | callee => .R_X86_64_PC32

private theorem emitReference_offset_zero (build : Build) (use : SymbolUse) (placement : Placement)
    (name : String) :
    emitReference build use placement (.GlobalAddress name 0) =
      (build.assert (placement.fixupValue = 0) "Value == 0").map fun _ =>
        ⟨use.relocation, 0, (use.form name).bytes⟩ := by
  cases use with
  | address rA =>
      have encoded := encodeInstruction_toMCInst (.LD_IMM64 rA (.symbol (.global name)))
      simp only [Form.toMCInst, Target.operand, Form.fixups, Target.fixups] at encoded
      simp only [emitReference, SymbolUse.select, LowerGlobalAddress, selectWrapper,
        emitSelected, Lower, lowerOperands, lowerOperand, LowerSymbolOperand, bind, Except.bind,
        pure, Except.pure]
      simp [encoded, GetRelocType, applyFixup]
      cases build.assert (placement.fixupValue = 0) "Value == 0" <;> rfl
  | callee =>
      have encoded := encodeInstruction_toMCInst (.CALL (.symbol (.global name)))
      simp only [Form.toMCInst, Target.operand, Form.fixups, Target.fixups] at encoded
      simp only [emitReference, SymbolUse.select, LowerCallee, selectCall,
        emitSelected, Lower, lowerOperands, lowerOperand, LowerSymbolOperand, bind, Except.bind,
        pure, Except.pure]
      simp [encoded, GetRelocType, applyFixup]
      cases build.assert (placement.fixupValue = 0) "Value == 0" <;> rfl

private theorem inPlaceAddend_form (use : SymbolUse) (name : String) (relocation : RelocType)
    (operandOffset : BitVec 64) :
    (EmittedReference.mk relocation operandOffset (use.form name).bytes).inPlaceAddend =
      some 0 := by
  rw [EmittedReference.inPlaceAddend, decodeInst_form]
  cases use <;> rfl

private theorem relocationTarget_of_fixupValue_zero {placement : Placement}
    (zero : placement.fixupValue = 0) (symbolAddress : BitVec 64) :
    placement.relocationTarget symbolAddress = symbolAddress := by
  cases placement with
  | external => rfl
  | inSection offset =>
      have offsetZero : offset = 0 := zero
      rw [offsetZero]
      exact BitVec.sub_zero _

theorem referenceKept_iff (use : SymbolUse) (name : String) (relocation : RelocType)
    (placement : Placement) (symbolAddress offset : BitVec 64) :
    ReferenceKept placement symbolAddress offset ⟨relocation, 0, (use.form name).bytes⟩ ↔
      offset = 0 ∧ placement.fixupValue = 0 := by
  simp only [ReferenceKept, inPlaceAddend_form, Option.some.injEq, exists_eq_left']
  constructor
  · intro holds
    rcases holds with ⟨noOffset, noValue, -⟩
    exact ⟨noOffset.symm, noValue.symm⟩
  · intro holds
    rcases holds with ⟨rfl, noValue⟩
    refine ⟨rfl, noValue.symm, ?_⟩
    rw [relocationTarget_of_fixupValue_zero noValue]

private theorem outcome_offset_zero_iff (build : Build) (use : SymbolUse) (placement : Placement)
    (name : String) (symbolAddress offset : BitVec 64) :
    ReferenceOutcome build placement symbolAddress offset
        (emitReference build use placement (.GlobalAddress name 0)) ↔
      offset = 0 ∧ placement.fixupValue = 0 := by
  rw [emitReference_offset_zero]
  by_cases zero : placement.fixupValue = 0
  · have passes : build.assert (placement.fixupValue = 0) "Value == 0" = .ok () := by
      simp [zero]
    rw [passes]
    exact referenceKept_iff use name _ placement symbolAddress offset
  · cases build with
    | assertions =>
        have fails : Build.assertions.assert (placement.fixupValue = 0) "Value == 0" =
            .error (.assertion "Value == 0") :=
          if_pos ⟨rfl, decide_eq_false zero⟩
        rw [fails]
        exact ⟨False.elim, fun both => zero both.2⟩
    | release =>
        have ignored : Build.release.assert (placement.fixupValue = 0) "Value == 0" =
            .ok () := by
          simp [Build.assert]
        rw [ignored]
        exact referenceKept_iff use name _ placement symbolAddress offset

private theorem emitReference_callee_offset (build : Build) (placement : Placement) (name : String)
    {offset : BitVec 64} (nonzero : offset ≠ 0) :
    emitReference build .callee placement (.GlobalAddress name offset) =
      .error (.llvm_unreachable "unknown symbol op") := by
  have refused : LowerSymbolOperand offset (.global name) =
      .error (.llvm_unreachable "unknown symbol op") := if_pos nonzero
  simp only [emitReference, SymbolUse.select, LowerCallee, selectCall, emitSelected, Lower,
    lowerOperands, lowerOperand, refused, bind, Except.bind]

/-- A reference survives to the object file exactly when its offset and the
value of its fixup are zero, or when it is a callee with an offset and the
`llvm_unreachable` is compiled. -/
theorem emitReference_outcome_iff (build : Build) (use : SymbolUse) (placement : Placement)
    (name : String) (symbolAddress offset : BitVec 64) :
    ReferenceOutcome build placement symbolAddress offset
        (emitReference build use placement (.GlobalAddress name offset)) ↔
      (offset = 0 ∧ placement.fixupValue = 0) ∨
        (use = .callee ∧ offset ≠ 0 ∧ build = .assertions) := by
  cases use with
  | address rA =>
      have dropped : emitReference build (.address rA) placement (.GlobalAddress name offset) =
          emitReference build (.address rA) placement (.GlobalAddress name 0) := rfl
      rw [dropped, outcome_offset_zero_iff]
      simp
  | callee =>
      by_cases zero : offset = 0
      · subst zero
        rw [outcome_offset_zero_iff]
        simp
      · rw [emitReference_callee_offset build placement name zero]
        constructor
        · intro stops
          exact .inr ⟨rfl, zero, stops⟩
        · intro holds
          rcases holds with ⟨isZero, -⟩ | ⟨-, -, stops⟩
          · exact absurd isZero zero
          · exact stops

/-- The address `map + 8` is emitted as the address of `map`, and a reference
to a symbol at offset 8 of its section fails an assertion. -/
theorem emitReference_dropped :
    (∃ emitted, emitReference .release (.address .R1) .external (.GlobalAddress "map" 8) =
        .ok emitted ∧ emitted.inPlaceAddend = some 0 ∧
        ¬ ReferenceKept .external 0x1000 8 emitted) ∧
      emitReference .assertions (.address .R1) (.inSection 8) (.GlobalAddress "map" 0) =
        .error (.assertion "Value == 0") := by
  have emitted : emitReference .release (.address .R1) .external (.GlobalAddress "map" 8) =
      .ok ⟨.R_X86_64_64, 0, ((SymbolUse.address .R1).form "map").bytes⟩ :=
    emitReference_offset_zero .release (.address .R1) .external "map"
  refine ⟨⟨_, emitted, inPlaceAddend_form _ _ _ _, ?_⟩,
    emitReference_offset_zero .assertions (.address .R1) (.inSection 8) "map"⟩
  rw [referenceKept_iff]
  decide

end BpfBackend.CodeGen
