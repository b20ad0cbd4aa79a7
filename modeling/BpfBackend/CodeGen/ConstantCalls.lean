import BpfBackend.CodeGen.CallLowering
import BpfBackend.CodeGen.InstructionSelection

/-! # Calls through constant addresses

A call whose callee is a constant, from `LowerCall` to the bytes of the call
instruction.
-/

namespace BpfBackend.CodeGen

open MC

/-! ## The call instruction -/

def emitCall (sequence : CallSequence) : Compile (List Byte × List MCFixup) :=
  match selectCall sequence.callee with
  | none => .error (.report_fatal_error "Cannot select")
  | some inst => do
      let lowered ← Lower inst
      encodeInstruction lowered

def callTarget (bytes : List Byte) : Option (BitVec 64) :=
  match decodeInst bytes with
  | some (⟨.JAL, [.imm target]⟩, []) => some target
  | _ => none

/-- The call goes to the address or its selection is refused. -/
def KeepsTarget (address : BitVec 64) : Compile (List Byte × List MCFixup) → Prop
  | .error stop => stop = .report_fatal_error "Cannot select"
  | .ok (bytes, _) => callTarget bytes = some address

private theorem callee_of_LowerCall {CLI : CallLoweringInfo} {sequence : CallSequence}
    {InVals : List IncomingValue} (lowers : LowerCall CLI = .ok (sequence, InVals)) :
    sequence.callee = LowerCallee CLI.Callee := by
  rw [LowerCall] at lowers
  rcases bind_eq_ok lowers with ⟨lowered, lowersSequence, rest⟩
  rcases bind_eq_ok rest with ⟨values, _, result⟩
  cases result
  rw [lowerCallSequence] at lowersSequence
  split at lowersSequence
  · cases lowersSequence
  all_goals
    rcases bind_eq_ok lowersSequence with ⟨CCInfo, _, passes⟩
    dsimp only at passes
    split at passes
    · cases passes
    · split at passes
      · cases passes
      · rcases bind_eq_ok passes with ⟨RegsToPass, _, built⟩
        cases built
        rfl

theorem emitCall_constant {sequence : CallSequence} {address : BitVec 64}
    (constant : sequence.callee = .Constant address) :
    emitCall sequence = .ok ((Form.CALL (.imm address)).bytes, []) := by
  rw [emitCall, constant]
  exact encodeInstruction_toMCInst (.CALL (.imm address))

private theorem callTarget_CALL (address : BitVec 64) :
    callTarget (Form.CALL (.imm address)).bytes = some (signExtend32 address) := by
  rw [callTarget, decodeInst_form]
  rfl

/-! ## The address that is called -/

/-- A constant address is kept exactly when it fits the signed 32-bit field,
and two that fit have different call instructions. -/
theorem emitCall_keepsTarget_iff {CLI otherCLI : CallLoweringInfo}
    {sequence otherSequence : CallSequence} {InVals otherInVals : List IncomingValue}
    {address other : BitVec 64} (lowers : LowerCall CLI = .ok (sequence, InVals))
    (constant : CLI.Callee = .Constant address)
    (otherLowers : LowerCall otherCLI = .ok (otherSequence, otherInVals))
    (otherConstant : otherCLI.Callee = .Constant other) :
    (KeepsTarget address (emitCall sequence) ↔ isInt 32 address = true) ∧
      (isInt 32 address = true → isInt 32 other = true →
        emitCall sequence = emitCall otherSequence → address = other) := by
  have callee : sequence.callee = .Constant address := by
    rw [callee_of_LowerCall lowers, constant]
    rfl
  have otherCallee : otherSequence.callee = .Constant other := by
    rw [callee_of_LowerCall otherLowers, otherConstant]
    rfl
  rw [emitCall_constant callee, emitCall_constant otherCallee]
  constructor
  · rw [KeepsTarget, callTarget_CALL, Option.some.injEq, isInt_iff (by decide) (by decide)]
    rfl
  · intro fits otherFits same
    have bytes : (Form.CALL (.imm address)).bytes = (Form.CALL (.imm other)).bytes :=
      congrArg Prod.fst (Except.ok.inj same)
    have targets := congrArg callTarget bytes
    rw [callTarget_CALL, callTarget_CALL, signExtend32_of_isInt fits,
      signExtend32_of_isInt otherFits] at targets
    exact Option.some.inj targets

theorem emitCall_keepsTarget_one :
    KeepsTarget 1 (emitCall ⟨0, [], .Constant 1⟩) ∧ isInt 32 1 = true :=
  ⟨(@emitCall_keepsTarget_iff ⟨.C, false, [], [], .Constant 1⟩ ⟨.C, false, [], [], .Constant 2⟩
      ⟨0, [], .Constant 1⟩ ⟨0, [], .Constant 2⟩ [] [] 1 2 rfl rfl rfl rfl).1.mpr (by decide),
    by decide⟩

/-- The address `2 ^ 32 + 1` is called as helper 1. -/
theorem emitCall_truncates :
    LowerCall ⟨.C, false, [], [], .Constant 0x100000001⟩ =
        .ok (⟨0, [], .Constant 0x100000001⟩, []) ∧
      ¬ KeepsTarget 0x100000001 (emitCall ⟨0, [], .Constant 0x100000001⟩) ∧
      emitCall ⟨0, [], .Constant 0x100000001⟩ = emitCall ⟨0, [], .Constant 1⟩ := by
  refine ⟨rfl, ?_, rfl⟩
  rw [emitCall_constant rfl, KeepsTarget, callTarget_CALL]
  decide

end BpfBackend.CodeGen
