import BpfBackend.CodeGen.SelectionDAG

/-! # Address selection

`SelectAddr` splits an address into a base and a constant offset. The offset
may have 32 bits; the field of a memory instruction has 16.
-/

namespace BpfBackend.CodeGen

open MC

def isBaseWithConstantOffset (known : KnownBits) : SDValue → Bool
  | .binary .ADD _ (.Constant _) => true
  | .binary .OR left (.Constant value) => known.maskedValueIsZero left value
  | _ => false

def selectBase : SDValue → SDValue
  | .FrameIndex index => .TargetFrameIndex index
  | node => node

/-- The second test, for a plain `ADD`, repeats what the first accepts. -/
def selectAddr (known : KnownBits) (addr : SDValue) : Option (SDValue × BitVec 64) :=
  match addr with
  | .FrameIndex index => some (.TargetFrameIndex index, 0)
  | .TargetExternalSymbol _ => none
  | .TargetGlobalAddress _ _ => none
  | .binary op left (.Constant value) =>
      if isBaseWithConstantOffset known addr ∧ isInt 32 value then
        some (selectBase left, value)
      else if op = .ADD ∧ isInt 32 value then
        some (selectBase left, value)
      else
        some (addr, 0)
  | _ => some (addr, 0)

/-! ## What is selected -/

theorem selectAddr_cases {known : KnownBits} {addr base : SDValue} {offset : BitVec 64}
    (selected : selectAddr known addr = some (base, offset)) :
    (∃ index, addr = .FrameIndex index ∧ base = .TargetFrameIndex index ∧ offset = 0) ∨
    (∃ op left, addr = .binary op left (.Constant offset) ∧ base = selectBase left ∧
      isBaseWithConstantOffset known addr = true ∧ isInt 32 offset = true) ∨
    (base = addr ∧ offset = 0 ∧
      ∀ op left value, addr = .binary op left (.Constant value) →
        ¬ (isBaseWithConstantOffset known addr = true ∧ isInt 32 value = true)) := by
  unfold selectAddr at selected
  split at selected
  · cases selected
    exact .inl ⟨_, rfl, rfl, rfl⟩
  · cases selected
  · cases selected
  · rename_i op left value
    split at selected
    · rename_i accepted
      cases selected
      exact .inr (.inl ⟨op, left, rfl, rfl, accepted⟩)
    · rename_i refused
      split at selected
      · rename_i plain
        rcases plain with ⟨rfl, fits⟩
        exact absurd ⟨rfl, fits⟩ refused
      · cases selected
        refine .inr (.inr ⟨rfl, rfl, ?_⟩)
        intro otherOp otherLeft otherValue equal
        cases equal
        exact refused
  · rename_i noConstant
    cases selected
    refine .inr (.inr ⟨rfl, rfl, ?_⟩)
    intro op left value equal
    exact absurd equal (noConstant op left value)

private theorem eval_selectBase {anyExt : SDValue → BitVec 64} {state : DagState}
    {left : SDValue} {baseValue : BitVec 64}
    (evaluates : (selectBase left).eval anyExt state = some baseValue) :
    left.eval anyExt state = some baseValue := by
  cases left with
  | FrameIndex index => cases evaluates
  | _ => exact evaluates

/-- A recognised `OR` is an addition, as its bits are disjoint. -/
theorem eval_baseWithConstantOffset {known : KnownBits} {op : BinaryOp} {left : SDValue}
    {offset baseValue addrValue : BitVec 64} {anyExt : SDValue → BitVec 64} {state : DagState}
    (sound : known.SoundAt state)
    (recognised : isBaseWithConstantOffset known (.binary op left (.Constant offset)) = true)
    (baseEval : left.eval anyExt state = some baseValue)
    (addrEval : (SDValue.binary op left (.Constant offset)).eval anyExt state =
      some addrValue) :
    addrValue = baseValue + offset := by
  rcases eval_binary_eq_some addrEval with ⟨leftValue, rightValue, leftEval, rightEval, result⟩
  rw [baseEval] at leftEval
  cases leftEval
  simp only [SDValue.eval, Option.some.injEq] at rightEval
  subst rightEval
  cases op with
  | ADD =>
      simp only [BinaryOp.eval, Option.some.injEq] at result
      exact result.symm
  | OR =>
      simp only [BinaryOp.eval, Option.some.injEq] at result
      have disjoint := sound left offset recognised anyExt baseValue baseEval
      rw [← result, BitVec.add_eq_or_of_and_eq_zero _ _ disjoint]
  | _ => cases recognised

theorem selectAddr_sound {known : KnownBits} {addr base : SDValue}
    {offset baseValue addrValue : BitVec 64} {anyExt : SDValue → BitVec 64} {state : DagState}
    (sound : known.SoundAt state) (selected : selectAddr known addr = some (base, offset))
    (baseEval : base.eval anyExt state = some baseValue)
    (addrEval : addr.eval anyExt state = some addrValue) :
    baseValue + offset = addrValue := by
  rcases selectAddr_cases selected with
    ⟨index, rfl, rfl, rfl⟩ | ⟨op, left, rfl, rfl, recognised, -⟩ | ⟨rfl, rfl, -⟩
  · cases baseEval
  · exact (eval_baseWithConstantOffset sound recognised (eval_selectBase baseEval) addrEval).symm
  · rw [baseEval] at addrEval
    cases addrEval
    exact BitVec.add_zero _

theorem eval_base_of_selectAddr {known : KnownBits} {addr base : SDValue}
    {offset addrValue : BitVec 64} {anyExt : SDValue → BitVec 64} {state : DagState}
    (selected : selectAddr known addr = some (base, offset))
    (addrEval : addr.eval anyExt state = some addrValue)
    (noFrame : ∀ index, base ≠ .TargetFrameIndex index) :
    ∃ baseValue, base.eval anyExt state = some baseValue := by
  rcases selectAddr_cases selected with
    ⟨index, rfl, rfl, rfl⟩ | ⟨op, left, rfl, rfl, -, -⟩ | ⟨rfl, rfl, -⟩
  · exact absurd rfl (noFrame index)
  · rcases eval_binary_eq_some addrEval with ⟨leftValue, rightValue, leftEval, -, -⟩
    cases left with
    | FrameIndex index => exact absurd rfl (noFrame index)
    | _ => exact ⟨leftValue, leftEval⟩
  · exact ⟨addrValue, addrEval⟩

theorem frameAddress_of_selectAddr {known : KnownBits} {addr : SDValue} {index : Int}
    {offset address : BitVec 64} {anyExt : SDValue → BitVec 64} {state : DagState}
    (sound : known.SoundAt state)
    (selected : selectAddr known addr = some (.TargetFrameIndex index, offset))
    (evaluates : addr.eval anyExt state = some address) :
    state.frame index + offset = address := by
  rcases selectAddr_cases selected with
    ⟨other, rfl, equal, rfl⟩ | ⟨op, left, rfl, equal, recognised, -⟩ | ⟨rfl, -, -⟩
  · cases equal
    cases evaluates
    exact BitVec.add_zero _
  · cases left with
    | FrameIndex leftIndex =>
        cases equal
        exact (eval_baseWithConstantOffset sound recognised rfl evaluates).symm
    | TargetFrameIndex leftIndex => cases evaluates
    | _ => cases equal
  · cases evaluates

/-! ## The encoded offset -/

/-- The offset that is selected fits 32 bits but not the 16 of the field. -/
def offsetTooWide (known : KnownBits) (addr : SDValue) : Bool :=
  match addr with
  | .binary _ _ (.Constant value) =>
      isBaseWithConstantOffset known addr && isInt 32 value && !isInt 16 value
  | _ => false

private theorem offsetTooWide_iff {known : KnownBits} {addr base : SDValue} {offset : BitVec 64}
    (selected : selectAddr known addr = some (base, offset)) :
    offsetTooWide known addr = false ↔ signExtend16 offset = offset := by
  rcases selectAddr_cases selected with
    ⟨index, rfl, rfl, rfl⟩ | ⟨op, left, rfl, rfl, recognised, fits⟩ | ⟨rfl, rfl, refused⟩
  · exact ⟨fun _ => rfl, fun _ => rfl⟩
  · rw [signExtend16, ← isInt_iff (by decide) (by decide)]
    simp [offsetTooWide, recognised, fits]
  · have narrow : offsetTooWide known base = false := by
      unfold offsetTooWide
      split
      · rename_i op left value
        have refused := refused op left value rfl
        simp only [Bool.and_eq_false_iff]
        by_cases recognised : isBaseWithConstantOffset known
            (.binary op left (.Constant value)) = true
        · exact .inl (.inr (by simpa [recognised] using refused))
        · exact .inl (.inl (by simpa using recognised))
      · rfl
    exact ⟨fun _ => rfl, fun _ => narrow⟩

inductive MemoryAccess where
  | LD (size : SizeOp) (rA : Reg)
  | ST (size : SizeOp) (rX : Reg)
  | XADD (size : SizeOp) (dst : Reg)
  deriving DecidableEq, Repr

def MemoryAccess.toForm (base : Reg) (offset : BitVec 64) : MemoryAccess → Form
  | LD size rA => .LOAD size rA base offset
  | ST size rX => .STORE size rX base offset
  | XADD size dst => .XADD size dst base offset

def MemoryAccess.toMCInst (access : MemoryAccess) (base : Reg) (offset : BitVec 64) : MCInst :=
  match access with
  | LD size rA => ⟨.LD size, [.reg rA, .reg base, .imm offset]⟩
  | ST size rX => ⟨.ST size, [.reg rX, .reg base, .imm offset]⟩
  | XADD size dst => ⟨.XADD size, [.reg dst, .reg base, .imm offset, .reg dst]⟩

/-- The address that the machine accesses when it executes the bytes of an
instruction. -/
def encodedAddress (inst : MCInst) (regs : Reg → BitVec 64) : Option (BitVec 64) :=
  match encodeInstruction inst with
  | .error _ => none
  | .ok (bytes, _) =>
      match decodeInst bytes with
      | none => none
      | some (decoded, _) => decoded.effectiveAddress regs

theorem decodeInst_form (form : Form) : decodeInst form.bytes = some (form.decoded, []) := by
  have decoded := decodeInst_bytes form []
  rwa [List.append_nil] at decoded

private theorem encodedAddress_toMCInst (access : MemoryAccess) (base : Reg) (offset : BitVec 64)
    (regs : Reg → BitVec 64) :
    encodedAddress (access.toMCInst base offset) regs =
      some (regs base + signExtend16 offset) := by
  have isForm : access.toMCInst base offset = (access.toForm base offset).toMCInst := by
    cases access <;> rfl
  rw [isForm, encodedAddress, encodeInstruction_toMCInst]
  dsimp only
  rw [decodeInst_form]
  cases access <;> rfl

/-- A memory instruction whose base register holds the selected base accesses
the address that the expression denotes exactly when the selected offset is not
too wide for the field. -/
theorem encodedAddress_iff {known : KnownBits} {addr base : SDValue}
    {offset baseValue addrValue : BitVec 64} {anyExt : SDValue → BitVec 64} {state : DagState}
    (access : MemoryAccess) (rb : Reg) (regs : Reg → BitVec 64) (sound : known.SoundAt state)
    (selected : selectAddr known addr = some (base, offset))
    (baseEval : base.eval anyExt state = some baseValue)
    (addrEval : addr.eval anyExt state = some addrValue)
    (held : regs rb = baseValue) :
    encodedAddress (access.toMCInst rb offset) regs = some addrValue ↔
      offsetTooWide known addr = false := by
  rw [encodedAddress_toMCInst, offsetTooWide_iff selected,
    ← selectAddr_sound sound selected baseEval addrEval, held]
  constructor
  · intro equal
    exact BitVec.add_right_inj _ |>.mp (Option.some.inj equal)
  · intro fits
    rw [fits]

theorem encodedAddress_iff_or :
    let aligned : SDValue := .binary .AND (.CopyFromReg 1) (.Constant (-8))
    encodedAddress ((MemoryAccess.LD .W .R0).toMCInst .R2 4) (fun _ => 0x1000) =
        some 0x1004 ↔
      offsetTooWide .ofConstants (.binary .OR aligned (.Constant 4)) = false :=
  @encodedAddress_iff .ofConstants
    (.binary .OR (.binary .AND (.CopyFromReg 1) (.Constant (-8))) (.Constant 4))
    (.binary .AND (.CopyFromReg 1) (.Constant (-8))) 4 0x1000 0x1004 (fun _ => 0)
    ⟨fun _ => 0x1003, fun _ => 0, fun _ => 0, fun _ => 0⟩ (.LD .W .R0) .R2 (fun _ => 0x1000)
    (KnownBits.soundAt_ofConstants _) (by decide) (by decide) (by decide) rfl

/-- A load from `r1 + 32768` reads at `r1 - 32768`. -/
theorem encodedAddress_wide :
    let addr : SDValue := .binary .ADD (.CopyFromReg 1) (.Constant 0x8000)
    let state : DagState := ⟨fun _ => 0x10000, fun _ => 0, fun _ => 0, fun _ => 0⟩
    selectAddr .ofConstants addr = some (.CopyFromReg 1, 0x8000) ∧
      (SDValue.CopyFromReg 1).eval (fun _ => 0) state = some 0x10000 ∧
      encodedAddress ((MemoryAccess.LD .D .R0).toMCInst .R1 0x8000) (fun _ => 0x10000) =
        some 0x8000 ∧
      encodedAddress ((MemoryAccess.LD .D .R0).toMCInst .R1 0x8000) (fun _ => 0x10000) ≠
        addr.eval (fun _ => 0) state := by
  refine ⟨by decide, by decide, ?_⟩
  rw [encodedAddress_toMCInst]
  decide

end BpfBackend.CodeGen
