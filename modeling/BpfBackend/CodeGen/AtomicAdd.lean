import BpfBackend.CodeGen.InstructionSelection

/-! # Atomic add

The pattern of `XADD` promises the old memory value in `$dst`, which is tied to
the addend, and its address has the offset of any other memory instruction.
-/

namespace BpfBackend.CodeGen

open MC ByteMemory

structure AtomicLoadAdd where
  memVT : MVT
  addr : SDValue
  resultUsed : Bool
  deriving DecidableEq, Repr

/-- `(set GPR:$dst, (opNode ADDRri:$addr, GPR:$val))`: nothing asks whether the
result is used. -/
def AtomicLoadAdd.select (known : KnownBits) (node : AtomicLoadAdd) :
    Option (SizeOp × SDValue × BitVec 64) := do
  let (base, offset) ← selectAddr known node.addr
  some (node.memVT.sizeOp, base, offset)

/-! ## The emitted instruction -/

/-- The base register and the offset of a selected address. A frame index
becomes the frame register, and `int Offset` the object's offset plus the
operand's. -/
def emittedAddress (objectOffset : Int → BitVec 64) (rb : Reg) :
    SDValue → BitVec 64 → Reg × BitVec 64
  | .TargetFrameIndex index, offset => (.R10, signExtend32 (objectOffset index + offset))
  | _, offset => (rb, offset)

def frameDisplacement (objectOffset : Int → BitVec 64) : SDValue → BitVec 64
  | .FrameIndex index => objectOffset index
  | _ => 0

/-- The distance of an address from the register that its instruction names. It
is nothing unless the address is a frame object or a recognised sum. -/
def addressDisplacement (known : KnownBits) (objectOffset : Int → BitVec 64)
    (addr : SDValue) : BitVec 64 :=
  match addr with
  | .binary _ left (.Constant value) =>
      if isBaseWithConstantOffset known addr ∧ isInt 32 value then
        frameDisplacement objectOffset left + value
      else 0
  | _ => frameDisplacement objectOffset addr

def BaseHeld (objectOffset : Int → BitVec 64) (anyExt : SDValue → BitVec 64)
    (state : DagState) (regs : Reg → BitVec 64) (rb : Reg) : SDValue → Prop
  | .TargetFrameIndex index => state.frame index = regs .R10 + objectOffset index
  | base => base.eval anyExt state = some (regs rb)

def execEncoded (inst : MCInst) (state : MachineState) : Option MachineState :=
  match encodeInstruction inst with
  | .error _ => none
  | .ok (bytes, _) =>
      match decodeInst bytes with
      | none => none
      | some (decoded, _) => execInst decoded state

def emittedXADD (objectOffset : Int → BitVec 64) (size : SizeOp) (base : SDValue)
    (offset : BitVec 64) (rb dst : Reg) : MCInst :=
  let (rBase, imm) := emittedAddress objectOffset rb base offset
  ⟨.XADD size, [.reg dst, .reg rBase, .imm imm, .reg dst]⟩

/-- Memory holds the sum, and the result register the old value if it is used. -/
def AddsAtomically (node : AtomicLoadAdd) (address addend : BitVec 64) (dst : Reg)
    (before after : MachineState) : Prop :=
  let old := load before.memory address node.memVT.bytes
  after.memory =
      store before.memory address node.memVT.bytes (old + addend.setWidth _) ∧
    (node.resultUsed = true → (after.regs dst).setWidth _ = old)

private theorem execEncoded_XADD (size : SizeOp) (dst base : Reg) (offset : BitVec 64)
    (state : MachineState) :
    execEncoded ⟨.XADD size, [.reg dst, .reg base, .imm offset, .reg dst]⟩ state =
      some (state.storeMem size (state.regs base + signExtend16 offset)
        (state.loadMem size (state.regs base + signExtend16 offset) +
          (state.regs dst).setWidth _)) := by
  have isForm : (⟨.XADD size, [.reg dst, .reg base, .imm offset, .reg dst]⟩ : MCInst) =
      (Form.XADD size dst base offset).toMCInst := rfl
  rw [isForm, execEncoded, encodeInstruction_toMCInst]
  dsimp only
  rw [decodeInst_form]
  rfl

/-! ## The address that is accessed -/

private theorem setWidth_signExtend16 (value : BitVec 64) :
    (signExtend16 value).setWidth 16 = value.setWidth 16 :=
  setWidth_signExtend (by decide) _

private theorem signExtend16_signExtend32 (value : BitVec 64) :
    signExtend16 (signExtend32 value) = signExtend16 value := by
  have half : (signExtend32 value).setWidth 16 = value.setWidth 16 := by
    have index64 : ∀ index, index < 16 → index < 64 := fun index inRange => by omega
    have index32 : ∀ index, index < 16 → index < 32 := fun index inRange => by omega
    unfold signExtend32
    ext index inRange
    simp [BitVec.getElem_signExtend, index32 index inRange, index64 index inRange]
  rw [signExtend16, half, signExtend16]

theorem disjoint_of_low_eq {address : BitVec 64} {left right : BitVec 64} {count : Nat}
    (short : count ≤ 8) (low : left.setWidth 16 = right.setWidth 16) (different : left ≠ right) :
    Disjoint (address + left) count (address + right) count := by
  have lowNat : left.toNat % 65536 = right.toNat % 65536 := by
    simpa using congrArg BitVec.toNat low
  have differentNat : left.toNat ≠ right.toNat := fun equal =>
    different (BitVec.eq_of_toNat_eq equal)
  intro index inRange
  rw [BitVec.toNat_sub, BitVec.toNat_add, BitVec.toNat_add, BitVec.toNat_add, BitVec.toNat_ofNat]
  have leftFits := left.isLt
  have rightFits := right.isLt
  omega

theorem store_sum_eq_iff {memory : Memory 64} {accessed address : BitVec 64} {count : Nat}
    {addend : BitVec (8 * count)} (short : count ≤ 8)
    (apart : accessed = address ∨
      Disjoint accessed count address count ∧ Disjoint address count accessed count) :
    store memory accessed count (load memory accessed count + addend) =
        store memory address count (load memory address count + addend) ↔
      accessed = address ∨ addend = 0 := by
  have fits : count ≤ 2 ^ 64 := by omega
  constructor
  · intro equal
    rcases apart with same | ⟨disjoint, -⟩
    · exact .inl same
    · have unchanged := store_eq_store_of_disjoint fits disjoint equal.symm
      exact .inr (by simpa using unchanged)
  · have nothing : ∀ value : BitVec (8 * count), value + 0 = value := BitVec.add_zero
    intro holds
    rcases holds with rfl | rfl
    · rfl
    · rw [nothing, nothing, store_load, store_load]

private def selectedDisplacement (objectOffset : Int → BitVec 64) :
    SDValue → BitVec 64 → BitVec 64
  | .TargetFrameIndex index, offset => objectOffset index + offset
  | _, offset => offset

section Selected

variable {known : KnownBits} {addr base : SDValue} {offset addrValue : BitVec 64}
variable {objectOffset : Int → BitVec 64} {anyExt : SDValue → BitVec 64} {state : DagState}

private theorem selectedDisplacement_eq (selected : selectAddr known addr = some (base, offset))
    (addrEval : addr.eval anyExt state = some addrValue) :
    selectedDisplacement objectOffset base offset =
      addressDisplacement known objectOffset addr := by
  rcases selectAddr_cases selected with
    ⟨index, rfl, rfl, rfl⟩ | ⟨op, left, rfl, rfl, recognised, fits⟩ | ⟨rfl, rfl, refused⟩
  · exact BitVec.add_zero _
  · have sum : addressDisplacement known objectOffset (.binary op left (.Constant offset)) =
        frameDisplacement objectOffset left + offset := if_pos ⟨recognised, fits⟩
    rw [sum]
    cases left with
    | FrameIndex index => rfl
    | TargetFrameIndex index => cases addrEval
    | _ => exact (BitVec.zero_add offset).symm
  · cases base with
    | FrameIndex index => cases selected
    | TargetFrameIndex index => cases addrEval
    | binary op left right =>
        cases right with
        | Constant value => exact (if_neg (refused op left value rfl)).symm
        | _ => rfl
    | _ => rfl

theorem addrValue_eq {regs : Reg → BitVec 64} {rb : Reg} (sound : known.SoundAt state)
    (selected : selectAddr known addr = some (base, offset))
    (addrEval : addr.eval anyExt state = some addrValue)
    (held : BaseHeld objectOffset anyExt state regs rb base) :
    addrValue = regs (emittedAddress objectOffset rb base offset).1 +
      addressDisplacement known objectOffset addr := by
  rw [← selectedDisplacement_eq selected addrEval]
  cases base with
  | TargetFrameIndex index =>
      have frame : state.frame index = regs .R10 + objectOffset index := held
      simp only [emittedAddress, selectedDisplacement]
      rw [← BitVec.add_assoc, ← frame]
      exact (frameAddress_of_selectAddr sound selected addrEval).symm
  | _ => exact (selectAddr_sound sound selected held addrEval).symm

private theorem signExtend16_emittedAddress (rb : Reg)
    (selected : selectAddr known addr = some (base, offset))
    (addrEval : addr.eval anyExt state = some addrValue) :
    signExtend16 (emittedAddress objectOffset rb base offset).2 =
      signExtend16 (addressDisplacement known objectOffset addr) := by
  rw [← selectedDisplacement_eq selected addrEval]
  cases base with
  | TargetFrameIndex index => exact signExtend16_signExtend32 _
  | _ => rfl

end Selected

theorem memory_emitted_iff (memory : Memory 64) (baseValue displacement : BitVec 64)
    {count : Nat} (short : count ≤ 8) (addend : BitVec (8 * count)) :
    store memory (baseValue + signExtend16 displacement) count
          (load memory (baseValue + signExtend16 displacement) count + addend) =
        store memory (baseValue + displacement) count
          (load memory (baseValue + displacement) count + addend) ↔
      isInt 16 displacement = true ∨ addend = 0 := by
  have low := setWidth_signExtend16 displacement
  have fitsIff : baseValue + signExtend16 displacement = baseValue + displacement ↔
      isInt 16 displacement = true := by
    rw [isInt_iff (by decide) (by decide), BitVec.add_right_inj]
    rfl
  rw [← fitsIff]
  apply store_sum_eq_iff short
  by_cases same : signExtend16 displacement = displacement
  · exact .inl (by rw [same])
  · exact .inr ⟨disjoint_of_low_eq short low same,
      disjoint_of_low_eq short low.symm (Ne.symm same)⟩

/-- An `XADD` keeps the meaning of its node exactly when its offset fits the
field or nothing is added, and its result is unused or happens to be the
addend. -/
theorem emittedXADD_iff {known : KnownBits} {node : AtomicLoadAdd} {size : SizeOp}
    {base : SDValue} {offset addrValue : BitVec 64} {anyExt : SDValue → BitVec 64}
    {state : DagState} (objectOffset : Int → BitVec 64) (rb dst : Reg) (before : MachineState)
    (sound : known.SoundAt state) (selected : node.select known = some (size, base, offset))
    (addrEval : node.addr.eval anyExt state = some addrValue)
    (held : BaseHeld objectOffset anyExt state before.regs rb base) :
    (∃ after, execEncoded (emittedXADD objectOffset size base offset rb dst) before =
        some after ∧ AddsAtomically node addrValue (before.regs dst) dst before after) ↔
      (isInt 16 (addressDisplacement known objectOffset node.addr) = true ∨
          (before.regs dst).setWidth (8 * node.memVT.bytes) = 0) ∧
        (node.resultUsed = false ∨
          load before.memory addrValue node.memVT.bytes = (before.regs dst).setWidth _) := by
  rcases node with ⟨memVT, addr, resultUsed⟩
  simp only [AtomicLoadAdd.select, bind, Option.bind_eq_some_iff, Prod.exists,
    Option.some.injEq, Prod.mk.injEq] at selected
  rcases selected with ⟨otherBase, otherOffset, selected, rfl, rfl, rfl⟩
  have address := addrValue_eq sound selected addrEval held
  have fieldOffset := @signExtend16_emittedAddress _ _ _ _ _ objectOffset _ _ rb selected addrEval
  simp only [emittedXADD, execEncoded_XADD, fieldOffset, Option.some.injEq, exists_eq_left']
  simp only [AddsAtomically]
  rw [address]
  refine and_congr ?_ ?_
  · cases memVT with
    | _ => exact memory_emitted_iff before.memory _ _ (by decide) _
  · cases resultUsed with
    | false => simp
    | true =>
        simp only [MachineState.storeMem, true_implies, Bool.true_eq_false, false_or]
        exact eq_comm

theorem emittedXADD_iff_unused :
    let known : KnownBits := .ofAlignment fun _ => 7
    let addr : SDValue := .binary .OR (.FrameIndex 0) (.Constant 4)
    let before : MachineState := ⟨fun _ => 0x1000, fun _ => 7⟩
    (∃ after, execEncoded (emittedXADD (fun _ => -8) .W (.TargetFrameIndex 0) 4 .R1 .R2) before =
        some after ∧ AddsAtomically ⟨.i32, addr, false⟩ 0xFFC 0x1000 .R2 before after) ↔
      (isInt 16 (addressDisplacement known (fun _ => -8) addr) = true ∨
          (0x1000 : BitVec 64).setWidth (8 * MVT.i32.bytes) = 0) ∧
        (false = false ∨ load before.memory (0xFFC : BitVec 64) MVT.i32.bytes =
          (0x1000 : BitVec 64).setWidth _) := by
  intro known addr before
  have sound : known.SoundAt ⟨fun _ => 0x1000, fun _ => 7, fun _ => 0xFF8, fun _ => 0⟩ :=
    KnownBits.soundAt_ofAlignment fun _ => (by decide : (0xFF8 : BitVec 64) &&& 7 = 0)
  exact @emittedXADD_iff known ⟨.i32, addr, false⟩ .W (.TargetFrameIndex 0) 4 0xFFC (fun _ => 0)
    _ (fun _ => -8) .R1 .R2 before sound (by decide) (by decide)
    (by decide : (0xFF8 : BitVec 64) = 0x1000 + -8)

/-- An atomic add of 1 at `r1`, whose result is used, leaves 1 in the result
register although memory held 5. -/
theorem emittedXADD_used :
    let node : AtomicLoadAdd := ⟨.i64, .CopyFromReg 1, true⟩
    let before : MachineState :=
      ⟨fun register => if register = .R1 then 0x1000 else 1,
        fun address => if address = 0x1000 then 5 else 0⟩
    node.select .ofConstants = some (.D, .CopyFromReg 1, 0) ∧
      (∃ after, execEncoded (emittedXADD (fun _ => 0) .D (.CopyFromReg 1) 0 .R1 .R2) before =
        some after ∧ after.regs .R2 = 1) ∧
      ¬ ∃ after,
        execEncoded (emittedXADD (fun _ => 0) .D (.CopyFromReg 1) 0 .R1 .R2) before =
          some after ∧ AddsAtomically node 0x1000 1 .R2 before after := by
  intro node before
  have runs : execEncoded (emittedXADD (fun _ => 0) .D (.CopyFromReg 1) 0 .R1 .R2) before =
      some (before.storeMem .D (before.regs .R1 + signExtend16 0)
        (before.loadMem .D (before.regs .R1 + signExtend16 0) +
          (before.regs .R2).setWidth _)) := execEncoded_XADD .D .R2 .R1 0 before
  refine ⟨by decide, ⟨_, runs, rfl⟩, ?_⟩
  intro holds
  rcases holds with ⟨after, otherRuns, -, result⟩
  rw [runs] at otherRuns
  cases otherRuns
  have old := result rfl
  revert old
  decide

end BpfBackend.CodeGen
