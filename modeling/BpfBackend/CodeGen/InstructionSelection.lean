import BpfBackend.CodeGen.AddressSelection

/-! # Instruction selection

The patterns of `BPFInstrInfo.td` as a relation between expressions and the
instructions that cover them: a node may be covered in several ways.
-/

namespace BpfBackend.CodeGen

open MC ByteMemory

/-! ## Selected instructions -/

inductive MachineNode where
  | COPY (register : Nat)
  | TargetFrameIndex (index : Int)
  | MOV_rr (index : Int)
  | ALU_rr (op : AluOp) (rS rX : MachineNode)
  | ALU_ri (op : AluOp) (rS : MachineNode) (imm : BitVec 64)
  | MOV_ri (imm : BitVec 64)
  | LD_imm64 (imm : BitVec 64)
  | LD_imm64_tglobaladdr (name : String) (offset : BitVec 64)
  | LD (size : SizeOp) (base : MachineNode) (offset : BitVec 64)
  deriving DecidableEq, Repr

def MachineNode.exec (state : DagState) : MachineNode → Option (BitVec 64)
  | COPY register => some (state.regs register)
  | TargetFrameIndex index | MOV_rr index => some (state.frame index)
  | ALU_rr op rS rX => do
      let left ← rS.exec state
      let right ← rX.exec state
      op.exec left right
  | ALU_ri op rS imm => do
      let left ← rS.exec state
      op.exec left (signExtend32 imm)
  | MOV_ri imm => some (signExtend32 imm)
  | LD_imm64 imm => some imm
  | LD_imm64_tglobaladdr name offset => some (state.symbols name + offset)
  | LD size base offset => do
      let baseValue ← base.exec state
      some ((load state.memory (baseValue + offset) size.bytes).setWidth 64)

/-! ## Patterns -/

def BinaryOp.aluOp : BinaryOp → AluOp
  | ADD => .ADD
  | SUB => .SUB
  | MUL => .MUL
  | UDIV => .DIV
  | AND => .AND
  | OR => .OR
  | XOR => .XOR
  | SHL => .SLL
  | SRL => .SRL
  | SRA => .SRA

/-- The width suffix of the load for `zextloadi32` and its siblings, `load` and
`extloadi8` to `extloadi32`. -/
def loadOpcode : LoadExtType → MVT → Option SizeOp
  | .ZEXTLOAD, .i32 => some .W
  | .ZEXTLOAD, .i16 => some .H
  | .ZEXTLOAD, .i8 => some .B
  | .NON_EXTLOAD, .i64 => some .D
  | .EXTLOAD, .i8 => some .B
  | .EXTLOAD, .i16 => some .H
  | .EXTLOAD, .i32 => some .W
  | _, _ => none

/-- The width suffix of the store for `truncstorei32`, its siblings and `store`,
and of the `XADD` for `atomic_load_add_32` and its siblings. -/
def MVT.sizeOp : MVT → SizeOp
  | .i32 => .W
  | .i16 => .H
  | .i8 => .B
  | .i64 => .D

/-- `SelectionDAGISel::CheckAndMask`, by which a pattern's mask also matches a
smaller one when the missing bits are known to be zero. -/
def checkAndMask (known : KnownBits) (node : SDValue) (actual desired : BitVec 64) : Bool :=
  actual = desired ||
    (actual &&& ~~~desired = 0 && known.maskedValueIsZero node (desired &&& ~~~actual))

/-- One way of covering an expression. `Select` moves a frame index to a
register, and the frame index that `SelectAddr` leaves is an operand. -/
inductive Selects (known : KnownBits) : SDValue → MachineNode → Prop where
  | CopyFromReg (register : Nat) :
      Selects known (.CopyFromReg register) (.COPY register)
  | TargetFrameIndex (index : Int) :
      Selects known (.TargetFrameIndex index) (.TargetFrameIndex index)
  | FrameIndex (index : Int) : Selects known (.FrameIndex index) (.MOV_rr index)
  | Wrapper (name : String) (offset : BitVec 64) :
      Selects known (.Wrapper (.TargetGlobalAddress name offset))
        (.LD_imm64_tglobaladdr name offset)
  | ALU_RR (op : BinaryOp) {left right : SDValue} {rS rX : MachineNode} :
      Selects known left rS → Selects known right rX →
      Selects known (.binary op left right) (.ALU_rr op.aluOp rS rX)
  | ALU_RI (op : BinaryOp) {left : SDValue} {rS : MachineNode} {imm : BitVec 64} :
      isInt 32 imm = true → Selects known left rS →
      Selects known (.binary op left (.Constant imm)) (.ALU_ri op.aluOp rS imm)
  | MOV_RI {imm : BitVec 64} :
      isInt 32 imm = true → Selects known (.Constant imm) (.MOV_ri imm)
  | LD_IMM64 (imm : BitVec 64) : Selects known (.Constant imm) (.LD_imm64 imm)
  | and_0xffffFFFF {src : SDValue} {rS : MachineNode} {mask : BitVec 64} :
      checkAndMask known src mask 0xffffFFFF = true → Selects known src rS →
      Selects known (.binary .AND src (.Constant mask))
        (.ALU_ri .SRL (.ALU_ri .SLL rS 32) 32)
  | LOADi64 {ext : LoadExtType} {memVT : MVT} {size : SizeOp} {addr base : SDValue}
      {offset : BitVec 64} {rBase : MachineNode} :
      loadOpcode ext memVT = some size → selectAddr known addr = some (base, offset) →
      Selects known base rBase →
      Selects known (.load ext memVT addr) (.LD size rBase offset)

/-! ## Each pattern keeps the value -/

private theorem BinaryOp.exec_aluOp (op : BinaryOp) (left right : BitVec 64) :
    op.aluOp.exec left right = op.eval left right := by
  cases op <;> rfl

private theorem shiftPair_eq (value : BitVec 64) :
    (value <<< (32#64)) >>> (32#64) = value &&& 0xffffFFFF#64 := by
  have mask : value &&& 0xffffFFFF#64 = (value.setWidth 32).setWidth 64 :=
    and_lowMask value 32 (by decide)
  have shifts : (value <<< (32#64)) >>> (32#64) = (value <<< 32) >>> 32 := rfl
  rw [mask, shifts]
  ext index inRange
  by_cases low : index < 32
  · have shifted : 32 + index < 64 := by omega
    have notBelow : ¬ 32 + index < 32 := by omega
    simp [low, shifted, notBelow, BitVec.getLsbD_eq_getElem inRange]
  · have beyond : ¬ 32 + index < 64 := by omega
    simp [low, beyond]

theorem and_of_checkAndMask {known : KnownBits} {node : SDValue}
    {actual desired value : BitVec 64} {anyExt : SDValue → BitVec 64} {state : DagState}
    (sound : known.SoundAt state) (matched : checkAndMask known node actual desired = true)
    (evaluates : node.eval anyExt state = some value) :
    value &&& desired = value &&& actual := by
  simp only [checkAndMask, Bool.or_eq_true, Bool.and_eq_true, decide_eq_true_eq] at matched
  rcases matched with rfl | ⟨inside, needed⟩
  · rfl
  · have missing := sound node _ needed anyExt value evaluates
    ext index inRange
    have insideBit : (actual &&& ~~~desired)[index] = (0#64)[index] := by rw [inside]; rfl
    have missingBit : (value &&& (desired &&& ~~~actual))[index] = (0#64)[index] := by
      rw [missing]; rfl
    simp only [BitVec.getElem_and, BitVec.getElem_not, BitVec.getElem_zero]
      at insideBit missingBit ⊢
    revert insideBit missingBit
    cases value[index] <;> cases actual[index] <;> cases desired[index] <;> decide

private theorem extend_of_loadOpcode {ext : LoadExtType} {memVT : MVT} {size : SizeOp}
    (opcode : loadOpcode ext memVT = some size) (memory : Memory 64) (address : BitVec 64) :
    ext.extend 0 (load memory address memVT.bytes) =
      (load memory address size.bytes).setWidth 64 := by
  unfold loadOpcode at opcode
  split at opcode <;> cases opcode <;>
    first
    | rfl
    | exact anyExtend_zero _

theorem Selects.exec_base {known : KnownBits} {addr base : SDValue} {offset address : BitVec 64}
    {state : DagState} {rBase : MachineNode} (sound : known.SoundAt state)
    (selected : selectAddr known addr = some (base, offset)) (covered : Selects known base rBase)
    (computes : ∀ {value}, base.eval (fun _ => 0) state = some value →
      rBase.exec state = some value)
    (evaluates : addr.eval (fun _ => 0) state = some address) :
    ∃ baseValue, rBase.exec state = some baseValue ∧ baseValue + offset = address := by
  by_cases frame : ∃ index, base = .TargetFrameIndex index
  · rcases frame with ⟨index, rfl⟩
    cases covered
    exact ⟨_, rfl, frameAddress_of_selectAddr sound selected evaluates⟩
  · have noFrame : ∀ index, base ≠ .TargetFrameIndex index :=
      fun index equal => frame ⟨index, equal⟩
    rcases eval_base_of_selectAddr selected evaluates noFrame with ⟨baseValue, baseEval⟩
    exact ⟨baseValue, computes baseEval, selectAddr_sound sound selected baseEval evaluates⟩

/-- Every cover of an expression computes the value in which any-extending
loads clear the upper bits. -/
theorem Selects.exec_eq {known : KnownBits} {state : DagState} {node : SDValue}
    {tree : MachineNode} (selects : Selects known node tree) (sound : known.SoundAt state)
    {value : BitVec 64} (evaluates : node.eval (fun _ => 0) state = some value) :
    tree.exec state = some value := by
  induction selects generalizing value with
  | CopyFromReg register => exact evaluates
  | TargetFrameIndex index => cases evaluates
  | FrameIndex index => exact evaluates
  | Wrapper name offset => exact evaluates
  | ALU_RR op left right leftInduction rightInduction =>
      rcases eval_binary_eq_some evaluates with
        ⟨leftValue, rightValue, leftEval, rightEval, result⟩
      rw [MachineNode.exec, leftInduction leftEval, rightInduction rightEval]
      exact (op.exec_aluOp leftValue rightValue).trans result
  | ALU_RI op fits left induction =>
      rcases eval_binary_eq_some evaluates with
        ⟨leftValue, rightValue, leftEval, rightEval, result⟩
      cases rightEval
      rw [MachineNode.exec, induction leftEval, signExtend32_of_isInt fits]
      exact (op.exec_aluOp leftValue _).trans result
  | MOV_RI fits =>
      cases evaluates
      exact congrArg some (signExtend32_of_isInt fits)
  | LD_IMM64 imm => exact evaluates
  | and_0xffffFFFF matched src induction =>
      rcases eval_binary_eq_some evaluates with
        ⟨srcValue, maskValue, srcEval, maskEval, result⟩
      cases maskEval
      rw [MachineNode.exec, MachineNode.exec, induction srcEval]
      refine Eq.trans (congrArg some ?_) result
      exact (shiftPair_eq srcValue).trans (and_of_checkAndMask sound matched srcEval)
  | LOADi64 opcode selected base induction =>
      rename_i baseNode offset rBase
      rcases eval_load_eq_some evaluates with ⟨address, addressEval, rfl⟩
      rcases base.exec_base sound selected induction addressEval with ⟨baseValue, computes, rfl⟩
      rw [MachineNode.exec, computes, extend_of_loadOpcode opcode]
      rfl

/-! ## Whole trees -/

inductive SDRoot where
  | value (node : SDValue)
  | store (memVT : MVT) (stored addr : SDValue)
  deriving DecidableEq, Repr

inductive MachineRoot where
  | value (node : MachineNode)
  | ST (size : SizeOp) (rX base : MachineNode) (offset : BitVec 64)
  deriving DecidableEq, Repr

abbrev Outcome := Option (BitVec 64) × Memory 64

def SDRoot.run (anyExt : SDValue → BitVec 64) (state : DagState) : SDRoot → Option Outcome
  | value node => do
      let result ← node.eval anyExt state
      some (some result, state.memory)
  | store memVT stored addr => do
      let storedValue ← stored.eval anyExt state
      let address ← addr.eval anyExt state
      some (none, ByteMemory.store state.memory address memVT.bytes (storedValue.setWidth _))

def MachineRoot.run (state : DagState) : MachineRoot → Option Outcome
  | value node => do
      let result ← node.exec state
      some (some result, state.memory)
  | ST size rX base offset => do
      let storedValue ← rX.exec state
      let baseValue ← base.exec state
      some (none,
        ByteMemory.store state.memory (baseValue + offset) size.bytes (storedValue.setWidth _))

/-- Shift amounts are below 64 and divisors nonzero, whatever the upper bits of
any-extending loads. -/
def SDRoot.Defined (state : DagState) (root : SDRoot) : Prop :=
  ∀ anyExt, (root.run anyExt state).isSome = true

def SDRoot.Allows (state : DagState) (root : SDRoot) (outcome : Outcome) : Prop :=
  ∃ anyExt, root.run anyExt state = some outcome

inductive SelectsRoot (known : KnownBits) : SDRoot → MachineRoot → Prop where
  | value {node : SDValue} {tree : MachineNode} :
      Selects known node tree → SelectsRoot known (.value node) (.value tree)
  | STOREi64 (memVT : MVT) {stored addr base : SDValue} {offset : BitVec 64}
      {rX rBase : MachineNode} :
      Selects known stored rX → selectAddr known addr = some (base, offset) →
      Selects known base rBase →
      SelectsRoot known (.store memVT stored addr) (.ST memVT.sizeOp rX rBase offset)

private theorem store_sizeOp (memVT : MVT) (memory : Memory 64) (address value : BitVec 64) :
    ByteMemory.store memory address memVT.sizeOp.bytes (value.setWidth _) =
      ByteMemory.store memory address memVT.bytes (value.setWidth _) := by
  cases memVT <;> rfl

theorem SelectsRoot.run_eq {known : KnownBits} {state : DagState} {root : SDRoot}
    {code : MachineRoot} (selects : SelectsRoot known root code) (sound : known.SoundAt state)
    {outcome : Outcome} (runs : root.run (fun _ => 0) state = some outcome) :
    code.run state = some outcome := by
  cases selects with
  | value covered =>
      simp only [SDRoot.run, bind, Option.bind_eq_some_iff, Option.some.injEq] at runs
      rcases runs with ⟨result, evaluates, rfl⟩
      rw [MachineRoot.run, covered.exec_eq sound evaluates]
      rfl
  | STOREi64 memVT covered selected base =>
      simp only [SDRoot.run, bind, Option.bind_eq_some_iff, Option.some.injEq] at runs
      rcases runs with ⟨storedValue, storedEval, address, addressEval, rfl⟩
      rcases base.exec_base sound selected (base.exec_eq sound) addressEval with
        ⟨baseValue, computes, rfl⟩
      rw [MachineRoot.run, covered.exec_eq sound storedEval, computes]
      exact congrArg (fun memory => some (none, memory)) (store_sizeOp memVT _ _ _)

/-! ## Every tree has a cover -/

def SDValue.isCoverable : SDValue → Bool
  | CopyFromReg _ | Constant _ | FrameIndex _ | Wrapper (.TargetGlobalAddress _ _) => true
  | binary _ left right => left.isCoverable && right.isCoverable
  | load ext memVT address => (loadOpcode ext memVT).isSome && address.isCoverable
  | _ => false

private theorem isSome_selectAddr {known : KnownBits} {addr : SDValue}
    (coverable : addr.isCoverable = true) :
    ∃ base offset, selectAddr known addr = some (base, offset) := by
  unfold selectAddr
  split
  · exact ⟨_, _, rfl⟩
  · cases coverable
  · cases coverable
  · split
    · exact ⟨_, _, rfl⟩
    · split
      · exact ⟨_, _, rfl⟩
      · exact ⟨_, _, rfl⟩
  · exact ⟨_, _, rfl⟩

/-- The induction also covers the left operand on its own, which `SelectAddr`
may take as the base. -/
theorem exists_selects (known : KnownBits) (node : SDValue)
    (coverable : node.isCoverable = true) :
    (∃ tree, Selects known node tree) ∧
      ∀ op left right, node = .binary op left right → ∃ tree, Selects known left tree := by
  induction node with
  | CopyFromReg register =>
      exact ⟨⟨_, .CopyFromReg register⟩, fun op left right equal => by cases equal⟩
  | Constant value =>
      exact ⟨⟨_, .LD_IMM64 value⟩, fun op left right equal => by cases equal⟩
  | FrameIndex index =>
      exact ⟨⟨_, .FrameIndex index⟩, fun op left right equal => by cases equal⟩
  | Wrapper inner =>
      cases inner with
      | TargetGlobalAddress name offset =>
          exact ⟨⟨_, .Wrapper name offset⟩, fun op left right equal => by cases equal⟩
      | _ => cases coverable
  | binary op left right leftInduction rightInduction =>
      rw [SDValue.isCoverable, Bool.and_eq_true] at coverable
      rcases leftInduction coverable.1 with ⟨⟨rS, leftSelects⟩, -⟩
      rcases rightInduction coverable.2 with ⟨⟨rX, rightSelects⟩, -⟩
      refine ⟨⟨_, .ALU_RR op leftSelects rightSelects⟩, ?_⟩
      intro otherOp otherLeft otherRight equal
      cases equal
      exact ⟨rS, leftSelects⟩
  | load ext memVT address induction =>
      rw [SDValue.isCoverable, Bool.and_eq_true] at coverable
      rcases Option.isSome_iff_exists.mp coverable.1 with ⟨size, opcode⟩
      rcases induction coverable.2 with ⟨whole, leftOperand⟩
      rcases isSome_selectAddr coverable.2 with ⟨base, offset, selected⟩
      have baseSelects : ∃ tree, Selects known base tree := by
        rcases selectAddr_cases selected with
          ⟨index, rfl, rfl, -⟩ | ⟨op, left, rfl, rfl, -, -⟩ | ⟨rfl, -, -⟩
        · exact ⟨_, .TargetFrameIndex index⟩
        · cases left with
          | FrameIndex index => exact ⟨_, .TargetFrameIndex index⟩
          | _ => exact leftOperand _ _ _ rfl
        · exact whole
      rcases baseSelects with ⟨rBase, selects⟩
      exact ⟨⟨_, .LOADi64 opcode selected selects⟩, fun op left right equal => by cases equal⟩
  | _ => cases coverable

/-- Selection keeps the meaning of a tree: whichever patterns cover it, in
every state in which it is defined the selected instructions run to an outcome
that the tree allows. -/
theorem SelectsRoot.run_allowed {known : KnownBits} {root : SDRoot} {code : MachineRoot}
    (selects : SelectsRoot known root code) (state : DagState) (sound : known.SoundAt state)
    (defined : root.Defined state) :
    ∃ outcome, code.run state = some outcome ∧ root.Allows state outcome := by
  rcases Option.isSome_iff_exists.mp (defined fun _ => 0) with ⟨outcome, runs⟩
  exact ⟨outcome, selects.run_eq sound runs, _, runs⟩

theorem SelectsRoot.run_allowed_mask :
    ∃ outcome, (MachineRoot.ST .B (.ALU_ri .SRL (.ALU_ri .SLL
        (.LD .W (.COPY 1) (-4)) 32) 32) (.COPY 2) 40).run
          ⟨fun register => 16 * BitVec.ofNat 64 register, fun _ => 0xff, fun _ => 0, fun _ => 0⟩ =
        some outcome ∧
      (SDRoot.store .i8 (.binary .AND (.load .EXTLOAD .i32
        (.binary .ADD (.CopyFromReg 1) (.Constant (-4)))) (.Constant 0xffffFFFF))
          (.binary .ADD (.CopyFromReg 2) (.Constant 40))).Allows
        ⟨fun register => 16 * BitVec.ofNat 64 register, fun _ => 0xff, fun _ => 0, fun _ => 0⟩
        outcome :=
  @SelectsRoot.run_allowed .ofConstants _ _
    (.STOREi64 .i8
      (.and_0xffffFFFF (by decide)
        (.LOADi64 rfl (by decide : selectAddr .ofConstants _ = some (.CopyFromReg 1, -4))
          (.CopyFromReg 1)))
      (by decide : selectAddr .ofConstants _ = some (.CopyFromReg 2, 40)) (.CopyFromReg 2))
    _ (KnownBits.soundAt_ofConstants _) (fun _ => rfl)

end BpfBackend.CodeGen
