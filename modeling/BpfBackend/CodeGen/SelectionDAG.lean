import BpfBackend.MC.Machine

/-! # The selection DAG

The nodes of a legalized 64-bit expression and their values.
-/

namespace BpfBackend.CodeGen

open ByteMemory

inductive MVT where
  | i8 | i16 | i32 | i64
  deriving DecidableEq, Repr

def MVT.bytes : MVT → Nat
  | i8 => 1
  | i16 => 2
  | i32 => 4
  | i64 => 8

def MVT.bits (vt : MVT) : Nat := 8 * vt.bytes

inductive BinaryOp where
  | ADD | SUB | MUL | UDIV | AND | OR | XOR | SHL | SRL | SRA
  deriving DecidableEq, Repr

inductive LoadExtType where
  | NON_EXTLOAD | EXTLOAD | SEXTLOAD | ZEXTLOAD
  deriving DecidableEq, Repr

/-- A node with one 64-bit value. Frame indices of fixed objects are negative. -/
inductive SDValue where
  | CopyFromReg (register : Nat)
  | Constant (value : BitVec 64)
  | FrameIndex (index : Int)
  | TargetFrameIndex (index : Int)
  | GlobalAddress (name : String) (offset : BitVec 64)
  | TargetGlobalAddress (name : String) (offset : BitVec 64)
  | TargetExternalSymbol (name : String)
  | Wrapper (node : SDValue)
  | binary (op : BinaryOp) (left right : SDValue)
  | load (ext : LoadExtType) (memVT : MVT) (address : SDValue)
  deriving DecidableEq, Repr

/-! ## Values -/

def BinaryOp.eval : BinaryOp → BitVec 64 → BitVec 64 → Option (BitVec 64)
  | ADD, left, right => some (left + right)
  | SUB, left, right => some (left - right)
  | MUL, left, right => some (left * right)
  | UDIV, left, right => if right = 0 then none else some (left / right)
  | AND, left, right => some (left &&& right)
  | OR, left, right => some (left ||| right)
  | XOR, left, right => some (left ^^^ right)
  | SHL, left, right => if right.toNat < 64 then some (left <<< right) else none
  | SRL, left, right => if right.toNat < 64 then some (left >>> right) else none
  | SRA, left, right => if right.toNat < 64 then some (left.sshiftRight' right) else none

structure DagState where
  regs : Nat → BitVec 64
  memory : Memory 64
  frame : Int → BitVec 64
  symbols : String → BitVec 64

def anyExtend (upper : BitVec 64) (low : BitVec bits) : BitVec 64 :=
  (upper >>> bits) <<< bits ||| low.setWidth 64

def LoadExtType.extend (upper : BitVec 64) (low : BitVec bits) : LoadExtType → BitVec 64
  | NON_EXTLOAD | ZEXTLOAD => low.setWidth 64
  | SEXTLOAD => low.signExtend 64
  | EXTLOAD => anyExtend upper low

/-- The value of a node, `none` when it is undefined or no value of a register.
`anyExt` chooses the upper bits of every any-extending load. -/
def SDValue.eval (anyExt : SDValue → BitVec 64) (state : DagState) :
    SDValue → Option (BitVec 64)
  | CopyFromReg register => some (state.regs register)
  | Constant value => some value
  | FrameIndex index => some (state.frame index)
  | TargetFrameIndex _ => none
  | GlobalAddress name offset => some (state.symbols name + offset)
  | TargetGlobalAddress _ _ => none
  | TargetExternalSymbol _ => none
  | Wrapper (TargetGlobalAddress name offset) => some (state.symbols name + offset)
  | Wrapper _ => none
  | binary op left right => do
      let leftValue ← left.eval anyExt state
      let rightValue ← right.eval anyExt state
      op.eval leftValue rightValue
  | load ext memVT address => do
      let addressValue ← address.eval anyExt state
      some (ext.extend (anyExt (load ext memVT address))
        (ByteMemory.load state.memory addressValue memVT.bytes))

theorem anyExtend_zero (low : BitVec bits) : anyExtend 0 low = low.setWidth 64 := by
  simp [anyExtend]

theorem eval_binary_eq_some {anyExt : SDValue → BitVec 64} {state : DagState} {op : BinaryOp}
    {left right : SDValue} {value : BitVec 64}
    (evaluates : (SDValue.binary op left right).eval anyExt state = some value) :
    ∃ leftValue rightValue, left.eval anyExt state = some leftValue ∧
      right.eval anyExt state = some rightValue ∧
      op.eval leftValue rightValue = some value := by
  simp only [SDValue.eval, bind, Option.bind_eq_some_iff] at evaluates
  rcases evaluates with ⟨leftValue, leftEval, rightValue, rightEval, result⟩
  exact ⟨leftValue, rightValue, leftEval, rightEval, result⟩

theorem eval_load_eq_some {anyExt : SDValue → BitVec 64} {state : DagState}
    {ext : LoadExtType} {memVT : MVT} {address : SDValue} {value : BitVec 64}
    (evaluates : (SDValue.load ext memVT address).eval anyExt state = some value) :
    ∃ addressValue, address.eval anyExt state = some addressValue ∧
      value = ext.extend (anyExt (.load ext memVT address))
        (ByteMemory.load state.memory addressValue memVT.bytes) := by
  simp only [SDValue.eval, bind, Option.bind_eq_some_iff] at evaluates
  rcases evaluates with ⟨addressValue, addressEval, result⟩
  exact ⟨addressValue, addressEval, (Option.some.inj result).symm⟩

/-! ## Known bits -/

structure KnownBits where
  maskedValueIsZero : SDValue → BitVec 64 → Bool

/-- The bits that are found to be zero are zero in a state. Alignments of frame
objects and ranges of registers or loads hold in some states only. -/
def KnownBits.SoundAt (known : KnownBits) (state : DagState) : Prop :=
  ∀ node mask, known.maskedValueIsZero node mask = true →
    ∀ anyExt value, node.eval anyExt state = some value → value &&& mask = 0

/-- The bits of constants, of masked values and of the addresses of aligned
frame objects. -/
def KnownBits.ofAlignment (lowZeros : Int → BitVec 64) : KnownBits where
  maskedValueIsZero
    | .Constant value, mask => value &&& mask = 0
    | .binary .AND _ (.Constant value), mask => value &&& mask = 0
    | .FrameIndex index, mask => mask &&& ~~~lowZeros index = 0
    | _, _ => false

def KnownBits.ofConstants : KnownBits := .ofAlignment fun _ => 0

private theorem and_eq_zero_of_inside {value mask lowZeros : BitVec 64}
    (inside : mask &&& ~~~lowZeros = 0#64) (aligned : value &&& lowZeros = 0#64) :
    value &&& mask = 0#64 := by
  ext bit inRange
  have outsideBit : (mask &&& ~~~lowZeros)[bit] = (0#64)[bit] := by rw [inside]
  have insideBit : (value &&& lowZeros)[bit] = (0#64)[bit] := by rw [aligned]
  simp only [BitVec.getElem_and, BitVec.getElem_not, BitVec.getElem_zero]
    at outsideBit insideBit ⊢
  revert outsideBit insideBit
  cases mask[bit] <;> cases lowZeros[bit] <;> cases value[bit] <;> decide

theorem KnownBits.soundAt_ofAlignment {lowZeros : Int → BitVec 64} {state : DagState}
    (aligned : ∀ index, state.frame index &&& lowZeros index = 0) :
    (KnownBits.ofAlignment lowZeros).SoundAt state := by
  intro node mask zero anyExt value evaluates
  unfold ofAlignment at zero
  dsimp only at zero
  split at zero
  · simp only [SDValue.eval, Option.some.injEq] at evaluates
    simpa [evaluates] using zero
  · rcases eval_binary_eq_some evaluates with ⟨leftValue, rightValue, -, rightEval, result⟩
    simp only [SDValue.eval, Option.some.injEq] at rightEval
    simp only [BinaryOp.eval, Option.some.injEq] at result
    subst rightEval result
    simp only [decide_eq_true_eq] at zero
    rw [BitVec.and_assoc, zero]
    exact BitVec.and_zero
  · rename_i index
    cases evaluates
    exact and_eq_zero_of_inside (by simpa using zero) (aligned index)
  · cases zero

theorem KnownBits.soundAt_ofConstants (state : DagState) : ofConstants.SoundAt state :=
  soundAt_ofAlignment fun _ => BitVec.and_zero

end BpfBackend.CodeGen
