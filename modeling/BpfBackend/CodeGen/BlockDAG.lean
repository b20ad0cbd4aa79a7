import BpfBackend.CodeGen.InstructionActions
import BpfBackend.CodeGen.MachineFunction

/-! # The DAGs of a function

A function before instruction selection: in each block the trees at the roots
of its DAG, in the order of the chain, and the nodes that end it.
-/

namespace BpfBackend.CodeGen

open ByteMemory MC Simulation

/-! ## Blocks of trees -/

/-- The root of a tree. Nothing uses the result of the `atomicLoadAdd`. -/
inductive DagStatement where
  | CopyToReg (dst : Nat) (node : SDValue)
  | SELECT_CC (dst : Nat) (LHS RHS TrueV FalseV : SDValue) (CC : CondCode)
  | store (memVT : MVT) (stored addr : SDValue)
  | atomicLoadAdd (memVT : MVT) (addr val : SDValue)
  | CALLSEQ_START (amt : BitVec 64)
  | CALL (callee : SDValue)
  | CALLSEQ_END (amt1 amt2 : BitVec 64)
  deriving DecidableEq, Repr

structure DagBranch where
  CC : CondCode
  LHS : SDValue
  RHS : SDValue
  Dest : Nat
  deriving DecidableEq, Repr

inductive DagExit where
  | fallThrough
  | BR (Dest : Nat)
  | RET_FLAG
  deriving DecidableEq, Repr

structure DagBlock where
  number : Nat
  phis : List MachinePhi
  statements : List DagStatement
  branch : Option DagBranch
  exit : DagExit
  successors : List Nat
  deriving DecidableEq, Repr

/-- Registers from `nextRegister` on are not used yet. -/
structure DagFunction where
  blocks : List DagBlock
  nextNumber : Nat
  nextRegister : Nat
  deriving DecidableEq, Repr

instance : BasicBlock DagBlock := ⟨(·.number), (·.phis)⟩

def DagExit.targets (next : Option Nat) : DagExit → List Nat
  | fallThrough => next.toList
  | BR Dest => [Dest]
  | RET_FLAG => []

def DagBlock.exits (block : DagBlock) (next : Option Nat) : List Nat :=
  (block.branch.map (·.Dest)).toList ++ block.exit.targets next

/-! ## Registers that are used -/

def SDValue.RegsBelow (bound : Nat) : SDValue → Prop
  | CopyFromReg register => register < bound
  | Wrapper node => node.RegsBelow bound
  | binary _ left right => left.RegsBelow bound ∧ right.RegsBelow bound
  | load _ _ address => address.RegsBelow bound
  | _ => True

def DagStatement.RegsBelow (bound : Nat) : DagStatement → Prop
  | CopyToReg dst node => dst < bound ∧ node.RegsBelow bound
  | SELECT_CC dst LHS RHS TrueV FalseV _ =>
      dst < bound ∧ LHS.RegsBelow bound ∧ RHS.RegsBelow bound ∧ TrueV.RegsBelow bound ∧
        FalseV.RegsBelow bound
  | store _ stored addr => stored.RegsBelow bound ∧ addr.RegsBelow bound
  | atomicLoadAdd _ addr val => addr.RegsBelow bound ∧ val.RegsBelow bound
  | CALLSEQ_START _ | CALL _ | CALLSEQ_END _ _ => True

def DagBranch.RegsBelow (bound : Nat) (branch : DagBranch) : Prop :=
  branch.LHS.RegsBelow bound ∧ branch.RHS.RegsBelow bound

def MachinePhi.RegsBelow (bound : Nat) (phi : MachinePhi) : Prop :=
  phi.dst < bound ∧ ∀ entry ∈ phi.incoming, entry.1 < bound

structure DagBlock.RegsBelow (bound : Nat) (block : DagBlock) : Prop where
  phis : ∀ phi ∈ block.phis, phi.RegsBelow bound
  statements : ∀ statement ∈ block.statements, statement.RegsBelow bound
  branch : ∀ branch ∈ block.branch, branch.RegsBelow bound

section Decidable

variable (bound : Nat)

instance SDValue.decidableRegsBelow : (node : SDValue) → Decidable (node.RegsBelow bound)
  | .CopyFromReg register => inferInstanceAs (Decidable (register < bound))
  | .Wrapper node => decidableRegsBelow node
  | .binary _ left right =>
      @instDecidableAnd _ _ (decidableRegsBelow left) (decidableRegsBelow right)
  | .load _ _ address => decidableRegsBelow address
  | .Constant _ | .FrameIndex _ | .TargetFrameIndex _ | .GlobalAddress _ _
  | .TargetGlobalAddress _ _ | .TargetExternalSymbol _ => inferInstanceAs (Decidable True)

instance : (statement : DagStatement) → Decidable (statement.RegsBelow bound)
  | .CopyToReg _ _ => inferInstanceAs (Decidable (_ ∧ _))
  | .SELECT_CC _ _ _ _ _ _ => inferInstanceAs (Decidable (_ ∧ _ ∧ _ ∧ _ ∧ _))
  | .store _ _ _ => inferInstanceAs (Decidable (_ ∧ _))
  | .atomicLoadAdd _ _ _ => inferInstanceAs (Decidable (_ ∧ _))
  | .CALLSEQ_START _ | .CALL _ | .CALLSEQ_END _ _ => inferInstanceAs (Decidable True)

instance (branch : DagBranch) : Decidable (branch.RegsBelow bound) :=
  inferInstanceAs (Decidable (_ ∧ _))

instance (phi : MachinePhi) : Decidable (phi.RegsBelow bound) :=
  inferInstanceAs (Decidable (_ ∧ _))

instance (block : DagBlock) : Decidable (block.RegsBelow bound) :=
  decidable_of_iff ((∀ phi ∈ block.phis, phi.RegsBelow bound) ∧
      (∀ statement ∈ block.statements, statement.RegsBelow bound) ∧
      ∀ branch ∈ block.branch, branch.RegsBelow bound)
    ⟨fun parts => ⟨parts.1, parts.2.1, parts.2.2⟩,
      fun below => ⟨below.phis, below.statements, below.branch⟩⟩

end Decidable

/-- Blocks are distinct, the blocks and the registers that they name exist, and
every successor list is the set of the block's exits. -/
structure DagFunction.WellFormed (dag : DagFunction) : Prop where
  distinct : (dag.blocks.map (·.number)).Nodup
  numbered : ∀ block ∈ dag.blocks, block.number < dag.nextNumber
  successors : ∀ block ∈ dag.blocks, ∀ successor ∈ block.successors,
    successor < dag.nextNumber
  incoming : ∀ block ∈ dag.blocks, ∀ phi ∈ block.phis, ∀ entry ∈ phi.incoming,
    entry.2 < dag.nextNumber
  registers : ∀ block ∈ dag.blocks, block.RegsBelow dag.nextRegister
  exitsListed : ∀ block ∈ dag.blocks,
    block.exits (layoutNext dag.blocks block.number) ⊆ block.successors
  listedExits : ∀ block ∈ dag.blocks,
    block.successors ⊆ block.exits (layoutNext dag.blocks block.number)

/-! ## Execution -/

abbrev DagContext := MachineContext (Memory 64)

def MachineContext.below {World : Type} (bound : Nat) (context : MachineContext World) :
    MachineContext World :=
  { context with regs := fun register => if register < bound then context.regs register else 0 }

/-- The addresses of the frame objects and of the symbols, and what a callee
makes of the registers and the memory that it is given. -/
structure DagEnvironment where
  frame : Int → BitVec 64
  symbols : String → BitVec 64
  call : SymbolicValue → DagContext → Option DagContext

def DagEnvironment.state (environment : DagEnvironment) (context : DagContext) : DagState :=
  ⟨context.regs, context.world, environment.frame, environment.symbols⟩

/-- What a run shows: its accesses with the number of bytes, its calls, the
blocks that it enters and its end. -/
inductive DagObservation where
  | stored (bytes : Nat) (address value : BitVec 64)
  | added (bytes : Nat) (address value : BitVec 64)
  | called (callee : SymbolicValue) (context : DagContext)
  | entered (block : Nat) (context : DagContext)
  | returned (context : DagContext)
  | trapped

def lowBytes (bytes : Nat) (value : BitVec 64) : BitVec 64 :=
  (value.setWidth (8 * bytes)).setWidth 64

def MachineContext.storeMem (context : DagContext) (address : BitVec 64) (bytes : Nat)
    (value : BitVec (8 * bytes)) : DagContext :=
  { context with world := ByteMemory.store context.world address bytes value }

def MachineContext.addMem (context : DagContext) (address : BitVec 64) (bytes : Nat)
    (value : BitVec (8 * bytes)) : DagContext :=
  context.storeMem address bytes (ByteMemory.load context.world address bytes + value)

inductive DagConfig where
  | running (block : Nat) (rest : List DagStatement) (branch : Option DagBranch)
      (exit : DagExit) (context : DagContext)
  | undefined
  | halted

section Execution

variable (anyExt : SDValue → BitVec 64) (environment : DagEnvironment)

/-- What a statement shows and leaves, or nothing if a value is undefined. A
callee sees none of the registers that are not used yet. -/
def DagStatement.run (bound : Nat) (context : DagContext) :
    DagStatement → Option (Option DagObservation × DagContext)
  | CopyToReg dst node => do
      let value ← node.eval anyExt (environment.state context)
      some (none, context.setReg dst value)
  | SELECT_CC dst LHS RHS TrueV FalseV CC => do
      let left ← LHS.eval anyExt (environment.state context)
      let right ← RHS.eval anyExt (environment.state context)
      let trueValue ← TrueV.eval anyExt (environment.state context)
      let falseValue ← FalseV.eval anyExt (environment.state context)
      some (none, context.setReg dst (if CC.holds left right then trueValue else falseValue))
  | store memVT stored addr => do
      let value ← stored.eval anyExt (environment.state context)
      let address ← addr.eval anyExt (environment.state context)
      some (some (.stored memVT.bytes address (lowBytes memVT.bytes value)),
        context.storeMem address memVT.bytes (value.setWidth _))
  | atomicLoadAdd memVT addr val => do
      let value ← val.eval anyExt (environment.state context)
      let address ← addr.eval anyExt (environment.state context)
      some (some (.added memVT.bytes address (lowBytes memVT.bytes value)),
        context.addMem address memVT.bytes (value.setWidth _))
  | CALLSEQ_START _ | CALLSEQ_END _ _ => some (none, context)
  | CALL callee => do
      let target ← callee.callee
      let after ← environment.call target (context.below bound)
      some (some (.called target (context.below bound)), after)

def DagBranch.taken (context : DagContext) (branch : DagBranch) : Option Bool := do
  let left ← branch.LHS.eval anyExt (environment.state context)
  let right ← branch.RHS.eval anyExt (environment.state context)
  some (branch.CC.holds left right)

namespace DagFunction

variable (dag : DagFunction)

def transfer (source target : Nat) (context : DagContext) :
    Option (Option DagObservation × DagConfig) :=
  transferTo (some (some .trapped, .halted))
    (fun block entered =>
      some (some (.entered target (entered.below dag.nextRegister)),
        .running target block.statements block.branch block.exit entered))
    source context (findBlock dag.blocks target)

theorem transfer_eq (source target : Nat) (context : DagContext) :
    dag.transfer source target context =
      match findBlock dag.blocks target with
      | none => some (some .trapped, .halted)
      | some block =>
          match assignPhis source context block.phis context with
          | none => some (some .trapped, .halted)
          | some entered =>
              some (some (.entered target (entered.below dag.nextRegister)),
                .running target block.statements block.branch block.exit entered) := by
  rw [transfer]
  cases findBlock dag.blocks target with
  | none => rfl
  | some block =>
      have phis : BasicBlock.phis block = block.phis := rfl
      simp only [transferTo, phis]
      cases assignPhis source context block.phis context <;> rfl

def leave (block : Nat) (context : DagContext) :
    DagExit → Option (Option DagObservation × DagConfig)
  | .fallThrough =>
      match layoutNext dag.blocks block with
      | none => some (some .trapped, .halted)
      | some next => dag.transfer block next context
  | .BR Dest => dag.transfer block Dest context
  | .RET_FLAG => some (some (.returned (context.below dag.nextRegister)), .halted)

def step : StepFunction DagConfig DagObservation
  | .halted => none
  | .undefined => none
  | .running block (statement :: rest) branch exit context =>
      match statement.run anyExt environment dag.nextRegister context with
      | none => some (none, .undefined)
      | some (shown, after) => some (shown, .running block rest branch exit after)
  | .running block [] (some branch) exit context =>
      match branch.taken anyExt environment context with
      | none => some (none, .undefined)
      | some true => dag.transfer block branch.Dest context
      | some false => some (none, .running block [] none exit context)
  | .running block [] none exit context => dag.leave block context exit

def start (context : DagContext) : DagConfig :=
  match dag.blocks with
  | [] => .halted
  | entry :: _ => .running entry.number entry.statements entry.branch entry.exit context

def Defined (context : DagContext) : Prop :=
  Always (dag.step anyExt environment) (· ≠ .undefined) (dag.start context)

end DagFunction

end Execution

/-! ## Contexts that agree below a bound -/

section Below

variable {World : Type} {bound : Nat} {context other : MachineContext World}

theorem regs_of_below_eq (agree : context.below bound = other.below bound) {register : Nat}
    (inside : register < bound) : context.regs register = other.regs register := by
  have same := congrFun (congrArg MachineContext.regs agree) register
  simp only [MachineContext.below, if_pos inside] at same
  exact same

theorem world_of_below_eq (agree : context.below bound = other.below bound) :
    context.world = other.world := by
  have same := congrArg MachineContext.world agree
  exact same

private theorem below_eq_of_agree (regs : ∀ register, register < bound →
    context.regs register = other.regs register) (world : context.world = other.world) :
    context.below bound = other.below bound := by
  unfold MachineContext.below
  rw [world]
  congr 1
  funext register
  split
  · apply regs
    assumption
  · rfl

theorem below_setReg (agree : context.below bound = other.below bound) (register : Nat)
    (value : BitVec 64) :
    (context.setReg register value).below bound = (other.setReg register value).below bound := by
  apply below_eq_of_agree
  · intro index inside
    simp only [MachineContext.setReg]
    rw [regs_of_below_eq agree inside]
  · have world := world_of_below_eq agree
    exact world

theorem below_setReg_of_le (context : MachineContext World) {register : Nat}
    (fresh : bound ≤ register) (value : BitVec 64) :
    (context.setReg register value).below bound = context.below bound := by
  apply below_eq_of_agree
  · intro index inside
    have different : index ≠ register := Nat.ne_of_lt (Nat.lt_of_lt_of_le inside fresh)
    exact if_neg different
  · rfl

theorem assignPhis_below {phis : List MachinePhi}
    (below : ∀ phi ∈ phis, phi.RegsBelow bound) (predecessor : Nat)
    {before otherBefore : MachineContext World}
    (agreeBefore : before.below bound = otherBefore.below bound)
    (agree : context.below bound = other.below bound) :
    Option.Rel (fun entered otherEntered => entered.below bound = otherEntered.below bound)
      (assignPhis predecessor before phis context)
      (assignPhis predecessor otherBefore phis other) := by
  induction phis generalizing context other with
  | nil => exact .some agree
  | cons phi rest induction =>
      have restBelow : ∀ phi ∈ rest, phi.RegsBelow bound :=
        fun later member => below later (List.mem_cons_of_mem phi member)
      rw [assignPhis, assignPhis]
      cases found : phi.valueFrom predecessor with
      | none => exact .none
      | some source =>
          have inside : source < bound := by
            rw [MachinePhi.valueFrom, Option.map_eq_some_iff] at found
            rcases found with ⟨entry, foundEntry, rfl⟩
            exact (below phi List.mem_cons_self).2 entry (List.mem_of_find?_eq_some foundEntry)
          dsimp only
          rw [regs_of_below_eq agreeBefore inside]
          exact induction restBelow (below_setReg agree phi.dst _)

end Below

section Values

variable {bound : Nat} {context other : DagContext}

theorem below_storeMem (agree : context.below bound = other.below bound) (address : BitVec 64)
    (bytes : Nat) (value : BitVec (8 * bytes)) :
    (context.storeMem address bytes value).below bound =
      (other.storeMem address bytes value).below bound := by
  apply below_eq_of_agree
  · intro register inside
    exact regs_of_below_eq agree inside
  · simp only [MachineContext.storeMem, world_of_below_eq agree]

theorem below_addMem (agree : context.below bound = other.below bound) (address : BitVec 64)
    (bytes : Nat) (value : BitVec (8 * bytes)) :
    (context.addMem address bytes value).below bound =
      (other.addMem address bytes value).below bound := by
  rw [MachineContext.addMem, MachineContext.addMem, world_of_below_eq agree]
  exact below_storeMem agree _ _ _

end Values

/-! ## DAGs that are always defined -/

def BinaryOp.isTotal : BinaryOp → SDValue → Bool
  | UDIV, .Constant divisor => divisor ≠ 0
  | UDIV, _ => false
  | SHL, .Constant amount | SRL, .Constant amount | SRA, .Constant amount => amount.toNat < 64
  | SHL, _ | SRL, _ | SRA, _ => false
  | _, _ => true

def SDValue.isTotal : SDValue → Bool
  | CopyFromReg _ | Constant _ | FrameIndex _ | GlobalAddress _ _ => true
  | Wrapper (TargetGlobalAddress _ _) => true
  | binary op left right => op.isTotal right && left.isTotal && right.isTotal
  | load _ _ address => address.isTotal
  | _ => false

def DagStatement.isTotal : DagStatement → Bool
  | CopyToReg _ node => node.isTotal
  | SELECT_CC _ LHS RHS TrueV FalseV _ =>
      LHS.isTotal && RHS.isTotal && TrueV.isTotal && FalseV.isTotal
  | store _ stored addr => stored.isTotal && addr.isTotal
  | atomicLoadAdd _ addr val => addr.isTotal && val.isTotal
  | CALLSEQ_START _ | CALLSEQ_END _ _ => true
  | CALL callee => callee.callee.isSome

def DagBranch.isTotal (branch : DagBranch) : Bool := branch.LHS.isTotal && branch.RHS.isTotal

def DagBlock.isTotal (block : DagBlock) : Bool :=
  block.statements.all DagStatement.isTotal && block.branch.all DagBranch.isTotal

section Total

variable (anyExt : SDValue → BitVec 64) (environment : DagEnvironment)

private theorem BinaryOp.exists_eval {op : BinaryOp} (left : BitVec 64) {right : BitVec 64}
    {node : SDValue} {state : DagState} (total : op.isTotal node = true)
    (evaluates : node.eval anyExt state = some right) :
    ∃ value, op.eval left right = some value := by
  cases op with
  | UDIV =>
      cases node with
      | Constant divisor =>
          cases evaluates
          have nonzero : right ≠ 0 := by simpa [BinaryOp.isTotal] using total
          exact ⟨_, if_neg nonzero⟩
      | _ => cases total
  | SHL =>
      cases node with
      | Constant amount =>
          cases evaluates
          have inRange : right.toNat < 64 := by simpa [BinaryOp.isTotal] using total
          exact ⟨_, if_pos inRange⟩
      | _ => cases total
  | SRL =>
      cases node with
      | Constant amount =>
          cases evaluates
          have inRange : right.toNat < 64 := by simpa [BinaryOp.isTotal] using total
          exact ⟨_, if_pos inRange⟩
      | _ => cases total
  | SRA =>
      cases node with
      | Constant amount =>
          cases evaluates
          have inRange : right.toNat < 64 := by simpa [BinaryOp.isTotal] using total
          exact ⟨_, if_pos inRange⟩
      | _ => cases total
  | _ => exact ⟨_, rfl⟩

private theorem SDValue.exists_eval {node : SDValue} (total : node.isTotal = true)
    (state : DagState) :
    ∃ value, node.eval anyExt state = some value := by
  induction node with
  | binary op left right leftInduction rightInduction =>
      simp only [SDValue.isTotal, Bool.and_eq_true] at total
      rcases total with ⟨⟨opTotal, leftTotal⟩, rightTotal⟩
      rcases leftInduction leftTotal with ⟨leftValue, leftEval⟩
      rcases rightInduction rightTotal with ⟨rightValue, rightEval⟩
      rcases BinaryOp.exists_eval anyExt leftValue opTotal rightEval with ⟨value, result⟩
      refine ⟨value, ?_⟩
      rw [SDValue.eval, leftEval, rightEval]
      exact result
  | load ext memVT address induction =>
      rcases induction total with ⟨value, evaluates⟩
      rw [SDValue.eval, evaluates]
      exact ⟨_, rfl⟩
  | Wrapper node induction =>
      cases node with
      | TargetGlobalAddress name offset => exact ⟨_, rfl⟩
      | _ => cases total
  | CopyFromReg register => exact ⟨_, rfl⟩
  | Constant value => exact ⟨_, rfl⟩
  | FrameIndex index => exact ⟨_, rfl⟩
  | GlobalAddress name offset => exact ⟨_, rfl⟩
  | TargetFrameIndex index => cases total
  | TargetGlobalAddress name offset => cases total
  | TargetExternalSymbol name => cases total

private theorem DagStatement.exists_run {statement : DagStatement}
    (total : statement.isTotal = true)
    (returns : ∀ target context, ∃ after, environment.call target context = some after)
    (bound : Nat) (context : DagContext) :
    ∃ shown after, statement.run anyExt environment bound context = some (shown, after) := by
  have evaluates : ∀ {node : SDValue}, node.isTotal = true →
      ∃ value, node.eval anyExt (environment.state context) = some value :=
    fun nodeTotal => SDValue.exists_eval anyExt nodeTotal _
  cases statement with
  | CopyToReg dst node =>
      rcases evaluates total with ⟨value, eval⟩
      rw [DagStatement.run, eval]
      exact ⟨_, _, rfl⟩
  | SELECT_CC dst LHS RHS TrueV FalseV CC =>
      simp only [DagStatement.isTotal, Bool.and_eq_true] at total
      rcases evaluates total.1.1.1 with ⟨left, leftEval⟩
      rcases evaluates total.1.1.2 with ⟨right, rightEval⟩
      rcases evaluates total.1.2 with ⟨trueValue, trueEval⟩
      rcases evaluates total.2 with ⟨falseValue, falseEval⟩
      rw [DagStatement.run, leftEval, rightEval, trueEval, falseEval]
      exact ⟨_, _, rfl⟩
  | store memVT stored addr =>
      rw [DagStatement.isTotal, Bool.and_eq_true] at total
      rcases evaluates total.1 with ⟨value, valueEval⟩
      rcases evaluates total.2 with ⟨address, addressEval⟩
      rw [DagStatement.run, valueEval, addressEval]
      exact ⟨_, _, rfl⟩
  | atomicLoadAdd memVT addr val =>
      rw [DagStatement.isTotal, Bool.and_eq_true] at total
      rcases evaluates total.2 with ⟨value, valueEval⟩
      rcases evaluates total.1 with ⟨address, addressEval⟩
      rw [DagStatement.run, valueEval, addressEval]
      exact ⟨_, _, rfl⟩
  | CALLSEQ_START amt => exact ⟨_, _, rfl⟩
  | CALLSEQ_END amt1 amt2 => exact ⟨_, _, rfl⟩
  | CALL callee =>
      rcases Option.isSome_iff_exists.mp total with ⟨target, named⟩
      rcases returns target (context.below bound) with ⟨after, calls⟩
      rw [DagStatement.run, named]
      simp only [bind, Option.bind, calls]
      exact ⟨_, _, rfl⟩

private theorem DagBranch.exists_taken {branch : DagBranch} (total : branch.isTotal = true)
    (context : DagContext) : ∃ taken, branch.taken anyExt environment context = some taken := by
  rw [DagBranch.isTotal, Bool.and_eq_true] at total
  rcases SDValue.exists_eval anyExt total.1 (environment.state context) with ⟨left, leftEval⟩
  rcases SDValue.exists_eval anyExt total.2 (environment.state context) with ⟨right, rightEval⟩
  rw [DagBranch.taken, leftEval, rightEval]
  exact ⟨_, rfl⟩

inductive DagConfig.Total : DagConfig → Prop where
  | running (block : Nat) {rest : List DagStatement} {branch : Option DagBranch}
      (exit : DagExit) (context : DagContext) :
      rest.all DagStatement.isTotal = true → branch.all DagBranch.isTotal = true →
      DagConfig.Total (.running block rest branch exit context)
  | halted : DagConfig.Total .halted

section Kept

variable {dag : DagFunction} (total : ∀ block ∈ dag.blocks, block.isTotal = true)
include total

private theorem transfer_total {source target : Nat} {context : DagContext}
    {shown : Option DagObservation} {next : DagConfig}
    (moves : dag.transfer source target context = some (shown, next)) : next.Total := by
  rw [DagFunction.transfer_eq] at moves
  split at moves
  · cases moves
    exact .halted
  · rename_i block found
    have blockTotal := total block (List.mem_of_find?_eq_some found)
    rw [DagBlock.isTotal, Bool.and_eq_true] at blockTotal
    split at moves
    · cases moves
      exact .halted
    · cases moves
      exact .running target block.exit _ blockTotal.1 blockTotal.2

private theorem leave_total {block : Nat} {context : DagContext} {exit : DagExit}
    {shown : Option DagObservation} {next : DagConfig}
    (leaves : dag.leave block context exit = some (shown, next)) : next.Total := by
  cases exit with
  | fallThrough =>
      rw [DagFunction.leave] at leaves
      split at leaves
      · cases leaves
        exact .halted
      · exact transfer_total total leaves
  | BR Dest => exact transfer_total total leaves
  | RET_FLAG =>
      cases leaves
      exact .halted

private theorem step_total (returns : ∀ target context, ∃ after,
      environment.call target context = some after)
    {config next : DagConfig} {shown : Option DagObservation} (here : config.Total)
    (steps : dag.step anyExt environment config = some (shown, next)) : next.Total := by
  cases here with
  | halted => cases steps
  | @running block rest branch exit context restTotal branchTotal =>
      cases rest with
      | cons statement rest =>
          rw [List.all_cons, Bool.and_eq_true] at restTotal
          rcases DagStatement.exists_run anyExt environment restTotal.1 returns dag.nextRegister
            context with ⟨statementShown, after, runs⟩
          rw [DagFunction.step, runs] at steps
          cases steps
          exact .running block exit after restTotal.2 branchTotal
      | nil =>
          cases branch with
          | none => exact leave_total total steps
          | some branch =>
              rcases DagBranch.exists_taken anyExt environment branchTotal context with
                ⟨taken, compares⟩
              rw [DagFunction.step, compares] at steps
              cases taken with
              | true => exact transfer_total total steps
              | false =>
                  cases steps
                  exact .running block exit context rfl rfl

theorem DagFunction.defined_of_isTotal (returns : ∀ target context, ∃ after,
      environment.call target context = some after) (context : DagContext) :
    dag.Defined anyExt environment context := by
  have start : (dag.start context).Total := by
    rw [DagFunction.start]
    cases blocks : dag.blocks with
    | nil => exact .halted
    | cons entry rest =>
        have entryTotal := total entry (blocks ▸ List.mem_cons_self)
        rw [DagBlock.isTotal, Bool.and_eq_true] at entryTotal
        exact .running entry.number entry.exit context entryTotal.1 entryTotal.2
  have always : Always (dag.step anyExt environment) DagConfig.Total (dag.start context) :=
    Always.of_kept (fun here => step_total anyExt environment total returns here) start
  refine Always.mono ?_ always
  intro config here undefined
  rcases undefined with rfl
  cases here

end Kept

end Total

end BpfBackend.CodeGen
