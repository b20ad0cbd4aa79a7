import BpfBackend.CodeGen.EmissionSimulation
import BpfBackend.CodeGen.FrameIndex
import BpfBackend.CodeGen.InstructionRewriting

/-! # Frame lowering

What prologue and epilogue insertion leaves of a function: the prologue and the
epilogue are empty, the call frame pseudo instructions are erased, since
`hasFP` holds, and every frame index is eliminated. The object code accesses
the frame objects that the function names.
-/

namespace BpfBackend.CodeGen

open ByteMemory MC Simulation

/-! ## Instructions before frame lowering -/

inductive FrameInst where
  | selected (inst : SelectedInstr)
  | ADJCALLSTACKDOWN (amt : BitVec 64)
  | ADJCALLSTACKUP (amt1 amt2 : BitVec 64)
  | frame (use : FrameUse)
  deriving DecidableEq, Repr

def FrameInst.opcode : FrameInst → Opcode
  | selected inst => inst.opcode
  | ADJCALLSTACKDOWN _ => .ADJCALLSTACKDOWN
  | ADJCALLSTACKUP _ _ => .ADJCALLSTACKUP
  | frame use => use.toInstr.opcode

def FrameUse.action (getObjectOffset : Int → BitVec 64) : FrameUse → InstrAction
  | MOV_rr dst index => .define dst fun _ regs => some (regs .R10 + getObjectOffset index)
  | memory access index imm => .access access .R10 (getObjectOffset index + imm)

def FrameInst.action (getObjectOffset : Int → BitVec 64) : FrameInst → Option InstrAction
  | selected inst => inst.action
  | ADJCALLSTACKDOWN _ | ADJCALLSTACKUP _ _ => some .idle
  | frame use => some (use.action getObjectOffset)

def FrameInst.run (environment : Environment) (getObjectOffset : Int → BitVec 64)
    (inst : FrameInst) (state : MachineState) : Option MachineState :=
  (inst.action getObjectOffset).bind (·.run environment state)

def FrameInst.effect (environment : Environment) (getObjectOffset : Int → BitVec 64)
    (inst : FrameInst) (context : MemoryContext) : Option MemoryContext :=
  (inst.run environment getObjectOffset context.state).map context.withState

/-- Every register belongs to the class `GPR`, so no copy is impossible. -/
def copyPhysReg (DestReg SrcReg : Reg) : SelectedInstr :=
  ⟨.MOV_rr, [registerOperand DestReg, registerOperand SrcReg]⟩

/-! ## The passes over a function -/

def FrameInstr.toSelected (inst : FrameInstr) : Option SelectedInstr :=
  (inst.operands.mapM FrameOperand.toMachineOperand).map (SelectedInstr.mk inst.opcode)

/-- What takes the place of an instruction. `eliminateCallFramePseudoInstr`
erases, and `eliminateFrameIndex` rewrites. -/
def finalizeInst (getObjectOffset : Int → BitVec 64) :
    FrameInst → Compile (List SelectedInstr)
  | .selected inst => .ok [inst]
  | .ADJCALLSTACKDOWN _ | .ADJCALLSTACKUP _ _ => .ok []
  | .frame use => do
      let rewritten ← eliminateFrameIndex getObjectOffset [use.toInstr] 0 0
      match rewritten.mapM FrameInstr.toSelected with
      | some insts => pure insts
      | none => .error (.assertion "!MI.getOperand(i).isFI()")

def MachineInstr.finalize (getObjectOffset : Int → BitVec 64) :
    MachineInstr FrameInst → Compile (List (MachineInstr SelectedInstr))
  | ordinary inst => do pure ((← finalizeInst getObjectOffset inst).map .ordinary)
  | DBG_VALUE register => .ok [.DBG_VALUE register]
  | Select dst lhs rhs imm src src2 => .ok [.Select dst lhs rhs imm src src2]
  | J_rr op rA rX dst => .ok [.J_rr op rA rX dst]
  | J_ri op rA imm dst => .ok [.J_ri op rA imm dst]
  | JMP dst => .ok [.JMP dst]
  | RET => .ok [.RET]

def finalizeInsts (getObjectOffset : Int → BitVec 64) :
    List (MachineInstr FrameInst) → Compile (List (MachineInstr SelectedInstr))
  | [] => .ok []
  | inst :: rest => do
      let finalized ← inst.finalize getObjectOffset
      let restFinalized ← finalizeInsts getObjectOffset rest
      pure (finalized ++ restFinalized)

def finalizeBlocks (getObjectOffset : Int → BitVec 64) :
    List (MachineBasicBlock FrameInst) → Compile (List (MachineBasicBlock SelectedInstr))
  | [] => .ok []
  | block :: rest => do
      let insts ← finalizeInsts getObjectOffset block.insts
      let restFinalized ← finalizeBlocks getObjectOffset rest
      pure (⟨block.number, block.phis, insts, block.successors⟩ :: restFinalized)

def MachineFunction.finalize (getObjectOffset : Int → BitVec 64)
    (function : MachineFunction FrameInst) : Compile (MachineFunction SelectedInstr) := do
  pure ⟨← finalizeBlocks getObjectOffset function.blocks, function.nextNumber⟩

/-! ## Frame lowering is never refused -/

section Finalized

variable (getObjectOffset : Int → BitVec 64)

def MemoryAccess.toSelected (base : Reg) (offset : BitVec 64) : MemoryAccess → SelectedInstr
  | LD size rA => ⟨.LD size, [registerOperand rA, registerOperand base, .MO_Immediate offset]⟩
  | ST size rX => ⟨.ST size, [registerOperand rX, registerOperand base, .MO_Immediate offset]⟩
  | XADD size dst => ⟨.XADD size, [registerOperand dst, registerOperand base,
      .MO_Immediate offset, registerOperand dst]⟩

private theorem MemoryAccess.action_toSelected (access : MemoryAccess) (base : Reg)
    (offset : BitVec 64) :
    (access.toSelected base offset).action = some (.access access base offset) := by
  cases access <;> rfl

private theorem MemoryAccess.isEmittable_toSelected (access : MemoryAccess) (base : Reg)
    {offset : BitVec 64} (fits : isInt 16 offset = true) :
    (access.toSelected base offset).isEmittable = true := by
  cases access with
  | LD size rA => exact fits
  | ST size rX => exact fits
  | XADD size dst => exact Bool.and_eq_true_iff.mpr ⟨decide_eq_true rfl, fits⟩

def FrameUse.finalized : FrameUse → List SelectedInstr
  | MOV_rr dst index =>
      [copyPhysReg dst .R10,
        ⟨.ALU_ri .ADD, [registerOperand dst, registerOperand dst,
          .MO_Immediate (signExtend32 (getObjectOffset index))]⟩]
  | memory access index imm =>
      [access.toSelected .R10 (signExtend32 (getObjectOffset index + imm))]

def FrameInst.finalized : FrameInst → List SelectedInstr
  | selected inst => [inst]
  | ADJCALLSTACKDOWN _ | ADJCALLSTACKUP _ _ => []
  | frame use => use.finalized getObjectOffset

private theorem finalizeInst_eq (inst : FrameInst) :
    finalizeInst getObjectOffset inst = .ok (inst.finalized getObjectOffset) := by
  cases inst with
  | selected inst => rfl
  | ADJCALLSTACKDOWN amt => rfl
  | ADJCALLSTACKUP amt1 amt2 => rfl
  | frame use =>
      cases use with
      | MOV_rr dst index => rfl
      | memory access index imm =>
          have passes : ¬ isInt 32 (signExtend32 (getObjectOffset index + imm)) = false := by
            rw [isInt_signExtend32]
            exact Bool.true_eq_false_eq_False
          have rewrites : rewriteFrameIndex getObjectOffset
              (FrameUse.memory access index imm).toInstr =
              .ok [⟨(access.toSelected .R10 0).opcode,
                ((access.toSelected .R10 (signExtend32 (getObjectOffset index + imm))).operands.map
                  .plain)⟩] := by
            cases access <;> exact if_neg passes
          simp only [finalizeInst, eliminateFrameIndex]
          cases access <;> simp [rewrites, FrameInst.finalized, FrameUse.finalized] <;> rfl

theorem MachineInstr.finalize_eq (inst : MachineInstr FrameInst) :
    inst.finalize getObjectOffset = .ok (inst.rewrite (FrameInst.finalized getObjectOffset)) := by
  cases inst with
  | ordinary inst => rw [finalize, finalizeInst_eq]; rfl
  | DBG_VALUE register => rfl
  | Select dst lhs rhs imm src src2 => rfl
  | J_rr op rA rX dst => rfl
  | J_ri op rA imm dst => rfl
  | JMP dst => rfl
  | RET => rfl

private theorem finalizeInsts_eq (insts : List (MachineInstr FrameInst)) :
    finalizeInsts getObjectOffset insts =
      .ok (insts.flatMap (MachineInstr.rewrite (FrameInst.finalized getObjectOffset))) := by
  induction insts with
  | nil => rfl
  | cons inst rest induction =>
      rw [finalizeInsts, MachineInstr.finalize_eq, induction]
      rfl

private theorem finalizeBlocks_eq (blocks : List (MachineBasicBlock FrameInst)) :
    finalizeBlocks getObjectOffset blocks =
      .ok (blocks.map (MachineBasicBlock.rewrite (FrameInst.finalized getObjectOffset))) := by
  induction blocks with
  | nil => rfl
  | cons block rest induction =>
      rw [finalizeBlocks, finalizeInsts_eq, induction]
      rfl

theorem MachineFunction.finalize_eq (function : MachineFunction FrameInst) :
    function.finalize getObjectOffset =
      .ok (function.rewrite (FrameInst.finalized getObjectOffset)) := by
  rw [finalize, finalizeBlocks_eq]
  rfl

end Finalized

/-! ## What the finalized instructions do -/

def isExternal : Opcode → Bool
  | .LD _ | .ST _ | .XADD _ | .JAL => true
  | _ => false

def Observation.external : Observation → Option Observation
  | executed opcode state => if isExternal opcode then some (.executed opcode state) else none
  | returned state => some (.returned state)
  | trapped state => some (.trapped state)

def observeFrame : Event FrameInst (Memory 64) → Option Observation
  | .executed inst context =>
      Observation.external (.executed inst.opcode (MemoryContext.state context))
  | .entered _ _ => none
  | .returned context => some (.returned (MemoryContext.state context))
  | .trapped context => some (.trapped (MemoryContext.state context))

def observeExternal (event : Event SelectedInstr (Memory 64)) : Option Observation :=
  (observeFunction event).bind Observation.external

private theorem sameEnds_observeFrame : SameEnds observeFrame observeExternal where
  entered _ _ := rfl
  returned _ := rfl
  trapped _ := rfl

def FrameUse.fits (getObjectOffset : Int → BitVec 64) : FrameUse → Bool
  | MOV_rr _ index => isInt 32 (getObjectOffset index)
  | memory _ index imm => isInt 16 (getObjectOffset index + imm)

private theorem signExtend32_of_isInt16 {value : BitVec 64} (fits : isInt 16 value = true) :
    signExtend32 value = value := by
  have wider : isInt 32 value = true := by
    simp only [isInt, decide_eq_true_eq] at fits ⊢
    omega
  exact (isInt_iff (by decide) (by decide) value).mp wider

section Rewrites

variable (environment : Environment) (getObjectOffset : Int → BitVec 64)

private theorem effect_memory (access : MemoryAccess) (offset : BitVec 64)
    (context : MemoryContext) :
    (access.toSelected .R10 offset).effect environment context =
      (InstrAction.run environment context.state (.access access .R10 offset)).map
        context.withState := by
  rw [SelectedInstr.effect, SelectedInstr.run, access.action_toSelected]
  rfl

private theorem effect_copyPhysReg (DestReg SrcReg : Reg) (context : MemoryContext) :
    (copyPhysReg DestReg SrcReg).effect environment context =
      some (context.withState (context.state.setReg DestReg (context.state.regs SrcReg))) := rfl

theorem runEffects_mov_add (dst : Reg) {offset : BitVec 64} (context : MemoryContext) :
    runEffects (SelectedInstr.effect environment)
        [copyPhysReg dst .R10,
          ⟨.ALU_ri .ADD, [registerOperand dst, registerOperand dst, .MO_Immediate offset]⟩]
        context =
      some (context.withState (context.state.setReg dst (context.state.regs .R10 + offset))) := by
  have adds : ∀ other : MemoryContext, SelectedInstr.effect environment
      ⟨.ALU_ri .ADD, [registerOperand dst, registerOperand dst, .MO_Immediate offset]⟩ other =
      some (other.withState (other.state.setReg dst (other.state.regs dst + offset))) :=
    fun _ => rfl
  have sums := runInsts_mov_add dst offset context.state
  rw [runEffects, effect_copyPhysReg, Option.bind_eq_bind, Option.bind_some, runEffects, adds,
    MemoryContext.state_withState, MemoryContext.withState_withState]
  exact congrArg (Option.map context.withState) sums

theorem FrameInst.rewritesTo {inst : FrameInst}
    (fits : ∀ use, inst = .frame use → use.fits getObjectOffset = true) :
    RewritesTo (FrameInst.effect environment getObjectOffset)
      (SelectedInstr.effect environment) observeFrame observeExternal inst
      (inst.finalized getObjectOffset) := by
  cases inst with
  | selected inst => exact .same (fun _ => rfl) fun _ => rfl
  | ADJCALLSTACKDOWN amt =>
      apply RewritesTo.silent (fun _ => rfl)
      · intro other member
        cases member
      · intro context
        exact ⟨context, congrArg some (MemoryContext.withState_state context), rfl⟩
  | ADJCALLSTACKUP amt1 amt2 =>
      apply RewritesTo.silent (fun _ => rfl)
      · intro other member
        cases member
      · intro context
        exact ⟨context, congrArg some (MemoryContext.withState_state context), rfl⟩
  | frame use =>
      have within := fits use rfl
      cases use with
      | MOV_rr dst index =>
          have exact := signExtend32_of_isInt within
          apply RewritesTo.silent (fun _ => rfl)
          · intro other member context
            rcases List.mem_cons.mp member with rfl | member
            · rfl
            · rw [List.mem_singleton.mp member]
              rfl
          · intro context
            refine ⟨_, rfl, ?_⟩
            rw [FrameInst.finalized, FrameUse.finalized, exact, runEffects_mov_add]
      | memory access index imm =>
          have exact := signExtend32_of_isInt16 within
          rw [FrameInst.finalized, FrameUse.finalized, exact]
          apply RewritesTo.same
          · exact fun context => effect_memory environment access _ context
          · intro context
            cases access <;> rfl

end Rewrites

/-! ## Functions that can be finalized and emitted -/

def FrameInst.isEmittable (getObjectOffset : Int → BitVec 64) : FrameInst → Bool
  | selected inst => inst.isEmittable
  | ADJCALLSTACKDOWN _ | ADJCALLSTACKUP _ _ => true
  | frame use => use.fits getObjectOffset

def MachineInstr.isFinalizable (getObjectOffset : Int → BitVec 64) (blocks : List Nat) :
    MachineInstr FrameInst → Bool
  | ordinary inst => inst.isEmittable getObjectOffset
  | DBG_VALUE _ => true
  | Select .. => false
  | J_rr _ rA rX dst => (physReg rA).isSome && (physReg rX).isSome && blocks.contains dst
  | J_ri _ rA imm dst => (physReg rA).isSome && isInt 32 imm && blocks.contains dst
  | JMP dst => blocks.contains dst
  | RET => true

/-- A function as register allocation leaves it, with frame objects that the
offset fields of its instructions reach. -/
structure MachineFunction.Finalizable (getObjectOffset : Int → BitVec 64)
    (function : MachineFunction FrameInst) : Prop where
  nonempty : function.blocks ≠ []
  distinct : (function.blocks.map (·.number)).Nodup
  noPhis : ∀ block ∈ function.blocks, block.phis = []
  finalizable : ∀ block ∈ function.blocks, ∀ inst ∈ block.insts,
    inst.isFinalizable getObjectOffset (function.blocks.map (·.number)) = true

section Emittable

variable {getObjectOffset : Int → BitVec 64}

private theorem FrameUse.isEmittable_finalized {use : FrameUse}
    (fits : use.fits getObjectOffset = true) :
    ∀ inst ∈ use.finalized getObjectOffset, inst.isEmittable = true := by
  intro inst member
  cases use with
  | MOV_rr dst index =>
      rw [FrameUse.finalized, signExtend32_of_isInt fits] at member
      rcases List.mem_cons.mp member with rfl | member
      · rfl
      · rw [List.mem_singleton.mp member]
        exact Bool.and_eq_true_iff.mpr ⟨decide_eq_true rfl, fits⟩
  | memory access index imm =>
      rw [FrameUse.finalized, signExtend32_of_isInt16 fits] at member
      rw [List.mem_singleton.mp member]
      exact access.isEmittable_toSelected .R10 fits

private theorem MachineInstr.isEmittable_rewrite {inst : MachineInstr FrameInst} {blocks : List Nat}
    (finalizable : inst.isFinalizable getObjectOffset blocks = true) :
    ∀ other ∈ inst.rewrite (FrameInst.finalized getObjectOffset),
      other.isEmittable blocks = true := by
  intro other member
  cases inst with
  | ordinary inst =>
      rcases List.mem_map.mp member with ⟨finalized, finalizedMember, rfl⟩
      cases inst with
      | selected inst =>
          rw [List.mem_singleton.mp finalizedMember]
          exact finalizable
      | ADJCALLSTACKDOWN amt => cases finalizedMember
      | ADJCALLSTACKUP amt1 amt2 => cases finalizedMember
      | frame use => exact use.isEmittable_finalized finalizable finalized finalizedMember
  | Select dst lhs rhs imm src src2 => cases finalizable
  | DBG_VALUE register =>
      rw [List.mem_singleton.mp member]
      rfl
  | J_rr op rA rX dst =>
      rw [List.mem_singleton.mp member]
      exact finalizable
  | J_ri op rA imm dst =>
      rw [List.mem_singleton.mp member]
      exact finalizable
  | JMP dst =>
      rw [List.mem_singleton.mp member]
      exact finalizable
  | RET =>
      rw [List.mem_singleton.mp member]
      rfl

theorem MachineFunction.Finalizable.emittable {function : MachineFunction FrameInst}
    (finalizable : function.Finalizable getObjectOffset) :
    (function.rewrite (FrameInst.finalized getObjectOffset)).Emittable where
  nonempty := by
    intro empty
    exact finalizable.nonempty (List.map_eq_nil_iff.mp empty)
  distinct := by
    rw [MachineFunction.rewrite, numbers_rewrite]
    exact finalizable.distinct
  noPhis := List.forall_mem_map.mpr finalizable.noPhis
  emittable := List.forall_mem_map.mpr fun block member inst instMember => by
    rcases List.mem_flatMap.mp instMember with ⟨original, originalMember, rewritten⟩
    rw [MachineFunction.rewrite, numbers_rewrite]
    exact MachineInstr.isEmittable_rewrite
      (finalizable.finalizable block member original originalMember) inst rewritten

theorem MachineFunction.Finalizable.rewritable (environment : Environment)
    {function : MachineFunction FrameInst}
    (finalizable : function.Finalizable getObjectOffset) :
    ∀ block ∈ function.blocks,
      Rewritable (FrameInst.effect environment getObjectOffset)
        (SelectedInstr.effect environment) observeFrame observeExternal
        (FrameInst.finalized getObjectOffset) block.insts := by
  intro block member inst instMember
  apply FrameInst.rewritesTo
  intro use same
  have fits := finalizable.finalizable block member _ instMember
  rw [same] at fits
  exact fits

end Emittable

/-! ## From frame objects to object code -/

def observeObject (event : MachineEvent) : Option Observation :=
  (observeMachine event).bind Observation.external

theorem MachineFunction.Finalizable.lower_shows {getObjectOffset : Int → BitVec 64}
    {function : MachineFunction FrameInst} (finalizable : function.Finalizable getObjectOffset)
    {edited : MachineFunction SelectedInstr}
    (keeps : (function.rewrite (FrameInst.finalized getObjectOffset)).Keeps edited) :
    ∃ blocks, edited.lower = .ok blocks ∧ Assembles blocks ∧
      ∀ (environment : Environment) (visible : Nat → Bool) (context : MemoryContext)
        (observed : List Observation),
        (∃ trace, HasTrace (step (FrameInst.effect environment getObjectOffset) visible
            function) (function.start context) trace ∧
            trace.filterMap observeFrame = observed) ↔
          ∃ trace, HasTrace (machineStep environment (blocksCode blocks))
            (.running blocks.flatten context.state) trace ∧
            trace.filterMap observeObject = observed := by
  rcases keeps.lower_shows finalizable.emittable with ⟨blocks, lowers, assembles, shows⟩
  refine ⟨blocks, lowers, assembles, ?_⟩
  intro environment visible context observed
  rw [rewrite_hasTrace_iff visible (FrameInst.finalized getObjectOffset) sameEnds_observeFrame
    (finalizable.rewritable environment) context observed]
  exact observed_bind_iff (shows environment visible context) Observation.external observed

end BpfBackend.CodeGen
