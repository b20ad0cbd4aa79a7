import BpfBackend.CodeGen.InstructionActions
import BpfBackend.CodeGen.MachineFunction
import BpfBackend.MC.ObjectExecution

/-! # Emission of a machine function

After register allocation the instructions of a function are lowered one after
another, and the assembler places the blocks in layout order. The object code
shows the runs of the function.
-/

namespace BpfBackend.CodeGen

open ByteMemory MC Simulation

/-! ## Machine states -/

def physReg : Nat → Option Reg
  | 0 => some .R0
  | 1 => some .R1
  | 2 => some .R2
  | 3 => some .R3
  | 4 => some .R4
  | 5 => some .R5
  | 6 => some .R6
  | 7 => some .R7
  | 8 => some .R8
  | 9 => some .R9
  | 10 => some .R10
  | 11 => some .R11
  | _ => none

def regNumber (register : Reg) : Nat := (getBPFRegisterNumbering register).toNat

theorem physReg_regNumber (register : Reg) : physReg (regNumber register) = some register := by
  cases register <;> rfl

theorem regNumber_of_physReg {number : Nat} {register : Reg}
    (physical : physReg number = some register) : regNumber register = number := by
  unfold physReg at physical
  split at physical <;> cases physical <;> rfl

abbrev MemoryContext := MachineContext (Memory 64)

def MemoryContext.state (context : MemoryContext) : MachineState where
  regs register := context.regs (regNumber register)
  memory := context.world

def MemoryContext.withState (context : MemoryContext) (state : MachineState) :
    MemoryContext where
  regs number :=
    match physReg number with
    | some register => state.regs register
    | none => context.regs number
  world := state.memory

@[simp] theorem MemoryContext.state_withState (context : MemoryContext) (state : MachineState) :
    (context.withState state).state = state := by
  have registers : (context.withState state).state.regs = state.regs := by
    funext register
    simp only [MemoryContext.state, withState, physReg_regNumber]
  exact congrArg (MachineState.mk · state.memory) registers

theorem MemoryContext.withState_withState (context : MemoryContext)
    (first second : MachineState) :
    (context.withState first).withState second = context.withState second := by
  have registers : ((context.withState first).withState second).regs =
      (context.withState second).regs := by
    funext number
    simp only [MemoryContext.withState]
    cases physReg number <;> rfl
  exact congrArg (MachineContext.mk · second.memory) registers

theorem MemoryContext.withState_state (context : MemoryContext) :
    context.withState context.state = context := by
  have registers : (context.withState context.state).regs = context.regs := by
    funext number
    simp only [MemoryContext.withState, MemoryContext.state]
    cases physical : physReg number with
    | none => rfl
    | some register => exact congrArg context.regs (regNumber_of_physReg physical)
  exact congrArg (MachineContext.mk · context.world) registers

theorem MemoryContext.withState_storeMem (context : MemoryContext) (size : SizeOp)
    (address : BitVec 64) (value : BitVec (8 * size.bytes)) :
    context.withState (context.state.storeMem size address value) =
      ⟨context.regs, store context.world address size.bytes value⟩ := by
  have registers := congrArg MachineContext.regs context.withState_state
  exact congrArg (MachineContext.mk · (store context.world address size.bytes value)) registers

theorem MemoryContext.withState_setReg (context : MemoryContext) (register : Reg)
    (value : BitVec 64) :
    context.withState (context.state.setReg register value) =
      context.setReg (regNumber register) value := by
  have registers : (context.withState (context.state.setReg register value)).regs =
      (context.setReg (regNumber register) value).regs := by
    funext number
    simp only [MemoryContext.withState, MachineContext.setReg, MachineState.setReg]
    cases physical : physReg number with
    | none =>
        have other : number ≠ regNumber register := by
          rintro rfl
          rw [physReg_regNumber] at physical
          cases physical
        exact (if_neg other).symm
    | some held =>
        have number := regNumber_of_physReg physical
        by_cases same : held = register
        · rw [← number, same, if_pos rfl]
          exact if_pos rfl
        · have other : regNumber held ≠ regNumber register := by
            intro equal
            have registers := congrArg physReg equal
            rw [physReg_regNumber, physReg_regNumber] at registers
            exact same (Option.some.inj registers)
          rw [← number, if_neg other]
          exact if_neg same
  exact congrArg (MachineContext.mk · context.world) registers

def SelectedInstr.effect (environment : Environment) (inst : SelectedInstr)
    (context : MemoryContext) : Option MemoryContext :=
  (inst.run environment context.state).map context.withState

/-! ## Lowering of a function -/

def MachineFunction.label {Inst : Type} (function : MachineFunction Inst) (number : Nat) : Nat :=
  function.blocks.findIdx (·.number = number)

def physicalOperand (number : Nat) : Compile MachineOperand :=
  match physReg number with
  | some register => .ok (.MO_Register register false)
  | none => .error (.assertion "isPhysicalRegister(Reg)")

/-- A debug value becomes a comment. A `Select` has no encoding. -/
def MachineInstr.lower (label : Nat → Nat) :
    MachineInstr SelectedInstr → Compile (Option MCInst)
  | .ordinary inst => do pure (some (← Lower inst))
  | .DBG_VALUE _ => .ok none
  | .Select .. => .error (.report_fatal_error "Not supported instr: ")
  | .J_rr op rA rX dst => do
      let left ← physicalOperand rA
      let right ← physicalOperand rX
      pure (some (← Lower ⟨.J_rr op, [left, right, .MO_MachineBasicBlock (label dst)]⟩))
  | .J_ri op rA imm dst => do
      let left ← physicalOperand rA
      pure (some (← Lower ⟨.J_ri op,
        [left, .MO_Immediate imm, .MO_MachineBasicBlock (label dst)]⟩))
  | .JMP dst => do pure (some (← Lower ⟨.JMP, [.MO_MachineBasicBlock (label dst)]⟩))
  | .RET => do pure (some (← Lower ⟨.RET, []⟩))

def lowerBlock (label : Nat → Nat) : List (MachineInstr SelectedInstr) → Compile (List MCInst)
  | [] => .ok []
  | inst :: rest => do
      let lowered ← inst.lower label
      let restLowered ← lowerBlock label rest
      pure (lowered.toList ++ restLowered)

def lowerBlocks (label : Nat → Nat) :
    List (MachineBasicBlock SelectedInstr) → Compile (List (List MCInst))
  | [] => .ok []
  | block :: rest => do
      let lowered ← lowerBlock label block.insts
      let restLowered ← lowerBlocks label rest
      pure (lowered :: restLowered)

/-- `EmitFunctionBody`: the blocks in layout order, each with its label. -/
def MachineFunction.lower (function : MachineFunction SelectedInstr) :
    Compile (List (List MCInst)) :=
  lowerBlocks function.label function.blocks

/-! ## Lowering of ordinary instructions -/

def isStraight : Opcode → Bool
  | .J_rr _ | .J_ri _ | .JMP | .RET | .NOP => false
  | _ => true

/-- The instruction is encodable without loss and does not transfer control. -/
def isPlainInst (inst : MCInst) : Bool :=
  inst.isWellFormed && inst.fitsFields && isStraight inst.opcode

structure LowersTo (inst : SelectedInstr) (lowered : MCInst) : Prop where
  lowers : Lower inst = .ok lowered
  plain : isPlainInst lowered = true
  executes : ∀ environment state,
    execute environment none lowered state = (inst.run environment state).map .continues

structure LowersToForm (opcode : Opcode) (operands : List MachineOperand) (form : Form) :
    Prop where
  sameOpcode : form.toMCInst.opcode = opcode
  lowers : lowerOperands operands = .ok form.toMCInst.operands
  fits : form.toMCInst.fitsFields = true
  straight : isStraight opcode = true
  executes : ∀ environment state, execute environment none form.toMCInst state =
    ((actionOf opcode operands).bind (·.run environment state)).map .continues

private theorem exists_form_of_areEmittable {opcode : Opcode} {operands : List MachineOperand}
    (emittable : areEmittable opcode operands = true) :
    ∃ form, LowersToForm opcode operands form := by
  unfold areEmittable at emittable
  split at emittable
  case h_1 op rA rS rX =>
    have tied : rA = rS := by simpa using emittable
    subst tied
    exact ⟨.ALU_RR op rA rX, rfl, rfl, rfl, rfl, fun _ _ => rfl⟩
  case h_2 op rA rS imm =>
    have conditions : rA = rS ∧ isInt 32 imm = true := by simpa using emittable
    rcases conditions with ⟨rfl, fits⟩
    exact ⟨.ALU_RI op rA imm, rfl, rfl, (Bool.and_true _).trans fits, rfl, fun _ _ => rfl⟩
  case h_3 rA rX => exact ⟨.MOV_RR rA rX, rfl, rfl, rfl, rfl, fun _ _ => rfl⟩
  case h_4 rA imm =>
    exact ⟨.MOV_RI rA imm, rfl, rfl, (Bool.and_true _).trans emittable, rfl, fun _ _ => rfl⟩
  case h_5 rA imm => exact ⟨.LD_IMM64 rA (.imm imm), rfl, rfl, rfl, rfl, fun _ _ => rfl⟩
  case h_6 rA name offset =>
    have zero : offset = 0 := by simpa using emittable
    subst zero
    exact ⟨.LD_IMM64 rA (.symbol (.global name)), rfl, rfl, rfl, rfl, fun _ _ => rfl⟩
  case h_7 imm =>
    exact ⟨.CALL (.imm imm), rfl, rfl, (Bool.and_true _).trans emittable, rfl, fun _ _ => rfl⟩
  case h_8 name offset =>
    have zero : offset = 0 := by simpa using emittable
    subst zero
    exact ⟨.CALL (.symbol (.global name)), rfl, rfl, rfl, rfl, fun _ _ => rfl⟩
  case h_9 size rA base offset =>
    exact ⟨.LOAD size rA base offset, rfl, rfl, (Bool.and_true _).trans emittable, rfl,
      fun _ _ => rfl⟩
  case h_10 size rX base offset =>
    exact ⟨.STORE size rX base offset, rfl, rfl, (Bool.and_true _).trans emittable, rfl,
      fun _ _ => rfl⟩
  case h_11 size dst base offset val =>
    have conditions : dst = val ∧ isInt 16 offset = true := by simpa using emittable
    rcases conditions with ⟨rfl, fits⟩
    exact ⟨.XADD size dst base offset, rfl, rfl, (Bool.and_true _).trans fits, rfl,
      fun _ _ => rfl⟩
  case h_12 => cases emittable

private theorem lowerOperands_explicit (operands : List MachineOperand) :
    lowerOperands (operands.filter MachineOperand.isExplicit) = lowerOperands operands := by
  induction operands with
  | nil => rfl
  | cons operand rest induction =>
      cases explicit : operand.isExplicit with
      | true =>
          rw [List.filter_cons_of_pos explicit, lowerOperands, lowerOperands, induction]
      | false =>
          have nothing : lowerOperand operand = .ok [] := by
            cases operand with
            | MO_Register register implicit =>
                cases implicit with
                | true => rfl
                | false => cases explicit
            | MO_RegisterMask => rfl
            | _ => cases explicit
          rw [List.filter_cons_of_neg (Bool.eq_false_iff.mp explicit), induction, lowerOperands,
            nothing]
          cases lowerOperands rest <;> rfl

private theorem SelectedInstr.exists_lowersTo {inst : SelectedInstr}
    (emittable : inst.isEmittable = true) : ∃ lowered, LowersTo inst lowered := by
  rcases exists_form_of_areEmittable emittable with ⟨form, spec⟩
  have lowersExplicit := spec.lowers
  rw [SelectedInstr.explicitOperands, lowerOperands_explicit] at lowersExplicit
  refine ⟨form.toMCInst, ?_, ?_, spec.executes⟩
  · rw [Lower, lowersExplicit, ← spec.sameOpcode]
    rfl
  · have wellFormed : form.toMCInst.isWellFormed = true := form.toMCInst_wellFormed
    rw [isPlainInst, wellFormed, spec.fits, spec.sameOpcode, spec.straight]
    rfl

/-! ## Functions that can be emitted -/

def MachineInstr.isEmittable (blocks : List Nat) : MachineInstr SelectedInstr → Bool
  | .ordinary inst => inst.isEmittable
  | .DBG_VALUE _ => true
  | .Select .. => false
  | .J_rr _ rA rX dst => (physReg rA).isSome && (physReg rX).isSome && blocks.contains dst
  | .J_ri _ rA imm dst => (physReg rA).isSome && isInt 32 imm && blocks.contains dst
  | .JMP dst => blocks.contains dst
  | .RET => true

/-- A function as register allocation leaves it: no PHIs, physical registers,
and jumps to its own blocks. -/
structure MachineFunction.Emittable (function : MachineFunction SelectedInstr) : Prop where
  nonempty : function.blocks ≠ []
  distinct : (function.blocks.map (·.number)).Nodup
  noPhis : ∀ block ∈ function.blocks, block.phis = []
  emittable : ∀ block ∈ function.blocks, ∀ inst ∈ block.insts,
    inst.isEmittable (function.blocks.map (·.number)) = true

/-! ## What lowering gives -/

section Lowered

variable (label : Nat → Nat) (blocks : List Nat)

inductive LoweredInstr : MachineInstr SelectedInstr → Option MCInst → Prop where
  | ordinary {inst : SelectedInstr} {lowered : MCInst} :
      LowersTo inst lowered → LoweredInstr (.ordinary inst) (some lowered)
  | debugValue (register : Nat) : LoweredInstr (.DBG_VALUE register) none
  | J_rr (op : JccOp) {rA rX dst : Nat} {left right : Reg} :
      physReg rA = some left → physReg rX = some right → dst ∈ blocks →
      LoweredInstr (.J_rr op rA rX dst)
        (some ⟨.J_rr op, [.reg left, .reg right, .expr (.SymbolRef (.block (label dst)))]⟩)
  | J_ri (op : JccOp) {rA dst : Nat} {left : Reg} (imm : BitVec 64) :
      physReg rA = some left → isInt 32 imm = true → dst ∈ blocks →
      LoweredInstr (.J_ri op rA imm dst)
        (some ⟨.J_ri op, [.reg left, .imm imm, .expr (.SymbolRef (.block (label dst)))]⟩)
  | JMP {dst : Nat} : dst ∈ blocks →
      LoweredInstr (.JMP dst) (some ⟨.JMP, [.expr (.SymbolRef (.block (label dst)))]⟩)
  | RET : LoweredInstr .RET (some ⟨.RET, []⟩)

inductive LoweredInsts : List (MachineInstr SelectedInstr) → List MCInst → Prop where
  | nil : LoweredInsts [] []
  | cons {inst : MachineInstr SelectedInstr} {lowered : Option MCInst}
      {rest : List (MachineInstr SelectedInstr)} {restLowered : List MCInst} :
      LoweredInstr label blocks inst lowered → LoweredInsts rest restLowered →
      LoweredInsts (inst :: rest) (lowered.toList ++ restLowered)

abbrev LoweredBlocks : List (MachineBasicBlock SelectedInstr) → List (List MCInst) → Prop :=
  List.Forall₂ fun block lowered => LoweredInsts label blocks block.insts lowered

variable {label blocks}

theorem MachineInstr.lower_eq (label : Nat → Nat) {inst : MachineInstr SelectedInstr}
    (emittable : inst.isEmittable blocks = true) :
    ∃ lowered, inst.lower label = .ok lowered ∧ LoweredInstr label blocks inst lowered := by
  cases inst with
  | ordinary inst =>
      rcases SelectedInstr.exists_lowersTo emittable with ⟨lowered, lowersTo⟩
      exact ⟨some lowered, by rw [lower, lowersTo.lowers]; rfl, .ordinary lowersTo⟩
  | DBG_VALUE register => exact ⟨none, rfl, .debugValue register⟩
  | Select dst lhs rhs imm src src2 => cases emittable
  | J_rr op rA rX dst =>
      simp only [isEmittable, Bool.and_eq_true, Option.isSome_iff_exists,
        List.contains_iff_mem] at emittable
      rcases emittable with ⟨⟨⟨left, leftNamed⟩, right, rightNamed⟩, named⟩
      refine ⟨_, ?_, .J_rr op leftNamed rightNamed named⟩
      rw [lower, physicalOperand, physicalOperand, leftNamed, rightNamed]
      rfl
  | J_ri op rA imm dst =>
      simp only [isEmittable, Bool.and_eq_true, Option.isSome_iff_exists,
        List.contains_iff_mem] at emittable
      rcases emittable with ⟨⟨⟨left, leftNamed⟩, fits⟩, named⟩
      refine ⟨_, ?_, .J_ri op imm leftNamed fits named⟩
      rw [lower, physicalOperand, leftNamed]
      rfl
  | JMP dst => exact ⟨_, rfl, .JMP (List.contains_iff_mem.mp emittable)⟩
  | RET => exact ⟨_, rfl, .RET⟩

private theorem lowerBlock_eq (label : Nat → Nat) {insts : List (MachineInstr SelectedInstr)}
    (emittable : ∀ inst ∈ insts, inst.isEmittable blocks = true) :
    ∃ lowered, lowerBlock label insts = .ok lowered ∧
      LoweredInsts label blocks insts lowered := by
  induction insts with
  | nil => exact ⟨[], rfl, .nil⟩
  | cons inst rest induction =>
      rcases MachineInstr.lower_eq label (emittable inst List.mem_cons_self) with
        ⟨lowered, lowers, spec⟩
      rcases induction fun other member => emittable other (List.mem_cons_of_mem inst member) with
        ⟨restLowered, restLowers, restSpec⟩
      exact ⟨_, by rw [lowerBlock, lowers, restLowers]; rfl, .cons spec restSpec⟩

theorem lowerBlocks_eq (label : Nat → Nat) {layout : List (MachineBasicBlock SelectedInstr)}
    (emittable : ∀ block ∈ layout, ∀ inst ∈ block.insts, inst.isEmittable blocks = true) :
    ∃ lowered, lowerBlocks label layout = .ok lowered ∧
      LoweredBlocks label blocks layout lowered := by
  induction layout with
  | nil => exact ⟨[], rfl, .nil⟩
  | cons block rest induction =>
      rcases lowerBlock_eq label (emittable block List.mem_cons_self) with
        ⟨lowered, lowers, spec⟩
      rcases induction fun other member => emittable other (List.mem_cons_of_mem block member)
        with ⟨restLowered, restLowers, restSpec⟩
      exact ⟨_, by rw [lowerBlocks, lowers, restLowers]; rfl, .cons spec restSpec⟩

end Lowered

/-! ## The lowered blocks can be assembled -/

section Assembled

variable {label : Nat → Nat} {blocks : List Nat}

theorem isPlainInst_iff {inst : MCInst} :
    isPlainInst inst = true ↔
      inst.WellFormed ∧ inst.fitsFields = true ∧ isStraight inst.opcode = true := by
  rw [isPlainInst, Bool.and_eq_true, Bool.and_eq_true, and_assoc]
  rfl

theorem isBranch_of_isStraight {opcode : Opcode} (straight : isStraight opcode = true) :
    opcode.isBranch = false := by
  cases opcode <;> first | rfl | cases straight

theorem withoutNOP_of_isStraight {inst : MCInst} (straight : isStraight inst.opcode = true) :
    inst.withoutNOP = inst := by
  apply if_neg
  intro nothing
  rw [nothing] at straight
  cases straight

structure AssemblableInst (label : Nat → Nat) (blocks : List Nat) (inst : MCInst) : Prop where
  wellFormed : inst.WellFormed
  fitsFields : inst.fitsFields = true
  symbolic : inst.opcode.isBranch = true → inst.branchTarget.isSome = true
  named : ∀ symbol, inst.branchTarget = some symbol →
    ∃ dst ∈ blocks, symbol = .block (label dst)

private theorem branchTarget_of_not_isBranch {inst : MCInst}
    (straight : inst.opcode.isBranch = false) :
    inst.branchTarget = none := by
  rcases inst with ⟨opcode, operands⟩
  cases opcode <;> first | rfl | cases straight

theorem LoweredInstr.assemblable {inst : MachineInstr SelectedInstr} {lowered : MCInst}
    (spec : LoweredInstr label blocks inst (some lowered)) :
    AssemblableInst label blocks lowered := by
  cases spec with
  | ordinary lowersTo =>
      rcases isPlainInst_iff.mp lowersTo.plain with ⟨wellFormed, fitsFields, straight⟩
      have notBranch := isBranch_of_isStraight straight
      have untargeted := branchTarget_of_not_isBranch notBranch
      refine ⟨wellFormed, fitsFields, fun branch => ?_, fun symbol target => ?_⟩
      · rw [notBranch] at branch
        cases branch
      · rw [untargeted] at target
        cases target
  | @J_rr op rA rX dst left right leftNamed rightNamed named =>
      refine ⟨(Form.JMP_RR op left right (.symbol (.block (label dst)))).toMCInst_wellFormed,
        rfl, fun _ => rfl, fun symbol target => ⟨dst, named, ?_⟩⟩
      exact (Option.some.inj target).symm
  | @J_ri op rA dst left imm leftNamed fits named =>
      refine ⟨(Form.JMP_RI op left imm (.symbol (.block (label dst)))).toMCInst_wellFormed,
        (Bool.and_true _).trans fits, fun _ => rfl, fun symbol target => ⟨dst, named, ?_⟩⟩
      exact (Option.some.inj target).symm
  | @JMP dst named =>
      refine ⟨(Form.BRANCH (.symbol (.block (label dst)))).toMCInst_wellFormed, rfl,
        fun _ => rfl, fun symbol target => ⟨dst, named, ?_⟩⟩
      exact (Option.some.inj target).symm
  | RET =>
      refine ⟨Form.RET.toMCInst_wellFormed, rfl, fun branch => ?_, fun symbol target => ?_⟩
      · cases branch
      · cases target

theorem LoweredInsts.assemblable {insts : List (MachineInstr SelectedInstr)}
    {lowered : List MCInst} (spec : LoweredInsts label blocks insts lowered) :
    ∀ inst ∈ lowered, AssemblableInst label blocks inst := by
  induction spec with
  | nil =>
      intro inst member
      cases member
  | cons first rest induction =>
      intro inst member
      rcases List.mem_append.mp member with own | later
      · rw [Option.mem_toList] at own
        rw [own] at first
        exact first.assemblable
      · exact induction inst later

theorem LoweredBlocks.assemblable {layout : List (MachineBasicBlock SelectedInstr)}
    {lowered : List (List MCInst)} (spec : LoweredBlocks label blocks layout lowered) :
    ∀ block ∈ lowered, ∀ inst ∈ block, AssemblableInst label blocks inst := by
  induction spec with
  | nil =>
      intro block member
      cases member
  | cons first rest induction =>
      intro block member
      rcases List.mem_cons.mp member with rfl | member
      · exact LoweredInsts.assemblable first
      · exact induction block member

private theorem mem_of_mem_branchSitesFrom {start : Nat} {insts : List MCInst} {site : BranchSite}
    (member : site ∈ branchSitesFrom start insts) :
    ∃ inst ∈ insts, inst.branchTarget = some site.target := by
  rcases List.mem_flatMap.mp member with ⟨⟨slot, inst⟩, placed, named⟩
  rcases List.mem_map.mp named with ⟨symbol, target, rfl⟩
  exact ⟨inst, Layout.mem_of_mem_place placed, Option.mem_toList.mp target⟩

private theorem isSome_symbolSlot_block {lowered : List (List MCInst)} {number : Nat}
    (inRange : number < lowered.length) :
    (symbolSlot lowered (.block number)).isSome = true := by
  rw [symbolSlot, blockSlots, List.getElem?_map, Layout.getElem?_place, Option.isSome_map,
    Option.isSome_map, List.getElem?_eq_getElem inRange]
  rfl

theorem LoweredBlocks.assembles {layout : List (MachineBasicBlock SelectedInstr)}
    {lowered : List (List MCInst)} (spec : LoweredBlocks label blocks layout lowered)
    (labels : ∀ dst ∈ blocks, label dst < layout.length) :
    Assembles lowered := by
  have assemblable := LoweredBlocks.assemblable spec
  refine ⟨fun block blockMember inst member =>
      (assemblable block blockMember inst member).wellFormed, ?_,
    fun block blockMember inst member => (assemblable block blockMember inst member).symbolic,
    fun block blockMember inst member => (assemblable block blockMember inst member).fitsFields⟩
  intro site siteMember
  rcases mem_of_mem_branchSitesFrom siteMember with ⟨inst, member, target⟩
  rcases List.mem_flatten.mp member with ⟨block, blockMember, member⟩
  rcases (assemblable block blockMember inst member).named _ target with ⟨dst, named, symbol⟩
  rw [symbol]
  apply isSome_symbolSlot_block
  rw [← List.Forall₂.length_eq spec]
  exact labels dst named

end Assembled

end BpfBackend.CodeGen
