import BpfBackend.CodeGen.MachineFunction

/-! # Lowering of selects

`LowerSELECT_CC` gives every `Select` a condition code with a jump. The
execution of the function stays the same step by step.
-/

namespace BpfBackend.CodeGen

open MC Simulation

variable {Inst : Type} {World : Type}

def LowerSELECT_CC (LHS RHS TrueV FalseV : α) (CC : CondCode) : α × α × CondCode × α × α :=
  let (LHS, RHS, CC) := NegateCC LHS RHS CC
  (LHS, RHS, CC, TrueV, FalseV)

/-- The `Select` that the pattern of `BPFselectcc` makes of the lowered node. -/
def MachineInstr.lowerSelect : MachineInstr Inst → MachineInstr Inst
  | .Select dst lhs rhs imm src src2 =>
      let (LHS, RHS, CC, TrueV, FalseV) := LowerSELECT_CC lhs rhs src src2 imm
      .Select dst LHS RHS CC TrueV FalseV
  | inst => inst

def MachineBasicBlock.lowerSelects (block : MachineBasicBlock Inst) :
    MachineBasicBlock Inst :=
  { block with insts := block.insts.map MachineInstr.lowerSelect }

def MachineFunction.lowerSelects (function : MachineFunction Inst) : MachineFunction Inst :=
  { function with blocks := function.blocks.map MachineBasicBlock.lowerSelects }

/-! ## What lowering keeps -/

@[simp] theorem number_lowerSelects (block : MachineBasicBlock Inst) :
    block.lowerSelects.number = block.number := rfl

@[simp] theorem phis_lowerSelects (block : MachineBasicBlock Inst) :
    block.lowerSelects.phis = block.phis := rfl

@[simp] theorem insts_lowerSelects (block : MachineBasicBlock Inst) :
    block.lowerSelects.insts = block.insts.map MachineInstr.lowerSelect := rfl

@[simp] theorem successors_lowerSelects (block : MachineBasicBlock Inst) :
    block.lowerSelects.successors = block.successors := rfl

@[simp] theorem isTerminator_lowerSelect (inst : MachineInstr Inst) :
    inst.lowerSelect.isTerminator = inst.isTerminator := by
  cases inst <;> rfl

@[simp] theorem isSelect_lowerSelect (inst : MachineInstr Inst) :
    inst.lowerSelect.isSelect = inst.isSelect := by
  cases inst <;> rfl

@[simp] theorem layoutNext_lowerSelects (blocks : List (MachineBasicBlock Inst))
    (number : Nat) :
    layoutNext (blocks.map MachineBasicBlock.lowerSelects) number =
      layoutNext blocks number :=
  layoutNext_map MachineBasicBlock.lowerSelects (fun _ => rfl) blocks number

@[simp] theorem exits_lowerSelect (insts : List (MachineInstr Inst)) (next : Option Nat) :
    exits (insts.map MachineInstr.lowerSelect) next = exits insts next := by
  induction insts with
  | nil => rfl
  | cons inst rest induction => cases inst <;> simp [MachineInstr.lowerSelect, exits, induction]

@[simp] theorem selectsFirst_lowerSelect (insts : List (MachineInstr Inst)) :
    selectsFirst (insts.map MachineInstr.lowerSelect) = selectsFirst insts := by
  induction insts with
  | nil => rfl
  | cons inst rest induction =>
      simp [selectsFirst, induction, List.all_map, Function.comp_def]

private theorem block?_lowerSelects (function : MachineFunction Inst) (number : Nat) :
    function.lowerSelects.block? number =
      (function.block? number).map MachineBasicBlock.lowerSelects :=
  findBlock_map MachineBasicBlock.lowerSelects (fun _ => rfl) function.blocks number

theorem MachineFunction.WellFormed.lowerSelects {function : MachineFunction Inst}
    (wellFormed : function.WellFormed) : function.lowerSelects.WellFormed := by
  have original : ∀ block ∈ function.lowerSelects.blocks,
      ∃ source ∈ function.blocks, source.lowerSelects = block :=
    fun block member => List.mem_map.mp member
  constructor
  · simpa [MachineFunction.lowerSelects, Function.comp_def] using wellFormed.distinct
  · intro block member
    rcases original block member with ⟨source, sourceMember, rfl⟩
    exact wellFormed.numbered source sourceMember
  · intro block member
    rcases original block member with ⟨source, sourceMember, rfl⟩
    exact wellFormed.successors source sourceMember
  · intro block member
    rcases original block member with ⟨source, sourceMember, rfl⟩
    exact wellFormed.incoming source sourceMember
  · intro block member
    rcases original block member with ⟨source, sourceMember, rfl⟩
    rw [insts_lowerSelects, selectsFirst_lowerSelect]
    exact wellFormed.selectsFirst source sourceMember
  · intro block member
    rcases original block member with ⟨source, sourceMember, rfl⟩
    rw [insts_lowerSelects, exits_lowerSelect, MachineFunction.lowerSelects,
      layoutNext_lowerSelects]
    exact wellFormed.exitsListed source sourceMember
  · intro block member
    rcases original block member with ⟨source, sourceMember, rfl⟩
    rw [insts_lowerSelects, exits_lowerSelect, MachineFunction.lowerSelects,
      layoutNext_lowerSelects]
    exact wellFormed.listedExits source sourceMember

/-! ## Lowered execution -/

def Config.lowerSelects : Config Inst World → Config Inst World
  | .running block rest context => .running block (rest.map MachineInstr.lowerSelect) context
  | .halted => .halted

section Execution

variable (effect : Inst → MachineContext World → Option (MachineContext World))
variable (visible : Nat → Bool) (function : MachineFunction Inst)

private theorem transfer_lowerSelects (source target : Nat) (context : MachineContext World) :
    transfer visible function.lowerSelects source target context =
      (transfer visible function source target context).map
        (Prod.map id Config.lowerSelects) := by
  simp only [transfer_eq, block?_lowerSelects]
  cases function.block? target with
  | none => rfl
  | some block =>
      simp only [Option.map_some, phis_lowerSelects]
      cases assignPhis source context block.phis context with
      | none => rfl
      | some entered => rfl

private theorem select_lowerSelect (dst lhs rhs src src2 : Nat) (imm : CondCode)
    (context : MachineContext World) :
    ∃ LHS RHS CC,
      (MachineInstr.Select dst lhs rhs imm src src2 : MachineInstr Inst).lowerSelect =
        .Select dst LHS RHS CC src src2 ∧
      CC.holds (context.regs LHS) (context.regs RHS) =
        imm.holds (context.regs lhs) (context.regs rhs) :=
  ⟨_, _, _, rfl, holds_NegateCC imm lhs rhs context.regs⟩

private theorem step_lowerSelects (config : Config Inst World) :
    step effect visible function.lowerSelects config.lowerSelects =
      (step effect visible function config).map (Prod.map id Config.lowerSelects) := by
  cases config with
  | halted => rfl
  | running block rest context =>
      cases rest with
      | nil =>
          simp only [Config.lowerSelects, List.map_nil, step, MachineFunction.lowerSelects,
            layoutNext_lowerSelects]
          cases layoutNext function.blocks block with
          | none => rfl
          | some next => exact transfer_lowerSelects visible function block next context
      | cons inst rest =>
          cases inst with
          | ordinary inst =>
              simp only [Config.lowerSelects, List.map_cons, MachineInstr.lowerSelect, step]
              cases effect inst context <;> rfl
          | DBG_VALUE register => rfl
          | Select dst lhs rhs imm src src2 =>
              rcases @select_lowerSelect Inst World dst lhs rhs src src2 imm context with
                ⟨LHS, RHS, CC, lowered, same⟩
              simp only [Config.lowerSelects, List.map_cons, lowered, step, same]
              rfl
          | J_rr op rA rX dst =>
              simp only [Config.lowerSelects, List.map_cons, MachineInstr.lowerSelect, step]
              split
              · exact transfer_lowerSelects visible function block dst context
              · rfl
          | J_ri op rA imm dst =>
              simp only [Config.lowerSelects, List.map_cons, MachineInstr.lowerSelect, step]
              split
              · exact transfer_lowerSelects visible function block dst context
              · rfl
          | JMP dst => exact transfer_lowerSelects visible function block dst context
          | RET => rfl

theorem simulates_lowerSelects :
    Simulates (step effect visible function) (step effect visible function.lowerSelects)
      fun config other => other = config.lowerSelects := by
  constructor
  · intro config other equal halted
    rcases equal with rfl
    rw [step_lowerSelects, halted]
    rfl
  · intro config other event next equal steps
    rcases equal with rfl
    refine .inl ⟨next.lowerSelects, ?_, rfl⟩
    rw [step_lowerSelects, steps]
    rfl

theorem start_lowerSelects (context : MachineContext World) :
    function.lowerSelects.start context = (function.start context).lowerSelects := by
  simp only [MachineFunction.start, MachineFunction.lowerSelects]
  cases function.blocks <;> rfl

end Execution

end BpfBackend.CodeGen
