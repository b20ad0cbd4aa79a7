import BpfBackend.CodeGen.BranchEditing
import BpfBackend.CodeGen.FunctionEmission

/-! # Emitted functions run like machine functions

The code of the blocks takes the steps of the function: jumps, falls through
the ends of blocks and passes debug values where the function does.
-/

namespace BpfBackend.CodeGen

open ByteMemory MC Simulation

/-! ## What is observed of a run -/

/-- Each instruction that is no jump with the state in which it is executed,
and the end of the run. -/
inductive Observation where
  | executed (opcode : Opcode) (state : MachineState)
  | returned (state : MachineState)
  | trapped (state : MachineState)

def observeFunction : Event SelectedInstr (Memory 64) → Option Observation
  | .executed inst context => some (.executed inst.opcode (MemoryContext.state context))
  | .entered _ _ => none
  | .returned context => some (.returned (MemoryContext.state context))
  | .trapped context => some (.trapped (MemoryContext.state context))

def observeMachine : MachineEvent → Option Observation
  | .executed opcode state => if opcode.isBranch then none else some (.executed opcode state)
  | .returned state => some (.returned state)
  | .trapped state => some (.trapped state)

private theorem opcode_of_Lower {inst : SelectedInstr} {lowered : MCInst}
    (lowers : Lower inst = .ok lowered) : lowered.opcode = inst.opcode := by
  rcases bind_eq_ok lowers with ⟨operands, _, rest⟩
  cases rest
  rfl

/-! ## The layout -/

section Layout

variable {Inst : Type}

private theorem exists_split_of_named {blocks : List (MachineBasicBlock Inst)} {dst : Nat}
    (named : dst ∈ blocks.map (·.number)) :
    ∃ before target after, blocks = before ++ target :: after ∧ target.number = dst ∧
      blocks.findIdx (·.number = dst) = before.length ∧
      blocks.find? (·.number = dst) = some target := by
  induction blocks with
  | nil => cases named
  | cons block rest induction =>
      by_cases own : block.number = dst
      · exact ⟨[], block, rest, rfl, own, by simp [List.findIdx_cons, own], by simp [own]⟩
      · have later : dst ∈ rest.map (·.number) := by
          rcases List.mem_cons.mp named with equal | later
          · exact absurd equal.symm own
          · exact later
        rcases induction later with ⟨before, target, after, rfl, number, index, found⟩
        refine ⟨block :: before, target, after, rfl, number, ?_, ?_⟩
        · simp [List.findIdx_cons, own, index]
        · simp [own, found]

private theorem layoutNext_of_split {before after : List (MachineBasicBlock Inst)}
    {current : MachineBasicBlock Inst}
    (distinct : ((before ++ current :: after).map (·.number)).Nodup) :
    layoutNext (before ++ current :: after) current.number = after.head?.map (·.number) := by
  induction before with
  | nil => exact if_pos rfl
  | cons block before induction =>
      rw [List.cons_append, List.map_cons, List.nodup_cons] at distinct
      have other : block.number ≠ current.number := fun equal =>
        distinct.1 (by simp [equal])
      rw [List.cons_append, layoutNext_cons, if_neg other]
      exact induction distinct.2

end Layout

/-! ## The blocks run like the function -/

section Simulation

variable (environment : Environment) (visible : Nat → Bool)
variable (function : MachineFunction SelectedInstr)

/-- The lowered rest of a block, followed by the blocks after it. -/
inductive EmittedConfig :
    MachineConfig (List MCInst) → Config SelectedInstr (Memory 64) → Prop where
  | running {before after : List (MachineBasicBlock SelectedInstr)}
      {current : MachineBasicBlock SelectedInstr} {rest : List (MachineInstr SelectedInstr)}
      {code : List MCInst} {codes : List (List MCInst)} (context : MemoryContext) :
      function.blocks = before ++ current :: after →
      LoweredInsts function.label (function.blocks.map (·.number)) rest code →
      LoweredBlocks function.label (function.blocks.map (·.number)) after codes →
      EmittedConfig (.running (code ++ codes.flatten) context.state)
        (.running current.number rest context)
  | halted : EmittedConfig .halted .halted

variable {function}

private theorem transfer_of_named (emittable : function.Emittable) (source : Nat) {dst : Nat}
    (named : dst ∈ function.blocks.map (·.number)) (context : MemoryContext) :
    ∃ before target after, function.blocks = before ++ target :: after ∧
      target.number = dst ∧ function.label dst = before.length ∧
      transfer visible function source dst context =
        some (if visible dst then some (.entered dst context) else none,
          .running dst target.insts context) := by
  rcases exists_split_of_named named with ⟨before, target, after, split, number, index, found⟩
  have noPhis : target.phis = [] :=
    emittable.noPhis target (by rw [split]; exact List.mem_append_right _ List.mem_cons_self)
  refine ⟨before, target, after, split, number, index, ?_⟩
  rw [transfer_eq, MachineFunction.block?_eq, found]
  dsimp only
  rw [noPhis]
  rfl

private theorem observeFunction_entered (dst : Nat) (context : MemoryContext) :
    (if visible dst then some (Event.entered dst context) else none).bind observeFunction =
      (none : Option Observation) := by
  cases visible dst <;> rfl

theorem emitted_jump (emittable : function.Emittable) {lowered : List (List MCInst)}
    (spec : LoweredBlocks function.label (function.blocks.map (·.number)) function.blocks
      lowered) (source : Nat) {dst : Nat}
    (named : dst ∈ function.blocks.map (·.number)) (context : MemoryContext)
    (position : List MCInst) :
    ∃ target event next,
      (blocksCode lowered).target position
        (.expr (.SymbolRef (.block (function.label dst)))) = some target ∧
      transfer visible function source dst context = some (event, next) ∧
      event.bind observeFunction = none ∧
      EmittedConfig function (.running target context.state) next := by
  rcases transfer_of_named visible emittable source named context with
    ⟨before, target, after, split, number, label, moves⟩
  have remaining := List.forall₂_drop before.length spec
  rw [split, List.drop_left] at remaining
  have inRange : function.label dst < lowered.length := by
    rw [label, ← List.Forall₂.length_eq spec, split, List.length_append, List.length_cons]
    omega
  refine ⟨(lowered.drop (function.label dst)).flatten, _, _, ?_, moves,
    observeFunction_entered visible dst context, ?_⟩
  · simp only [blocksCode]
    rw [if_pos inRange]
  · rw [label]
    cases dropped : lowered.drop before.length with
    | nil =>
        rw [dropped] at remaining
        cases remaining
    | cons code codes =>
        rw [dropped] at remaining
        cases remaining with
        | cons own further =>
            rw [List.flatten_cons, ← number]
            rw [← split] at own further
            exact .running context split own further

abbrev functionStep (function : MachineFunction SelectedInstr) :
    StepFunction (Config SelectedInstr (Memory 64)) Observation :=
  observeSteps observeFunction (step (SelectedInstr.effect environment) visible function)

abbrev blocksStep (lowered : List (List MCInst)) :
    StepFunction (MachineConfig (List MCInst)) Observation :=
  observeSteps observeMachine (machineStep environment (blocksCode lowered))

/-- After debug values and fall-throughs the function takes the step of its
code. -/
def AdvancesTo (function : MachineFunction SelectedInstr)
    (steps : Option (Option Observation × MachineConfig (List MCInst)))
    (config : Config SelectedInstr (Memory 64)) : Prop :=
  ∃ count middle event next otherNext, steps = some (event, next) ∧
    Silent (functionStep environment visible function) count config middle ∧
    functionStep environment visible function middle = some (event, otherNext) ∧
    EmittedConfig function next otherNext

variable {environment visible}

theorem AdvancesTo.head {steps : Option (Option Observation × MachineConfig (List MCInst))}
    {config next : Config SelectedInstr (Memory 64)}
    (silent : functionStep environment visible function config = some (none, next))
    (advances : AdvancesTo environment visible function steps next) :
    AdvancesTo environment visible function steps config := by
  rcases advances with ⟨count, middle, event, after, otherAfter, same, rest, takes, related⟩
  exact ⟨count + 1, middle, event, after, otherAfter, same, .head silent rest, takes, related⟩

theorem AdvancesTo.here {steps : Option (Option Observation × MachineConfig (List MCInst))}
    {event : Option Observation} {next : MachineConfig (List MCInst)}
    {config otherNext : Config SelectedInstr (Memory 64)} (same : steps = some (event, next))
    (takes : functionStep environment visible function config = some (event, otherNext))
    (related : EmittedConfig function next otherNext) :
    AdvancesTo environment visible function steps config :=
  ⟨0, config, event, next, otherNext, same, .refl config, takes, related⟩

variable (environment visible)

theorem advances_conditional (emittable : function.Emittable) {lowered : List (List MCInst)}
    (spec : LoweredBlocks function.label (function.blocks.map (·.number)) function.blocks
      lowered)
    {block dst : Nat} {inst : MCInst} {machineInst : MachineInstr SelectedInstr}
    {rest : List (MachineInstr SelectedInstr)} {code : List MCInst} {context : MemoryContext}
    (taken : Bool)
    (named : dst ∈ function.blocks.map (·.number)) (branch : inst.opcode.isBranch = true)
    (executes : execute environment none inst context.state =
      some (if taken then .jumps (.expr (.SymbolRef (.block (function.label dst))))
        else .continues context.state))
    (takes : step (SelectedInstr.effect environment) visible function
        (.running block (machineInst :: rest) context) =
      if taken then transfer visible function block dst context
      else some (none, .running block rest context))
    (related : EmittedConfig function (.running code context.state)
      (.running block rest context)) :
    AdvancesTo environment visible function
      (blocksStep environment lowered (.running (inst :: code) context.state))
      (.running block (machineInst :: rest) context) := by
  rcases emitted_jump visible emittable spec block named context (inst :: code) with
    ⟨target, event, next, found, moves, unseen, jumpRelated⟩
  have hidden : observeMachine (.executed inst.opcode context.state) = none := by
    rw [observeMachine, branch, if_pos rfl]
  have acts : inst.withoutNOP = inst := by
    apply if_neg
    intro nothing
    rw [nothing] at branch
    cases branch
  have fetch : (blocksCode lowered).fetch (inst :: code) = some ⟨inst, none, code⟩ := by
    simp only [blocksCode, acts]
  cases taken with
  | false =>
      have steps := observeSteps_of_steps observeMachine
        (machineStep_continues fetch executes)
      rw [Option.bind_some, hidden] at steps
      exact .here steps (observeSteps_of_steps observeFunction takes) related
  | true =>
      have steps := observeSteps_of_steps observeMachine
        (machineStep_jumps fetch executes found)
      rw [Option.bind_some, hidden] at steps
      refine .here steps ?_ jumpRelated
      rw [← unseen]
      exact observeSteps_of_steps observeFunction (takes.trans moves)

theorem advances_ordinary {lowered : List (List MCInst)} {block : Nat} {inst : SelectedInstr}
    {loweredInst : MCInst} {rest : List (MachineInstr SelectedInstr)} {code : List MCInst}
    {context : MemoryContext} (lowersTo : LowersTo inst loweredInst)
    (related : ∀ after : MemoryContext, EmittedConfig function (.running code after.state)
      (.running block rest after)) :
    AdvancesTo environment visible function
      (blocksStep environment lowered (.running (loweredInst :: code) context.state))
      (.running block (.ordinary inst :: rest) context) := by
  rcases isPlainInst_iff.mp lowersTo.plain with ⟨-, -, straight⟩
  have fetch : (blocksCode lowered).fetch (loweredInst :: code) =
      some ⟨loweredInst, none, code⟩ := by
    simp only [blocksCode, withoutNOP_of_isStraight straight]
  have shown : observeMachine (.executed loweredInst.opcode context.state) =
      some (.executed inst.opcode context.state) := by
    rw [observeMachine, isBranch_of_isStraight straight, opcode_of_Lower lowersTo.lowers,
      if_neg Bool.false_ne_true]
  have executes := lowersTo.executes environment context.state
  cases runs : inst.run environment context.state with
  | none =>
      rw [runs] at executes
      have takes : step (SelectedInstr.effect environment) visible function
          (.running block (.ordinary inst :: rest) context) =
          some (some (.trapped context), .halted) := by
        rw [step, SelectedInstr.effect, runs]
        rfl
      exact .here (observeSteps_of_steps observeMachine (machineStep_fails fetch executes))
        (observeSteps_of_steps observeFunction takes) .halted
  | some after =>
      rw [runs] at executes
      have steps := observeSteps_of_steps observeMachine
        (machineStep_continues fetch executes)
      rw [Option.bind_some, shown] at steps
      have continued := related (context.withState after)
      rw [MemoryContext.state_withState] at continued
      have takes : step (SelectedInstr.effect environment) visible function
          (.running block (.ordinary inst :: rest) context) =
          some (some (.executed inst context), .running block rest (context.withState after)) := by
        rw [step, SelectedInstr.effect, runs]
        rfl
      exact .here steps (observeSteps_of_steps observeFunction takes) continued

theorem step_fallThrough (emittable : function.Emittable)
    {before after : List (MachineBasicBlock SelectedInstr)}
    {current next : MachineBasicBlock SelectedInstr}
    (split : function.blocks = before ++ current :: next :: after) (context : MemoryContext) :
    functionStep environment visible function (.running current.number [] context) =
      some (none, .running next.number next.insts context) := by
  have distinct := emittable.distinct
  have member : next ∈ function.blocks := by
    rw [split]
    simp
  have named : next.number ∈ function.blocks.map (·.number) := List.mem_map_of_mem member
  rcases transfer_of_named visible emittable current.number named context with
    ⟨_, target, _, targetSplit, number, -, moves⟩
  have same : target = next := by
    refine List.inj_on_of_nodup_map distinct ?_ member number
    rw [targetSplit]
    simp
  rw [split] at distinct
  have layout : layoutNext function.blocks current.number = some next.number := by
    rw [split]
    exact layoutNext_of_split distinct
  rw [same] at moves
  rw [← observeFunction_entered visible next.number context]
  apply observeSteps_of_steps observeFunction
  rw [step, layout]
  exact moves

theorem advances_rest (emittable : function.Emittable) {lowered : List (List MCInst)}
    (spec : LoweredBlocks function.label (function.blocks.map (·.number)) function.blocks
      lowered)
    {before after : List (MachineBasicBlock SelectedInstr)}
    {current : MachineBasicBlock SelectedInstr} {codes : List (List MCInst)}
    (split : function.blocks = before ++ current :: after)
    (codesSpec : LoweredBlocks function.label (function.blocks.map (·.number)) after codes)
    (ends : ∀ context : MemoryContext, AdvancesTo environment visible function
      (blocksStep environment lowered (.running codes.flatten context.state))
      (.running current.number [] context))
    {rest : List (MachineInstr SelectedInstr)} {code : List MCInst}
    (restSpec : LoweredInsts function.label (function.blocks.map (·.number)) rest code)
    (context : MemoryContext) :
    AdvancesTo environment visible function
      (blocksStep environment lowered (.running (code ++ codes.flatten) context.state))
      (.running current.number rest context) := by
  induction restSpec with
  | nil => exact ends context
  | @cons inst loweredInst rest code instSpec restSpec induction =>
      have related : ∀ later : MemoryContext, EmittedConfig function
          (.running (code ++ codes.flatten) later.state)
          (.running current.number rest later) :=
        fun later => .running later split restSpec codesSpec
      cases instSpec with
      | ordinary lowersTo => exact advances_ordinary environment visible lowersTo related
      | debugValue register =>
          have silent : step (SelectedInstr.effect environment) visible function
              (.running current.number (.DBG_VALUE register :: rest) context) =
              some (none, .running current.number rest context) := rfl
          exact .head (observeSteps_of_steps observeFunction silent) induction
      | @J_rr op rA rX dst left right leftNamed rightNamed named =>
          apply advances_conditional environment visible emittable spec
            (op.taken (context.regs rA) (context.regs rX)) named rfl _ rfl (related context)
          rw [← regNumber_of_physReg leftNamed, ← regNumber_of_physReg rightNamed]
          rfl
      | @J_ri op rA dst left imm leftNamed fits named =>
          apply advances_conditional environment visible emittable spec
            (op.taken (context.regs rA) (signExtend32 imm)) named rfl _ rfl (related context)
          rw [← regNumber_of_physReg leftNamed, signExtend32_of_isInt fits]
          rfl
      | JMP named =>
          exact advances_conditional environment visible emittable spec true named
            rfl rfl rfl (related context)
      | RET =>
          have fetch : (blocksCode lowered).fetch (⟨.RET, []⟩ :: (code ++ codes.flatten)) =
              some ⟨⟨.RET, []⟩, none, code ++ codes.flatten⟩ := rfl
          have takes : step (SelectedInstr.effect environment) visible function
              (.running current.number (.RET :: rest) context) =
              some (some (.returned context), .halted) := rfl
          exact .here (observeSteps_of_steps observeMachine (machineStep_returns fetch rfl))
            (observeSteps_of_steps observeFunction takes) .halted

theorem emitted_advances (emittable : function.Emittable) {lowered : List (List MCInst)}
    (spec : LoweredBlocks function.label (function.blocks.map (·.number)) function.blocks
      lowered)
    {before after : List (MachineBasicBlock SelectedInstr)}
    {current : MachineBasicBlock SelectedInstr} {rest : List (MachineInstr SelectedInstr)}
    {code : List MCInst} {codes : List (List MCInst)}
    (split : function.blocks = before ++ current :: after)
    (restSpec : LoweredInsts function.label (function.blocks.map (·.number)) rest code)
    (codesSpec : LoweredBlocks function.label (function.blocks.map (·.number)) after codes)
    (context : MemoryContext) :
    AdvancesTo environment visible function
      (blocksStep environment lowered (.running (code ++ codes.flatten) context.state))
      (.running current.number rest context) := by
  induction codesSpec generalizing before current rest code context with
  | nil =>
      refine advances_rest environment visible emittable spec split .nil (fun context => ?_)
        restSpec context
      have distinct := emittable.distinct
      rw [split] at distinct
      have layout : layoutNext function.blocks current.number = none := by
        rw [split]
        exact layoutNext_of_split distinct
      have takes : step (SelectedInstr.effect environment) visible function
          (.running current.number [] context) = some (some (.trapped context), .halted) := by
        rw [step, layout]
      exact .here (observeSteps_of_steps observeMachine (machineStep_ends rfl))
        (observeSteps_of_steps observeFunction takes) .halted
  | @cons next nextCode after codes nextSpec codesSpec induction =>
      refine advances_rest environment visible emittable spec split (.cons nextSpec codesSpec)
        (fun context => ?_) restSpec context
      have moved : function.blocks = (before ++ [current]) ++ next :: after := by
        rw [split, List.append_assoc]
        rfl
      exact .head (step_fallThrough environment visible emittable split context)
        (induction moved nextSpec context)

private theorem emitted_simulates (emittable : function.Emittable) {lowered : List (List MCInst)}
    (spec : LoweredBlocks function.label (function.blocks.map (·.number)) function.blocks
      lowered) :
    WeaklySimulates (blocksStep environment lowered) (functionStep environment visible function)
      (EmittedConfig function) where
  halts := by
    intro config other related halted
    cases related with
    | running context split restSpec codesSpec =>
        rcases emitted_advances environment visible emittable spec split restSpec codesSpec
          context with ⟨_, _, _, _, _, steps, _⟩
        rw [steps] at halted
        cases halted
    | halted => rfl
  advances := by
    intro config other event next related steps
    cases related with
    | running context split restSpec codesSpec =>
        rcases emitted_advances environment visible emittable spec split restSpec codesSpec
          context with ⟨count, middle, shown, after, otherNext, same, silent, takes, related⟩
        rw [steps] at same
        cases same
        exact ⟨count, middle, otherNext, silent, takes, related⟩
    | halted => cases steps

end Simulation

/-! ## The object code of a function -/

theorem MachineFunction.Emittable.lower_eq {function : MachineFunction SelectedInstr}
    (emittable : function.Emittable) :
    ∃ blocks, function.lower = .ok blocks ∧
      LoweredBlocks function.label (function.blocks.map (·.number)) function.blocks blocks :=
  lowerBlocks_eq function.label emittable.emittable

private theorem label_lt {function : MachineFunction SelectedInstr} :
    ∀ dst ∈ function.blocks.map (·.number), function.label dst < function.blocks.length := by
  intro dst named
  rcases exists_split_of_named named with ⟨before, target, after, split, _, index, _⟩
  rw [MachineFunction.label, index, split, List.length_append, List.length_cons]
  omega

private theorem emittedConfig_start {function : MachineFunction SelectedInstr}
    (emittable : function.Emittable) {blocks : List (List MCInst)}
    (spec : LoweredBlocks function.label (function.blocks.map (·.number)) function.blocks
      blocks) (context : MemoryContext) :
    EmittedConfig function (.running blocks.flatten context.state) (function.start context) := by
  have nonempty := emittable.nonempty
  cases layout : function.blocks with
  | nil => exact absurd layout nonempty
  | cons entry rest =>
      have started : function.start context = .running entry.number entry.insts context := by
        rw [MachineFunction.start, layout]
      have entrySpec := spec
      rw [layout] at entrySpec
      cases entrySpec with
      | cons own further =>
          rw [started, List.flatten_cons]
          rw [← layout] at own further
          have whole : function.blocks = [] ++ entry :: rest := layout
          exact .running context whole own further

/-- What is observed of the lowered blocks is what is observed of the function,
in every environment and from every state. -/
theorem lower_shows (function : MachineFunction SelectedInstr)
    (emittable : function.Emittable) :
    ∃ blocks, function.lower = .ok blocks ∧ Assembles blocks ∧
      ∀ (environment : Environment) (visible : Nat → Bool) (context : MemoryContext)
        (observed : List Observation),
        (∃ trace, HasTrace (step (SelectedInstr.effect environment) visible function)
            (function.start context) trace ∧ trace.filterMap observeFunction = observed) ↔
          ∃ trace, HasTrace (machineStep environment (blocksCode blocks))
            (.running blocks.flatten context.state) trace ∧
            trace.filterMap observeMachine = observed := by
  rcases emittable.lower_eq with ⟨blocks, lowers, spec⟩
  refine ⟨blocks, lowers, spec.assembles label_lt, ?_⟩
  intro environment visible context observed
  have simulates := (emitted_simulates environment visible emittable spec).hasTrace_iff
    (emittedConfig_start emittable spec context) observed
  rw [← hasTrace_observeSteps_iff, ← simulates, hasTrace_observeSteps_iff]

/-! ## Editing and emitting -/

theorem MachineFunction.Keeps.emittable {function edited : MachineFunction SelectedInstr}
    (keeps : function.Keeps edited) (emittable : function.Emittable) : edited.Emittable where
  nonempty := by
    intro empty
    have numbers := keeps.numbers
    rw [empty] at numbers
    exact emittable.nonempty (List.map_eq_nil_iff.mp numbers.symm)
  distinct := by
    rw [keeps.numbers]
    exact emittable.distinct
  noPhis := by
    intro block member
    rcases keeps.known block member with ⟨original, originalMember, phis, -⟩
    rw [phis]
    exact emittable.noPhis original originalMember
  emittable := by
    intro block member inst instMember
    rcases keeps.known block member with ⟨original, originalMember, -, subset⟩
    rw [keeps.numbers]
    exact emittable.emittable original originalMember inst (subset instMember)

theorem MachineFunction.Keeps.lower_shows {function edited : MachineFunction SelectedInstr}
    (keeps : function.Keeps edited) (emittable : function.Emittable) :
    ∃ blocks, edited.lower = .ok blocks ∧ Assembles blocks ∧
      ∀ (environment : Environment) (visible : Nat → Bool) (context : MemoryContext)
        (observed : List Observation),
        (∃ trace, HasTrace (step (SelectedInstr.effect environment) visible function)
            (function.start context) trace ∧ trace.filterMap observeFunction = observed) ↔
          ∃ trace, HasTrace (machineStep environment (blocksCode blocks))
            (.running blocks.flatten context.state) trace ∧
            trace.filterMap observeMachine = observed := by
  rcases CodeGen.lower_shows edited (keeps.emittable emittable) with
    ⟨blocks, lowers, assembles, shows⟩
  refine ⟨blocks, lowers, assembles, ?_⟩
  intro environment visible context observed
  rw [← shows environment visible context observed]
  exact exists_congr fun trace => and_congr_left fun _ =>
    (hasTrace_iff_of_settled _ visible keeps.settled context trace).symm

end BpfBackend.CodeGen
