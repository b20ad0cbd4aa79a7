import BpfBackend.CodeGen.FunctionSelection

/-! # Execution of a selected function

A selected function runs as its DAGs do, before and after the custom inserter
expands its `Select`s.
-/

namespace BpfBackend.CodeGen

open ByteMemory MC Simulation

/-! ## The selected function runs the same -/

section Runs

variable {known : KnownBits} {bound : Nat} (environment : DagEnvironment)

private theorem regsBelow_of_selectAddr {addr base : SDValue} {offset : BitVec 64}
    (selected : selectAddr known addr = some (base, offset)) (below : addr.RegsBelow bound) :
    base.RegsBelow bound := by
  rcases selectAddr_cases selected with
    ⟨index, rfl, rfl, -⟩ | ⟨op, left, rfl, rfl, -, -⟩ | ⟨rfl, -, -⟩
  · trivial
  · cases left with
    | FrameIndex index => trivial
    | _ => exact below.1
  · exact below

theorem Selects.exec_below {node : SDValue} {tree : MachineNode} (covered : Selects known node tree)
    {context other : DagContext} (agree : context.below bound = other.below bound)
    (below : node.RegsBelow bound) :
    tree.exec (environment.state context) = tree.exec (environment.state other) := by
  induction covered with
  | CopyFromReg register => exact congrArg some (regs_of_below_eq agree below)
  | ALU_RR op left right leftInduction rightInduction =>
      rw [MachineNode.exec, MachineNode.exec, leftInduction below.1, rightInduction below.2]
  | ALU_RI op fits left induction =>
      rw [MachineNode.exec, MachineNode.exec, induction below.1]
  | and_0xffffFFFF matched src induction =>
      simp only [MachineNode.exec, induction below.1]
  | LOADi64 opcode selected base induction =>
      have memory : (environment.state context).memory = (environment.state other).memory :=
        world_of_below_eq agree
      rw [MachineNode.exec, MachineNode.exec, memory,
        induction (regsBelow_of_selectAddr selected below)]
  | TargetFrameIndex index => rfl
  | FrameIndex index => rfl
  | Wrapper name offset => rfl
  | MOV_RI fits => rfl
  | LD_IMM64 imm => rfl

theorem Selects.computes {node : SDValue} {tree : MachineNode} (covered : Selects known node tree)
    {context machine : DagContext} (sound : known.SoundAt (environment.state context))
    (agree : context.below bound = machine.below bound) (below : node.RegsBelow bound)
    {value : BitVec 64}
    (evaluates : node.eval (fun _ => 0) (environment.state context) = some value) :
    tree.exec (environment.state machine) = some value := by
  rw [← covered.exec_below environment agree below]
  exact covered.exec_eq sound evaluates

theorem Selects.computesBase {addr base : SDValue} {offset address : BitVec 64}
    {rBase : MachineNode} {context machine : DagContext}
    (covered : Selects known base rBase) (sound : known.SoundAt (environment.state context))
    (selected : selectAddr known addr = some (base, offset))
    (agree : context.below bound = machine.below bound) (below : addr.RegsBelow bound)
    (evaluates : addr.eval (fun _ => 0) (environment.state context) = some address) :
    ∃ baseValue, rBase.exec (environment.state machine) = some baseValue ∧
      baseValue + offset = address := by
  rw [← covered.exec_below environment agree (regsBelow_of_selectAddr selected below)]
  exact covered.exec_base sound selected (covered.exec_eq sound) evaluates

theorem SelectsOperands.hidden {nodes : List SDValue} {registers : List Nat}
    {insts : List SelectedTree} (selects : SelectsOperands known bound nodes registers insts) :
    ∀ inst ∈ insts, ∀ context,
      observeSelected environment bound (.executed inst context) = none := by
  induction selects with
  | nil => exact fun inst member => absurd member List.not_mem_nil
  | register register rest induction => exact induction
  | @computed temporary node tree nodes registers insts fresh unused covered rest induction =>
      intro inst member context
      rcases List.mem_cons.mp member with rfl | later
      · rw [observeSelected, SelectedTree.run]
        cases tree.exec (environment.state context) with
        | none => rfl
        | some value => rfl
      · exact induction inst later context

theorem SelectsOperands.runs {nodes : List SDValue} {registers : List Nat}
    {insts : List SelectedTree} (selects : SelectsOperands known bound nodes registers insts)
    {value : SDValue → BitVec 64} {context machine : DagContext}
    (sound : known.SoundAt (environment.state context))
    (agree : context.below bound = machine.below bound)
    (below : ∀ node ∈ nodes, node.RegsBelow bound)
    (evaluates : ∀ node ∈ nodes,
      node.eval (fun _ => 0) (environment.state context) = some (value node)) :
    ∃ after, runEffects (SelectedTree.effect environment bound) insts machine = some after ∧
      machine.below bound = after.below bound ∧
      (∀ register, register ∉ registers → after.regs register = machine.regs register) ∧
      registers.map after.regs = nodes.map value := by
  induction selects generalizing machine with
  | nil => exact ⟨machine, rfl, rfl, fun _ _ => rfl, rfl⟩
  | @register register nodes registers insts rest induction =>
      rcases induction agree (fun node member => below node (List.mem_cons_of_mem _ member))
        (fun node member => evaluates node (List.mem_cons_of_mem _ member)) with
        ⟨after, runs, kept, frame, values⟩
      have inside : register < bound := below _ List.mem_cons_self
      have evaluated := Option.some.inj (evaluates (.CopyFromReg register) List.mem_cons_self)
      have held : after.regs register = value (.CopyFromReg register) :=
        (regs_of_below_eq (agree.trans kept) inside).symm.trans evaluated
      refine ⟨after, runs, kept, ?_, ?_⟩
      · intro other unused
        exact frame other fun member => unused (List.mem_cons_of_mem register member)
      · rw [List.map_cons, List.map_cons, held, values]
  | @computed temporary node tree nodes registers insts fresh unused covered rest induction =>
      have computes := covered.computes environment sound agree (below node List.mem_cons_self)
        (evaluates node List.mem_cons_self)
      have assigned := below_setReg_of_le machine fresh (value node)
      rcases induction (agree.trans assigned.symm)
        (fun other member => below other (List.mem_cons_of_mem node member))
        (fun other member => evaluates other (List.mem_cons_of_mem node member)) with
        ⟨after, runs, kept, frame, values⟩
      have held : after.regs temporary = value node := by
        rw [frame temporary unused]
        exact if_pos rfl
      refine ⟨after, ?_, assigned.symm.trans kept, ?_, ?_⟩
      · rw [runEffects, SelectedTree.effect, SelectedTree.run, computes]
        exact runs
      · intro other notUsed
        rw [List.mem_cons, not_or] at notUsed
        rw [frame other notUsed.2]
        exact if_neg notUsed.1
      · rw [List.map_cons, List.map_cons, held, values]

private theorem negated_of_LowerSELECT_CC
    {LHS RHS TrueV FalseV left right trueNode falseNode : SDValue}
    {CC imm : CondCode}
    (lowered : LowerSELECT_CC LHS RHS TrueV FalseV CC = (left, right, imm, trueNode, falseNode)) :
    NegateCC LHS RHS CC = (left, right, imm) ∧ trueNode = TrueV ∧ falseNode = FalseV := by
  cases CC <;> cases lowered <;> exact ⟨rfl, rfl, rfl⟩

def DagEnvironment.value (context : DagContext) (node : SDValue) : BitVec 64 :=
  (node.eval (fun _ => 0) (environment.state context)).getD 0

private theorem eval_eq_value {context : DagContext} {node : SDValue} {value : BitVec 64}
    (evaluates : node.eval (fun _ => 0) (environment.state context) = some value) :
    environment.value context node = value := by
  rw [DagEnvironment.value, evaluates]
  rfl

def DagEnvironment.Evaluates (context : DagContext) (node : SDValue) : Prop :=
  node.eval (fun _ => 0) (environment.state context) = some (environment.value context node)

private theorem evaluates_of_eval {context : DagContext} {node : SDValue} {value : BitVec 64}
    (evaluates : node.eval (fun _ => 0) (environment.state context) = some value) :
    environment.Evaluates context node := by
  rw [DagEnvironment.Evaluates, eval_eq_value environment evaluates, evaluates]

theorem compare_negated {LHS RHS left right : SDValue} {CC imm : CondCode}
    (negated : NegateCC LHS RHS CC = (left, right, imm)) (context : DagContext)
    {leftValue rightValue : BitVec 64}
    (leftEval : LHS.eval (fun _ => 0) (environment.state context) = some leftValue)
    (rightEval : RHS.eval (fun _ => 0) (environment.state context) = some rightValue) :
    imm.holds (environment.value context left) (environment.value context right) =
      CC.holds leftValue rightValue := by
  have compares := holds_NegateCC CC LHS RHS (environment.value context)
  rw [negated, eval_eq_value environment leftEval, eval_eq_value environment rightEval] at compares
  exact compares

abbrev selectedStep (environment : DagEnvironment) (bound : Nat) (visible : Nat → Bool)
    (function : MachineFunction SelectedTree) :
    StepFunction (Config SelectedTree (Memory 64)) DagObservation :=
  observeSteps (observeSelected environment bound)
    (step (SelectedTree.effect environment bound) visible function)

variable (visible : Nat → Bool) (function : MachineFunction SelectedTree)

private theorem selectedStep_ordinary {inst : SelectedTree} {context after : DagContext}
    {shown : Option DagObservation}
    (runs : inst.run environment bound context = some (shown, after)) (block : Nat)
    (rest : List (MachineInstr SelectedTree)) :
    selectedStep environment bound visible function
        (.running block (.ordinary inst :: rest) context) =
      some (shown, .running block rest after) := by
  have effect : inst.effect environment bound context = some after := by
    rw [SelectedTree.effect, runs]
    rfl
  have executes : step (SelectedTree.effect environment bound) visible function
      (.running block (.ordinary inst :: rest) context) =
      some (some (.executed inst context), .running block rest after) := by
    rw [step, effect]
  rw [selectedStep, observeSteps_of_steps _ executes, Option.bind_some, observeSelected, runs]
  rfl

/-- Silent steps to the instruction behind those of its operands. -/
private theorem SelectsOperands.silent {nodes : List SDValue} {registers : List Nat}
    {insts : List SelectedTree} (selects : SelectsOperands known bound nodes registers insts)
    {context machine : DagContext} (sound : known.SoundAt (environment.state context))
    (agree : context.below bound = machine.below bound)
    (below : ∀ node ∈ nodes, node.RegsBelow bound)
    (evaluates : ∀ node ∈ nodes, environment.Evaluates context node) (block : Nat)
    (code : List (MachineInstr SelectedTree)) :
    ∃ after,
      Silent (selectedStep environment bound visible function) insts.length
        (.running block (insts.map .ordinary ++ code) machine) (.running block code after) ∧
      context.below bound = after.below bound ∧
      registers.map after.regs = nodes.map (environment.value context) := by
  rcases selects.runs environment sound agree below evaluates with ⟨after, runs, kept, -, values⟩
  have silent := silent_ordinaries visible function block code (selects.hidden environment) runs
  exact ⟨after, silent, agree.trans kept, values⟩

/-- Steps that show nothing, then one that shows what the DAG does. -/
def Matched (bound : Nat) (block : Nat) (code rest : List (MachineInstr SelectedTree))
    (machine : DagContext) (shown : Option DagObservation) (after : DagContext) : Prop :=
  ∃ count middle machineAfter,
    Silent (selectedStep environment bound visible function) count
      (.running block (code ++ rest) machine) middle ∧
    selectedStep environment bound visible function middle =
      some (shown, .running block rest machineAfter) ∧
    after.below bound = machineAfter.below bound

private theorem SelectsOperands.matched_Select (dst : Nat)
    {LHS RHS TrueV FalseV left right trueNode falseNode : SDValue} {CC imm : CondCode}
    {lhs rhs src src2 : Nat} {insts : List SelectedTree}
    (lowered : LowerSELECT_CC LHS RHS TrueV FalseV CC = (left, right, imm, trueNode, falseNode))
    (operands : SelectsOperands known bound [left, right, trueNode, falseNode]
      [lhs, rhs, src, src2] insts) (block : Nat) (rest : List (MachineInstr SelectedTree))
    {context machine after : DagContext} {shown : Option DagObservation}
    (sound : known.SoundAt (environment.state context))
    (agree : context.below bound = machine.below bound)
    (below : (DagStatement.SELECT_CC dst LHS RHS TrueV FalseV CC).RegsBelow bound)
    (runs : (DagStatement.SELECT_CC dst LHS RHS TrueV FalseV CC).run (fun _ => 0) environment
      bound context = some (shown, after)) :
    Matched environment visible function bound block
      (insts.map .ordinary ++ [.Select dst lhs rhs imm src src2]) rest machine shown after := by
  simp only [DagStatement.run, bind, Option.bind_eq_some_iff, Option.some.injEq,
    Prod.mk.injEq] at runs
  rcases runs with ⟨leftValue, leftEval, rightValue, rightEval, trueValue, trueEval,
    falseValue, falseEval, rfl, rfl⟩
  rcases negated_of_LowerSELECT_CC lowered with ⟨negated, rfl, rfl⟩
  rcases below with ⟨-, leftBelow, rightBelow, trueBelow, falseBelow⟩
  have compareBelow := forall_negated negated leftBelow rightBelow
  have compareEvaluated := forall_negated negated (evaluates_of_eval environment leftEval)
    (evaluates_of_eval environment rightEval)
  have allBelow : ∀ node ∈ [left, right, trueNode, falseNode], node.RegsBelow bound :=
    List.forall_mem_cons.mpr ⟨compareBelow.1, List.forall_mem_cons.mpr ⟨compareBelow.2,
      List.forall_mem_cons.mpr ⟨trueBelow, List.forall_mem_singleton.mpr falseBelow⟩⟩⟩
  have allEvaluated : ∀ node ∈ [left, right, trueNode, falseNode],
      environment.Evaluates context node :=
    List.forall_mem_cons.mpr ⟨compareEvaluated.1, List.forall_mem_cons.mpr ⟨compareEvaluated.2,
      List.forall_mem_cons.mpr ⟨evaluates_of_eval environment trueEval,
        List.forall_mem_singleton.mpr (evaluates_of_eval environment falseEval)⟩⟩⟩
  rcases operands.silent environment visible function sound agree allBelow allEvaluated block
    (.Select dst lhs rhs imm src src2 :: rest) with ⟨computed, silent, kept, values⟩
  simp only [List.map_cons, List.map_nil, List.cons.injEq, and_true] at values
  rcases values with ⟨inLhs, inRhs, inSrc, inSrc2⟩
  rw [eval_eq_value environment trueEval] at inSrc
  rw [eval_eq_value environment falseEval] at inSrc2
  have compares := compare_negated environment negated context leftEval rightEval
  refine ⟨insts.length, .running block (.Select dst lhs rhs imm src src2 :: rest) computed,
    _, ?_, rfl, ?_⟩
  · rw [List.append_assoc]
    exact silent
  · rw [inLhs, inRhs, compares, inSrc, inSrc2]
    exact below_setReg kept dst _

theorem SelectsStatement.matched {statement : DagStatement}
    {code : List (MachineInstr SelectedTree)}
    (selects : SelectsStatement known bound statement code) (block : Nat)
    (rest : List (MachineInstr SelectedTree)) {context machine after : DagContext}
    {shown : Option DagObservation} (sound : known.SoundAt (environment.state context))
    (agree : context.below bound = machine.below bound) (below : statement.RegsBelow bound)
    (runs : statement.run (fun _ => 0) environment bound context = some (shown, after)) :
    Matched environment visible function bound block code rest machine shown after := by
  cases selects with
  | CopyToReg dst covered =>
      simp only [DagStatement.run, bind, Option.bind_eq_some_iff, Option.some.injEq,
        Prod.mk.injEq] at runs
      rcases runs with ⟨value, evaluates, rfl, rfl⟩
      refine ⟨0, _, _, .refl _, ?_, below_setReg agree dst value⟩
      apply selectedStep_ordinary
      rw [SelectedTree.run, covered.computes environment sound agree below.2 evaluates]
      rfl
  | Select dst lowered operands =>
      exact operands.matched_Select environment visible function dst lowered block rest sound agree
        below runs
  | STOREi64 memVT covered selected base =>
      simp only [DagStatement.run, bind, Option.bind_eq_some_iff, Option.some.injEq,
        Prod.mk.injEq] at runs
      rcases runs with ⟨value, valueEval, address, addressEval, rfl, rfl⟩
      rcases base.computesBase environment sound selected agree below.2 addressEval with
        ⟨baseValue, computes, rfl⟩
      refine ⟨0, _, _, .refl _, ?_, below_storeMem agree _ memVT.bytes (value.setWidth _)⟩
      apply selectedStep_ordinary
      rw [SelectedTree.run, covered.computes environment sound agree below.1 valueEval, computes]
      cases memVT <;> rfl
  | XADD memVT covered selected base =>
      simp only [DagStatement.run, bind, Option.bind_eq_some_iff, Option.some.injEq,
        Prod.mk.injEq] at runs
      rcases runs with ⟨value, valueEval, address, addressEval, rfl, rfl⟩
      rcases base.computesBase environment sound selected agree below.1 addressEval with
        ⟨baseValue, computes, rfl⟩
      refine ⟨0, _, _, .refl _, ?_, below_addMem agree _ memVT.bytes (value.setWidth _)⟩
      apply selectedStep_ordinary
      rw [SelectedTree.run, covered.computes environment sound agree below.2 valueEval, computes]
      cases memVT <;> rfl
  | ADJCALLSTACKDOWN amt =>
      cases runs
      exact ⟨0, _, _, .refl _, rfl, agree⟩
  | ADJCALLSTACKUP amt1 amt2 =>
      cases runs
      exact ⟨0, _, _, .refl _, rfl, agree⟩
  | JAL selected =>
      simp only [DagStatement.run, bind, Option.bind_eq_some_iff, Option.some.injEq,
        Prod.mk.injEq] at runs
      rcases runs with ⟨target, named, called, calls, rfl, rfl⟩
      refine ⟨0, _, called, .refl _, ?_, rfl⟩
      apply selectedStep_ordinary
      rw [SelectedTree.run, callee_of_selectCall selected, named, ← agree]
      simp only [bind, Option.bind, calls]

theorem SelectsBR_CC.advances {branch : DagBranch} {code : List (MachineInstr SelectedTree)}
    (selects : SelectsBR_CC known bound (some branch) code) (block : Nat)
    (rest : List (MachineInstr SelectedTree)) {context machine : DagContext} {taken : Bool}
    (sound : known.SoundAt (environment.state context))
    (agree : context.below bound = machine.below bound) (below : branch.RegsBelow bound)
    (compares : branch.taken (fun _ => 0) environment context = some taken) :
    ∃ count middle after,
      Silent (selectedStep environment bound visible function) count
        (.running block (code ++ rest) machine) middle ∧
      context.below bound = after.below bound ∧
      step (SelectedTree.effect environment bound) visible function middle =
        if taken then transfer visible function block branch.Dest after
        else some (none, .running block rest after) := by
  simp only [DagBranch.taken, bind, Option.bind_eq_some_iff, Option.some.injEq] at compares
  rcases compares with ⟨leftValue, leftEval, rightValue, rightEval, rfl⟩
  have leftShown := evaluates_of_eval environment leftEval
  have rightShown := evaluates_of_eval environment rightEval
  cases selects with
  | @JMP_RR _ LHS RHS CC op rA rX insts lowered guarded operands =>
      have compareBelow := forall_negated lowered below.1 below.2
      have compareEvaluated := forall_negated lowered leftShown rightShown
      rcases operands.silent environment visible function sound agree
        (List.forall_mem_cons.mpr ⟨compareBelow.1, List.forall_mem_singleton.mpr compareBelow.2⟩)
        (List.forall_mem_cons.mpr
          ⟨compareEvaluated.1, List.forall_mem_singleton.mpr compareEvaluated.2⟩)
        block (.J_rr op rA rX branch.Dest :: rest) with ⟨computed, silent, kept, values⟩
      simp only [List.map_cons, List.map_nil, List.cons.injEq, and_true] at values
      refine ⟨insts.length, .running block (.J_rr op rA rX branch.Dest :: rest) computed,
        computed, ?_, kept, ?_⟩
      · rw [List.append_assoc]
        exact silent
      · rw [step, values.1, values.2,
          taken_of_selectBranch ((cond_iff_selectBranch op CC).mp guarded),
          compare_negated environment lowered context leftEval rightEval]
  | @JMP_RI _ LHS imm CC op rA insts lowered guarded fits operands =>
      have compareBelow := forall_negated lowered below.1 below.2
      have compareEvaluated := forall_negated lowered leftShown rightShown
      rcases operands.silent environment visible function sound agree
        (List.forall_mem_singleton.mpr compareBelow.1)
        (List.forall_mem_singleton.mpr compareEvaluated.1)
        block (.J_ri op rA imm branch.Dest :: rest) with ⟨computed, silent, kept, values⟩
      simp only [List.map_cons, List.map_nil, List.cons.injEq, and_true] at values
      have compares := compare_negated environment lowered context leftEval rightEval
      have constant : environment.value context (.Constant imm) = imm := rfl
      refine ⟨insts.length, .running block (.J_ri op rA imm branch.Dest :: rest) computed,
        computed, ?_, kept, ?_⟩
      · rw [List.append_assoc]
        exact silent
      · rw [step, values, signExtend32_of_isInt fits,
          taken_of_selectBranch ((cond_iff_selectBranch op CC).mp guarded), ← compares, constant]

end Runs

/-! ### From one step to the next -/

def DagConfig.Knows (known : KnownBits) (environment : DagEnvironment) : DagConfig → Prop
  | running _ _ _ _ context => known.SoundAt (environment.state context)
  | undefined | halted => True

/-- The known-bits test is sound in every state that a run reaches. -/
def DagFunction.Knows (known : KnownBits) (environment : DagEnvironment) (dag : DagFunction)
    (context : DagContext) : Prop :=
  Always (dag.step (fun _ => 0) environment) (DagConfig.Knows known environment)
    (dag.start context)

/-- What is left of a block is covered by what is left of its code, and the
registers in use agree. -/
inductive SelectedConfig (known : KnownBits) (dag : DagFunction) :
    DagConfig → Config SelectedTree (Memory 64) → Prop where
  | running (block : Nat) {rest : List DagStatement} {branch : Option DagBranch} (exit : DagExit)
      {code branchCode : List (MachineInstr SelectedTree)} {context machine : DagContext} :
      SelectsStatements known dag.nextRegister rest code →
      SelectsBR_CC known dag.nextRegister branch branchCode →
      (∀ statement ∈ rest, statement.RegsBelow dag.nextRegister) →
      (∀ compare ∈ branch, compare.RegsBelow dag.nextRegister) →
      context.below dag.nextRegister = machine.below dag.nextRegister →
      SelectedConfig known dag (.running block rest branch exit context)
        (.running block (code ++ (branchCode ++ exit.code)) machine)
  | halted : SelectedConfig known dag .halted .halted

section Simulation

variable {known : KnownBits} {dag : DagFunction} {function : MachineFunction SelectedTree}
variable (environment : DagEnvironment)

private theorem dagTransfer_ne_none (source target : Nat) (context : DagContext) :
    dag.transfer source target context ≠ none := by
  rw [DagFunction.transfer_eq]
  split
  · simp
  · split <;> simp

private theorem dagStep_running_ne_none (anyExt : SDValue → BitVec 64) (block : Nat)
    (rest : List DagStatement) (branch : Option DagBranch) (exit : DagExit)
    (context : DagContext) :
    dag.step anyExt environment (.running block rest branch exit context) ≠ none := by
  cases rest with
  | cons statement rest =>
      rw [DagFunction.step]
      split <;> simp
  | nil =>
      cases branch with
      | some branch =>
          rw [DagFunction.step]
          split
          · simp
          · exact dagTransfer_ne_none block branch.Dest context
          · simp
      | none =>
          rw [DagFunction.step]
          cases exit with
          | fallThrough =>
              rw [DagFunction.leave]
              split
              · simp
              · exact dagTransfer_ne_none block _ context
          | BR Dest => exact dagTransfer_ne_none block Dest context
          | RET_FLAG => simp [DagFunction.leave]

private theorem selectedConfig_start (selects : SelectsFunction known dag function)
    (registers : ∀ block ∈ dag.blocks, block.RegsBelow dag.nextRegister) (context : DagContext) :
    SelectedConfig known dag (dag.start context) (function.start context) := by
  have blocks := selects.blocks
  rw [DagFunction.start, MachineFunction.start]
  generalize function.blocks = selected at blocks
  generalize dag.blocks = original at blocks registers
  cases blocks with
  | nil => exact .halted
  | @cons entry _ rest _ covered others =>
      have entryBelow := registers entry List.mem_cons_self
      rcases covered with ⟨statements, branch⟩
      exact .running entry.number entry.exit statements branch entryBelow.statements
        entryBelow.branch rfl

section Advances

variable (wellFormed : dag.WellFormed) (selects : SelectsFunction known dag function)
include wellFormed selects

private theorem transfer_selected (source target : Nat) {context machine : DagContext}
    (agree : context.below dag.nextRegister = machine.below dag.nextRegister)
    {shown : Option DagObservation} {next : DagConfig}
    (moves : dag.transfer source target context = some (shown, next)) :
    ∃ event otherNext,
      transfer (· < dag.nextNumber) function source target machine = some (event, otherNext) ∧
      event.bind (observeSelected environment dag.nextRegister) = shown ∧
      SelectedConfig known dag next otherNext := by
  have found := findBlock_selected selects.blocks target
  rw [DagFunction.transfer_eq] at moves
  rw [transfer_eq, MachineFunction.block?]
  generalize selectedFound : findBlock function.blocks target = selected at found ⊢
  generalize sourceFound : findBlock dag.blocks target = original at found moves
  cases found with
  | none =>
      cases moves
      exact ⟨_, _, rfl, rfl, .halted⟩
  | @some block selectedBlock covered =>
      have member := List.mem_of_find?_eq_some sourceFound
      have numbered : (BasicBlock.number block == target) = true := by
        simpa using List.find?_some sourceFound
      have named : block.number = target := eq_of_beq numbered
      have visible : target < dag.nextNumber := named ▸ wellFormed.numbered block member
      have registers := wellFormed.registers block member
      have assigned := assignPhis_below registers.phis source agree agree
      rcases covered with ⟨statements, branch⟩
      dsimp only at moves ⊢
      generalize assignPhis source context block.phis context = entered at assigned moves
      generalize assignPhis source machine block.phis machine = machineEntered at assigned ⊢
      cases assigned with
      | none =>
          cases moves
          exact ⟨_, _, rfl, rfl, .halted⟩
      | @some entered machineEntered agreeEntered =>
          cases moves
          refine ⟨_, _, rfl, ?_, .running target block.exit statements branch
            registers.statements registers.branch agreeEntered⟩
          rw [decide_eq_true visible, agreeEntered]
          rfl

theorem selectedStep_transfer (source target : Nat) {context machine : DagContext}
    (agree : context.below dag.nextRegister = machine.below dag.nextRegister)
    {shown : Option DagObservation} {next : DagConfig}
    (moves : dag.transfer source target context = some (shown, next))
    {config : Config SelectedTree (Memory 64)}
    (transfers : step (SelectedTree.effect environment dag.nextRegister) (· < dag.nextNumber)
      function config = transfer (· < dag.nextNumber) function source target machine) :
    ∃ otherNext, selectedStep environment dag.nextRegister (· < dag.nextNumber) function config =
        some (shown, otherNext) ∧ SelectedConfig known dag next otherNext := by
  rcases transfer_selected environment wellFormed selects source target agree moves with
    ⟨event, otherNext, otherMoves, same, related⟩
  refine ⟨otherNext, ?_, related⟩
  rw [← same]
  exact observeSteps_of_steps _ (transfers.trans otherMoves)

private theorem leave_selected (block : Nat) (exit : DagExit) {context machine : DagContext}
    (agree : context.below dag.nextRegister = machine.below dag.nextRegister)
    {shown : Option DagObservation} {next : DagConfig}
    (leaves : dag.leave block context exit = some (shown, next)) :
    ∃ otherNext, selectedStep environment dag.nextRegister (· < dag.nextNumber) function
        (.running block exit.code machine) = some (shown, otherNext) ∧
      SelectedConfig known dag next otherNext := by
  cases exit with
  | fallThrough =>
      have layout := layoutNext_selected selects.blocks block
      rw [DagFunction.leave] at leaves
      cases successor : layoutNext dag.blocks block with
      | none =>
          rw [successor] at leaves layout
          cases leaves
          refine ⟨.halted, ?_, .halted⟩
          rw [selectedStep, observeSteps, DagExit.code, step, layout]
          rfl
      | some target =>
          rw [successor] at leaves layout
          apply selectedStep_transfer environment wellFormed selects block target agree leaves
          rw [DagExit.code, step, layout]
  | BR Dest =>
      exact selectedStep_transfer environment wellFormed selects block Dest agree leaves rfl
  | RET_FLAG =>
      cases leaves
      refine ⟨.halted, ?_, .halted⟩
      rw [agree]
      rfl

/-- Each root is matched by the instructions that cover it, as long as no
undefined value is met and the known bits are right. -/
theorem select_simulates :
    WeaklySimulates (dag.step (fun _ => 0) environment)
      (selectedStep environment dag.nextRegister (· < dag.nextNumber) function)
      fun config other => SelectedConfig known dag config other ∧
        Always (dag.step (fun _ => 0) environment) (· ≠ .undefined) config ∧
        Always (dag.step (fun _ => 0) environment) (DagConfig.Knows known environment) config
    where
  halts := by
    intro config other related halted
    cases related.1 with
    | @running block rest branch exit code branchCode context machine _ _ _ _ _ =>
        exact absurd halted
          (dagStep_running_ne_none environment (fun _ => 0) block rest branch exit context)
    | halted => rfl
  advances := by
    intro config other shown next related steps
    have laterDefined := related.2.1.next steps
    have laterKnown := related.2.2.next steps
    have defined := laterDefined.here
    have sound := related.2.2.here
    suffices matched : ∃ count middle otherNext,
        Silent (selectedStep environment dag.nextRegister (· < dag.nextNumber) function) count
          other middle ∧
        selectedStep environment dag.nextRegister (· < dag.nextNumber) function middle =
          some (shown, otherNext) ∧ SelectedConfig known dag next otherNext by
      rcases matched with ⟨count, middle, otherNext, silent, otherSteps, nextRelated⟩
      exact ⟨count, middle, otherNext, silent, otherSteps, nextRelated, laterDefined, laterKnown⟩
    cases related.1 with
    | halted => cases steps
    | running block exit statements branchSelects restBelow branchBelow agree =>
        cases statements with
        | @cons statement rest code restCode statementSelects restSelects =>
            rw [DagFunction.step] at steps
            split at steps
            · cases steps
              exact absurd rfl defined
            · rename_i statementShown after runs
              cases steps
              rcases statementSelects.matched environment (· < dag.nextNumber) function block
                (restCode ++ _) sound agree (restBelow statement List.mem_cons_self) runs with
                ⟨count, middle, machineAfter, silent, otherSteps, agreeAfter⟩
              rw [← List.append_assoc] at silent
              exact ⟨count, middle, _, silent, otherSteps,
                .running block exit restSelects branchSelects
                  (fun other member => restBelow other (List.mem_cons_of_mem statement member))
                  branchBelow agreeAfter⟩
        | nil =>
            rename_i branch branchCode context machine
            cases branch with
            | none =>
                cases branchSelects
                rcases leave_selected environment wellFormed selects block exit agree steps with
                  ⟨otherNext, otherSteps, nextRelated⟩
                exact ⟨0, _, otherNext, .refl _, otherSteps, nextRelated⟩
            | some branch =>
                rw [DagFunction.step] at steps
                split at steps
                · cases steps
                  exact absurd rfl defined
                · rename_i compares
                  rcases branchSelects.advances environment (· < dag.nextNumber) function block
                    exit.code sound agree (branchBelow branch rfl) compares with
                    ⟨count, middle, machineAfter, silent, agreeAfter, transfers⟩
                  rcases selectedStep_transfer environment wellFormed selects block branch.Dest
                    agreeAfter steps transfers with ⟨otherNext, otherSteps, nextRelated⟩
                  exact ⟨count, middle, otherNext, silent, otherSteps, nextRelated⟩
                · rename_i compares
                  cases steps
                  rcases branchSelects.advances environment (· < dag.nextNumber) function block
                    exit.code sound agree (branchBelow branch rfl) compares with
                    ⟨count, middle, machineAfter, silent, agreeAfter, stays⟩
                  exact ⟨count, middle, _, silent, observeSteps_of_steps _ stays,
                    .running block exit .nil .absent restBelow
                      (fun compare absent => absurd absent (Option.not_mem_none compare))
                      agreeAfter⟩

theorem select_hasTrace_iff (context : DagContext)
    (defined : dag.Defined (fun _ => 0) environment context)
    (knows : dag.Knows known environment context) (observed : List DagObservation) :
    HasTrace (dag.step (fun _ => 0) environment) (dag.start context) observed ↔
      ∃ trace, HasTrace (step (SelectedTree.effect environment dag.nextRegister)
          (· < dag.nextNumber) function) (function.start context) trace ∧
        trace.filterMap (observeSelected environment dag.nextRegister) = observed := by
  rw [← hasTrace_observeSteps_iff]
  exact (select_simulates environment wellFormed selects).hasTrace_iff
    ⟨selectedConfig_start selects wellFormed.registers context, defined, knows⟩ observed

end Advances

end Simulation

/-! ## Expanded functions -/

theorem SelectSite.IsSite.terminatorsLast_expand {site : SelectSite SelectedTree}
    {function : MachineFunction SelectedTree} (isSite : site.IsSite function)
    (wellFormed : function.WellFormed) (last : function.TerminatorsLast) :
    (site.expand function).TerminatorsLast := by
  intro block member
  rcases List.mem_flatMap.mp member with ⟨original, originalMember, expanded⟩
  unfold SelectSite.expandBlock at expanded
  split at expanded
  · rcases isSite.insts with ⟨imm, insts, -⟩
    have whole := last _ isSite.member
    rw [insts] at whole
    simp only [List.mem_cons, List.not_mem_nil, or_false] at expanded
    rcases expanded with rfl | rfl | rfl
    · exact terminatorsLast_of_straight (isSite.straight wellFormed) _
    · rfl
    · exact terminatorsLast_sublist whole
        ((List.sublist_cons_self _ _).trans (List.sublist_append_right _ _))
  · rw [List.mem_singleton.mp expanded, SelectSite.insts_updatePHIs]
    exact last original originalMember

theorem Expands.terminatorsLast {function expanded : MachineFunction SelectedTree}
    (expands : Expands function expanded) (wellFormed : function.WellFormed)
    (lowered : SelectsLowered function) (last : function.TerminatorsLast) :
    expanded.TerminatorsLast := by
  induction expands with
  | refl => exact last
  | tail before emitted induction =>
      have kept := (@Expands.keeps _ (Memory 64) _ _ before wellFormed lowered).1
      rcases EmitInstrWithCustomInserter_cases emitted with ⟨site, isSite, rfl⟩
      exact isSite.terminatorsLast_expand kept induction

theorem SelectsFunction.terminatorsLast {known : KnownBits} {dag : DagFunction}
    {function : MachineFunction SelectedTree} (selects : SelectsFunction known dag function) :
    function.TerminatorsLast := by
  intro block member
  rcases exists_of_mem_selected selects.blocks member with ⟨original, _, covered⟩
  exact covered.terminatorsLast

/-! ## From DAGs to machine code -/

/-- Legalization, selection, the custom inserter and branch edits keep the
meaning of a function: whichever patterns cover its trees, in whichever order
its `Select`s are expanded and however its branches are edited then, the machine
function makes the accesses, the calls and the block entries of the DAGs, from
every state in which they are defined and whose runs the known-bits test judges
rightly. No expansion and no edit fails, and where every tree has a pattern one
selection leaves no `Select` in the end. -/
theorem expandSelected_hasTrace_iff (known : KnownBits) {dag : DagFunction}
    (wellFormed : dag.WellFormed) :
    (∀ function expanded edits, SelectsFunction known dag function →
      Expands function expanded → ∃ edited,
      expanded.editBlocks edits = .ok edited ∧ edited.WellFormed ∧
      (∀ environment context, dag.Defined (fun _ => 0) environment context →
        dag.Knows known environment context → ∀ observed,
        HasTrace (dag.step (fun _ => 0) environment) (dag.start context) observed ↔
          ∃ trace, HasTrace (step (SelectedTree.effect environment dag.nextRegister)
              (· < dag.nextNumber) edited) (edited.start context) trace ∧
            trace.filterMap (observeSelected environment dag.nextRegister) = observed) ∧
      ∀ block ∈ expanded.blocks, ∀ (MI : Nat) (inst : MachineInstr SelectedTree),
        block.insts[MI]? = some inst → inst.isSelect = true →
          ∃ next, EmitInstrWithCustomInserter expanded block.number MI = .ok next) ∧
    (dag.blocks.all DagBlock.isCoverable = true →
      ∃ function expanded, SelectsFunction known dag function ∧ Expands function expanded ∧
        NoSelects expanded) := by
  constructor
  · intro function expanded edits selects expands
    have selectedWellFormed := selects.wellFormed wellFormed
    rcases @Expands.keeps _ (Memory 64) _ _ expands selectedWellFormed selects.selectsLowered with
      ⟨kept, keptLowered, -, sameTraces⟩
    have last := expands.terminatorsLast selectedWellFormed selects.selectsLowered
      selects.terminatorsLast
    rcases MachineFunction.editBlocks_keeps edits kept last with ⟨edited, applied, keeps⟩
    refine ⟨edited, applied, keeps.wellFormed, ?_,
      fun block member MI inst => exists_emit kept keptLowered member⟩
    intro environment context defined knows observed
    rw [select_hasTrace_iff environment wellFormed selects context defined knows,
      ← selects.nextNumber]
    simp only [sameTraces, hasTrace_iff_of_settled _ _ keeps.settled]
  · intro coverable
    rcases exists_selectsFunction known coverable with ⟨function, selects⟩
    rcases exists_expands_noSelects (selects.wellFormed wellFormed) selects.selectsLowered with
      ⟨expanded, expands, finished⟩
    exact ⟨function, expanded, selects, expands, finished⟩

def clearBelow : DagFunction where
  blocks :=
    [⟨0, [],
      [.CopyToReg 1 (.Wrapper (.TargetGlobalAddress "limits" 0)),
        .CopyToReg 3 (.load .ZEXTLOAD .i8 (.binary .ADD (.CopyFromReg 1) (.Constant 4))),
        .SELECT_CC 4 (.CopyFromReg 3) (.Constant 10) (.CopyFromReg 3) (.Constant 10) .SETULT,
        .store .i32 (.CopyFromReg 4) (.binary .OR (.FrameIndex 0) (.Constant 4)),
        .store .i64 (.FrameIndex 0) (.Wrapper (.TargetGlobalAddress "shared" 0))],
      some ⟨.SETEQ, .CopyFromReg 4, .Constant 0, 2⟩, .fallThrough, [1, 2]⟩,
    ⟨1, [⟨5, [(4, 0), (6, 1)]⟩],
      [.CopyToReg 6 (.binary .SUB (.CopyFromReg 5) (.Constant 1)),
        .store .i64 (.Constant 0) (.binary .ADD (.CopyFromReg 2)
          (.binary .SHL (.CopyFromReg 6) (.Constant 3))),
        .CALLSEQ_START 0, .CALL (.Constant 6), .CALLSEQ_END 0 0],
      some ⟨.SETNE, .CopyFromReg 6, .Constant 0, 1⟩, .BR 2, [1, 2]⟩,
    ⟨2, [], [.atomicLoadAdd .i32 (.FrameIndex 0) (.Constant 1)], none, .RET_FLAG, []⟩]
  nextNumber := 3
  nextRegister := 7

private theorem wellFormed_clearBelow : clearBelow.WellFormed where
  distinct := by decide
  numbered := by decide
  successors := by decide
  incoming := by decide
  registers := by decide
  exitsListed := by decide
  listedExits := by decide

def idleCalls : DagEnvironment := ⟨fun _ => -16, fun _ => 0, fun _ context => some context⟩

theorem expandSelected_hasTrace_iff_clearBelow :
    clearBelow.WellFormed ∧
    ∃ function expanded edited,
      SelectsFunction (.ofAlignment fun _ => 7) clearBelow function ∧
      Expands function expanded ∧ NoSelects expanded ∧
      expanded.editBlocks [(1, .analyze true)] = .ok edited ∧
      ∀ context, clearBelow.Defined (fun _ => 0) idleCalls context ∧
        clearBelow.Knows (.ofAlignment fun _ => 7) idleCalls context ∧ ∀ observed,
        HasTrace (clearBelow.step (fun _ => 0) idleCalls) (clearBelow.start context) observed ↔
          ∃ trace, HasTrace (step (SelectedTree.effect idleCalls clearBelow.nextRegister)
              (· < clearBelow.nextNumber) edited) (edited.start context) trace ∧
            trace.filterMap (observeSelected idleCalls clearBelow.nextRegister) = observed := by
  refine ⟨wellFormed_clearBelow, ?_⟩
  rcases expandSelected_hasTrace_iff (.ofAlignment fun _ => 7) wellFormed_clearBelow with
    ⟨keeps, exists_final⟩
  rcases exists_final (by decide) with ⟨function, expanded, selects, expands, finished⟩
  rcases keeps function expanded [(1, .analyze true)] selects expands with
    ⟨edited, applied, _, sameTraces, _⟩
  refine ⟨function, expanded, edited, selects, expands, finished, applied, fun context => ?_⟩
  have defined : clearBelow.Defined (fun _ => 0) idleCalls context :=
    DagFunction.defined_of_isTotal _ _ (by decide) (fun _ context => ⟨context, rfl⟩) context
  have knows : clearBelow.Knows (.ofAlignment fun _ => 7) idleCalls context := by
    intro trace reached reaches
    cases reached with
    | running block rest branch exit context =>
        have aligned : (-16 : BitVec 64) &&& 7 = 0 := by decide
        exact KnownBits.soundAt_ofAlignment fun _ => aligned
    | undefined => trivial
    | halted => trivial
  exact ⟨defined, knows, sameTraces idleCalls context defined knows⟩

end BpfBackend.CodeGen
