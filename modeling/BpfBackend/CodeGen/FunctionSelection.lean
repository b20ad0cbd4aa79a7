import BpfBackend.CodeGen.BlockDAG
import BpfBackend.CodeGen.CompareBranch
import BpfBackend.CodeGen.InstructionRewriting
import BpfBackend.CodeGen.SelectSimulation

/-! # Selection of a function

The DAGs of a function are legalized and covered by patterns, tree by tree. The
machine function that results still holds the `Select` pseudo instructions.
-/

namespace BpfBackend.CodeGen

open ByteMemory MC Simulation

/-! ## Selected instructions -/

inductive SelectedTree where
  | assign (dst : Nat) (tree : MachineNode)
  | ST (size : SizeOp) (rX base : MachineNode) (offset : BitVec 64)
  | XADD (size : SizeOp) (rX base : MachineNode) (offset : BitVec 64)
  | ADJCALLSTACKDOWN (amt : BitVec 64)
  | JAL (inst : SelectedInstr)
  | ADJCALLSTACKUP (amt1 amt2 : BitVec 64)
  deriving DecidableEq, Repr

section Semantics

variable (environment : DagEnvironment) (bound : Nat)

def SelectedTree.run (context : DagContext) :
    SelectedTree → Option (Option DagObservation × DagContext)
  | assign dst tree => do
      let value ← tree.exec (environment.state context)
      some (none, context.setReg dst value)
  | ST size rX base offset => do
      let value ← rX.exec (environment.state context)
      let baseValue ← base.exec (environment.state context)
      some (some (.stored size.bytes (baseValue + offset) (lowBytes size.bytes value)),
        context.storeMem (baseValue + offset) size.bytes (value.setWidth _))
  | XADD size rX base offset => do
      let value ← rX.exec (environment.state context)
      let baseValue ← base.exec (environment.state context)
      some (some (.added size.bytes (baseValue + offset) (lowBytes size.bytes value)),
        context.addMem (baseValue + offset) size.bytes (value.setWidth _))
  | ADJCALLSTACKDOWN _ | ADJCALLSTACKUP _ _ => some (none, context)
  | JAL inst => do
      let target ← inst.callee
      let after ← environment.call target (context.below bound)
      some (some (.called target (context.below bound)), after)

def SelectedTree.effect (inst : SelectedTree) (context : DagContext) : Option DagContext :=
  (inst.run environment bound context).map Prod.snd

/-- The temporaries of the selection are not shown. -/
def observeSelected : Event SelectedTree (Memory 64) → Option DagObservation
  | .executed inst context => (inst.run environment bound context).bind Prod.fst
  | .entered block context => some (.entered block (context.below bound))
  | .returned context => some (.returned (context.below bound))
  | .trapped _ => some .trapped

end Semantics

/-! ## Patterns at the roots -/

/-- The operands of a root are computed into new registers, unless they are in
registers already. -/
inductive SelectsOperands (known : KnownBits) (bound : Nat) :
    List SDValue → List Nat → List SelectedTree → Prop where
  | nil : SelectsOperands known bound [] [] []
  | register (register : Nat) {nodes : List SDValue} {registers : List Nat}
      {insts : List SelectedTree} :
      SelectsOperands known bound nodes registers insts →
      SelectsOperands known bound (.CopyFromReg register :: nodes) (register :: registers) insts
  | computed {temporary : Nat} {node : SDValue} {tree : MachineNode} {nodes : List SDValue}
      {registers : List Nat} {insts : List SelectedTree} :
      bound ≤ temporary → temporary ∉ registers → Selects known node tree →
      SelectsOperands known bound nodes registers insts →
      SelectsOperands known bound (node :: nodes) (temporary :: registers)
        (.assign temporary tree :: insts)

inductive SelectsStatement (known : KnownBits) (bound : Nat) :
    DagStatement → List (MachineInstr SelectedTree) → Prop where
  | CopyToReg (dst : Nat) {node : SDValue} {tree : MachineNode} :
      Selects known node tree →
      SelectsStatement known bound (.CopyToReg dst node) [.ordinary (.assign dst tree)]
  | Select (dst : Nat) {LHS RHS TrueV FalseV left right trueNode falseNode : SDValue}
      {CC imm : CondCode} {lhs rhs src src2 : Nat} {insts : List SelectedTree} :
      LowerSELECT_CC LHS RHS TrueV FalseV CC = (left, right, imm, trueNode, falseNode) →
      SelectsOperands known bound [left, right, trueNode, falseNode] [lhs, rhs, src, src2] insts →
      SelectsStatement known bound (.SELECT_CC dst LHS RHS TrueV FalseV CC)
        (insts.map .ordinary ++ [.Select dst lhs rhs imm src src2])
  | STOREi64 (memVT : MVT) {stored addr base : SDValue} {offset : BitVec 64}
      {rX rBase : MachineNode} :
      Selects known stored rX → selectAddr known addr = some (base, offset) →
      Selects known base rBase →
      SelectsStatement known bound (.store memVT stored addr)
        [.ordinary (.ST memVT.sizeOp rX rBase offset)]
  | XADD (memVT : MVT) {addr val base : SDValue} {offset : BitVec 64}
      {rX rBase : MachineNode} :
      Selects known val rX → selectAddr known addr = some (base, offset) →
      Selects known base rBase →
      SelectsStatement known bound (.atomicLoadAdd memVT addr val)
        [.ordinary (.XADD memVT.sizeOp rX rBase offset)]
  | ADJCALLSTACKDOWN (amt : BitVec 64) :
      SelectsStatement known bound (.CALLSEQ_START amt) [.ordinary (.ADJCALLSTACKDOWN amt)]
  | JAL {callee : SDValue} {inst : SelectedInstr} :
      selectCall callee = some inst →
      SelectsStatement known bound (.CALL callee) [.ordinary (.JAL inst)]
  | ADJCALLSTACKUP (amt1 amt2 : BitVec 64) :
      SelectsStatement known bound (.CALLSEQ_END amt1 amt2)
        [.ordinary (.ADJCALLSTACKUP amt1 amt2)]

inductive SelectsStatements (known : KnownBits) (bound : Nat) :
    List DagStatement → List (MachineInstr SelectedTree) → Prop where
  | nil : SelectsStatements known bound [] []
  | cons {statement : DagStatement} {rest : List DagStatement}
      {code restCode : List (MachineInstr SelectedTree)} :
      SelectsStatement known bound statement code →
      SelectsStatements known bound rest restCode →
      SelectsStatements known bound (statement :: rest) (code ++ restCode)

inductive SelectsBR_CC (known : KnownBits) (bound : Nat) :
    Option DagBranch → List (MachineInstr SelectedTree) → Prop where
  | absent : SelectsBR_CC known bound none []
  | JMP_RR {branch : DagBranch} {LHS RHS : SDValue} {CC : CondCode} {op : JccOp}
      {rA rX : Nat} {insts : List SelectedTree} :
      LowerBR_CC branch.LHS branch.RHS branch.CC = (LHS, RHS, CC) →
      JccOp.Cond op CC = true → SelectsOperands known bound [LHS, RHS] [rA, rX] insts →
      SelectsBR_CC known bound (some branch)
        (insts.map .ordinary ++ [.J_rr op rA rX branch.Dest])
  | JMP_RI {branch : DagBranch} {LHS : SDValue} {imm : BitVec 64} {CC : CondCode} {op : JccOp}
      {rA : Nat} {insts : List SelectedTree} :
      LowerBR_CC branch.LHS branch.RHS branch.CC = (LHS, .Constant imm, CC) →
      JccOp.Cond op CC = true → isInt 32 imm = true →
      SelectsOperands known bound [LHS] [rA] insts →
      SelectsBR_CC known bound (some branch)
        (insts.map .ordinary ++ [.J_ri op rA imm branch.Dest])

def DagExit.code : DagExit → List (MachineInstr SelectedTree)
  | fallThrough => []
  | BR Dest => [.JMP Dest]
  | RET_FLAG => [.RET]

inductive SelectsBlock (known : KnownBits) (bound : Nat) (block : DagBlock) :
    MachineBasicBlock SelectedTree → Prop where
  | covered {code branchCode : List (MachineInstr SelectedTree)} :
      SelectsStatements known bound block.statements code →
      SelectsBR_CC known bound block.branch branchCode →
      SelectsBlock known bound block
        ⟨block.number, block.phis, code ++ (branchCode ++ block.exit.code), block.successors⟩

structure SelectsFunction (known : KnownBits) (dag : DagFunction)
    (function : MachineFunction SelectedTree) : Prop where
  blocks : List.Forall₂ (SelectsBlock known dag.nextRegister) dag.blocks function.blocks
  nextNumber : function.nextNumber = dag.nextNumber

/-! ## The selected function is well formed -/

section Structure

variable {known : KnownBits} {bound : Nat}

private theorem straight_ordinaries (insts : List SelectedTree) :
    (insts.map MachineInstr.ordinary).all (!·.isTerminator) = true := by
  induction insts with
  | nil => rfl
  | cons inst rest induction => exact induction

theorem SelectsStatement.straight {statement : DagStatement}
    {code : List (MachineInstr SelectedTree)}
    (selects : SelectsStatement known bound statement code) :
    code.all (!·.isTerminator) = true := by
  cases selects with
  | CopyToReg dst covered => rfl
  | Select dst lowered operands =>
      rw [List.all_append, straight_ordinaries]
      rfl
  | STOREi64 memVT covered selected base => rfl
  | XADD memVT covered selected base => rfl
  | ADJCALLSTACKDOWN amt => rfl
  | JAL selected => rfl
  | ADJCALLSTACKUP amt1 amt2 => rfl

theorem SelectsStatements.straight {statements : List DagStatement}
    {code : List (MachineInstr SelectedTree)}
    (selects : SelectsStatements known bound statements code) :
    code.all (!·.isTerminator) = true := by
  induction selects with
  | nil => rfl
  | cons statement rest induction => rw [List.all_append, statement.straight, induction]; rfl

private theorem exits_exitCode (exit : DagExit) (next : Option Nat) :
    exits exit.code next = exit.targets next := by
  cases exit with
  | fallThrough => rfl
  | BR Dest => rfl
  | RET_FLAG => rfl

private theorem terminatorsLast_exitCode (exit : DagExit) : terminatorsLast exit.code = true := by
  cases exit with
  | fallThrough => rfl
  | BR Dest => rfl
  | RET_FLAG => rfl

private theorem all_exitCode (exit : DagExit) :
    exit.code.all (fun inst => inst.isTerminator || inst.isDebugValue) = true := by
  cases exit with
  | fallThrough => rfl
  | BR Dest => rfl
  | RET_FLAG => rfl

private theorem SelectsBR_CC.exits_eq {branch : Option DagBranch}
    {code : List (MachineInstr SelectedTree)} (selects : SelectsBR_CC known bound branch code)
    (rest : List (MachineInstr SelectedTree)) (next : Option Nat) :
    exits (code ++ rest) next = (branch.map (·.Dest)).toList ++ exits rest next := by
  cases selects with
  | absent => rfl
  | JMP_RR lowered guarded operands =>
      rw [List.append_assoc, exits_ordinaries]
      rfl
  | JMP_RI lowered guarded fits operands =>
      rw [List.append_assoc, exits_ordinaries]
      rfl

theorem SelectsBR_CC.terminatorsLast {branch : Option DagBranch}
    {code : List (MachineInstr SelectedTree)} (selects : SelectsBR_CC known bound branch code)
    (exit : DagExit) : terminatorsLast (code ++ exit.code) = true := by
  cases selects with
  | absent => exact terminatorsLast_exitCode exit
  | JMP_RR lowered guarded operands =>
      rw [List.append_assoc, terminatorsLast_ordinaries]
      exact all_exitCode exit
  | JMP_RI lowered guarded fits operands =>
      rw [List.append_assoc, terminatorsLast_ordinaries]
      exact all_exitCode exit

theorem terminatorsLast_of_straight {before : List (MachineInstr SelectedTree)}
    (straight : before.all (!·.isTerminator) = true) (after : List (MachineInstr SelectedTree)) :
    terminatorsLast (before ++ after) = terminatorsLast after := by
  induction before with
  | nil => rfl
  | cons inst rest induction =>
      rw [List.all_cons, Bool.and_eq_true] at straight
      have notTerminator : inst.isTerminator = false := by simpa using straight.1
      rw [List.cons_append, terminatorsLast, notTerminator]
      exact induction straight.2

private theorem SelectsBlock.exits_eq {block : DagBlock} {selected : MachineBasicBlock SelectedTree}
    (selects : SelectsBlock known bound block selected) (next : Option Nat) :
    exits selected.insts next = block.exits next := by
  rcases selects with ⟨statements, branch⟩
  rw [SelectSite.exits_of_straight statements.straight, branch.exits_eq, exits_exitCode]
  rfl

theorem SelectsBlock.terminatorsLast {block : DagBlock}
    {selected : MachineBasicBlock SelectedTree}
    (selects : SelectsBlock known bound block selected) :
    terminatorsLast selected.insts = true := by
  rcases selects with ⟨statements, branch⟩
  rw [terminatorsLast_of_straight statements.straight]
  exact branch.terminatorsLast block.exit

private theorem SelectsBlock.number_eq {block : DagBlock}
    {selected : MachineBasicBlock SelectedTree}
    (selects : SelectsBlock known bound block selected) : selected.number = block.number := by
  cases selects
  rfl

theorem SelectsStatement.lowered {statement : DagStatement}
    {code : List (MachineInstr SelectedTree)}
    (selects : SelectsStatement known bound statement code) {dst lhs rhs src src2 : Nat}
    {imm : CondCode} (member : .Select dst lhs rhs imm src src2 ∈ code) : imm.HasBranch := by
  cases selects with
  | @Select _ LHS RHS TrueV FalseV _ _ _ _ CC _ _ _ _ _ insts lowered operands =>
      rcases List.mem_append.mp member with operand | select
      · rcases List.mem_map.mp operand with ⟨inst, -, differs⟩
        cases differs
      · rw [List.mem_singleton] at select
        cases select
        cases lowered
        exact hasBranch_NegateCC CC LHS RHS
  | CopyToReg dst covered => simp at member
  | STOREi64 memVT covered selected base => simp at member
  | XADD memVT covered selected base => simp at member
  | ADJCALLSTACKDOWN amt => simp at member
  | JAL selected => simp at member
  | ADJCALLSTACKUP amt1 amt2 => simp at member

theorem SelectsStatements.lowered {statements : List DagStatement}
    {code : List (MachineInstr SelectedTree)}
    (selects : SelectsStatements known bound statements code) {dst lhs rhs src src2 : Nat}
    {imm : CondCode} (member : .Select dst lhs rhs imm src src2 ∈ code) : imm.HasBranch := by
  induction selects with
  | nil => cases member
  | cons statement rest induction =>
      rcases List.mem_append.mp member with inHead | inRest
      · exact statement.lowered inHead
      · exact induction inRest

private theorem SelectsBR_CC.no_select {branch : Option DagBranch}
    {code : List (MachineInstr SelectedTree)} (selects : SelectsBR_CC known bound branch code)
    {dst lhs rhs src src2 : Nat} {imm : CondCode} :
    .Select dst lhs rhs imm src src2 ∉ code := by
  cases selects with
  | absent => exact List.not_mem_nil
  | JMP_RR lowered guarded operands => simp
  | JMP_RI lowered guarded fits operands => simp

theorem SelectsBlock.lowered {block : DagBlock} {selected : MachineBasicBlock SelectedTree}
    (selects : SelectsBlock known bound block selected) {dst lhs rhs src src2 : Nat}
    {imm : CondCode} (member : .Select dst lhs rhs imm src src2 ∈ selected.insts) :
    imm.HasBranch := by
  rcases selects with ⟨statements, branch⟩
  rcases List.mem_append.mp member with inStatements | later
  · exact statements.lowered inStatements
  · rcases List.mem_append.mp later with inBranch | inExit
    · exact absurd inBranch branch.no_select
    · generalize block.exit = exit at inExit
      cases exit with
      | fallThrough => cases inExit
      | BR Dest => simp [DagExit.code] at inExit
      | RET_FLAG => simp [DagExit.code] at inExit

/-! ### Blocks of the selected function -/

theorem exists_of_mem_selected {blocks : List DagBlock}
    {selected : List (MachineBasicBlock SelectedTree)}
    (selects : List.Forall₂ (SelectsBlock known bound) blocks selected)
    {block : MachineBasicBlock SelectedTree} (member : block ∈ selected) :
    ∃ source ∈ blocks, SelectsBlock known bound source block := by
  induction selects with
  | nil => cases member
  | cons head rest induction =>
      rcases List.mem_cons.mp member with rfl | inRest
      · exact ⟨_, List.mem_cons_self, head⟩
      · rcases induction inRest with ⟨source, sourceMember, covered⟩
        exact ⟨source, List.mem_cons_of_mem _ sourceMember, covered⟩

private theorem numbers_selected {blocks : List DagBlock}
    {selected : List (MachineBasicBlock SelectedTree)}
    (selects : List.Forall₂ (SelectsBlock known bound) blocks selected) :
    selected.map (·.number) = blocks.map (·.number) := by
  induction selects with
  | nil => rfl
  | cons head rest induction => rw [List.map_cons, List.map_cons, head.number_eq, induction]

theorem layoutNext_selected {blocks : List DagBlock}
    {selected : List (MachineBasicBlock SelectedTree)}
    (selects : List.Forall₂ (SelectsBlock known bound) blocks selected) (number : Nat) :
    layoutNext selected number = layoutNext blocks number :=
  layoutNext_congr (numbers_selected selects) number

theorem findBlock_selected {blocks : List DagBlock}
    {selected : List (MachineBasicBlock SelectedTree)}
    (selects : List.Forall₂ (SelectsBlock known bound) blocks selected) (number : Nat) :
    Option.Rel (SelectsBlock known bound) (findBlock blocks number)
      (findBlock selected number) := by
  induction selects with
  | nil => exact .none
  | @cons block selectedBlock rest selectedRest head others induction =>
      have numbers : BasicBlock.number selectedBlock = BasicBlock.number block := head.number_eq
      rw [findBlock, findBlock, List.find?_cons, List.find?_cons, numbers]
      split
      · exact .some head
      · exact induction

theorem SelectsFunction.wellFormed {dag : DagFunction} {function : MachineFunction SelectedTree}
    (selects : SelectsFunction known dag function) (wellFormed : dag.WellFormed) :
    function.WellFormed := by
  have source : ∀ block ∈ function.blocks, ∃ original ∈ dag.blocks,
      SelectsBlock known dag.nextRegister original block :=
    fun block member => exists_of_mem_selected selects.blocks member
  constructor
  · rw [numbers_selected selects.blocks]
    exact wellFormed.distinct
  · intro block member
    rcases source block member with ⟨original, originalMember, covered⟩
    rw [covered.number_eq, selects.nextNumber]
    exact wellFormed.numbered original originalMember
  · intro block member
    rcases source block member with ⟨original, originalMember, ⟨statements, branch⟩⟩
    rw [selects.nextNumber]
    exact wellFormed.successors original originalMember
  · intro block member
    rcases source block member with ⟨original, originalMember, ⟨statements, branch⟩⟩
    rw [selects.nextNumber]
    exact wellFormed.incoming original originalMember
  · intro block member
    rcases source block member with ⟨original, originalMember, covered⟩
    exact selectsFirst_of_terminatorsLast covered.terminatorsLast
  · intro block member
    rcases source block member with ⟨original, originalMember, covered⟩
    rw [covered.exits_eq, covered.number_eq, layoutNext_selected selects.blocks]
    have listed := wellFormed.exitsListed original originalMember
    cases covered
    exact listed
  · intro block member
    rcases source block member with ⟨original, originalMember, covered⟩
    rw [covered.exits_eq, covered.number_eq, layoutNext_selected selects.blocks]
    have listed := wellFormed.listedExits original originalMember
    cases covered
    exact listed

theorem SelectsFunction.selectsLowered {dag : DagFunction}
    {function : MachineFunction SelectedTree} (selects : SelectsFunction known dag function) :
    SelectsLowered function := by
  intro block member dst lhs rhs imm src src2 select
  rcases exists_of_mem_selected selects.blocks member with ⟨original, -, covered⟩
  exact covered.lowered select

end Structure

/-! ## Every function has a selection -/

def DagStatement.isCoverable : DagStatement → Bool
  | CopyToReg _ node => node.isCoverable
  | SELECT_CC _ LHS RHS TrueV FalseV _ =>
      LHS.isCoverable && RHS.isCoverable && TrueV.isCoverable && FalseV.isCoverable
  | store _ stored addr => stored.isCoverable && addr.isCoverable
  | atomicLoadAdd _ addr val => addr.isCoverable && val.isCoverable
  | CALLSEQ_START _ | CALLSEQ_END _ _ => true
  | CALL callee => (selectCall callee).isSome

def DagBranch.isCoverable (branch : DagBranch) : Bool :=
  branch.LHS.isCoverable && branch.RHS.isCoverable

def DagBlock.isCoverable (block : DagBlock) : Bool :=
  block.statements.all DagStatement.isCoverable && block.branch.all DagBranch.isCoverable

theorem forall_negated {LHS RHS left right : SDValue} {CC imm : CondCode}
    (negated : NegateCC LHS RHS CC = (left, right, imm)) {holds : SDValue → Prop}
    (leftHolds : holds LHS) (rightHolds : holds RHS) : holds left ∧ holds right := by
  cases CC <;> cases negated <;> first
    | exact ⟨leftHolds, rightHolds⟩
    | exact ⟨rightHolds, leftHolds⟩

section Existence

variable (known : KnownBits) (bound : Nat)

theorem exists_selectsAddress {addr : SDValue} (coverable : addr.isCoverable = true) :
    ∃ base offset rBase, selectAddr known addr = some (base, offset) ∧
      Selects known base rBase := by
  rcases (exists_selects known (.load .ZEXTLOAD .i8 addr) coverable).1 with ⟨tree, covered⟩
  cases covered with
  | LOADi64 opcode selected base => exact ⟨_, _, _, selected, base⟩

theorem exists_selectsOperands {first : Nat} (fresh : bound ≤ first) {nodes : List SDValue}
    (coverable : ∀ node ∈ nodes, node.isCoverable = true) :
    ∃ registers insts, SelectsOperands known bound nodes registers insts ∧
      registers.length = nodes.length ∧ ∀ register ∈ registers, first ≤ register := by
  induction nodes generalizing first with
  | nil => exact ⟨[], [], .nil, rfl, fun _ member => absurd member List.not_mem_nil⟩
  | cons node rest induction =>
      rcases (exists_selects known node (coverable node List.mem_cons_self)).1 with
        ⟨tree, covered⟩
      rcases induction (Nat.le_succ_of_le fresh)
        (fun other member => coverable other (List.mem_cons_of_mem node member)) with
        ⟨registers, insts, selects, sameLength, above⟩
      have unused : first ∉ registers := fun member =>
        absurd (above first member) (Nat.not_succ_le_self first)
      refine ⟨first :: registers, _, .computed fresh unused covered selects,
        congrArg Nat.succ sameLength, ?_⟩
      intro register member
      rcases List.mem_cons.mp member with rfl | later
      · exact Nat.le_refl register
      · exact Nat.le_of_succ_le (above register later)

private theorem exists_selectsStatement {statement : DagStatement}
    (coverable : statement.isCoverable = true) :
    ∃ code, SelectsStatement known bound statement code := by
  cases statement with
  | CopyToReg dst node =>
      rcases (exists_selects known node coverable).1 with ⟨tree, covered⟩
      exact ⟨_, .CopyToReg dst covered⟩
  | SELECT_CC dst LHS RHS TrueV FalseV CC =>
      simp only [DagStatement.isCoverable, Bool.and_eq_true] at coverable
      rcases coverable with ⟨⟨⟨leftCoverable, rightCoverable⟩, trueCoverable⟩, falseCoverable⟩
      have compareCoverable := @forall_negated LHS RHS _ _ CC _ rfl
        (fun node => node.isCoverable = true) leftCoverable rightCoverable
      rcases exists_selectsOperands known bound (Nat.le_refl bound)
        (List.forall_mem_cons.mpr ⟨compareCoverable.1, List.forall_mem_cons.mpr
          ⟨compareCoverable.2, List.forall_mem_cons.mpr
            ⟨trueCoverable, List.forall_mem_singleton.mpr falseCoverable⟩⟩⟩) with
        ⟨registers, insts, operands, sameLength, -⟩
      match registers, sameLength with
      | [lhs, rhs, src, src2], _ => exact ⟨_, .Select dst rfl operands⟩
  | store memVT stored addr =>
      rw [DagStatement.isCoverable, Bool.and_eq_true] at coverable
      rcases (exists_selects known stored coverable.1).1 with ⟨rX, covered⟩
      rcases exists_selectsAddress known coverable.2 with
        ⟨base, offset, rBase, selected, baseCovered⟩
      exact ⟨_, .STOREi64 memVT covered selected baseCovered⟩
  | atomicLoadAdd memVT addr val =>
      rw [DagStatement.isCoverable, Bool.and_eq_true] at coverable
      rcases (exists_selects known val coverable.2).1 with ⟨rX, covered⟩
      rcases exists_selectsAddress known coverable.1 with
        ⟨base, offset, rBase, selected, baseCovered⟩
      exact ⟨_, .XADD memVT covered selected baseCovered⟩
  | CALLSEQ_START amt => exact ⟨_, .ADJCALLSTACKDOWN amt⟩
  | CALL callee =>
      rcases Option.isSome_iff_exists.mp coverable with ⟨inst, selected⟩
      exact ⟨_, .JAL selected⟩
  | CALLSEQ_END amt1 amt2 => exact ⟨_, .ADJCALLSTACKUP amt1 amt2⟩

private theorem exists_selectsStatements {statements : List DagStatement}
    (coverable : statements.all DagStatement.isCoverable = true) :
    ∃ code, SelectsStatements known bound statements code := by
  induction statements with
  | nil => exact ⟨[], .nil⟩
  | cons statement rest induction =>
      rw [List.all_cons, Bool.and_eq_true] at coverable
      rcases exists_selectsStatement known bound coverable.1 with ⟨code, head⟩
      rcases induction coverable.2 with ⟨restCode, tail⟩
      exact ⟨_, .cons head tail⟩

theorem exists_selectsBR_CC {branch : Option DagBranch}
    (coverable : branch.all DagBranch.isCoverable = true) :
    ∃ code, SelectsBR_CC known bound branch code := by
  cases branch with
  | none => exact ⟨[], .absent⟩
  | some branch =>
      have both : branch.LHS.isCoverable = true ∧ branch.RHS.isCoverable = true := by
        simpa [DagBranch.isCoverable] using coverable
      rcases hasBranch_NegateCC branch.CC branch.LHS branch.RHS with ⟨op, jump⟩
      have compareCoverable := @forall_negated branch.LHS branch.RHS _ _ branch.CC _ rfl
        (fun node => node.isCoverable = true) both.1 both.2
      rcases exists_selectsOperands known bound (Nat.le_refl bound)
        (List.forall_mem_cons.mpr
          ⟨compareCoverable.1, List.forall_mem_singleton.mpr compareCoverable.2⟩) with
        ⟨registers, insts, operands, sameLength, -⟩
      match registers, sameLength with
      | [rA, rX], _ =>
          exact ⟨_, .JMP_RR rfl ((cond_iff_selectBranch op _).mpr jump) operands⟩

private theorem exists_selectsBlocks {blocks : List DagBlock}
    (coverable : blocks.all DagBlock.isCoverable = true) :
    ∃ selected, List.Forall₂ (SelectsBlock known bound) blocks selected := by
  induction blocks with
  | nil => exact ⟨[], .nil⟩
  | cons block rest induction =>
      rw [List.all_cons, Bool.and_eq_true, DagBlock.isCoverable, Bool.and_eq_true] at coverable
      rcases exists_selectsStatements known bound coverable.1.1 with ⟨code, statements⟩
      rcases exists_selectsBR_CC known bound coverable.1.2 with ⟨branchCode, branch⟩
      rcases induction coverable.2 with ⟨selected, others⟩
      exact ⟨_, .cons (.covered statements branch) others⟩

theorem exists_selectsFunction {dag : DagFunction}
    (coverable : dag.blocks.all DagBlock.isCoverable = true) :
    ∃ function, SelectsFunction known dag function := by
  rcases exists_selectsBlocks known dag.nextRegister coverable with ⟨blocks, selects⟩
  exact ⟨⟨blocks, dag.nextNumber⟩, selects, rfl⟩

end Existence

end BpfBackend.CodeGen
