import BpfBackend.CodeGen.SelectLowering

/-! # Expansion of selects

`EmitInstrWithCustomInserter` cuts the block of a `Select` in two, puts an
empty block between the halves, and lets a jump and a PHI choose the value.
-/

namespace BpfBackend.CodeGen

open MC Simulation

variable {Inst : Type} {World : Type}

/-! ## The custom inserter -/

/-- A `Select` in its block, the jump for its condition and the numbers of the
two new blocks. -/
structure SelectSite (Inst : Type) where
  thisMBB : MachineBasicBlock Inst
  before : List (MachineInstr Inst)
  after : List (MachineInstr Inst)
  dst : Nat
  lhs : Nat
  rhs : Nat
  src : Nat
  src2 : Nat
  op : JccOp
  copy0MBB : Nat
  copy1MBB : Nat

def MachinePhi.setMBB (phi : MachinePhi) (fromMBB toMBB : Nat) : MachinePhi :=
  { phi with
    incoming := phi.incoming.map fun (register, block) =>
      (register, if block = fromMBB then toMBB else block) }

namespace SelectSite

/-- A block after `copy1MBB->transferSuccessorsAndUpdatePHIs(BB)`. -/
def updatePHIs (site : SelectSite Inst) (block : MachineBasicBlock Inst) :
    MachineBasicBlock Inst :=
  if block.number ∈ site.thisMBB.successors then
    { block with phis := block.phis.map (·.setMBB site.thisMBB.number site.copy1MBB) }
  else block

def thisBlock (site : SelectSite Inst) : MachineBasicBlock Inst :=
  { site.updatePHIs site.thisMBB with
    insts := site.before ++ [.J_rr site.op site.lhs site.rhs site.copy1MBB]
    successors := [site.copy0MBB, site.copy1MBB] }

def copy0Block (site : SelectSite Inst) : MachineBasicBlock Inst :=
  ⟨site.copy0MBB, [], [], [site.copy1MBB]⟩

def copy1Block (site : SelectSite Inst) : MachineBasicBlock Inst :=
  ⟨site.copy1MBB,
    [⟨site.dst, [(site.src2, site.copy0MBB), (site.src, site.thisMBB.number)]⟩],
    site.after, site.thisMBB.successors⟩

/-- The new blocks follow `BB` in the layout. -/
def expandBlock (site : SelectSite Inst) (block : MachineBasicBlock Inst) :
    List (MachineBasicBlock Inst) :=
  if block.number = site.thisMBB.number then
    [site.thisBlock, site.copy0Block, site.copy1Block]
  else [site.updatePHIs block]

def expand (site : SelectSite Inst) (function : MachineFunction Inst) :
    MachineFunction Inst :=
  ⟨function.blocks.flatMap site.expandBlock, function.nextNumber + 2⟩

end SelectSite

/-- `MI` is the instruction at a position of the block `BB`. -/
def EmitInstrWithCustomInserter (function : MachineFunction Inst) (BB MI : Nat) :
    Compile (MachineFunction Inst) :=
  match function.block? BB with
  | none => .error (.assertion "MI is in a block of the function")
  | some thisMBB =>
      match thisMBB.insts[MI]? with
      | some (.Select dst lhs rhs imm src src2) => do
          let op ← selectBranch imm
          let site : SelectSite Inst :=
            { thisMBB, dst, lhs, rhs, src, src2, op
              before := thisMBB.insts.take MI
              after := thisMBB.insts.drop (MI + 1)
              copy0MBB := function.nextNumber
              copy1MBB := function.nextNumber + 1 }
          pure (site.expand function)
      | _ => .error (.assertion "Unexpected instr type to insert")

structure SelectSite.IsSite (site : SelectSite Inst) (function : MachineFunction Inst) :
    Prop where
  member : site.thisMBB ∈ function.blocks
  found : function.block? site.thisMBB.number = some site.thisMBB
  insts : ∃ imm, site.thisMBB.insts = site.before ++
      .Select site.dst site.lhs site.rhs imm site.src site.src2 :: site.after ∧
    selectBranch imm = .ok site.op
  copy0 : site.copy0MBB = function.nextNumber
  copy1 : site.copy1MBB = function.nextNumber + 1

/-- What the inserter does, once for all later proofs. -/
theorem EmitInstrWithCustomInserter_cases {function expanded : MachineFunction Inst}
    {BB MI : Nat} (emitted : EmitInstrWithCustomInserter function BB MI = .ok expanded) :
    ∃ site : SelectSite Inst, site.IsSite function ∧ expanded = site.expand function := by
  unfold EmitInstrWithCustomInserter at emitted
  split at emitted
  · cases emitted
  · rename_i thisMBB found
    split at emitted
    · rename_i dst lhs rhs imm src src2 atPosition
      cases branch : selectBranch imm with
      | error stop =>
          rw [branch] at emitted
          cases emitted
      | ok op =>
          rw [branch] at emitted
          cases emitted
          refine ⟨_, ?_, rfl⟩
          have sameNumber := number_of_block? found
          refine ⟨mem_of_block? found, ?_, ⟨imm, ?_, branch⟩, rfl, rfl⟩
          · rw [sameNumber]
            exact found
          · rcases List.getElem?_eq_some_iff.mp atPosition with ⟨inRange, atIndex⟩
            dsimp only
            rw [← atIndex, List.getElem_cons_drop, List.take_append_drop]
    · cases emitted

/-! ## Blocks of the expanded function -/

namespace SelectSite

variable {site : SelectSite Inst} {function : MachineFunction Inst}

@[simp] theorem number_updatePHIs (block : MachineBasicBlock Inst) :
    (site.updatePHIs block).number = block.number := by
  unfold updatePHIs
  split <;> rfl

@[simp] theorem insts_updatePHIs (block : MachineBasicBlock Inst) :
    (site.updatePHIs block).insts = block.insts := by
  unfold updatePHIs
  split <;> rfl

@[simp] theorem successors_updatePHIs (block : MachineBasicBlock Inst) :
    (site.updatePHIs block).successors = block.successors := by
  unfold updatePHIs
  split <;> rfl

@[simp] theorem number_thisBlock : site.thisBlock.number = site.thisMBB.number :=
  number_updatePHIs _

def image (site : SelectSite Inst) (block : MachineBasicBlock Inst) :
    MachineBasicBlock Inst :=
  if block.number = site.thisMBB.number then site.thisBlock else site.updatePHIs block

@[simp] theorem number_image (block : MachineBasicBlock Inst) :
    (site.image block).number = block.number := by
  unfold image
  split
  · rename_i same
    exact number_thisBlock.trans same.symm
  · exact number_updatePHIs _

theorem expandBlock_eq (block : MachineBasicBlock Inst) :
    site.expandBlock block = site.image block ::
      if block.number = site.thisMBB.number then [site.copy0Block, site.copy1Block]
      else [] := by
  unfold expandBlock image
  split <;> rfl

theorem IsSite.this_lt (isSite : site.IsSite function) (wellFormed : function.WellFormed) :
    site.thisMBB.number < function.nextNumber :=
  wellFormed.numbered _ isSite.member

private theorem find?_expandBlock {number : Nat} (notCopy0 : number ≠ site.copy0MBB)
    (notCopy1 : number ≠ site.copy1MBB) (blocks : List (MachineBasicBlock Inst)) :
    (blocks.flatMap site.expandBlock).find? (·.number = number) =
      (blocks.find? (·.number = number)).map site.image := by
  induction blocks with
  | nil => rfl
  | cons block rest induction =>
      rw [List.flatMap_cons, expandBlock_eq, List.cons_append, List.find?_cons,
        List.find?_cons, number_image]
      by_cases same : block.number = number
      · simp [same]
      · simp only [same, decide_false]
        rw [List.find?_append, induction]
        split
        · simp [copy0Block, copy1Block, Ne.symm notCopy0, Ne.symm notCopy1]
        · rfl

theorem IsSite.block?_expand (isSite : site.IsSite function) {number : Nat}
    (old : number < function.nextNumber) :
    (site.expand function).block? number = (function.block? number).map site.image := by
  have copy0 := isSite.copy0
  have copy1 := isSite.copy1
  exact find?_expandBlock (by omega) (by omega) function.blocks

private theorem find?_expandBlock_copy {copy : MachineBasicBlock Inst}
    {blocks : List (MachineBasicBlock Inst)}
    (fresh : ∀ block ∈ blocks, block.number ≠ copy.number)
    (occurs : ∃ block ∈ blocks, block.number = site.thisMBB.number)
    (isCopy : [site.copy0Block, site.copy1Block].find? (·.number = copy.number) = some copy) :
    (blocks.flatMap site.expandBlock).find? (·.number = copy.number) = some copy := by
  induction blocks with
  | nil => simp at occurs
  | cons block rest induction =>
      have notFirst : block.number ≠ copy.number := fresh block List.mem_cons_self
      rw [List.flatMap_cons, expandBlock_eq, List.cons_append, List.find?_cons, number_image]
      simp only [notFirst, decide_false]
      rw [List.find?_append]
      split
      · rw [isCopy]
        rfl
      · rename_i different
        rw [List.find?_nil, Option.none_or]
        apply induction fun other member => fresh other (List.mem_cons_of_mem _ member)
        rcases occurs with ⟨found, member, same⟩
        rcases List.mem_cons.mp member with rfl | member
        · exact absurd same different
        · exact ⟨found, member, same⟩

section Copies

variable (isSite : site.IsSite function) (wellFormed : function.WellFormed)

include isSite wellFormed

theorem IsSite.block?_copy0 :
    (site.expand function).block? site.copy0MBB = some site.copy0Block := by
  have copy0 := isSite.copy0
  refine @find?_expandBlock_copy Inst site site.copy0Block function.blocks ?_ ?_ ?_
  · intro block member
    have old := wellFormed.numbered block member
    simp only [copy0Block]
    omega
  · exact ⟨_, isSite.member, rfl⟩
  · simp [copy0Block]

theorem IsSite.block?_copy1 :
    (site.expand function).block? site.copy1MBB = some site.copy1Block := by
  have copy0 := isSite.copy0
  have copy1 := isSite.copy1
  have different : site.copy0MBB ≠ site.copy1MBB := by omega
  refine @find?_expandBlock_copy Inst site site.copy1Block function.blocks ?_ ?_ ?_
  · intro block member
    have old := wellFormed.numbered block member
    simp only [copy1Block]
    omega
  · exact ⟨_, isSite.member, rfl⟩
  · simp [copy0Block, copy1Block, different]

end Copies

/-! ## Layout of the expanded function -/

private theorem head?_expandBlock (blocks : List (MachineBasicBlock Inst)) :
    (blocks.flatMap site.expandBlock).head?.map (·.number) =
      blocks.head?.map (·.number) := by
  cases blocks with
  | nil => rfl
  | cons block rest =>
      rw [List.flatMap_cons, expandBlock_eq]
      simp

private theorem layoutNext_cons_of_ne {block : MachineBasicBlock Inst} {number : Nat}
    (different : block.number ≠ number) (rest : List (MachineBasicBlock Inst)) :
    layoutNext (block :: rest) number = layoutNext rest number := by
  rw [layoutNext_cons, if_neg different]

private theorem layoutNext_cons_self (block : MachineBasicBlock Inst)
    (rest : List (MachineBasicBlock Inst)) :
    layoutNext (block :: rest) block.number = rest.head?.map (·.number) := by
  rw [layoutNext_cons, if_pos rfl]

private theorem layoutNext_expandBlock {number : Nat} (notThis : number ≠ site.thisMBB.number)
    (notCopy0 : number ≠ site.copy0MBB) (notCopy1 : number ≠ site.copy1MBB)
    (blocks : List (MachineBasicBlock Inst)) :
    layoutNext (blocks.flatMap site.expandBlock) number = layoutNext blocks number := by
  induction blocks with
  | nil => rfl
  | cons block rest induction =>
      rw [List.flatMap_cons, expandBlock_eq, List.cons_append]
      by_cases same : block.number = number
      · have different : block.number ≠ site.thisMBB.number := by rwa [same]
        subst same
        rw [if_neg different, List.nil_append, layoutNext_cons_self,
          ← @number_image Inst site block, layoutNext_cons_self, head?_expandBlock]
      · rw [layoutNext_cons_of_ne same, layoutNext_cons_of_ne (by rwa [number_image])]
        split
        · rw [List.cons_append, List.cons_append, List.nil_append,
            layoutNext_cons_of_ne (Ne.symm notCopy0), layoutNext_cons_of_ne (Ne.symm notCopy1)]
          exact induction
        · exact induction

theorem layoutNext_expandBlock_site {blocks : List (MachineBasicBlock Inst)}
    (fresh : ∀ block ∈ blocks, block.number ≠ site.copy0MBB ∧ block.number ≠ site.copy1MBB)
    (occurs : ∃ block ∈ blocks, block.number = site.thisMBB.number)
    (different : site.copy0MBB ≠ site.copy1MBB) :
    layoutNext (blocks.flatMap site.expandBlock) site.thisMBB.number = some site.copy0MBB ∧
      layoutNext (blocks.flatMap site.expandBlock) site.copy0MBB = some site.copy1MBB ∧
      layoutNext (blocks.flatMap site.expandBlock) site.copy1MBB =
        layoutNext blocks site.thisMBB.number := by
  induction blocks with
  | nil => simp at occurs
  | cons block rest induction =>
      rcases fresh block List.mem_cons_self with ⟨notCopy0, notCopy1⟩
      rw [List.flatMap_cons, expandBlock_eq, List.cons_append]
      by_cases same : block.number = site.thisMBB.number
      · rw [if_pos same]
        refine ⟨?_, ?_, ?_⟩
        · simp [layoutNext_cons, same, copy0Block]
        · simp [layoutNext_cons, notCopy0, copy0Block, copy1Block]
        · rw [layoutNext_cons_of_ne (by rwa [number_image]), List.cons_append,
            layoutNext_cons_of_ne different, List.cons_append, List.nil_append]
          have lastCopy : layoutNext (site.copy1Block :: rest.flatMap site.expandBlock)
              site.copy1Block.number = (rest.flatMap site.expandBlock).head?.map (·.number) :=
            layoutNext_cons_self _ _
          rw [← same, layoutNext_cons_self, ← @head?_expandBlock Inst site]
          exact lastCopy
      · have later : ∃ other ∈ rest, other.number = site.thisMBB.number := by
          rcases occurs with ⟨found, member, isThis⟩
          rcases List.mem_cons.mp member with rfl | member
          · exact absurd isThis same
          · exact ⟨found, member, isThis⟩
        have restLayout := induction
          (fun other member => fresh other (List.mem_cons_of_mem _ member)) later
        rw [if_neg same, List.nil_append, layoutNext_cons_of_ne same,
          layoutNext_cons_of_ne (by rwa [number_image]),
          layoutNext_cons_of_ne (by rwa [number_image]),
          layoutNext_cons_of_ne (by rwa [number_image])]
        exact restLayout

section Layout

variable (isSite : site.IsSite function) (wellFormed : function.WellFormed)

include isSite

theorem IsSite.layoutNext_expand {number : Nat} (old : number < function.nextNumber)
    (notThis : number ≠ site.thisMBB.number) :
    layoutNext (site.expand function).blocks number = layoutNext function.blocks number := by
  have copy0 := isSite.copy0
  have copy1 := isSite.copy1
  exact layoutNext_expandBlock notThis (by omega) (by omega) function.blocks

include wellFormed

theorem IsSite.layoutNext_site :
    layoutNext (site.expand function).blocks site.thisMBB.number = some site.copy0MBB ∧
      layoutNext (site.expand function).blocks site.copy0MBB = some site.copy1MBB ∧
      layoutNext (site.expand function).blocks site.copy1MBB =
        layoutNext function.blocks site.thisMBB.number := by
  have copy0 := isSite.copy0
  have copy1 := isSite.copy1
  apply layoutNext_expandBlock_site
  · intro block member
    have old := wellFormed.numbered block member
    omega
  · exact ⟨_, isSite.member, rfl⟩
  · omega

end Layout

/-! ## Exits of the two halves -/

private theorem selectsFirst_append {before after : List (MachineInstr Inst)}
    {dst lhs rhs src src2 : Nat} {imm : CondCode}
    (first : selectsFirst (before ++ .Select dst lhs rhs imm src src2 :: after) = true) :
    before.all (!·.isTerminator) = true ∧ selectsFirst after = true := by
  induction before with
  | nil => exact ⟨rfl, first⟩
  | cons inst rest induction =>
      rw [List.cons_append, selectsFirst] at first
      split at first
      · simp [MachineInstr.isSelect] at first
      · rename_i straight
        rcases induction first with ⟨restStraight, afterFirst⟩
        refine ⟨?_, afterFirst⟩
        simpa [straight] using restStraight

private theorem selectsFirst_of_straight {before : List (MachineInstr Inst)}
    (straight : before.all (!·.isTerminator) = true) (op : JccOp) (rA rX dst : Nat) :
    selectsFirst (before ++ [.J_rr op rA rX dst]) = true := by
  induction before with
  | nil => rfl
  | cons inst rest induction =>
      rw [List.all_cons, Bool.and_eq_true] at straight
      have notTerminator : inst.isTerminator = false := by simpa using straight.1
      rw [List.cons_append, selectsFirst, notTerminator]
      exact induction straight.2

theorem exits_of_straight {before : List (MachineInstr Inst)}
    (straight : before.all (!·.isTerminator) = true) (after : List (MachineInstr Inst))
    (next : Option Nat) : exits (before ++ after) next = exits after next := by
  induction before with
  | nil => rfl
  | cons inst rest induction =>
      rw [List.all_cons, Bool.and_eq_true] at straight
      have same := induction straight.2
      cases inst <;> first
        | exact same
        | exact absurd straight.1 (by simp [MachineInstr.isTerminator])

section Halves

variable (isSite : site.IsSite function) (wellFormed : function.WellFormed)

include isSite wellFormed

theorem IsSite.straight : site.before.all (!·.isTerminator) = true := by
  rcases isSite.insts with ⟨imm, insts, -⟩
  have first := wellFormed.selectsFirst _ isSite.member
  rw [insts] at first
  exact (selectsFirst_append first).1

private theorem IsSite.selectsFirst_after : selectsFirst site.after = true := by
  rcases isSite.insts with ⟨imm, insts, -⟩
  have first := wellFormed.selectsFirst _ isSite.member
  rw [insts] at first
  exact (selectsFirst_append first).2

theorem IsSite.exits_thisMBB (next : Option Nat) :
    exits site.thisMBB.insts next = exits site.after next := by
  rcases isSite.insts with ⟨imm, insts, -⟩
  rw [insts, exits_of_straight (isSite.straight wellFormed)]
  rfl

end Halves

/-! ## The expanded function is well formed -/

private theorem mem_setMBB {phi : MachinePhi} {fromMBB toMBB : Nat} {entry : Nat × Nat}
    (member : entry ∈ (phi.setMBB fromMBB toMBB).incoming) :
    entry.2 = toMBB ∨ ∃ original ∈ phi.incoming, original.2 = entry.2 := by
  rcases List.mem_map.mp member with ⟨original, originalMember, rfl⟩
  by_cases moved : original.2 = fromMBB
  · exact .inl (if_pos moved)
  · exact .inr ⟨original, originalMember, (if_neg moved).symm⟩

private theorem mem_updatePHIs {block : MachineBasicBlock Inst} {phi : MachinePhi}
    {entry : Nat × Nat} (phiMember : phi ∈ (site.updatePHIs block).phis)
    (member : entry ∈ phi.incoming) :
    entry.2 = site.copy1MBB ∨
      ∃ original ∈ block.phis, ∃ source ∈ original.incoming, source.2 = entry.2 := by
  unfold updatePHIs at phiMember
  split at phiMember
  · rcases List.mem_map.mp phiMember with ⟨original, originalMember, rfl⟩
    rcases mem_setMBB member with moved | ⟨source, sourceMember, same⟩
    · exact .inl moved
    · exact .inr ⟨original, originalMember, source, sourceMember, same⟩
  · exact .inr ⟨phi, phiMember, entry, member, rfl⟩

theorem mem_expand {block : MachineBasicBlock Inst}
    (member : block ∈ (site.expand function).blocks) :
    block = site.thisBlock ∨ block = site.copy0Block ∨ block = site.copy1Block ∨
      ∃ original ∈ function.blocks, original.number ≠ site.thisMBB.number ∧
        block = site.updatePHIs original := by
  rcases List.mem_flatMap.mp member with ⟨original, originalMember, blockMember⟩
  unfold expandBlock at blockMember
  split at blockMember
  · simp only [List.mem_cons, List.not_mem_nil, or_false] at blockMember
    rcases blockMember with rfl | rfl | rfl
    · exact .inl rfl
    · exact .inr (.inl rfl)
    · exact .inr (.inr (.inl rfl))
  · rename_i different
    rw [List.mem_singleton.mp blockMember]
    exact .inr (.inr (.inr ⟨original, originalMember, different, rfl⟩))

private theorem numbers_expandBlock (block : MachineBasicBlock Inst) :
    (site.expandBlock block).map (·.number) =
      if block.number = site.thisMBB.number then
        [block.number, site.copy0MBB, site.copy1MBB]
      else [block.number] := by
  rw [expandBlock_eq, List.map_cons, number_image]
  split <;> rfl

section WellFormed

variable (isSite : site.IsSite function) (wellFormed : function.WellFormed)

include isSite wellFormed

private theorem IsSite.distinct_expand :
    ((site.expand function).blocks.map (·.number)).Nodup := by
  have copy0 := isSite.copy0
  have copy1 := isSite.copy1
  have distinct := wellFormed.distinct
  rw [expand, List.map_flatMap, List.nodup_flatMap]
  constructor
  · intro block member
    have old := wellFormed.numbered block member
    rw [numbers_expandBlock]
    split
    · simp only [List.nodup_cons, List.mem_cons, List.not_mem_nil, or_false, not_or,
        not_false_eq_true, List.nodup_nil, and_true]
      omega
    · exact List.nodup_singleton _
  · rw [List.Nodup, List.pairwise_map] at distinct
    refine (distinct.imp_of_mem ?_)
    intro first second firstMember secondMember different
    have firstOld := wellFormed.numbered first firstMember
    have secondOld := wellFormed.numbered second secondMember
    simp only [Function.onFun, numbers_expandBlock]
    intro number inFirst inSecond
    split at inFirst <;> split at inSecond <;>
      simp only [List.mem_cons, List.not_mem_nil, or_false] at inFirst inSecond <;> omega

private theorem IsSite.exits_thisBlock :
    exits site.thisBlock.insts (layoutNext (site.expand function).blocks
      site.thisBlock.number) = [site.copy1MBB, site.copy0MBB] := by
  rw [number_thisBlock, (isSite.layoutNext_site wellFormed).1]
  exact exits_of_straight (isSite.straight wellFormed) _ _

private theorem IsSite.exits_copy0Block :
    exits site.copy0Block.insts (layoutNext (site.expand function).blocks
      site.copy0Block.number) = [site.copy1MBB] :=
  congrArg Option.toList (isSite.layoutNext_site wellFormed).2.1

private theorem IsSite.exits_copy1Block :
    exits site.copy1Block.insts (layoutNext (site.expand function).blocks
        site.copy1Block.number) =
      exits site.thisMBB.insts (layoutNext function.blocks site.thisMBB.number) := by
  rw [isSite.exits_thisMBB wellFormed]
  exact congrArg (exits site.after) (isSite.layoutNext_site wellFormed).2.2

private theorem IsSite.exits_updatePHIs {block : MachineBasicBlock Inst}
    (member : block ∈ function.blocks) (different : block.number ≠ site.thisMBB.number) :
    exits (site.updatePHIs block).insts (layoutNext (site.expand function).blocks
        (site.updatePHIs block).number) =
      exits block.insts (layoutNext function.blocks block.number) := by
  rw [insts_updatePHIs, number_updatePHIs,
    isSite.layoutNext_expand (wellFormed.numbered block member) different]

theorem IsSite.edges_expand {block : MachineBasicBlock Inst}
    (member : block ∈ (site.expand function).blocks) :
    exits block.insts (layoutNext (site.expand function).blocks block.number) ⊆
        block.successors ∧
      block.successors ⊆
        exits block.insts (layoutNext (site.expand function).blocks block.number) := by
  rcases mem_expand member with rfl | rfl | rfl | ⟨original, originalMember, different, rfl⟩
  · rw [isSite.exits_thisBlock wellFormed]
    simp [thisBlock]
  · rw [isSite.exits_copy0Block wellFormed]
    simp [copy0Block]
  · rw [isSite.exits_copy1Block wellFormed]
    exact ⟨wellFormed.exitsListed _ isSite.member, wellFormed.listedExits _ isSite.member⟩
  · rw [isSite.exits_updatePHIs wellFormed originalMember different, successors_updatePHIs]
    exact ⟨wellFormed.exitsListed original originalMember,
      wellFormed.listedExits original originalMember⟩

private theorem IsSite.incoming_updatePHIs {original : MachineBasicBlock Inst}
    (originalMember : original ∈ function.blocks) :
    ∀ phi ∈ (site.updatePHIs original).phis, ∀ entry ∈ phi.incoming,
      entry.2 < (site.expand function).nextNumber := by
  have copy1 := isSite.copy1
  have next : (site.expand function).nextNumber = function.nextNumber + 2 := rfl
  intro phi phiMember entry entryMember
  rcases mem_updatePHIs phiMember entryMember with
    moved | ⟨source, sourceMember, incoming, incomingMember, same⟩
  · omega
  · have old := wellFormed.incoming original originalMember source sourceMember
      incoming incomingMember
    omega

private theorem IsSite.incoming_copy1Block :
    ∀ phi ∈ site.copy1Block.phis, ∀ entry ∈ phi.incoming,
      entry.2 < (site.expand function).nextNumber := by
  have copy0 := isSite.copy0
  have thisOld := isSite.this_lt wellFormed
  have next : (site.expand function).nextNumber = function.nextNumber + 2 := rfl
  intro phi phiMember entry entryMember
  simp only [copy1Block, List.mem_singleton] at phiMember
  subst phiMember
  simp only [List.mem_cons, List.not_mem_nil, or_false] at entryMember
  rcases entryMember with rfl | rfl
  · dsimp only
    omega
  · dsimp only
    omega

theorem IsSite.wellFormed_expand : (site.expand function).WellFormed := by
  have copy0 := isSite.copy0
  have copy1 := isSite.copy1
  have thisOld := isSite.this_lt wellFormed
  have next : (site.expand function).nextNumber = function.nextNumber + 2 := rfl
  constructor
  · exact isSite.distinct_expand wellFormed
  · intro block member
    rcases mem_expand member with rfl | rfl | rfl | ⟨original, originalMember, -, rfl⟩
    · rw [number_thisBlock]
      omega
    · simp only [copy0Block]
      omega
    · simp only [copy1Block]
      omega
    · have old := wellFormed.numbered original originalMember
      rw [number_updatePHIs]
      omega
  · intro block member successor listed
    rcases mem_expand member with rfl | rfl | rfl | ⟨original, originalMember, -, rfl⟩
    · simp only [thisBlock, List.mem_cons, List.not_mem_nil, or_false] at listed
      omega
    · simp only [copy0Block, List.mem_cons, List.not_mem_nil, or_false] at listed
      omega
    · have old := wellFormed.successors _ isSite.member successor listed
      omega
    · rw [successors_updatePHIs] at listed
      have old := wellFormed.successors original originalMember successor listed
      omega
  · intro block member
    rcases mem_expand member with rfl | rfl | rfl | ⟨original, originalMember, -, rfl⟩
    · exact isSite.incoming_updatePHIs wellFormed isSite.member
    · exact fun phi phiMember => absurd phiMember List.not_mem_nil
    · exact isSite.incoming_copy1Block wellFormed
    · exact isSite.incoming_updatePHIs wellFormed originalMember
  · intro block member
    rcases mem_expand member with rfl | rfl | rfl | ⟨original, originalMember, -, rfl⟩
    · exact selectsFirst_of_straight (isSite.straight wellFormed) _ _ _ _
    · rfl
    · exact isSite.selectsFirst_after wellFormed
    · rw [insts_updatePHIs]
      exact wellFormed.selectsFirst original originalMember
  · intro block member
    exact (isSite.edges_expand wellFormed member).1
  · intro block member
    exact (isSite.edges_expand wellFormed member).2

end WellFormed

end SelectSite

end BpfBackend.CodeGen
