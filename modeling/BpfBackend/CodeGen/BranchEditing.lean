import BpfBackend.CodeGen.BranchRewriting

/-! # Editing the branches of a function

The passes that call `AnalyzeBranch`, `RemoveBranch` and `InsertBranch` edit one
block after another. What a run of the function shows does not change.
-/

namespace BpfBackend.CodeGen

open ListCursor Loop MC Simulation

variable {Inst : Type} {World : Type}

/-! ## The instructions that control meets -/

/-- The rest of a block without debug values, without what is behind an
unconditional exit and without a jump to the layout successor. -/
def settle (next : Option Nat) : List (MachineInstr Inst) → List (MachineInstr Inst)
  | [] => []
  | .JMP dst :: _ => if next = some dst then [] else [.JMP dst]
  | .RET :: _ => [.RET]
  | .J_rr op rA rX dst :: rest => .J_rr op rA rX dst :: settle next rest
  | .J_ri op rA imm dst :: rest => .J_ri op rA imm dst :: settle next rest
  | .ordinary inst :: rest => .ordinary inst :: settle next rest
  | .DBG_VALUE _ :: rest => settle next rest
  | .Select dst lhs rhs imm src src2 :: rest =>
      .Select dst lhs rhs imm src src2 :: settle next rest

private theorem settle_append {next : Option Nat} {left right : List (MachineInstr Inst)}
    (above : List (MachineInstr Inst)) (same : settle next left = settle next right) :
    settle next (above ++ left) = settle next (above ++ right) := by
  induction above with
  | nil => exact same
  | cons inst above induction =>
      cases inst with
      | JMP dst => rfl
      | RET => rfl
      | DBG_VALUE register => exact induction
      | J_rr op rA rX dst => exact congrArg (_ :: ·) induction
      | J_ri op rA imm dst => exact congrArg (_ :: ·) induction
      | ordinary inst => exact congrArg (_ :: ·) induction
      | Select dst lhs rhs imm src src2 => exact congrArg (_ :: ·) induction

def MachineFunction.mapInsts (function : MachineFunction Inst)
    (edit : MachineBasicBlock Inst → List (MachineInstr Inst)) : MachineFunction Inst :=
  { function with blocks := function.blocks.map fun block => { block with insts := edit block } }

section MapInsts

variable (function : MachineFunction Inst)
variable (edit : MachineBasicBlock Inst → List (MachineInstr Inst))

@[simp] theorem MachineFunction.layoutNext_mapInsts (number : Nat) :
    layoutNext (function.mapInsts edit).blocks number = layoutNext function.blocks number := by
  apply layoutNext_map
  intro block
  rfl

private theorem MachineFunction.block?_mapInsts (number : Nat) :
    (function.mapInsts edit).block? number =
      (function.block? number).map fun block => { block with insts := edit block } := by
  apply findBlock_map
  intro block
  rfl

end MapInsts

def MachineFunction.settled (function : MachineFunction Inst) : MachineFunction Inst :=
  function.mapInsts fun block => settle (layoutNext function.blocks block.number) block.insts

/-! ## A function runs like its settled form -/

section Settled

variable (effect : Inst → MachineContext World → Option (MachineContext World))
variable (visible : Nat → Bool) (function : MachineFunction Inst)

inductive SettledConfig : Config Inst World → Config Inst World → Prop where
  | running (block : Nat) (rest : List (MachineInstr Inst)) (context : MachineContext World) :
      SettledConfig (.running block (settle (layoutNext function.blocks block) rest) context)
        (.running block rest context)
  | halted : SettledConfig .halted .halted

private theorem transfer_settled (source target : Nat) (context : MachineContext World)
    {event : Option (Event Inst World)} {next : Config Inst World}
    (moves : transfer visible function.settled source target context = some (event, next)) :
    ∃ otherNext, transfer visible function source target context = some (event, otherNext) ∧
      SettledConfig function next otherNext := by
  rw [transfer_eq, MachineFunction.settled, MachineFunction.block?_mapInsts] at moves
  rw [transfer_eq]
  cases found : function.block? target with
  | none =>
      rw [found] at moves
      cases moves
      exact ⟨_, rfl, .halted⟩
  | some block =>
      have number := number_of_block? found
      rw [found] at moves
      dsimp only [Option.map_some] at moves ⊢
      cases assigned : assignPhis source context block.phis context with
      | none =>
          rw [assigned] at moves
          cases moves
          exact ⟨_, rfl, .halted⟩
      | some entered =>
          rw [assigned] at moves
          cases moves
          rw [number]
          exact ⟨_, rfl, .running target block.insts entered⟩

theorem settled_advances (block : Nat) (rest : List (MachineInstr Inst))
    (context : MachineContext World) {event : Option (Event Inst World)}
    {next : Config Inst World}
    (steps : step effect visible function.settled
      (.running block (settle (layoutNext function.blocks block) rest) context) =
        some (event, next)) :
    ∃ count middle otherNext,
      Silent (step effect visible function) count (.running block rest context) middle ∧
      step effect visible function middle = some (event, otherNext) ∧
      SettledConfig function next otherNext := by
  induction rest generalizing context with
  | nil =>
      simp only [settle, step, MachineFunction.settled, MachineFunction.layoutNext_mapInsts]
        at steps
      cases layout : layoutNext function.blocks block with
      | none =>
          rw [layout] at steps
          cases steps
          exact ⟨0, _, _, .refl _, by simp only [step, layout], .halted⟩
      | some successor =>
          rw [layout] at steps
          rcases transfer_settled visible function block successor context steps with
            ⟨otherNext, moves, settled⟩
          exact ⟨0, _, otherNext, .refl _, by simp only [step, layout, moves], settled⟩
  | cons inst rest induction =>
      cases inst with
      | DBG_VALUE register =>
          rcases induction context steps with ⟨count, middle, otherNext, silent, further⟩
          exact ⟨count + 1, middle, otherNext, .head rfl silent, further⟩
      | ordinary inst =>
          simp only [settle, step] at steps
          cases executes : effect inst context with
          | none =>
              rw [executes] at steps
              cases steps
              exact ⟨0, _, _, .refl _, by simp only [step, executes], .halted⟩
          | some after =>
              rw [executes] at steps
              cases steps
              exact ⟨0, _, _, .refl _, by simp only [step, executes], .running block rest after⟩
      | Select dst lhs rhs imm src src2 =>
          cases steps
          exact ⟨0, _, _, .refl _, rfl, .running block rest _⟩
      | J_rr op rA rX dst =>
          simp only [settle, step] at steps
          split at steps
          · rcases transfer_settled visible function block dst context steps with
              ⟨otherNext, moves, settled⟩
            exact ⟨0, _, otherNext, .refl _, by rw [step, if_pos ‹_›, moves], settled⟩
          · cases steps
            exact ⟨0, _, _, .refl _, by rw [step, if_neg ‹_›], .running block rest context⟩
      | J_ri op rA imm dst =>
          simp only [settle, step] at steps
          split at steps
          · rcases transfer_settled visible function block dst context steps with
              ⟨otherNext, moves, settled⟩
            exact ⟨0, _, otherNext, .refl _, by rw [step, if_pos ‹_›, moves], settled⟩
          · cases steps
            exact ⟨0, _, _, .refl _, by rw [step, if_neg ‹_›], .running block rest context⟩
      | JMP dst =>
          rw [settle] at steps
          have moves : transfer visible function.settled block dst context =
              some (event, next) := by
            split at steps
            · rename_i layout
              simpa only [step, MachineFunction.settled, MachineFunction.layoutNext_mapInsts,
                layout] using steps
            · exact steps
          rcases transfer_settled visible function block dst context moves with
            ⟨otherNext, otherMoves, settled⟩
          exact ⟨0, _, otherNext, .refl _, otherMoves, settled⟩
      | RET =>
          cases steps
          exact ⟨0, _, _, .refl _, rfl, .halted⟩

private theorem settled_simulates :
    WeaklySimulates (step effect visible function.settled) (step effect visible function)
      (SettledConfig function) where
  halts := by
    intro config other related halted
    cases related with
    | running block rest context => exact absurd halted (step_running_ne_none _ _ _ _ _ _)
    | halted => rfl
  advances := by
    intro config other event next related steps
    cases related with
    | running block rest context =>
        exact settled_advances effect visible function block rest context steps
    | halted => cases steps

private theorem settledConfig_start (context : MachineContext World) :
    SettledConfig function (function.settled.start context) (function.start context) := by
  rcases function with ⟨blocks, nextNumber⟩
  cases blocks with
  | nil => exact .halted
  | cons entry rest => exact .running entry.number entry.insts context

variable {function}

/-- Functions with the same settled form have the same traces. -/
theorem hasTrace_iff_of_settled {other : MachineFunction Inst}
    (same : other.settled = function.settled) (context : MachineContext World)
    (trace : List (Event Inst World)) :
    HasTrace (step effect visible other) (other.start context) trace ↔
      HasTrace (step effect visible function) (function.start context) trace := by
  have otherSettles := (settled_simulates effect visible other).hasTrace_iff
    (settledConfig_start other context) trace
  have settles := (settled_simulates effect visible function).hasTrace_iff
    (settledConfig_start function context) trace
  rw [← otherSettles, ← settles, same]

end Settled

/-! ## What an edit keeps of a block -/

/-- A block may be left so: what control meets is the same, and terminators
come last. -/
structure BlockKept (next : Option Nat) (before after : List (MachineInstr Inst)) : Prop where
  settled : settle next after = settle next before
  last : terminatorsLast after = true

section Kept

variable {next : Option Nat} {insts fewer : List (MachineInstr Inst)}

private theorem mem_exits_settle_iff (insts : List (MachineInstr Inst)) (target : Nat) :
    target ∈ exits (settle next insts) next ↔ target ∈ exits insts next := by
  induction insts with
  | nil => exact Iff.rfl
  | cons inst rest induction =>
      cases inst with
      | JMP dst =>
          rw [settle]
          split
          · rename_i layout
            simp [exits, layout]
          · exact Iff.rfl
      | RET => exact Iff.rfl
      | J_rr op rA rX dst => simp only [settle, exits, List.mem_cons, induction]
      | J_ri op rA imm dst => simp only [settle, exits, List.mem_cons, induction]
      | ordinary inst => exact induction
      | DBG_VALUE register => exact induction
      | Select dst lhs rhs imm src src2 => exact induction

theorem BlockKept.mem_exits_iff {before after : List (MachineInstr Inst)}
    (kept : BlockKept next before after) (target : Nat) :
    target ∈ exits after next ↔ target ∈ exits before next := by
  rw [← mem_exits_settle_iff after, ← mem_exits_settle_iff before, kept.settled]

theorem terminatorsLast_sublist (last : terminatorsLast insts = true)
    (sub : fewer.Sublist insts) : terminatorsLast fewer = true := by
  induction sub with
  | slnil => rfl
  | cons inst sub induction =>
      rw [terminatorsLast] at last
      split at last
      · apply induction
        -- Behind a terminator every part of the rest has its terminators last.
        rename_i fewer rest _
        clear induction sub
        induction rest with
        | nil => rfl
        | cons head rest restInduction =>
            rw [List.all_cons, Bool.and_eq_true] at last
            rw [terminatorsLast]
            split
            · exact last.2
            · exact restInduction last.2
      · exact induction last
  | cons_cons inst sub induction =>
      rw [terminatorsLast] at last ⊢
      split
      · rw [if_pos ‹_›] at last
        rw [List.all_eq_true] at last ⊢
        exact fun other member => last other (sub.subset member)
      · rw [if_neg ‹_›] at last
        exact induction last

theorem selectsFirst_of_terminatorsLast (last : terminatorsLast insts = true) :
    selectsFirst insts = true := by
  induction insts with
  | nil => rfl
  | cons inst rest induction =>
      rw [terminatorsLast] at last
      rw [selectsFirst]
      split
      · rw [if_pos ‹_›, List.all_eq_true] at last
        rw [List.all_eq_true]
        intro other member
        have follows := last other member
        cases other with
        | Select dst lhs rhs imm src src2 => cases follows
        | ordinary inst => rfl
        | DBG_VALUE register => rfl
        | J_rr op rA rX dst => rfl
        | J_ri op rA imm dst => rfl
        | JMP dst => rfl
        | RET => rfl
      · rw [if_neg ‹_›] at last
        exact induction last

end Kept

/-! ## The branch functions keep a block -/

section Functions

variable {next : Option Nat} {insts : List (MachineInstr Inst)}

private theorem ScanStep.settle_eq {AllowModify : Bool} {scan later : BranchScan Inst}
    (moves : ScanStep AllowModify next scan later) :
    settle next later.position.toList = settle next scan.position.toList := by
  cases moves with
  | debugValue register => simp [Cursor.toList]
  | overwrite dst plain => simp [Cursor.toList]
  | deleteAfter dst modifies jumps =>
      simp only [Cursor.toList, List.reverse_cons, List.append_assoc, List.singleton_append]
      exact settle_append _ rfl
  | deleteJump dst modifies falls =>
      simp only [Cursor.toList, List.reverse_cons, List.append_assoc, List.singleton_append]
      refine settle_append _ ?_
      rw [settle, settle, if_pos falls]

theorem ScanStep.sublist {AllowModify : Bool} {scan later : BranchScan Inst}
    (moves : ScanStep AllowModify next scan later) :
    later.position.toList.Sublist scan.position.toList := by
  cases moves with
  | debugValue register => simp [Cursor.toList]
  | overwrite dst plain => simp [Cursor.toList]
  | deleteAfter dst modifies jumps => simp [Cursor.toList]
  | deleteJump dst modifies falls => simp [Cursor.toList]

theorem AnalyzeBranch_kept (AllowModify : Bool) (next : Option Nat)
    (last : terminatorsLast insts = true) (TBB FBB : Option Nat) (Cond : List MachineOperand) :
    BlockKept next insts (AnalyzeBranch AllowModify next insts TBB FBB Cond).insts := by
  have holds : settle next (AnalyzeBranch AllowModify next insts TBB FBB Cond).insts =
        settle next insts ∧
      (AnalyzeBranch AllowModify next insts TBB FBB Cond).insts.Sublist insts := by
    refine @VariantLoop.run_invariant _ _ (analyzeLoop AllowModify next)
      (fun scan => settle next scan.position.toList = settle next insts ∧
        scan.position.toList.Sublist insts)
      (fun analysis => settle next analysis.insts = settle next insts ∧
        analysis.insts.Sublist insts) ?_ ?_ _ ?_
    · intro scan later invariant pass
      have moves := analyzeBody_again AllowModify next pass
      exact ⟨moves.settle_eq.trans invariant.1, moves.sublist.trans invariant.2⟩
    · intro scan analysis invariant pass
      rcases analyzeBody_leave AllowModify next pass with ⟨_, rfl⟩ | ⟨_, _, _, _, _, rfl⟩
      · exact invariant
      · exact invariant
    · rw [Cursor.toList_atEnd]
      exact ⟨rfl, List.Sublist.refl insts⟩
  exact ⟨holds.1, terminatorsLast_sublist last holds.2⟩

def BlockExit.code : BlockExit → List (MachineInstr Inst)
  | jump dst => [.JMP dst]
  | ret => [.RET]
  | fallThrough => []

private theorem settle_of_debugOrJMP (unconditional : ∀ inst ∈ insts, debugOrJMP inst = true)
    (taken : Nat → Bool) :
    settle next insts = settle next (blockExit insts taken).code := by
  induction insts with
  | nil => rfl
  | cons inst rest induction =>
      have further := induction fun other member =>
        unconditional other (List.mem_cons_of_mem inst member)
      have own := unconditional inst List.mem_cons_self
      cases inst with
      | DBG_VALUE register => exact further
      | JMP dst => rfl
      | ordinary inst => cases own
      | Select dst lhs rhs imm src src2 => cases own
      | J_rr op rA rX dst => cases own
      | J_ri op rA imm dst => cases own
      | RET => cases own

theorem JumpsLast.settle_eq (jumpsLast : JumpsLast insts) (taken : Nat → Bool) :
    settle next insts =
      insts.filter (fun inst => !debugOrJMP inst) ++
        settle next (blockExit insts taken).code := by
  rcases jumpsLast with ⟨above, below, rfl, straight, unconditional⟩
  have noOther : below.filter (fun inst => !debugOrJMP inst) = [] := by
    rw [List.filter_eq_nil_iff]
    intro inst member
    rw [unconditional inst member]
    exact Bool.false_ne_true
  rw [blockExit_append_of_not_terminators straight, List.filter_append, noOther, List.append_nil]
  induction above with
  | nil => exact settle_of_debugOrJMP unconditional taken
  | cons inst above induction =>
      have further := induction fun other member =>
        straight other (List.mem_cons_of_mem inst member)
      have own := straight inst List.mem_cons_self
      cases inst with
      | DBG_VALUE register => exact further
      | ordinary inst => exact congrArg (_ :: ·) further
      | Select dst lhs rhs imm src src2 => exact congrArg (_ :: ·) further
      | J_rr op rA rX dst => cases own
      | J_ri op rA imm dst => cases own
      | JMP dst => cases own
      | RET => cases own

private theorem filter_withoutJMPs (insts : List (MachineInstr Inst)) :
    (withoutJMPs insts).filter (fun inst => !debugOrJMP inst) =
      insts.filter (fun inst => !debugOrJMP inst) := by
  rw [withoutJMPs, List.filter_filter]
  apply List.filter_congr
  intro inst _
  cases inst <;> rfl

theorem JumpsLast.kept_replaced (next : Option Nat) {exit : BlockExit} (jumpsLast : JumpsLast insts)
    (exits : ∀ taken, blockExit insts taken = exit) (leaves : exit ≠ .ret) :
    BlockKept next insts (withoutJMPs insts ++ exit.code) := by
  have taken : Nat → Bool := fun _ => false
  have straight := jumpsLast.straight_withoutJMPs
  have unconditional : ∀ inst ∈ (exit.code : List (MachineInstr Inst)),
      debugOrJMP inst = true := by
    intro inst member
    cases exit with
    | jump dst =>
        rw [List.mem_singleton.mp member]
        rfl
    | fallThrough => cases member
    | ret => exact absurd rfl leaves
  have replaced : JumpsLast (withoutJMPs insts ++ exit.code) :=
    ⟨_, _, rfl, straight, unconditional⟩
  have own : blockExit (withoutJMPs insts ++ exit.code) taken = exit := by
    rw [blockExit_append_of_not_terminators straight]
    cases exit with
    | jump dst => rfl
    | fallThrough => rfl
    | ret => exact absurd rfl leaves
  have noOther : exit.code.filter (fun inst => !debugOrJMP inst) =
      ([] : List (MachineInstr Inst)) := by
    rw [List.filter_eq_nil_iff]
    intro inst member
    rw [unconditional inst member]
    exact Bool.false_ne_true
  refine ⟨?_, replaced.terminatorsLast⟩
  rw [replaced.settle_eq taken, jumpsLast.settle_eq taken, own, exits taken, List.filter_append,
    filter_withoutJMPs, noOther, List.append_nil]

end Functions

/-! ## Editing a function -/

inductive BranchEdit where
  | analyze (AllowModify : Bool)
  | replace (AllowModify : Bool)
  deriving DecidableEq, Repr

/-- `replace` removes the branches of a block that was understood and inserts
the one that the analysis reported. -/
def BranchEdit.apply (next : Option Nat) (insts : List (MachineInstr Inst)) :
    BranchEdit → Compile (List (MachineInstr Inst))
  | analyze AllowModify => .ok (AnalyzeBranch AllowModify next insts none none []).insts
  | replace AllowModify =>
      let analysis := AnalyzeBranch AllowModify next insts none none []
      if analysis.failed then .ok analysis.insts
      else
        let removal := RemoveBranch analysis.insts
        match analysis.TBB with
        | none => .ok removal.insts
        | some _ => do
            let (_, inserted) ←
              InsertBranch removal.insts analysis.TBB analysis.FBB analysis.Cond
            pure inserted

def MachineFunction.editBlock (function : MachineFunction Inst) (number : Nat)
    (edit : BranchEdit) : Compile (MachineFunction Inst) :=
  match function.block? number with
  | none => .ok function
  | some block => do
      let insts ← edit.apply (layoutNext function.blocks number) block.insts
      pure (function.mapInsts fun other => if other.number = number then insts else other.insts)

def MachineFunction.editBlocks (function : MachineFunction Inst) :
    List (Nat × BranchEdit) → Compile (MachineFunction Inst)
  | [] => .ok function
  | (number, edit) :: rest => do
      let edited ← function.editBlock number edit
      edited.editBlocks rest

theorem BranchEdit.apply_kept (edit : BranchEdit) (next : Option Nat)
    {insts : List (MachineInstr Inst)} (last : terminatorsLast insts = true) :
    ∃ edited, edit.apply next insts = .ok edited ∧ BlockKept next insts edited := by
  cases edit with
  | analyze AllowModify => exact ⟨_, rfl, AnalyzeBranch_kept AllowModify next last none none []⟩
  | replace AllowModify =>
      have analyzedKept := AnalyzeBranch_kept AllowModify next last none none []
      cases failed : (AnalyzeBranch AllowModify next insts none none []).failed with
      | true => exact ⟨_, by rw [apply, failed]; rfl, analyzedKept⟩
      | false =>
          have reported := AnalyzeBranch_reported AllowModify next last failed
          have leaves : (AnalyzeBranch AllowModify next insts none none []).exit ≠ .ret := by
            unfold BranchAnalysis.exit
            split <;> simp
          have kept := reported.jumpsLast.kept_replaced next reported.exit leaves
          refine ⟨_, ?_, ⟨kept.settled.trans analyzedKept.settled, kept.last⟩⟩
          simp only [apply, failed, Bool.false_eq_true, if_false,
            reported.jumpsLast.RemoveBranch_eq, reported.unconditional.1,
            reported.unconditional.2]
          unfold BranchAnalysis.exit
          cases (AnalyzeBranch AllowModify next insts none none []).TBB with
          | none => exact congrArg Except.ok (List.append_nil _).symm
          | some dst => rfl

/-! ## The instructions of an edited block -/

theorem AnalyzeBranch_subset (AllowModify : Bool) (next : Option Nat)
    (insts : List (MachineInstr Inst)) (FBB : Option Nat) (Cond : List MachineOperand) :
    (AnalyzeBranch AllowModify next insts none FBB Cond).insts ⊆ insts ∧
      ∀ dst, (AnalyzeBranch AllowModify next insts none FBB Cond).TBB = some dst →
        .JMP dst ∈ insts := by
  refine @VariantLoop.run_invariant _ _ (analyzeLoop AllowModify next)
    (fun scan => scan.position.toList ⊆ insts ∧ ∀ dst, scan.TBB = some dst → .JMP dst ∈ insts)
    (fun analysis => analysis.insts ⊆ insts ∧
      ∀ dst, analysis.TBB = some dst → .JMP dst ∈ insts) ?_ ?_ _ ?_
  · intro scan later invariant pass
    have moves := analyzeBody_again AllowModify next pass
    refine ⟨fun inst member => invariant.1 (moves.sublist.subset member), ?_⟩
    cases moves with
    | debugValue register => exact invariant.2
    | @overwrite above below TBB FBB Cond dst plain =>
        intro reported same
        rw [← Option.some.inj same]
        exact invariant.1 (by simp [Cursor.toList])
    | @deleteAfter above below TBB FBB Cond dst modifies jumps =>
        intro reported same
        rw [← Option.some.inj same]
        exact invariant.1 (by simp [Cursor.toList])
    | deleteJump dst modifies falls =>
        intro reported same
        cases same
  · intro scan analysis invariant pass
    rcases analyzeBody_leave AllowModify next pass with ⟨_, rfl⟩ | ⟨_, _, _, _, _, rfl⟩
    · exact invariant
    · exact invariant
  · rw [Cursor.toList_atEnd]
    refine ⟨List.Subset.refl insts, ?_⟩
    intro dst same
    cases same

private theorem RemoveBranch_subset (insts : List (MachineInstr Inst)) :
    (RemoveBranch insts).insts ⊆ insts := by
  refine @VariantLoop.run_invariant _ _ removeLoop
    (fun scan => scan.position.toList ⊆ insts) (fun removal => removal.insts ⊆ insts) ?_ ?_ _ ?_
  · intro scan later invariant pass inst member
    exact invariant ((removeBody_again pass).sublist.subset member)
  · intro scan removal invariant pass
    rw [(removeBody_leave pass).1]
    exact invariant
  · rw [Cursor.toList_atEnd]
    exact List.Subset.refl insts

private theorem InsertBranch_eq_ok {insts inserted : List (MachineInstr Inst)}
    {TBB FBB : Option Nat}
    {Cond : List MachineOperand} {count : Nat}
    (inserts : InsertBranch insts TBB FBB Cond = .ok (count, inserted)) :
    ∃ dst, TBB = some dst ∧ inserted = insts ++ [.JMP dst] := by
  unfold InsertBranch at inserts
  split at inserts
  · cases inserts
  · rename_i dst
    split at inserts
    · split at inserts
      · cases inserts
      · cases inserts
        exact ⟨dst, rfl, rfl⟩
    · cases inserts

theorem BranchEdit.apply_subset {edit : BranchEdit} {next : Option Nat}
    {insts edited : List (MachineInstr Inst)} (applied : edit.apply next insts = .ok edited) :
    edited ⊆ insts := by
  cases edit with
  | analyze AllowModify =>
      rw [← Except.ok.inj applied]
      exact (AnalyzeBranch_subset AllowModify next insts none []).1
  | replace AllowModify =>
      have analyzed := AnalyzeBranch_subset AllowModify next insts none []
      have removed :
          (RemoveBranch (AnalyzeBranch AllowModify next insts none none []).insts).insts ⊆ insts :=
        fun inst member => analyzed.1 (RemoveBranch_subset _ member)
      simp only [apply] at applied
      split at applied
      · rw [← Except.ok.inj applied]
        exact analyzed.1
      · split at applied
        · rw [← Except.ok.inj applied]
          exact removed
        · rcases bind_eq_ok applied with ⟨⟨count, inserted⟩, inserts, applied⟩
          cases applied
          rcases InsertBranch_eq_ok inserts with ⟨dst, reported, rfl⟩
          intro inst member
          rcases List.mem_append.mp member with kept | jump
          · exact removed kept
          · rw [List.mem_singleton.mp jump]
            exact analyzed.2 dst reported

/-! ## Whole functions -/

def MachineFunction.TerminatorsLast (function : MachineFunction Inst) : Prop :=
  ∀ block ∈ function.blocks, terminatorsLast block.insts = true

instance (function : MachineFunction Inst) : Decidable function.TerminatorsLast :=
  inferInstanceAs (Decidable (∀ block ∈ function.blocks, _ = true))

section WholeFunction

variable {function : MachineFunction Inst}
variable {edit : MachineBasicBlock Inst → List (MachineInstr Inst)}

private theorem MachineFunction.forall_mapInsts_iff {holds : MachineBasicBlock Inst → Prop} :
    (∀ block ∈ (function.mapInsts edit).blocks, holds block) ↔
      ∀ block ∈ function.blocks, holds { block with insts := edit block } :=
  List.forall_mem_map

private theorem MachineFunction.WellFormed.mapInsts (wellFormed : function.WellFormed)
    (kept : ∀ block ∈ function.blocks,
      BlockKept (layoutNext function.blocks block.number) block.insts (edit block)) :
    (function.mapInsts edit).WellFormed where
  distinct := by
    simp only [MachineFunction.mapInsts, List.map_map, Function.comp_def]
    exact wellFormed.distinct
  numbered := MachineFunction.forall_mapInsts_iff.mpr wellFormed.numbered
  successors := MachineFunction.forall_mapInsts_iff.mpr wellFormed.successors
  incoming := MachineFunction.forall_mapInsts_iff.mpr wellFormed.incoming
  selectsFirst := MachineFunction.forall_mapInsts_iff.mpr fun block member =>
    selectsFirst_of_terminatorsLast (kept block member).last
  exitsListed := by
    refine MachineFunction.forall_mapInsts_iff.mpr fun block member target leads => ?_
    rw [MachineFunction.layoutNext_mapInsts] at leads
    exact wellFormed.exitsListed block member ((kept block member).mem_exits_iff target |>.mp leads)
  listedExits := by
    refine MachineFunction.forall_mapInsts_iff.mpr fun block member target listed => ?_
    rw [MachineFunction.layoutNext_mapInsts]
    exact (kept block member).mem_exits_iff target |>.mpr
      (wellFormed.listedExits block member listed)

private theorem MachineFunction.settled_mapInsts
    (kept : ∀ block ∈ function.blocks,
      BlockKept (layoutNext function.blocks block.number) block.insts (edit block)) :
    (function.mapInsts edit).settled = function.settled := by
  have blocks : (function.mapInsts edit).settled.blocks = function.settled.blocks := by
    rw [MachineFunction.settled, MachineFunction.mapInsts, MachineFunction.mapInsts, List.map_map]
    apply List.map_congr_left
    intro block member
    have layout := function.layoutNext_mapInsts edit block.number
    rw [MachineFunction.mapInsts] at layout
    simp only [Function.comp_apply, layout, (kept block member).settled]
  exact congrArg (MachineFunction.mk · function.nextNumber) blocks

structure MachineFunction.Keeps (function edited : MachineFunction Inst) : Prop where
  wellFormed : edited.WellFormed
  last : edited.TerminatorsLast
  settled : edited.settled = function.settled
  numbers : edited.blocks.map (·.number) = function.blocks.map (·.number)
  known : ∀ block ∈ edited.blocks, ∃ original ∈ function.blocks,
    block.phis = original.phis ∧ block.insts ⊆ original.insts

theorem MachineFunction.Keeps.refl (wellFormed : function.WellFormed)
    (last : function.TerminatorsLast) : function.Keeps function where
  wellFormed := wellFormed
  last := last
  settled := rfl
  numbers := rfl
  known block member := ⟨block, member, rfl, List.Subset.refl _⟩

theorem MachineFunction.Keeps.trans {middle edited : MachineFunction Inst}
    (first : function.Keeps middle) (second : middle.Keeps edited) :
    function.Keeps edited where
  wellFormed := second.wellFormed
  last := second.last
  settled := second.settled.trans first.settled
  numbers := second.numbers.trans first.numbers
  known := by
    intro block member
    rcases second.known block member with ⟨between, betweenMember, phis, subset⟩
    rcases first.known between betweenMember with ⟨original, originalMember, morePhis, more⟩
    exact ⟨original, originalMember, phis.trans morePhis, List.Subset.trans subset more⟩

private theorem MachineFunction.editBlock_keeps (wellFormed : function.WellFormed)
    (last : function.TerminatorsLast) (number : Nat) (edit : BranchEdit) :
    ∃ edited, function.editBlock number edit = .ok edited ∧ function.Keeps edited := by
  cases found : function.block? number with
  | none => exact ⟨function, by rw [editBlock, found], .refl wellFormed last⟩
  | some block =>
      have member := mem_of_block? found
      have named := number_of_block? found
      rcases edit.apply_kept (layoutNext function.blocks number) (last block member) with
        ⟨insts, applied, blockKept⟩
      have kept : ∀ other ∈ function.blocks,
          BlockKept (layoutNext function.blocks other.number) other.insts
            (if other.number = number then insts else other.insts) := by
        intro other otherMember
        split
        · rename_i same
          have equal : other = block := List.inj_on_of_nodup_map wellFormed.distinct otherMember
            member (same.trans named.symm)
          rw [equal, named]
          exact blockKept
        · exact ⟨rfl, last other otherMember⟩
      refine ⟨function.mapInsts fun other => if other.number = number then insts else other.insts,
        ?_, wellFormed.mapInsts kept, ?_, settled_mapInsts kept, ?_, ?_⟩
      · rw [editBlock, found]
        simp only [applied, bind, Except.bind, pure, Except.pure]
      · exact forall_mapInsts_iff.mpr fun other otherMember => (kept other otherMember).last
      · simp only [mapInsts, List.map_map, Function.comp_def]
      · refine forall_mapInsts_iff.mpr fun other otherMember => ?_
        refine ⟨other, otherMember, rfl, ?_⟩
        dsimp only
        split
        · rename_i same
          have equal : other = block := List.inj_on_of_nodup_map wellFormed.distinct otherMember
            member (same.trans named.symm)
          rw [equal]
          exact BranchEdit.apply_subset applied
        · exact List.Subset.refl _

theorem MachineFunction.editBlocks_keeps (edits : List (Nat × BranchEdit))
    (wellFormed : function.WellFormed) (last : function.TerminatorsLast) :
    ∃ edited, function.editBlocks edits = .ok edited ∧ function.Keeps edited := by
  induction edits generalizing function with
  | nil => exact ⟨function, rfl, .refl wellFormed last⟩
  | cons first rest induction =>
      rcases first with ⟨number, edit⟩
      rcases editBlock_keeps wellFormed last number edit with ⟨middle, applied, firstKeeps⟩
      rcases induction firstKeeps.wellFormed firstKeeps.last with
        ⟨edited, restApplied, restKeeps⟩
      refine ⟨edited, ?_, firstKeeps.trans restKeeps⟩
      rw [editBlocks, applied]
      exact restApplied

end WholeFunction

/-- Whatever blocks are analyzed, cleaned and given new branches, and in
whatever order, no step is refused, the function stays well formed and shows
the same traces. -/
theorem editBlocks_hasTrace_iff (function : MachineFunction Inst)
    (wellFormed : function.WellFormed) (last : function.TerminatorsLast)
    (edits : List (Nat × BranchEdit)) :
    ∃ edited, function.editBlocks edits = .ok edited ∧ edited.WellFormed ∧
      edited.TerminatorsLast ∧
      ∀ (World : Type) (effect : Inst → MachineContext World → Option (MachineContext World))
        (visible : Nat → Bool) (context : MachineContext World)
        (trace : List (Event Inst World)),
        HasTrace (step effect visible edited) (edited.start context) trace ↔
          HasTrace (step effect visible function) (function.start context) trace := by
  rcases MachineFunction.editBlocks_keeps edits wellFormed last with ⟨edited, applied, keeps⟩
  exact ⟨edited, applied, keeps.wellFormed, keeps.last, fun _ effect visible context trace =>
    hasTrace_iff_of_settled effect visible keeps.settled context trace⟩

def deadJumps : MachineFunction Nat where
  blocks :=
    [⟨0, [], [.ordinary 5, .JMP 1, .DBG_VALUE 3, .JMP 0], [1]⟩,
      ⟨1, [], [.DBG_VALUE 4, .ordinary 6, .JMP 0], [0]⟩]
  nextNumber := 2

private theorem wellFormed_deadJumps : deadJumps.WellFormed where
  distinct := by decide
  numbered := by decide
  successors := by decide
  incoming := by decide
  selectsFirst := by decide
  exitsListed := by decide
  listedExits := by decide

theorem editBlocks_hasTrace_iff_deadJumps :
    ∃ edited, deadJumps.editBlocks [(0, .analyze true), (1, .replace false)] = .ok edited ∧
      edited.WellFormed ∧ edited.TerminatorsLast ∧
      ∀ (World : Type) (effect : Nat → MachineContext World → Option (MachineContext World))
        (visible : Nat → Bool) (context : MachineContext World)
        (trace : List (Event Nat World)),
        HasTrace (step effect visible edited) (edited.start context) trace ↔
          HasTrace (step effect visible deadJumps) (deadJumps.start context) trace :=
  editBlocks_hasTrace_iff deadJumps wellFormed_deadJumps (by decide)
    [(0, .analyze true), (1, .replace false)]

end BpfBackend.CodeGen
