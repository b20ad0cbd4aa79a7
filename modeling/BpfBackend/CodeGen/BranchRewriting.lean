import BpfBackend.CodeGen.BranchAnalysis

/-! # Removal and insertion of branches

`RemoveBranch` deletes the jumps at the end of a block and `InsertBranch`
appends one. After an analysis that succeeds, the two restore the block.
-/

namespace BpfBackend.CodeGen

open ListCursor Loop MC

variable {Inst : Type}

/-! ## `RemoveBranch` -/

structure RemoveScan (Inst : Type) where
  position : Cursor (MachineInstr Inst)
  Count : Nat

structure BranchRemoval (Inst : Type) where
  Count : Nat
  insts : List (MachineInstr Inst)
  deriving DecidableEq

/-- After an erasure the iterator starts again from the end. -/
def removeBody (scan : RemoveScan Inst) : Pass (RemoveScan Inst) (BranchRemoval Inst) :=
  match scan.position.retreat with
  | none => .leave ⟨scan.Count, scan.position.toList⟩
  | some (inst, position) =>
      if inst.isDebugValue then .again { scan with position }
      else if !inst.isJMP then .leave ⟨scan.Count, scan.position.toList⟩
      else .again ⟨position.eraseToEnd, scan.Count + 1⟩

inductive RemoveStep : RemoveScan Inst → RemoveScan Inst → Prop where
  | debugValue {above below Count} (register : Nat) :
      RemoveStep ⟨⟨.DBG_VALUE register :: above, below⟩, Count⟩
        ⟨⟨above, .DBG_VALUE register :: below⟩, Count⟩
  | erase {above below Count} (dst : Nat) :
      RemoveStep ⟨⟨.JMP dst :: above, below⟩, Count⟩
        ⟨.atEnd (above.reverse ++ below), Count + 1⟩

theorem removeBody_again {scan later : RemoveScan Inst}
    (pass : removeBody scan = .again later) : RemoveStep scan later := by
  rcases scan with ⟨⟨above, below⟩, Count⟩
  cases above with
  | nil => cases pass
  | cons inst above =>
      cases inst with
      | DBG_VALUE register =>
          rw [← Pass.again.inj pass]
          exact .debugValue register
      | JMP dst =>
          rw [← Pass.again.inj pass]
          exact .erase dst
      | ordinary inst => cases pass
      | Select dst lhs rhs imm src src2 => cases pass
      | J_rr op rA rX dst => cases pass
      | J_ri op rA imm dst => cases pass
      | RET => cases pass

theorem removeBody_leave {scan : RemoveScan Inst} {removal : BranchRemoval Inst}
    (pass : removeBody scan = .leave removal) :
    removal = ⟨scan.Count, scan.position.toList⟩ ∧
      (scan.position.above = [] ∨ ∃ inst above, scan.position.above = inst :: above ∧
        debugOrJMP inst = false) := by
  rcases scan with ⟨⟨above, below⟩, Count⟩
  cases above with
  | nil => exact ⟨(Pass.leave.inj pass).symm, .inl rfl⟩
  | cons inst above =>
      cases inst with
      | DBG_VALUE register => cases pass
      | JMP dst => cases pass
      | ordinary inst => exact ⟨(Pass.leave.inj pass).symm, .inr ⟨_, _, rfl, rfl⟩⟩
      | Select dst lhs rhs imm src src2 =>
          exact ⟨(Pass.leave.inj pass).symm, .inr ⟨_, _, rfl, rfl⟩⟩
      | J_rr op rA rX dst => exact ⟨(Pass.leave.inj pass).symm, .inr ⟨_, _, rfl, rfl⟩⟩
      | J_ri op rA imm dst => exact ⟨(Pass.leave.inj pass).symm, .inr ⟨_, _, rfl, rfl⟩⟩
      | RET => exact ⟨(Pass.leave.inj pass).symm, .inr ⟨_, _, rfl, rfl⟩⟩

/-- A pass shortens the block, or moves up in a block of the same length. -/
def RemoveScan.remaining (scan : RemoveScan Inst) : Nat :=
  scan.position.toList.length * scan.position.toList.length + scan.position.above.length

private theorem RemoveStep.remaining_lt {scan later : RemoveScan Inst}
    (moves : RemoveStep scan later) :
    later.remaining < scan.remaining := by
  cases moves with
  | debugValue register =>
      simp only [RemoveScan.remaining, Cursor.toList, List.reverse_cons, List.append_assoc,
        List.singleton_append, List.length_cons]
      omega
  | @erase above below Count dst =>
      have length : (⟨.JMP dst :: above, below⟩ : Cursor (MachineInstr Inst)).toList.length =
          (above.reverse ++ below).length + 1 := by
        simp [Cursor.toList]
        omega
      simp only [RemoveScan.remaining, Cursor.toList_atEnd, length,
        Cursor.length_above_atEnd, List.length_cons]
      have square : ∀ count : Nat, (count + 1) * (count + 1) = count * count + 2 * count + 1 :=
        fun count => by
          rw [Nat.succ_mul, Nat.mul_succ]
          omega
      rw [square]
      omega

def removeLoop : VariantLoop (RemoveScan Inst) (BranchRemoval Inst) where
  body := removeBody
  variant := RemoveScan.remaining
  decreases pass := (removeBody_again pass).remaining_lt

def RemoveBranch (insts : List (MachineInstr Inst)) : BranchRemoval Inst :=
  removeLoop.run ⟨.atEnd insts, 0⟩

/-! ## `InsertBranch` -/

/-- The number of instructions inserted and the block. -/
def InsertBranch (insts : List (MachineInstr Inst)) (TBB FBB : Option Nat)
    (Cond : List MachineOperand) : Compile (Nat × List (MachineInstr Inst)) :=
  match TBB with
  | none => .error (.assertion "InsertBranch must not be told to insert a fallthrough")
  | some dst =>
      if Cond.isEmpty then
        if FBB.isSome then
          .error (.assertion "Unconditional branch with multiple successors!")
        else .ok (1, insts ++ [.JMP dst])
      else .error (.llvm_unreachable "Unexpected conditional branch")

/-! ## What removal keeps -/

def withoutJMPs (insts : List (MachineInstr Inst)) : List (MachineInstr Inst) :=
  insts.filter (fun inst => !inst.isJMP)

def numberOfJMPs (insts : List (MachineInstr Inst)) : Nat := insts.countP (·.isJMP)

private theorem RemoveStep.withoutJMPs_eq {scan later : RemoveScan Inst}
    (moves : RemoveStep scan later) :
    withoutJMPs later.position.toList = withoutJMPs scan.position.toList := by
  cases moves with
  | debugValue register => simp [Cursor.toList]
  | erase dst => simp [Cursor.toList, Cursor.atEnd, withoutJMPs, MachineInstr.isJMP]

private theorem RemoveStep.count_eq {scan later : RemoveScan Inst} (moves : RemoveStep scan later) :
    later.Count + numberOfJMPs later.position.toList =
      scan.Count + numberOfJMPs scan.position.toList := by
  cases moves with
  | debugValue register => simp [Cursor.toList]
  | erase dst =>
      simp [Cursor.toList, Cursor.atEnd, numberOfJMPs, MachineInstr.isJMP]
      omega

theorem RemoveStep.sublist {scan later : RemoveScan Inst} (moves : RemoveStep scan later) :
    later.position.toList.Sublist scan.position.toList := by
  cases moves with
  | debugValue register => simp [Cursor.toList]
  | erase dst => simp [Cursor.toList, Cursor.atEnd]

/-! ## Blocks that branch unconditionally -/

private theorem not_isTerminator_of_isDebugValue {inst : MachineInstr Inst}
    (debug : inst.isDebugValue = true) : inst.isTerminator = false := by
  cases inst with
  | DBG_VALUE register => rfl
  | ordinary inst => rfl
  | Select dst lhs rhs imm src src2 => rfl
  | J_rr op rA rX dst => cases debug
  | J_ri op rA imm dst => cases debug
  | JMP dst => cases debug
  | RET => cases debug

private theorem not_isJMP_of_not_isTerminator {inst : MachineInstr Inst}
    (straight : inst.isTerminator = false) : inst.isJMP = false := by
  cases inst with
  | JMP dst => cases straight
  | ordinary inst => rfl
  | DBG_VALUE register => rfl
  | Select dst lhs rhs imm src src2 => rfl
  | J_rr op rA rX dst => rfl
  | J_ri op rA imm dst => rfl
  | RET => rfl

private theorem debugOrJMP_iff {inst : MachineInstr Inst} :
    debugOrJMP inst = true ↔ inst.isDebugValue = true ∨ inst.isJMP = true := by
  rw [debugOrJMP, Bool.or_eq_true]

private theorem not_isTerminator_of_debugOrJMP {inst : MachineInstr Inst}
    (unconditional : debugOrJMP inst = true) (noJump : inst.isJMP = false) :
    inst.isTerminator = false := by
  rcases debugOrJMP_iff.mp unconditional with debug | jump
  · exact not_isTerminator_of_isDebugValue debug
  · rw [noJump] at jump
    cases jump

private theorem terminator_or_debug_of_debugOrJMP {inst : MachineInstr Inst}
    (unconditional : debugOrJMP inst = true) :
    (inst.isTerminator || inst.isDebugValue) = true := by
  rcases debugOrJMP_iff.mp unconditional with debug | jump
  · rw [debug, Bool.or_true]
  · cases terminates : inst.isTerminator with
    | true => rfl
    | false =>
        rw [not_isJMP_of_not_isTerminator terminates] at jump
        cases jump

theorem JumpsLast.sublist {insts fewer : List (MachineInstr Inst)} (jumpsLast : JumpsLast insts)
    (sub : fewer.Sublist insts) : JumpsLast fewer := by
  rcases jumpsLast with ⟨above, below, rfl, straight, unconditional⟩
  rcases List.sublist_append_iff.mp sub with ⟨fewerAbove, fewerBelow, rfl, subAbove, subBelow⟩
  exact ⟨fewerAbove, fewerBelow, rfl, fun inst member => straight inst (subAbove.subset member),
    fun inst member => unconditional inst (subBelow.subset member)⟩

theorem JumpsLast.straight_above {above below : List (MachineInstr Inst)}
    {inst : MachineInstr Inst} (jumpsLast : JumpsLast (above ++ inst :: below))
    (other : debugOrJMP inst = false) :
    ∀ earlier ∈ above ++ [inst], earlier.isTerminator = false := by
  rcases jumpsLast with ⟨straightPart, jumps, split, straight, unconditional⟩
  rcases List.append_eq_append_iff.mp split with ⟨middle, first, second⟩ | ⟨middle, first, second⟩
  · cases middle with
    | nil =>
        have member : inst ∈ jumps := by
          rw [← List.nil_append jumps, ← second]
          exact List.mem_cons_self
        rw [unconditional inst member] at other
        cases other
    | cons head middle =>
        rcases List.cons.inj second with ⟨rfl, _⟩
        intro earlier member
        refine straight earlier ?_
        rw [first]
        rcases List.mem_append.mp member with member | member
        · exact List.mem_append_left _ member
        · rw [List.mem_singleton.mp member]
          exact List.mem_append_right _ List.mem_cons_self
  · have member : inst ∈ jumps := by
      rw [second]
      exact List.mem_append_right _ List.mem_cons_self
    rw [unconditional inst member] at other
    cases other

theorem JumpsLast.straight_withoutJMPs {insts : List (MachineInstr Inst)}
    (jumpsLast : JumpsLast insts) : ∀ inst ∈ withoutJMPs insts, inst.isTerminator = false := by
  rcases jumpsLast with ⟨above, below, rfl, straight, unconditional⟩
  intro inst member
  rcases List.mem_filter.mp member with ⟨member, noJump⟩
  rcases List.mem_append.mp member with member | member
  · exact straight inst member
  · exact not_isTerminator_of_debugOrJMP (unconditional inst member) (by simpa using noJump)

/-- The removal so far has taken jumps from the block, and the iterator has
passed only debug values since the last one. -/
structure RemoveScan.Removes (insts : List (MachineInstr Inst)) (scan : RemoveScan Inst) :
    Prop where
  sublist : scan.position.toList.Sublist insts
  passed : ∀ inst ∈ scan.position.below, inst.isDebugValue = true
  kept : withoutJMPs scan.position.toList = withoutJMPs insts
  count : scan.Count + numberOfJMPs scan.position.toList = numberOfJMPs insts

private theorem RemoveStep.removes {insts : List (MachineInstr Inst)} {scan later : RemoveScan Inst}
    (moves : RemoveStep scan later) (removes : scan.Removes insts) : later.Removes insts := by
  refine ⟨moves.sublist.trans removes.sublist, ?_, moves.withoutJMPs_eq.trans removes.kept,
    moves.count_eq.trans removes.count⟩
  cases moves with
  | debugValue register =>
      intro inst member
      rcases List.mem_cons.mp member with rfl | member
      · rfl
      · exact removes.passed inst member
  | erase dst =>
      intro inst member
      cases member

theorem RemoveScan.Removes.noJump {insts : List (MachineInstr Inst)} {scan : RemoveScan Inst}
    (removes : scan.Removes insts) (jumpsLast : JumpsLast insts)
    (ends : scan.position.above = [] ∨ ∃ inst above, scan.position.above = inst :: above ∧
      debugOrJMP inst = false) :
    ∀ inst ∈ scan.position.toList, inst.isJMP = false := by
  have straight : ∀ inst ∈ scan.position.above, inst.isTerminator = false := by
    rcases ends with above | ⟨inst, rest, above, other⟩
    · rw [above]
      intro inst member
      cases member
    · have remaining := jumpsLast.sublist removes.sublist
      rw [Cursor.toList, above, List.reverse_cons, List.append_assoc,
        List.singleton_append] at remaining
      intro earlier member
      refine remaining.straight_above other earlier ?_
      rw [← List.reverse_cons, ← above]
      exact List.mem_reverse.mpr member
  intro inst member
  apply not_isJMP_of_not_isTerminator
  rcases List.mem_append.mp member with member | member
  · exact straight inst (List.mem_reverse.mp member)
  · exact not_isTerminator_of_isDebugValue (removes.passed inst member)

private theorem numberOfJMPs_of_noJump {insts : List (MachineInstr Inst)}
    (noJump : ∀ inst ∈ insts, inst.isJMP = false) : numberOfJMPs insts = 0 := by
  rw [numberOfJMPs, List.countP_eq_zero]
  intro inst member
  rw [noJump inst member]
  exact Bool.false_ne_true

private theorem withoutJMPs_of_noJump {insts : List (MachineInstr Inst)}
    (noJump : ∀ inst ∈ insts, inst.isJMP = false) : withoutJMPs insts = insts := by
  rw [withoutJMPs, List.filter_eq_self]
  intro inst member
  rw [noJump inst member]
  rfl

theorem JumpsLast.RemoveBranch_eq {insts : List (MachineInstr Inst)}
    (jumpsLast : JumpsLast insts) :
    RemoveBranch insts = ⟨numberOfJMPs insts, withoutJMPs insts⟩ := by
  refine @VariantLoop.run_invariant _ _ removeLoop (fun scan => scan.Removes insts)
    (fun removal => removal = ⟨numberOfJMPs insts, withoutJMPs insts⟩) ?_ ?_ _ ?_
  · intro scan later removes pass
    exact (removeBody_again pass).removes removes
  · intro scan removal removes pass
    rcases removeBody_leave pass with ⟨rfl, ends⟩
    have noJump := removes.noJump jumpsLast ends
    rw [← removes.kept, ← removes.count, numberOfJMPs_of_noJump noJump,
      withoutJMPs_of_noJump noJump]
    rfl
  · have all := Cursor.toList_atEnd insts
    refine ⟨by rw [all], ?_, by rw [all], by rw [all, Nat.zero_add]⟩
    intro inst member
    cases member

private theorem stopsAtTerminator_of_straight {insts : List (MachineInstr Inst)}
    (straight : ∀ inst ∈ insts, inst.isTerminator = false) : stopsAtTerminator insts = false := by
  induction insts with
  | nil => rfl
  | cons inst above induction =>
      rw [stopsAtTerminator]
      split
      · exact induction fun other member => straight other (List.mem_cons_of_mem inst member)
      · exact straight inst List.mem_cons_self

private theorem stopsAtTerminator_append {below : List (MachineInstr Inst)}
    (unconditional : ∀ inst ∈ below, debugOrJMP inst = true) (above : List (MachineInstr Inst)) :
    stopsAtTerminator (below ++ above) = stopsAtTerminator above := by
  induction below with
  | nil => rfl
  | cons inst below induction =>
      rw [List.cons_append, stopsAtTerminator, if_pos (unconditional inst List.mem_cons_self)]
      exact induction fun other member => unconditional other (List.mem_cons_of_mem inst member)

theorem JumpsLast.AnalyzeBranch_succeeds {insts : List (MachineInstr Inst)}
    (jumpsLast : JumpsLast insts) (AllowModify : Bool) (next : Option Nat) :
    (AnalyzeBranch AllowModify next insts none none []).failed = false := by
  rcases jumpsLast with ⟨above, below, rfl, straight, unconditional⟩
  rw [AnalyzeBranch_failed, List.reverse_append, stopsAtTerminator_append]
  · exact stopsAtTerminator_of_straight fun inst member =>
      straight inst (List.mem_reverse.mp member)
  · exact fun inst member => unconditional inst (List.mem_reverse.mp member)

private theorem terminatorsLast_of_debugOrJMP {insts : List (MachineInstr Inst)}
    (unconditional : ∀ inst ∈ insts, debugOrJMP inst = true) : terminatorsLast insts = true := by
  induction insts with
  | nil => rfl
  | cons inst rest induction =>
      have later : ∀ other ∈ rest, debugOrJMP other = true :=
        fun other member => unconditional other (List.mem_cons_of_mem inst member)
      rw [terminatorsLast]
      split
      · rw [List.all_eq_true]
        exact fun other member => terminator_or_debug_of_debugOrJMP (later other member)
      · exact induction later

theorem JumpsLast.terminatorsLast {insts : List (MachineInstr Inst)}
    (jumpsLast : JumpsLast insts) : terminatorsLast insts = true := by
  rcases jumpsLast with ⟨above, below, rfl, straight, unconditional⟩
  induction above with
  | nil => exact terminatorsLast_of_debugOrJMP unconditional
  | cons inst above induction =>
      rw [List.cons_append, CodeGen.terminatorsLast, straight inst List.mem_cons_self]
      exact induction fun other member => straight other (List.mem_cons_of_mem inst member)

private theorem blockExit_of_straight {insts : List (MachineInstr Inst)}
    (straight : ∀ inst ∈ insts, inst.isTerminator = false) (taken : Nat → Bool) :
    blockExit insts taken = .fallThrough := by
  have fallsThrough := blockExit_append_of_not_terminators straight []
  rw [List.append_nil] at fallsThrough
  rw [fallsThrough]
  rfl

/-! ## Removal and insertion restore the block -/

theorem AnalyzeBranch_of_straight_JMP {insts : List (MachineInstr Inst)}
    (straight : ∀ inst ∈ insts, inst.isTerminator = false) (dst : Nat) (AllowModify : Bool)
    (next : Option Nat) :
    (AnalyzeBranch AllowModify next (insts ++ [.JMP dst]) none none []).failed = false ∧
    (AnalyzeBranch AllowModify next (insts ++ [.JMP dst]) none none []).exit.inLayout next =
      .jump dst := by
  have jumpsLast : JumpsLast (insts ++ [.JMP dst]) := by
    refine ⟨insts, [.JMP dst], rfl, straight, ?_⟩
    intro inst member
    rw [List.mem_singleton.mp member]
    rfl
  have analyzed := jumpsLast.AnalyzeBranch_succeeds AllowModify next
  refine ⟨analyzed, ?_⟩
  have reported := AnalyzeBranch_reported AllowModify next jumpsLast.terminatorsLast analyzed
  have taken : Nat → Bool := fun _ => false
  rw [← reported.exit taken, ← AnalyzeBranch_sameExits AllowModify next _ none none [] taken,
    blockExit_append_of_not_terminators straight]
  rfl

theorem RemoveBranch_InsertBranch (AllowModify : Bool) (next : Option Nat)
    {insts : List (MachineInstr Inst)} (last : terminatorsLast insts = true)
    (analyzed : (AnalyzeBranch AllowModify next insts none none []).failed = false) :
    let analysis := AnalyzeBranch AllowModify next insts none none []
    let removal := RemoveBranch analysis.insts
    Completes removeBody ⟨.atEnd analysis.insts, 0⟩ removal ∧
    removal.Count = numberOfJMPs analysis.insts ∧
    removal.insts = withoutJMPs analysis.insts ∧
    (∀ taken, blockExit removal.insts taken = .fallThrough) ∧
    ∀ dst, analysis.TBB = some dst →
      ∃ inserted, InsertBranch removal.insts analysis.TBB none analysis.Cond = .ok (1, inserted) ∧
        inserted = removal.insts ++ [.JMP dst] ∧
        (∀ taken, (blockExit inserted taken).inLayout next =
          (blockExit insts taken).inLayout next) ∧
        ∀ mode, (AnalyzeBranch mode next inserted none none []).failed = false ∧
          (AnalyzeBranch mode next inserted none none []).exit.inLayout next =
            analysis.exit.inLayout next := by
  intro analysis removal
  have reported : analysis.Reported := AnalyzeBranch_reported AllowModify next last analyzed
  have removed : removal = ⟨numberOfJMPs analysis.insts, withoutJMPs analysis.insts⟩ :=
    reported.jumpsLast.RemoveBranch_eq
  have straight : ∀ inst ∈ removal.insts, inst.isTerminator = false := by
    rw [removed]
    exact reported.jumpsLast.straight_withoutJMPs
  refine ⟨removeLoop.completes_run _, by rw [removed], by rw [removed],
    blockExit_of_straight straight, ?_⟩
  intro dst reports
  have exit : analysis.exit = .jump dst := by rw [BranchAnalysis.exit, reports]
  refine ⟨removal.insts ++ [.JMP dst], ?_, rfl, fun taken => ?_, fun mode => ?_⟩
  · rw [reports, reported.unconditional.2]
    rfl
  · rw [AnalyzeBranch_sameExits AllowModify next insts none none [] taken, reported.exit, exit,
      blockExit_append_of_not_terminators straight]
    rfl
  · rw [exit]
    exact AnalyzeBranch_of_straight_JMP straight dst mode next

theorem RemoveBranch_InsertBranch_two_jumps :
    ∃ inserted, InsertBranch (RemoveBranch (AnalyzeBranch false (some 2)
        [.ordinary 0, .JMP 7, .DBG_VALUE 3, .JMP 2] none none []).insts).insts (some 7) none [] =
        .ok (1, inserted) ∧
      inserted = [.ordinary 0, .DBG_VALUE 3, .JMP 7] := by
  rcases (@RemoveBranch_InsertBranch Nat false (some 2)
    [.ordinary 0, .JMP 7, .DBG_VALUE 3, .JMP 2] rfl rfl).2.2.2.2 7 rfl with
    ⟨inserted, inserts, block, _⟩
  exact ⟨inserted, inserts, block⟩

end BpfBackend.CodeGen
