import BpfBackend.CodeGen.BlockExits
import BpfBackend.CodeGen.SymbolReferences
import BpfBackend.Foundation.ListCursor
import BpfBackend.Foundation.Loop

/-! # Branch analysis

`AnalyzeBranch` examines the terminators of a block from the bottom up. It
reports an unconditional destination and, where it may modify the block,
deletes the jumps that the block does not need.
-/

namespace BpfBackend.CodeGen

open ListCursor Loop Simulation

/-! ## The loop -/

structure BranchScan (Inst : Type) where
  position : Cursor (MachineInstr Inst)
  TBB : Option Nat
  FBB : Option Nat
  Cond : List MachineOperand

/-- `failed` is the value returned: the branches could not be analyzed. -/
structure BranchAnalysis (Inst : Type) where
  failed : Bool
  insts : List (MachineInstr Inst)
  TBB : Option Nat
  FBB : Option Nat
  Cond : List MachineOperand
  deriving DecidableEq

variable {Inst : Type}

def BranchScan.answer (scan : BranchScan Inst) (failed : Bool) : BranchAnalysis Inst :=
  ⟨failed, scan.position.toList, scan.TBB, scan.FBB, scan.Cond⟩

section Body

variable (AllowModify : Bool) (next : Option Nat)

/-- At an unconditional jump: without modification only `TBB` is overwritten;
otherwise what follows the jump is deleted, and the jump itself if it is
equivalent to a fall-through. -/
def analyzeJMP (scan : BranchScan Inst) (dst : Nat) : BranchScan Inst :=
  if !AllowModify then { scan with TBB := some dst }
  else if next = some dst then ⟨scan.position.eraseAfter.eraseToEnd, none, none, []⟩
  else ⟨scan.position.eraseAfter, some dst, none, []⟩

def analyzeBody (scan : BranchScan Inst) : Pass (BranchScan Inst) (BranchAnalysis Inst) :=
  match scan.position.retreat with
  | none => .leave (scan.answer false)
  | some (inst, position) =>
      if inst.isDebugValue then .again { scan with position }
      else if !inst.isUnpredicatedTerminator then .leave (scan.answer false)
      else if !inst.isBranch then .leave (scan.answer true)
      else
        match inst with
        | .JMP dst => .again (analyzeJMP AllowModify next { scan with position } dst)
        | _ => .leave (scan.answer true)

inductive ScanStep : BranchScan Inst → BranchScan Inst → Prop where
  | debugValue {above below TBB FBB Cond} (register : Nat) :
      ScanStep ⟨⟨.DBG_VALUE register :: above, below⟩, TBB, FBB, Cond⟩
        ⟨⟨above, .DBG_VALUE register :: below⟩, TBB, FBB, Cond⟩
  | overwrite {above below TBB FBB Cond} (dst : Nat) :
      AllowModify = false →
      ScanStep ⟨⟨.JMP dst :: above, below⟩, TBB, FBB, Cond⟩
        ⟨⟨above, .JMP dst :: below⟩, some dst, FBB, Cond⟩
  | deleteAfter {above below TBB FBB Cond} (dst : Nat) :
      AllowModify = true → next ≠ some dst →
      ScanStep ⟨⟨.JMP dst :: above, below⟩, TBB, FBB, Cond⟩
        ⟨⟨above, [.JMP dst]⟩, some dst, none, []⟩
  | deleteJump {above below TBB FBB Cond} (dst : Nat) :
      AllowModify = true → next = some dst →
      ScanStep ⟨⟨.JMP dst :: above, below⟩, TBB, FBB, Cond⟩ ⟨⟨above, []⟩, none, none, []⟩

theorem analyzeBody_again {scan later : BranchScan Inst}
    (pass : analyzeBody AllowModify next scan = .again later) :
    ScanStep AllowModify next scan later := by
  rcases scan with ⟨⟨above, below⟩, TBB, FBB, Cond⟩
  cases above with
  | nil => cases pass
  | cons inst above =>
      cases inst with
      | DBG_VALUE register =>
          rw [← Pass.again.inj pass]
          exact .debugValue register
      | JMP dst =>
          rw [← Pass.again.inj pass, analyzeJMP]
          cases AllowModify with
          | false => exact .overwrite dst rfl
          | true =>
              by_cases fallsThrough : next = some dst
              · rw [if_neg (by decide), if_pos fallsThrough, Cursor.eraseToEnd_eraseAfter rfl]
                exact .deleteJump dst rfl fallsThrough
              · rw [if_neg (by decide), if_neg fallsThrough]
                exact .deleteAfter dst rfl fallsThrough
      | ordinary inst => cases pass
      | Select dst lhs rhs imm src src2 => cases pass
      | J_rr op rA rX dst => cases pass
      | J_ri op rA imm dst => cases pass
      | RET => cases pass

theorem analyzeBody_leave {scan : BranchScan Inst} {analysis : BranchAnalysis Inst}
    (pass : analyzeBody AllowModify next scan = .leave analysis) :
    (scan.position.above = [] ∧ analysis = scan.answer false) ∨
      ∃ inst above, scan.position.above = inst :: above ∧ inst.isDebugValue = false ∧
        inst.isJMP = false ∧ analysis = scan.answer inst.isTerminator := by
  rcases scan with ⟨⟨above, below⟩, TBB, FBB, Cond⟩
  cases above with
  | nil => exact .inl ⟨rfl, (Pass.leave.inj pass).symm⟩
  | cons inst above =>
      refine .inr ⟨inst, above, rfl, ?_⟩
      cases inst with
      | DBG_VALUE register => cases pass
      | JMP dst => cases pass
      | ordinary inst => exact ⟨rfl, rfl, (Pass.leave.inj pass).symm⟩
      | Select dst lhs rhs imm src src2 => exact ⟨rfl, rfl, (Pass.leave.inj pass).symm⟩
      | J_rr op rA rX dst => exact ⟨rfl, rfl, (Pass.leave.inj pass).symm⟩
      | J_ri op rA imm dst => exact ⟨rfl, rfl, (Pass.leave.inj pass).symm⟩
      | RET => exact ⟨rfl, rfl, (Pass.leave.inj pass).symm⟩

variable {AllowModify next}

private theorem ScanStep.above_shorter {scan later : BranchScan Inst}
    (moves : ScanStep AllowModify next scan later) :
    later.position.above.length < scan.position.above.length := by
  cases moves <;> exact Nat.lt_succ_self _

variable (AllowModify next)

/-- The variant of the scan is the number of instructions above the iterator:
moving it to the end after a deletion brings none back. -/
def analyzeLoop : VariantLoop (BranchScan Inst) (BranchAnalysis Inst) where
  body := analyzeBody AllowModify next
  variant scan := scan.position.above.length
  decreases pass := (analyzeBody_again AllowModify next pass).above_shorter

def AnalyzeBranch (insts : List (MachineInstr Inst)) (TBB FBB : Option Nat)
    (Cond : List MachineOperand) : BranchAnalysis Inst :=
  (analyzeLoop AllowModify next).run ⟨.atEnd insts, TBB, FBB, Cond⟩

end Body

/-! ## What the scan keeps -/

def BranchAnalysis.exit (analysis : BranchAnalysis Inst) : BlockExit :=
  match analysis.TBB with
  | some dst => .jump dst
  | none => .fallThrough

def debugOrJMP (inst : MachineInstr Inst) : Bool := inst.isDebugValue || inst.isJMP

/-- Below the iterator are only debug values and jumps, and control that
reaches them leaves the block as reported so far. -/
structure BranchScan.Reports (scan : BranchScan Inst) : Prop where
  unconditional : scan.FBB = none ∧ scan.Cond = []
  below : ∀ inst ∈ scan.position.below, debugOrJMP inst = true
  exit : ∀ taken, blockExit scan.position.below taken = (scan.answer false).exit

section Invariants

variable {AllowModify : Bool} {next : Option Nat}

theorem ScanStep.reports {scan later : BranchScan Inst}
    (moves : ScanStep AllowModify next scan later) (reports : scan.Reports) :
    later.Reports := by
  cases moves with
  | debugValue register =>
      refine ⟨reports.unconditional, ?_, reports.exit⟩
      intro inst member
      rcases List.mem_cons.mp member with rfl | member
      · rfl
      · exact reports.below inst member
  | overwrite dst plain =>
      refine ⟨reports.unconditional, ?_, fun _ => rfl⟩
      intro inst member
      rcases List.mem_cons.mp member with rfl | member
      · rfl
      · exact reports.below inst member
  | deleteAfter dst modifies jumps =>
      refine ⟨⟨rfl, rfl⟩, ?_, fun _ => rfl⟩
      intro inst member
      rw [List.mem_singleton.mp member]
      rfl
  | deleteJump dst modifies falls =>
      refine ⟨⟨rfl, rfl⟩, ?_, fun _ => rfl⟩
      intro inst member
      cases member

theorem ScanStep.sameExits {scan later : BranchScan Inst}
    (moves : ScanStep AllowModify next scan later) :
    SameExits next scan.position.toList later.position.toList := by
  cases moves with
  | debugValue register =>
      simp only [Cursor.toList, List.reverse_cons, List.append_assoc, List.singleton_append]
      exact SameExits.refl _
  | overwrite dst plain =>
      simp only [Cursor.toList, List.reverse_cons, List.append_assoc, List.singleton_append]
      exact SameExits.refl _
  | deleteAfter dst modifies jumps =>
      simp only [Cursor.toList, List.reverse_cons, List.append_assoc, List.singleton_append]
      exact SameExits.append _ fun _ => rfl
  | deleteJump dst modifies falls =>
      simp only [Cursor.toList, List.reverse_cons, List.append_assoc, List.singleton_append]
      refine SameExits.append _ fun _ => ?_
      rw [falls]
      rfl

def beforeTerminators (insts : List (MachineInstr Inst)) : List (MachineInstr Inst) :=
  insts.takeWhile (fun inst => !inst.isTerminator)

private theorem beforeTerminators_append_JMP (above below : List (MachineInstr Inst)) (dst : Nat) :
    beforeTerminators (above ++ .JMP dst :: below) = beforeTerminators above := by
  induction above with
  | nil => rfl
  | cons inst above induction =>
      simp only [beforeTerminators, List.cons_append, List.takeWhile_cons]
      split
      · exact congrArg (inst :: ·) induction
      · rfl

private theorem ScanStep.beforeTerminators_eq {scan later : BranchScan Inst}
    (moves : ScanStep AllowModify next scan later) :
    beforeTerminators later.position.toList = beforeTerminators scan.position.toList := by
  cases moves with
  | debugValue register => simp [Cursor.toList]
  | overwrite dst plain => simp [Cursor.toList]
  | deleteAfter dst modifies jumps => simp [Cursor.toList, beforeTerminators_append_JMP]
  | deleteJump dst modifies falls => simp [Cursor.toList, beforeTerminators_append_JMP]

def stopsAtTerminator : List (MachineInstr Inst) → Bool
  | [] => false
  | inst :: above => if debugOrJMP inst then stopsAtTerminator above else inst.isTerminator

private theorem ScanStep.stopsAtTerminator_eq {scan later : BranchScan Inst}
    (moves : ScanStep AllowModify next scan later) :
    stopsAtTerminator later.position.above = stopsAtTerminator scan.position.above := by
  cases moves <;> rfl

theorem AnalyzeBranch_failed (AllowModify : Bool) (next : Option Nat)
    (insts : List (MachineInstr Inst)) (TBB FBB : Option Nat) (Cond : List MachineOperand) :
    (AnalyzeBranch AllowModify next insts TBB FBB Cond).failed =
      stopsAtTerminator insts.reverse := by
  refine (analyzeLoop AllowModify next).run_conserves
    (fun pass => (analyzeBody_again AllowModify next pass).stopsAtTerminator_eq) ?_ _
  intro scan analysis pass
  rcases analyzeBody_leave AllowModify next pass with
    ⟨above, rfl⟩ | ⟨inst, rest, above, real, noJump, rfl⟩
  · rw [above]
    rfl
  · rw [above, stopsAtTerminator, debugOrJMP, real, noJump]
    rfl

private theorem ScanStep.above_prefix {scan later : BranchScan Inst}
    (moves : ScanStep AllowModify next scan later) :
    later.position.above.reverse <+: scan.position.above.reverse := by
  cases moves <;> exact ⟨_, List.reverse_cons.symm⟩

theorem AnalyzeBranch_sameExits (AllowModify : Bool) (next : Option Nat)
    (insts : List (MachineInstr Inst)) (TBB FBB : Option Nat) (Cond : List MachineOperand) :
    SameExits next insts (AnalyzeBranch AllowModify next insts TBB FBB Cond).insts := by
  refine @VariantLoop.run_invariant _ _ (analyzeLoop AllowModify next)
    (fun scan => SameExits next insts scan.position.toList)
    (fun analysis => SameExits next insts analysis.insts) ?_ ?_ _ ?_
  · intro scan later same pass
    exact same.trans (analyzeBody_again AllowModify next pass).sameExits
  · intro scan analysis same pass
    rcases analyzeBody_leave AllowModify next pass with ⟨_, rfl⟩ | ⟨_, _, _, _, _, rfl⟩
    · exact same
    · exact same
  · rw [Cursor.toList_atEnd]
    exact SameExits.refl insts

private theorem AnalyzeBranch_beforeTerminators (AllowModify : Bool) (next : Option Nat)
    (insts : List (MachineInstr Inst)) (TBB FBB : Option Nat) (Cond : List MachineOperand) :
    beforeTerminators (AnalyzeBranch AllowModify next insts TBB FBB Cond).insts =
      beforeTerminators insts := by
  have conserved := (analyzeLoop AllowModify next).run_conserves
    (fun pass => (analyzeBody_again AllowModify next pass).beforeTerminators_eq)
    (fun {scan analysis} pass => show beforeTerminators analysis.insts = _ by
      rcases analyzeBody_leave AllowModify next pass with ⟨_, rfl⟩ | ⟨_, _, _, _, _, rfl⟩
      · rfl
      · rfl)
    ⟨.atEnd insts, TBB, FBB, Cond⟩
  rw [Cursor.toList_atEnd] at conserved
  exact conserved

/-- The scan of the instructions that are left, from their end, arrives where
the scan is. -/
theorem ScanStep.replays {scan later : BranchScan Inst}
    (moves : ScanStep AllowModify next scan later)
    (replays : (analyzeLoop AllowModify next).run ⟨.atEnd scan.position.toList, none, none, []⟩ =
      (analyzeLoop AllowModify next).run scan)
    (pass : analyzeBody AllowModify next scan = .again later) :
    (analyzeLoop AllowModify next).run ⟨.atEnd later.position.toList, none, none, []⟩ =
      (analyzeLoop AllowModify next).run later := by
  have goesOn := replays.trans ((analyzeLoop AllowModify next).run_eq_of_again pass)
  cases moves with
  | debugValue register =>
      simp only [Cursor.toList, List.reverse_cons, List.append_assoc, List.singleton_append]
        at goesOn ⊢
      exact goesOn
  | overwrite dst plain =>
      simp only [Cursor.toList, List.reverse_cons, List.append_assoc, List.singleton_append]
        at goesOn ⊢
      exact goesOn
  | deleteAfter dst modifies jumps =>
      -- The jump that was kept is kept again.
      refine (analyzeLoop AllowModify next).run_eq_of_again ?_
      subst modifies
      simp [analyzeLoop, analyzeBody, analyzeJMP, Cursor.toList, Cursor.atEnd, Cursor.retreat,
        Cursor.eraseAfter, MachineInstr.isDebugValue, MachineInstr.isUnpredicatedTerminator,
        MachineInstr.isTerminator, MachineInstr.isBranch, jumps]
  | deleteJump dst modifies falls => simp [Cursor.toList, Cursor.atEnd]

theorem AnalyzeBranch_replays (AllowModify : Bool) (next : Option Nat)
    (insts : List (MachineInstr Inst)) :
    AnalyzeBranch AllowModify next (AnalyzeBranch AllowModify next insts none none []).insts
      none none [] = AnalyzeBranch AllowModify next insts none none [] := by
  refine @VariantLoop.run_invariant _ _ (analyzeLoop AllowModify next)
    (fun scan => (analyzeLoop AllowModify next).run
        ⟨.atEnd scan.position.toList, none, none, []⟩ = (analyzeLoop AllowModify next).run scan)
    (fun analysis => AnalyzeBranch AllowModify next analysis.insts none none [] = analysis)
    ?_ ?_ _ ?_
  · intro scan later replays pass
    exact (analyzeBody_again AllowModify next pass).replays replays pass
  · intro scan analysis replays pass
    have finishes := (analyzeLoop AllowModify next).run_eq_of_leave pass
    rw [finishes] at replays
    rcases analyzeBody_leave AllowModify next pass with ⟨_, rfl⟩ | ⟨_, _, _, _, _, rfl⟩
    · exact replays
    · exact replays
  · rw [Cursor.toList_atEnd]

/-! ## Blocks whose terminators are unconditional jumps -/

def JumpsLast (insts : List (MachineInstr Inst)) : Prop :=
  ∃ above below, insts = above ++ below ∧ (∀ inst ∈ above, inst.isTerminator = false) ∧
    ∀ inst ∈ below, debugOrJMP inst = true

structure BranchAnalysis.Reported (analysis : BranchAnalysis Inst) : Prop where
  unconditional : analysis.FBB = none ∧ analysis.Cond = []
  jumpsLast : JumpsLast analysis.insts
  exit : ∀ taken, blockExit analysis.insts taken = analysis.exit

theorem BranchScan.Reports.reported {scan : BranchScan Inst} (reports : scan.Reports)
    (straight : ∀ inst ∈ scan.position.above, inst.isTerminator = false) :
    (scan.answer false).Reported := by
  have above : ∀ inst ∈ scan.position.above.reverse, inst.isTerminator = false :=
    fun inst member => straight inst (List.mem_reverse.mp member)
  refine ⟨reports.unconditional, ⟨_, _, rfl, above, reports.below⟩, fun taken => ?_⟩
  rw [← reports.exit taken]
  exact congrFun (blockExit_append_of_not_terminators above _) taken

theorem AnalyzeBranch_reported (AllowModify : Bool) (next : Option Nat)
    {insts : List (MachineInstr Inst)} (last : terminatorsLast insts = true)
    (analyzed : (AnalyzeBranch AllowModify next insts none none []).failed = false) :
    (AnalyzeBranch AllowModify next insts none none []).Reported := by
  revert analyzed
  refine @VariantLoop.run_invariant _ _ (analyzeLoop AllowModify next)
    (fun scan => scan.Reports ∧ scan.position.above.reverse <+: insts)
    (fun analysis => analysis.failed = false → analysis.Reported) ?_ ?_ _ ?_
  · intro scan later invariant pass
    have moves := analyzeBody_again AllowModify next pass
    exact ⟨moves.reports invariant.1, moves.above_prefix.trans invariant.2⟩
  · intro scan analysis invariant pass analyzed
    rcases analyzeBody_leave AllowModify next pass with
      ⟨above, rfl⟩ | ⟨inst, rest, above, real, noJump, rfl⟩
    · refine invariant.1.reported ?_
      rw [above]
      intro inst member
      cases member
    · have straight : inst.isTerminator = false := analyzed
      rw [straight]
      refine invariant.1.reported ?_
      rcases invariant.2 with ⟨below, split⟩
      rw [above, List.reverse_cons, List.append_assoc] at split
      rw [← split] at last
      have restStraight := not_terminator_of_above last straight real
      rw [above]
      intro other member
      rcases List.mem_cons.mp member with rfl | member
      · exact straight
      · exact restStraight other (List.mem_reverse.mpr member)
  · refine ⟨⟨⟨rfl, rfl⟩, ?_, fun _ => rfl⟩, ?_⟩
    · intro inst member
      cases member
    · simp [Cursor.atEnd]

end Invariants

/-! ## The answer and the block it leaves -/

/-- In both modes the answer is the same, and it is the truth about the block
that is left. -/
theorem AnalyzeBranch_truthful (next : Option Nat) {insts : List (MachineInstr Inst)}
    (last : terminatorsLast insts = true) :
    (∀ AllowModify, (AnalyzeBranch AllowModify next insts none none []).failed = false →
      (AnalyzeBranch AllowModify next insts none none []).FBB = none ∧
      (AnalyzeBranch AllowModify next insts none none []).Cond = [] ∧
      ∀ taken, blockExit (AnalyzeBranch AllowModify next insts none none []).insts taken =
        (AnalyzeBranch AllowModify next insts none none []).exit) ∧
    ((AnalyzeBranch true next insts none none []).failed = false ↔
      (AnalyzeBranch false next insts none none []).failed = false) ∧
    ((AnalyzeBranch false next insts none none []).failed = false →
      (AnalyzeBranch true next insts none none []).exit.inLayout next =
        (AnalyzeBranch false next insts none none []).exit.inLayout next) := by
  have agrees : (AnalyzeBranch true next insts none none []).failed =
      (AnalyzeBranch false next insts none none []).failed := by
    rw [AnalyzeBranch_failed, AnalyzeBranch_failed]
  refine ⟨?_, by rw [agrees], ?_⟩
  · intro AllowModify analyzed
    have reported := AnalyzeBranch_reported AllowModify next last analyzed
    exact ⟨reported.unconditional.1, reported.unconditional.2, reported.exit⟩
  · intro analyzed
    have plain := AnalyzeBranch_reported false next last analyzed
    have modified := AnalyzeBranch_reported true next last (agrees.trans analyzed)
    have taken : Nat → Bool := fun _ => false
    calc (AnalyzeBranch true next insts none none []).exit.inLayout next
        = (blockExit (AnalyzeBranch true next insts none none []).insts taken).inLayout next := by
          rw [modified.exit]
      _ = (blockExit insts taken).inLayout next :=
          (AnalyzeBranch_sameExits true next insts none none [] taken).symm
      _ = (blockExit (AnalyzeBranch false next insts none none []).insts taken).inLayout next :=
          AnalyzeBranch_sameExits false next insts none none [] taken
      _ = (AnalyzeBranch false next insts none none []).exit.inLayout next := by
          rw [plain.exit]

theorem AnalyzeBranch_truthful_dead_jump :
    terminatorsLast [.ordinary 0, .JMP 7, .DBG_VALUE 3, .JMP 2] = true ∧
    ∀ taken, blockExit (AnalyzeBranch true (some 2)
      [.ordinary 0, .JMP 7, .DBG_VALUE 3, .JMP 2] none none []).insts taken = .jump 7 :=
  ⟨rfl, ((AnalyzeBranch_truthful (some 2) rfl).1 true rfl).2.2⟩

/-- Every execution of the block that is left, in any function, traps in it or
leaves it for the destination that the answer names. -/
theorem AnalyzeBranch_leaves {World : Type}
    (effect : Inst → MachineContext World → Option (MachineContext World))
    (visible : Nat → Bool) (function : MachineFunction Inst) (AllowModify : Bool)
    (next : Option Nat) {insts : List (MachineInstr Inst)} (last : terminatorsLast insts = true)
    (analyzed : (AnalyzeBranch AllowModify next insts none none []).failed = false)
    (block : Nat) (context : MachineContext World) :
    (∃ trace inst rest after,
      Reaches (step effect visible function)
        (.running block (AnalyzeBranch AllowModify next insts none none []).insts context) trace
        (.running block (.ordinary inst :: rest) after) ∧ effect inst after = none) ∨
    ∃ trace config after,
      Reaches (step effect visible function)
        (.running block (AnalyzeBranch AllowModify next insts none none []).insts context) trace
        config ∧
      step effect visible function config =
        (AnalyzeBranch AllowModify next insts none none []).exit.leave visible function block
          after := by
  have reported := AnalyzeBranch_reported AllowModify next last analyzed
  rcases leavesBlock effect visible function block
      (AnalyzeBranch AllowModify next insts none none []).insts context with
    traps | ⟨trace, config, taken, after, reaches, exit⟩
  · exact .inl traps
  · refine .inr ⟨trace, config, after, reaches, ?_⟩
    rw [exit, reported.exit]

/-- With modification only dead control flow is removed, whatever the answer,
and a second call changes nothing. -/
theorem AnalyzeBranch_removes_dead (next : Option Nat) (insts : List (MachineInstr Inst)) :
    Completes (analyzeBody true next) ⟨.atEnd insts, none, none, []⟩
      (AnalyzeBranch true next insts none none []) ∧
    (∀ taken, (blockExit (AnalyzeBranch true next insts none none []).insts taken).inLayout next =
      (blockExit insts taken).inLayout next) ∧
    beforeTerminators (AnalyzeBranch true next insts none none []).insts =
      beforeTerminators insts ∧
    AnalyzeBranch true next (AnalyzeBranch true next insts none none []).insts none none [] =
      AnalyzeBranch true next insts none none [] := by
  refine ⟨(analyzeLoop true next).completes_run _, fun taken => ?_, ?_, ?_⟩
  · exact (AnalyzeBranch_sameExits true next insts none none [] taken).symm
  · exact AnalyzeBranch_beforeTerminators true next insts none none []
  · exact AnalyzeBranch_replays true next insts

end BpfBackend.CodeGen
