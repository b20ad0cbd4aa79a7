import BpfBackend.CodeGen.SelectExpansion
import Mathlib.Data.List.Find
import Mathlib.Algebra.Order.Ring.Nat

/-! # Expanded functions execute alike

A function and the function with one `Select` expanded have the same traces:
the jump and the two new blocks are silent, and the PHI assigns what the
`Select` did.
-/

namespace BpfBackend.CodeGen

open MC Simulation

variable {Inst World : Type}

namespace SelectSite

variable {site : SelectSite Inst} {function : MachineFunction Inst}

/-! ## PHIs -/

private theorem valueFrom_setMBB {phi : MachinePhi} {fromMBB toMBB : Nat}
    (fresh : ∀ entry ∈ phi.incoming, entry.2 ≠ toMBB) :
    (phi.setMBB fromMBB toMBB).valueFrom toMBB = phi.valueFrom fromMBB := by
  have renamed : (phi.setMBB fromMBB toMBB).incoming.find? (·.2 = toMBB) =
      (phi.incoming.find? (·.2 = fromMBB)).map fun entry =>
        (entry.1, if entry.2 = fromMBB then toMBB else entry.2) := by
    rw [MachinePhi.setMBB, List.find?_map]
    congr 1
    apply List.find?_congr
    intro entry member
    have different := fresh entry member
    by_cases moved : entry.2 = fromMBB
    · simp [moved]
    · simp [moved, different]
  rw [MachinePhi.valueFrom, renamed, Option.map_map]
  rfl

private theorem valueFrom_setMBB_of_ne {phi : MachinePhi} {fromMBB toMBB predecessor : Nat}
    (notFrom : predecessor ≠ fromMBB) (notTo : predecessor ≠ toMBB) :
    (phi.setMBB fromMBB toMBB).valueFrom predecessor = phi.valueFrom predecessor := by
  have unchanged : (phi.setMBB fromMBB toMBB).incoming.find? (·.2 = predecessor) =
      (phi.incoming.find? (·.2 = predecessor)).map fun entry =>
        (entry.1, if entry.2 = fromMBB then toMBB else entry.2) := by
    rw [MachinePhi.setMBB, List.find?_map]
    congr 1
    apply List.find?_congr
    intro entry _
    by_cases moved : entry.2 = fromMBB
    · simp [moved, Ne.symm notFrom, Ne.symm notTo]
    · simp [moved]
  rw [MachinePhi.valueFrom, unchanged, Option.map_map]
  rfl

private theorem assignPhis_congr {source otherSource : Nat} {before : MachineContext World}
    {phis : List MachinePhi} {convert : MachinePhi → MachinePhi}
    (sameDst : ∀ phi ∈ phis, (convert phi).dst = phi.dst)
    (sameValue : ∀ phi ∈ phis, (convert phi).valueFrom otherSource = phi.valueFrom source)
    (context : MachineContext World) :
    assignPhis otherSource before (phis.map convert) context =
      assignPhis source before phis context := by
  induction phis generalizing context with
  | nil => rfl
  | cons phi rest induction =>
      have restSame := induction
        (fun other member => sameDst other (List.mem_cons_of_mem _ member))
        (fun other member => sameValue other (List.mem_cons_of_mem _ member))
      simp only [List.map_cons, assignPhis, sameDst phi List.mem_cons_self,
        sameValue phi List.mem_cons_self, restSame]

/-- Where control comes from in the two functions: the second half of the block
of the site takes the place of the block itself, and then goes to one of its
successors. -/
def SameSource (site : SelectSite Inst) (function : MachineFunction Inst)
    (source otherSource target : Nat) : Prop :=
  (source = site.thisMBB.number ∧ otherSource = site.copy1MBB ∧
      target ∈ site.thisMBB.successors) ∨
    (source ≠ site.thisMBB.number ∧ source < function.nextNumber ∧ otherSource = source)

section Simulation

variable (isSite : site.IsSite function) (wellFormed : function.WellFormed)

include isSite wellFormed

private theorem IsSite.assignPhis_updatePHIs {block : MachineBasicBlock Inst}
    (member : block ∈ function.blocks) {source otherSource : Nat}
    (same : site.SameSource function source otherSource block.number)
    (context : MachineContext World) :
    assignPhis otherSource context (site.updatePHIs block).phis context =
      assignPhis source context block.phis context := by
  have copy1 := isSite.copy1
  rcases same with ⟨rfl, rfl, listed⟩ | ⟨notThis, old, rfl⟩
  · rw [updatePHIs, if_pos listed]
    apply assignPhis_congr
    · exact fun phi _ => rfl
    · intro phi phiMember
      apply valueFrom_setMBB
      intro entry entryMember
      have old := wellFormed.incoming block member phi phiMember entry entryMember
      omega
  · unfold updatePHIs
    split
    · apply assignPhis_congr
      · exact fun phi _ => rfl
      · exact fun phi _ => valueFrom_setMBB_of_ne notThis (by omega)
    · rfl

end Simulation

/-! ## Related configurations -/

/-- In the first half of the block of the site the jump stands for the
`Select`; the second half has a block of its own. -/
inductive Related (site : SelectSite Inst) (function : MachineFunction Inst) :
    Config Inst World → Config Inst World → Prop where
  | halted : Related site function .halted .halted
  | elsewhere {block : Nat} {rest : List (MachineInstr Inst)}
      {context : MachineContext World} :
      block ≠ site.thisMBB.number → block < function.nextNumber →
      (∀ target ∈ exits rest (layoutNext function.blocks block),
        target < function.nextNumber) →
      Related site function (.running block rest context) (.running block rest context)
  | before {front : List (MachineInstr Inst)} {imm : CondCode}
      {context : MachineContext World} :
      front.all (!·.isTerminator) = true → selectBranch imm = .ok site.op →
      Related site function
        (.running site.thisMBB.number
          (front ++ .Select site.dst site.lhs site.rhs imm site.src site.src2 :: site.after)
          context)
        (.running site.thisMBB.number
          (front ++ [.J_rr site.op site.lhs site.rhs site.copy1MBB]) context)
  | after {rest : List (MachineInstr Inst)} {context : MachineContext World} :
      (∀ target ∈ exits rest (layoutNext function.blocks site.thisMBB.number),
        target ∈ site.thisMBB.successors) →
      Related site function (.running site.thisMBB.number rest context)
        (.running site.copy1MBB rest context)

def Matched (site : SelectSite Inst) (function : MachineFunction Inst)
    (left right : Option (Option (Event Inst World) × Config Inst World)) : Prop :=
  ∃ event next otherNext, left = some (event, next) ∧ right = some (event, otherNext) ∧
    Related site function next otherNext

private theorem matched_trapped (context : MachineContext World) :
    Matched site function (some (some (.trapped context), .halted))
      (some (some (.trapped context), .halted)) :=
  ⟨_, _, _, rfl, rfl, .halted⟩

section Steps

variable (effect : Inst → MachineContext World → Option (MachineContext World))
variable (visible : Nat → Bool)

theorem matched_step {block otherBlock : Nat} {rest : List (MachineInstr Inst)}
    (next : layoutNext (site.expand function).blocks otherBlock =
      layoutNext function.blocks block)
    (transfers : ∀ target ∈ exits rest (layoutNext function.blocks block),
      ∀ context : MachineContext World,
        Matched site function (transfer visible function block target context)
          (transfer visible (site.expand function) otherBlock target context))
    (continues : ∀ (remaining : List (MachineInstr Inst)) (context : MachineContext World),
      exits remaining (layoutNext function.blocks block) ⊆
        exits rest (layoutNext function.blocks block) →
      Related site function (.running block remaining context)
        (.running otherBlock remaining context))
    (context : MachineContext World) :
    Matched site function (step effect visible function (.running block rest context))
      (step effect visible (site.expand function) (.running otherBlock rest context)) := by
  cases rest with
  | nil =>
      simp only [step, next]
      cases fallThrough : layoutNext function.blocks block with
      | none => exact matched_trapped context
      | some target =>
          rw [fallThrough] at transfers
          exact transfers target (List.mem_singleton.mpr rfl) context
  | cons inst rest =>
      cases inst with
      | ordinary inst =>
          simp only [step]
          cases effect inst context with
          | none => exact matched_trapped context
          | some after =>
              exact ⟨_, _, _, rfl, rfl, continues rest after (List.Subset.refl _)⟩
      | DBG_VALUE register =>
          exact ⟨_, _, _, rfl, rfl, continues rest context (List.Subset.refl _)⟩
      | Select dst lhs rhs imm src src2 =>
          exact ⟨_, _, _, rfl, rfl, continues rest _ (List.Subset.refl _)⟩
      | J_rr op rA rX dst =>
          simp only [step]
          split
          · exact transfers dst List.mem_cons_self context
          · exact ⟨_, _, _, rfl, rfl, continues rest context (List.subset_cons_self _ _)⟩
      | J_ri op rA imm dst =>
          simp only [step]
          split
          · exact transfers dst List.mem_cons_self context
          · exact ⟨_, _, _, rfl, rfl, continues rest context (List.subset_cons_self _ _)⟩
      | JMP dst => exact transfers dst (List.mem_singleton.mpr rfl) context
      | RET => exact ⟨_, _, _, rfl, rfl, .halted⟩

section Site

variable (isSite : site.IsSite function) (wellFormed : function.WellFormed)

include isSite wellFormed

private theorem IsSite.matched_transfer {source otherSource target : Nat}
    (same : site.SameSource function source otherSource target)
    (old : target < function.nextNumber) (context : MachineContext World) :
    Matched site function (transfer visible function source target context)
      (transfer visible (site.expand function) otherSource target context) := by
  rw [transfer_eq, transfer_eq, isSite.block?_expand old]
  cases found : function.block? target with
  | none => exact matched_trapped context
  | some block =>
      have number := number_of_block? found
      have member := mem_of_block? found
      subst number
      have phis : (site.image block).phis = (site.updatePHIs block).phis := by
        unfold image
        split
        · rename_i isThis
          rw [isThis, isSite.found] at found
          cases found
          rfl
        · rfl
      simp only [Option.map_some, phis,
        isSite.assignPhis_updatePHIs wellFormed member same context]
      cases assignPhis source context block.phis context with
      | none => exact matched_trapped context
      | some entered =>
          refine ⟨_, _, _, rfl, rfl, ?_⟩
          by_cases isThis : block.number = site.thisMBB.number
          · rw [isThis, isSite.found] at found
            cases found
            rcases isSite.insts with ⟨imm, insts, branch⟩
            have image : (site.image site.thisMBB).insts =
                site.before ++ [.J_rr site.op site.lhs site.rhs site.copy1MBB] := by
              rw [SelectSite.image, if_pos rfl]
              rfl
            rw [image, insts]
            exact .before (isSite.straight wellFormed) branch
          · rw [image, if_neg isThis, insts_updatePHIs]
            apply Related.elsewhere isThis old
            intro next nextMember
            exact wellFormed.successors block member next
              (wellFormed.exitsListed block member nextMember)

theorem IsSite.simulates_select (copy0Hidden : visible site.copy0MBB = false)
    (copy1Hidden : visible site.copy1MBB = false) {imm : CondCode}
    (branch : selectBranch imm = .ok site.op) (context : MachineContext World) :
    ∃ count final,
      Silent (step effect visible (site.expand function)) (count + 1)
        (.running site.thisMBB.number [.J_rr site.op site.lhs site.rhs site.copy1MBB] context)
        final ∧
      Related site function
        (.running site.thisMBB.number site.after (context.setReg site.dst
          (if imm.holds (context.regs site.lhs) (context.regs site.rhs) then
            context.regs site.src else context.regs site.src2)))
        final := by
  have thisOld := isSite.this_lt wellFormed
  have copy0 := isSite.copy0
  have copy1 := isSite.copy1
  have copies : site.copy0MBB ≠ site.thisMBB.number := by omega
  rcases isSite.layoutNext_site wellFormed with ⟨thisNext, copy0Next, -⟩
  have edges : ∀ target ∈ exits site.after (layoutNext function.blocks site.thisMBB.number),
      target ∈ site.thisMBB.successors := by
    rw [← isSite.exits_thisMBB wellFormed]
    exact wellFormed.exitsListed _ isSite.member
  rw [← taken_of_selectBranch branch]
  cases taken : site.op.taken (context.regs site.lhs) (context.regs site.rhs) with
  | true =>
      refine ⟨0, .running site.copy1MBB site.after
        (context.setReg site.dst (context.regs site.src)), ?_, .after edges⟩
      refine .head ?_ (.refl _)
      simp [step, taken, transfer_eq, isSite.block?_copy1 wellFormed, copy1Block, assignPhis,
        MachinePhi.valueFrom, copies, copy1Hidden]
  | false =>
      refine ⟨2, .running site.copy1MBB site.after
        (context.setReg site.dst (context.regs site.src2)), ?_, .after edges⟩
      have notTaken : step effect visible (site.expand function)
          (.running site.thisMBB.number
            [.J_rr site.op site.lhs site.rhs site.copy1MBB] context) =
          some (none, .running site.thisMBB.number [] context) := by
        simp [step, taken]
      have toCopy0 : step effect visible (site.expand function)
          (.running site.thisMBB.number [] context) =
          some (none, .running site.copy0MBB [] context) := by
        simp [step, thisNext, transfer_eq, isSite.block?_copy0 wellFormed, copy0Block,
          assignPhis, copy0Hidden]
      have toCopy1 : step effect visible (site.expand function)
          (.running site.copy0MBB [] context) =
          some (none, .running site.copy1MBB site.after
            (context.setReg site.dst (context.regs site.src2))) := by
        simp [step, copy0Next, transfer_eq, isSite.block?_copy1 wellFormed, copy1Block,
          assignPhis, MachinePhi.valueFrom, copy1Hidden]
      exact .head notTaken (.head toCopy0 (.head toCopy1 (.refl _)))

theorem IsSite.simulates (copy0Hidden : visible site.copy0MBB = false)
    (copy1Hidden : visible site.copy1MBB = false) :
    Simulates (step effect visible function) (step effect visible (site.expand function))
      (Related site function) := by
  have matched : ∀ {config other : Config Inst World} {event next},
      Matched site function (step effect visible function config)
        (step effect visible (site.expand function) other) →
      step effect visible function config = some (event, next) →
      ∃ otherNext, step effect visible (site.expand function) other =
        some (event, otherNext) ∧ Related site function next otherNext := by
    intro config other event next holds given
    rcases holds with ⟨_, _, otherNext, steps, otherSteps, related⟩
    rw [steps] at given
    cases given
    exact ⟨otherNext, otherSteps, related⟩
  constructor
  · intro config other related halts
    cases related with
    | halted => rfl
    | _ => exact absurd halts (step_running_ne_none effect visible function _ _ _)
  · intro config other event next related steps
    cases related with
    | halted => cases steps
    | elsewhere notThis old edges =>
        refine .inl (matched (matched_step effect visible
          (isSite.layoutNext_expand old notThis) ?_ ?_ _) steps)
        · intro target member context
          exact isSite.matched_transfer visible wellFormed (.inr ⟨notThis, old, rfl⟩)
            (edges target member) context
        · intro remaining context fewer
          exact .elsewhere notThis old fun target member => edges target (fewer member)
    | before straight branch =>
        rename_i front imm context
        cases front with
        | nil =>
            cases steps
            exact .inr ⟨rfl, isSite.simulates_select effect visible wellFormed copy0Hidden
              copy1Hidden branch context⟩
        | cons inst rest =>
            rw [List.all_cons, Bool.and_eq_true] at straight
            refine .inl (matched ?_ steps)
            cases inst with
            | ordinary inst =>
                simp only [List.cons_append, step]
                cases effect inst context with
                | none => exact matched_trapped context
                | some after => exact ⟨_, _, _, rfl, rfl, .before straight.2 branch⟩
            | DBG_VALUE register => exact ⟨_, _, _, rfl, rfl, .before straight.2 branch⟩
            | Select dst lhs rhs imm src src2 =>
                exact ⟨_, _, _, rfl, rfl, .before straight.2 branch⟩
            | _ => cases straight.1
    | after edges =>
        refine .inl (matched (matched_step effect visible
          (isSite.layoutNext_site wellFormed).2.2 ?_ ?_ _) steps)
        · intro target member context
          have listed := edges target member
          exact isSite.matched_transfer visible wellFormed (.inl ⟨rfl, rfl, listed⟩)
            (wellFormed.successors _ isSite.member target listed) context
        · intro remaining context fewer
          exact .after fun target member => edges target (fewer member)

end Site

end Steps

private theorem IsSite.related_start (isSite : site.IsSite function)
    (wellFormed : function.WellFormed)
    (context : MachineContext World) :
    Related site function (function.start context) ((site.expand function).start context) := by
  cases blocks : function.blocks with
  | nil =>
      have member := isSite.member
      rw [blocks] at member
      cases member
  | cons entry rest =>
      have member : entry ∈ function.blocks := by
        rw [blocks]
        exact List.mem_cons_self
      have otherStart : (site.expand function).start context =
          .running (site.image entry).number (site.image entry).insts context := by
        rw [MachineFunction.start, expand, blocks, List.flatMap_cons, expandBlock_eq]
        rfl
      rw [otherStart, MachineFunction.start, blocks, number_image]
      dsimp only
      by_cases isThis : entry.number = site.thisMBB.number
      · have same : entry = site.thisMBB := by
          have found : function.block? entry.number = some entry := by
            rw [MachineFunction.block?_eq, blocks, List.find?_cons]
            simp
          rw [isThis, isSite.found] at found
          exact (Option.some.inj found).symm
        subst same
        rcases isSite.insts with ⟨imm, insts, branch⟩
        rw [image, if_pos rfl, insts]
        exact .before (isSite.straight wellFormed) branch
      · rw [image, if_neg isThis, insts_updatePHIs]
        apply Related.elsewhere isThis (wellFormed.numbered entry member)
        intro next nextMember
        exact wellFormed.successors entry member next
          (wellFormed.exitsListed entry member nextMember)

end SelectSite

/-! ## Expanding one `Select` after another -/

def SelectsLowered (function : MachineFunction Inst) : Prop :=
  ∀ block ∈ function.blocks, ∀ dst lhs rhs imm src src2,
    .Select dst lhs rhs imm src src2 ∈ block.insts → imm.HasBranch

/-- Some of the `Select`s have been replaced, one after another. -/
inductive Expands : MachineFunction Inst → MachineFunction Inst → Prop where
  | refl (function : MachineFunction Inst) : Expands function function
  | tail {function expanded next : MachineFunction Inst} {BB MI : Nat} :
      Expands function expanded → EmitInstrWithCustomInserter expanded BB MI = .ok next →
      Expands function next

def selectCount (function : MachineFunction Inst) : Nat :=
  (function.blocks.map fun block => block.insts.countP (·.isSelect)).sum

namespace SelectSite

variable {site : SelectSite Inst} {function : MachineFunction Inst}

private theorem IsSite.selectsLowered_expand (isSite : site.IsSite function)
    (lowered : SelectsLowered function) : SelectsLowered (site.expand function) := by
  rcases isSite.insts with ⟨siteImm, insts, -⟩
  intro block member dst lhs rhs imm src src2 select
  rcases mem_expand member with rfl | rfl | rfl | ⟨original, originalMember, -, rfl⟩
  · apply lowered _ isSite.member dst lhs rhs imm src src2
    rw [insts]
    simp only [thisBlock, List.mem_append, List.mem_singleton, reduceCtorEq, or_false] at select
    exact List.mem_append_left _ select
  · cases select
  · apply lowered _ isSite.member dst lhs rhs imm src src2
    rw [insts]
    exact List.mem_append_right _ (List.mem_cons_of_mem _ select)
  · rw [insts_updatePHIs] at select
    exact lowered original originalMember dst lhs rhs imm src src2 select

private theorem IsSite.selectCount_expand (isSite : site.IsSite function)
    (wellFormed : function.WellFormed) :
    selectCount (site.expand function) < selectCount function := by
  rcases isSite.insts with ⟨imm, insts, -⟩
  let count := fun block : MachineBasicBlock Inst => block.insts.countP (·.isSelect)
  have siteCount : ((site.expandBlock site.thisMBB).map count).sum + 1 = count site.thisMBB := by
    simp only [count, expandBlock_eq, image, if_pos, List.map_cons, List.map_nil, List.sum_cons,
      List.sum_nil, thisBlock, copy0Block, copy1Block, insts, List.countP_append,
      List.countP_cons, List.countP_nil, MachineInstr.isSelect]
    simp
    omega
  have otherCount : ∀ block, block.number ≠ site.thisMBB.number →
      ((site.expandBlock block).map count).sum = count block := by
    intro block different
    simp [count, expandBlock_eq, image, different]
  have same : ∀ block ∈ function.blocks, block.number = site.thisMBB.number →
      block = site.thisMBB := fun block member equal =>
    List.inj_on_of_nodup_map wellFormed.distinct member isSite.member equal
  have total : ∀ blocks : List (MachineBasicBlock Inst),
      (∀ block ∈ blocks, block.number = site.thisMBB.number → block = site.thisMBB) →
      ((blocks.flatMap site.expandBlock).map count).sum +
        blocks.countP (·.number = site.thisMBB.number) = (blocks.map count).sum := by
    intro blocks
    induction blocks with
    | nil => exact fun _ => rfl
    | cons block rest induction =>
        intro blockSame
        have restTotal := induction fun other member =>
          blockSame other (List.mem_cons_of_mem _ member)
        rw [List.flatMap_cons, List.map_append, List.sum_append, List.countP_cons,
          List.map_cons, List.sum_cons]
        by_cases isThis : block.number = site.thisMBB.number
        · have equal := blockSame block List.mem_cons_self isThis
          subst equal
          simp only [decide_true, if_true]
          omega
        · have blockCount := otherCount block isThis
          simp only [isThis, decide_false]
          simp only [Bool.false_eq_true, if_false]
          omega
  have occurs : 0 < function.blocks.countP (·.number = site.thisMBB.number) :=
    List.countP_pos_iff.mpr ⟨_, isSite.member, by simp⟩
  have functionTotal := total function.blocks same
  simp only [selectCount, expand]
  change ((function.blocks.flatMap site.expandBlock).map count).sum <
    (function.blocks.map count).sum
  omega

end SelectSite

def NoSelects (function : MachineFunction Inst) : Prop :=
  ∀ block ∈ function.blocks, ∀ inst ∈ block.insts, inst.isSelect = false

section Chain

variable {function expanded : MachineFunction Inst}

theorem Expands.keeps (expands : Expands function expanded)
    (wellFormed : function.WellFormed) (lowered : SelectsLowered function) :
    expanded.WellFormed ∧ SelectsLowered expanded ∧
      function.nextNumber ≤ expanded.nextNumber ∧
      ∀ (effect : Inst → MachineContext World → Option (MachineContext World))
        (context : MachineContext World) (trace : List (Event Inst World)),
        HasTrace (step effect (· < function.nextNumber) function)
            (function.start context) trace ↔
          HasTrace (step effect (· < function.nextNumber) expanded)
            (expanded.start context) trace := by
  induction expands with
  | refl => exact ⟨wellFormed, lowered, Nat.le_refl _, fun _ _ _ => Iff.rfl⟩
  | tail _ emitted induction =>
      rcases induction with ⟨kept, keptLowered, grows, sameTraces⟩
      rcases EmitInstrWithCustomInserter_cases emitted with ⟨site, isSite, rfl⟩
      have copy0 := isSite.copy0
      have copy1 := isSite.copy1
      refine ⟨isSite.wellFormed_expand kept, isSite.selectsLowered_expand keptLowered,
        Nat.le_add_right_of_le grows, ?_⟩
      intro effect context trace
      have simulates := isSite.simulates effect (· < function.nextNumber) kept
        (decide_eq_false (by omega)) (decide_eq_false (by omega))
      exact (sameTraces effect context trace).trans
        (simulates.hasTrace_iff (isSite.related_start kept context) trace)

private theorem block?_of_mem (wellFormed : function.WellFormed) {block : MachineBasicBlock Inst}
    (member : block ∈ function.blocks) : function.block? block.number = some block := by
  have occurs : (function.block? block.number).isSome = true :=
    List.find?_isSome.mpr ⟨block, member, decide_eq_true rfl⟩
  rcases Option.isSome_iff_exists.mp occurs with ⟨found, foundEq⟩
  rw [foundEq]
  exact congrArg some (List.inj_on_of_nodup_map wellFormed.distinct (mem_of_block? foundEq)
    member (number_of_block? foundEq))

/-- The error for an unimplemented condition code is never reached. -/
theorem exists_emit (wellFormed : function.WellFormed) (lowered : SelectsLowered function)
    {block : MachineBasicBlock Inst} (member : block ∈ function.blocks) {MI : Nat}
    {inst : MachineInstr Inst} (atMI : block.insts[MI]? = some inst)
    (isSelect : inst.isSelect = true) :
    ∃ next, EmitInstrWithCustomInserter function block.number MI = .ok next := by
  cases inst with
  | Select dst lhs rhs imm src src2 =>
      rcases lowered block member dst lhs rhs imm src src2 (List.mem_of_getElem? atMI) with
        ⟨op, branch⟩
      rw [EmitInstrWithCustomInserter, block?_of_mem wellFormed member]
      simp only [atMI, branch]
      exact ⟨_, rfl⟩
  | _ => cases isSelect

private theorem exists_select (remaining : ¬ NoSelects function) :
    ∃ block ∈ function.blocks, ∃ (MI : Nat) (inst : MachineInstr Inst),
      block.insts[MI]? = some inst ∧ inst.isSelect = true := by
  simp only [NoSelects, not_forall] at remaining
  rcases remaining with ⟨block, member, inst, instMember, isSelect⟩
  rcases List.mem_iff_getElem?.mp instMember with ⟨MI, atMI⟩
  exact ⟨block, member, MI, inst, atMI, by simpa using isSelect⟩

theorem exists_expands_noSelects (wellFormed : function.WellFormed)
    (lowered : SelectsLowered function) :
    ∃ expanded, Expands function expanded ∧ NoSelects expanded := by
  have further : ∀ count expanded, Expands function expanded → selectCount expanded = count →
      ∃ final, Expands function final ∧ NoSelects final := by
    intro count
    induction count using Nat.strongRecOn with
    | ind count induction =>
        intro expanded expands counted
        by_cases finished : NoSelects expanded
        · exact ⟨expanded, expands, finished⟩
        · rcases @Expands.keeps Inst Unit function expanded expands wellFormed lowered with
            ⟨kept, keptLowered, -, -⟩
          rcases exists_select finished with ⟨block, member, MI, inst, atMI, isSelect⟩
          rcases exists_emit kept keptLowered member atMI isSelect with ⟨next, emitted⟩
          rcases EmitInstrWithCustomInserter_cases emitted with ⟨site, isSite, rfl⟩
          have fewer := isSite.selectCount_expand kept
          exact induction _ (by omega) _ (expands.tail emitted) rfl
  exact further _ function (.refl function) rfl

end Chain

private theorem selectsLowered_lowerSelects (function : MachineFunction Inst) :
    SelectsLowered function.lowerSelects := by
  intro block member dst lhs rhs imm src src2 select
  rcases List.mem_map.mp member with ⟨original, -, rfl⟩
  rcases List.mem_map.mp select with ⟨inst, -, lowered⟩
  cases inst with
  | Select dst' lhs' rhs' imm' src' src2' =>
      cases lowered
      exact hasBranch_NegateCC imm' lhs' rhs'
  | _ => cases lowered

/-- Replacing the `Select`s of a function, whichever of the ten condition codes
they had before `LowerSELECT_CC` and in whichever order they are replaced,
keeps its executions: the ordinary instructions run in the same contexts and
the blocks of the original function are entered with the same registers. The
successor lists match the jumps and fall-throughs, and no replacement fails. -/
theorem expands_lowerSelects (function : MachineFunction Inst)
    (wellFormed : function.WellFormed) :
    (∀ expanded, Expands function.lowerSelects expanded →
      expanded.WellFormed ∧
      (∀ (World : Type)
        (effect : Inst → MachineContext World → Option (MachineContext World))
        (context : MachineContext World) (trace : List (Event Inst World)),
        HasTrace (step effect (· < function.nextNumber) function)
            (function.start context) trace ↔
          HasTrace (step effect (· < function.nextNumber) expanded)
            (expanded.start context) trace) ∧
      ∀ block ∈ expanded.blocks, ∀ (MI : Nat) (inst : MachineInstr Inst),
        block.insts[MI]? = some inst → inst.isSelect = true →
          ∃ next, EmitInstrWithCustomInserter expanded block.number MI = .ok next) ∧
    ∃ expanded, Expands function.lowerSelects expanded ∧ NoSelects expanded := by
  have lowered := selectsLowered_lowerSelects function
  refine ⟨?_, exists_expands_noSelects wellFormed.lowerSelects lowered⟩
  intro expanded expands
  rcases @Expands.keeps Inst Unit _ _ expands wellFormed.lowerSelects lowered with
    ⟨kept, keptLowered, -, -⟩
  refine ⟨kept, ?_, fun block member MI inst => exists_emit kept keptLowered member⟩
  intro World effect context trace
  rcases @Expands.keeps Inst World _ _ expands wellFormed.lowerSelects lowered with
    ⟨-, -, -, sameTraces⟩
  have simulates := simulates_lowerSelects effect (· < function.nextNumber) function
  exact (simulates.hasTrace_iff (start_lowerSelects function context) trace).trans
    (sameTraces effect context trace)

def loopWithSelects : MachineFunction Nat where
  blocks :=
    [⟨0, [], [.ordinary 0], [1]⟩,
      ⟨1, [⟨1, [(0, 0), (5, 1)]⟩],
        [.Select 5 1 2 .SETULT 3 4, .DBG_VALUE 5, .Select 6 5 1 .SETGE 1 5,
          .J_rr .JNE 5 6 1], [1, 2]⟩,
      ⟨2, [⟨7, [(6, 1)]⟩], [.RET], []⟩]
  nextNumber := 3

private theorem wellFormed_loopWithSelects : loopWithSelects.WellFormed where
  distinct := by decide
  numbered := by decide
  successors := by decide
  incoming := by decide
  selectsFirst := by decide
  exitsListed := by decide
  listedExits := by decide

theorem expands_lowerSelects_loop :
    (∀ expanded, Expands loopWithSelects.lowerSelects expanded →
      expanded.WellFormed ∧
      (∀ (World : Type)
        (effect : Nat → MachineContext World → Option (MachineContext World))
        (context : MachineContext World) (trace : List (Event Nat World)),
        HasTrace (step effect (· < loopWithSelects.nextNumber) loopWithSelects)
            (loopWithSelects.start context) trace ↔
          HasTrace (step effect (· < loopWithSelects.nextNumber) expanded)
            (expanded.start context) trace) ∧
      ∀ block ∈ expanded.blocks, ∀ (MI : Nat) (inst : MachineInstr Nat),
        block.insts[MI]? = some inst → inst.isSelect = true →
          ∃ next, EmitInstrWithCustomInserter expanded block.number MI = .ok next) ∧
    ∃ expanded, Expands loopWithSelects.lowerSelects expanded ∧ NoSelects expanded :=
  expands_lowerSelects loopWithSelects wellFormed_loopWithSelects

end BpfBackend.CodeGen
