import BpfBackend.CodeGen.BranchEditing

/-! # Rewriting the instructions of a function

Each ordinary instruction is replaced by a list of instructions, perhaps of
another kind. The function runs as before if each list does what the
instruction did.
-/

namespace BpfBackend.CodeGen

open MC Simulation

universe u

variable {Inst Other World : Type}

/-! ## The rewritten function -/

def MachineInstr.rewrite (rewriting : Inst → List Other) :
    MachineInstr Inst → List (MachineInstr Other)
  | ordinary inst => (rewriting inst).map .ordinary
  | DBG_VALUE register => [.DBG_VALUE register]
  | Select dst lhs rhs imm src src2 => [.Select dst lhs rhs imm src src2]
  | J_rr op rA rX dst => [.J_rr op rA rX dst]
  | J_ri op rA imm dst => [.J_ri op rA imm dst]
  | JMP dst => [.JMP dst]
  | RET => [.RET]

def MachineBasicBlock.rewrite (rewriting : Inst → List Other) (block : MachineBasicBlock Inst) :
    MachineBasicBlock Other where
  number := block.number
  phis := block.phis
  insts := block.insts.flatMap (MachineInstr.rewrite rewriting)
  successors := block.successors

def MachineFunction.rewrite (rewriting : Inst → List Other) (function : MachineFunction Inst) :
    MachineFunction Other where
  blocks := function.blocks.map (MachineBasicBlock.rewrite rewriting)
  nextNumber := function.nextNumber

section Structure

variable (rewriting : Inst → List Other)

theorem numbers_rewrite (blocks : List (MachineBasicBlock Inst)) :
    (blocks.map (MachineBasicBlock.rewrite rewriting)).map (·.number) =
      blocks.map (·.number) := by
  rw [List.map_map]
  rfl

@[simp] theorem layoutNext_rewrite (blocks : List (MachineBasicBlock Inst)) (number : Nat) :
    layoutNext (blocks.map (MachineBasicBlock.rewrite rewriting)) number =
      layoutNext blocks number :=
  layoutNext_map (MachineBasicBlock.rewrite rewriting) (fun _ => rfl) blocks number

private theorem MachineFunction.block?_rewrite (function : MachineFunction Inst) (number : Nat) :
    (function.rewrite rewriting).block? number =
      (function.block? number).map (MachineBasicBlock.rewrite rewriting) :=
  findBlock_map (MachineBasicBlock.rewrite rewriting) (fun _ => rfl) function.blocks number

theorem exits_ordinaries (insts : List Other) (rest : List (MachineInstr Other))
    (next : Option Nat) : exits (insts.map .ordinary ++ rest) next = exits rest next := by
  induction insts with
  | nil => rfl
  | cons inst insts induction => exact induction

private theorem exits_rewrite (insts : List (MachineInstr Inst)) (next : Option Nat) :
    exits (insts.flatMap (MachineInstr.rewrite rewriting)) next = exits insts next := by
  induction insts with
  | nil => rfl
  | cons inst rest induction =>
      rw [List.flatMap_cons]
      cases inst with
      | ordinary inst =>
          rw [MachineInstr.rewrite, exits_ordinaries, induction]
          rfl
      | DBG_VALUE register => exact induction
      | Select dst lhs rhs imm src src2 => exact induction
      | J_rr op rA rX dst => exact congrArg (dst :: ·) induction
      | J_ri op rA imm dst => exact congrArg (dst :: ·) induction
      | JMP dst => rfl
      | RET => rfl

theorem terminatorsLast_ordinaries (insts : List Other) (rest : List (MachineInstr Other)) :
    terminatorsLast (insts.map .ordinary ++ rest) = terminatorsLast rest := by
  induction insts with
  | nil => rfl
  | cons inst insts induction => exact induction

theorem all_rewrite_of_terminators {insts : List (MachineInstr Inst)}
    (last : insts.all (fun inst => inst.isTerminator || inst.isDebugValue) = true) :
    (insts.flatMap (MachineInstr.rewrite rewriting)).all
      (fun inst => inst.isTerminator || inst.isDebugValue) = true := by
  rw [List.all_flatMap, List.all_eq_true]
  rw [List.all_eq_true] at last
  intro inst member
  have follows := last inst member
  cases inst with
  | ordinary inst => cases follows
  | Select dst lhs rhs imm src src2 => cases follows
  | DBG_VALUE register => rfl
  | J_rr op rA rX dst => rfl
  | J_ri op rA imm dst => rfl
  | JMP dst => rfl
  | RET => rfl

private theorem terminatorsLast_rewrite {insts : List (MachineInstr Inst)}
    (last : terminatorsLast insts = true) :
    terminatorsLast (insts.flatMap (MachineInstr.rewrite rewriting)) = true := by
  induction insts with
  | nil => rfl
  | cons inst rest induction =>
      rw [List.flatMap_cons]
      cases inst with
      | ordinary inst =>
          rw [MachineInstr.rewrite, terminatorsLast_ordinaries]
          exact induction last
      | DBG_VALUE register => exact induction last
      | Select dst lhs rhs imm src src2 => exact induction last
      | J_rr op rA rX dst => exact all_rewrite_of_terminators rewriting last
      | J_ri op rA imm dst => exact all_rewrite_of_terminators rewriting last
      | JMP dst => exact all_rewrite_of_terminators rewriting last
      | RET => exact all_rewrite_of_terminators rewriting last

theorem MachineFunction.TerminatorsLast.rewrite {function : MachineFunction Inst}
    (last : function.TerminatorsLast) : (function.rewrite rewriting).TerminatorsLast :=
  List.forall_mem_map.mpr fun block member =>
    terminatorsLast_rewrite rewriting (last block member)

theorem MachineFunction.WellFormed.rewrite {function : MachineFunction Inst}
    (wellFormed : function.WellFormed) (last : function.TerminatorsLast) :
    (function.rewrite rewriting).WellFormed where
  distinct := by
    rw [MachineFunction.rewrite, numbers_rewrite]
    exact wellFormed.distinct
  numbered := List.forall_mem_map.mpr wellFormed.numbered
  successors := List.forall_mem_map.mpr wellFormed.successors
  incoming := List.forall_mem_map.mpr wellFormed.incoming
  selectsFirst := List.forall_mem_map.mpr fun block member =>
    selectsFirst_of_terminatorsLast (terminatorsLast_rewrite rewriting (last block member))
  exitsListed := List.forall_mem_map.mpr fun block member => by
    rw [MachineFunction.rewrite, layoutNext_rewrite, MachineBasicBlock.rewrite, exits_rewrite]
    exact wellFormed.exitsListed block member
  listedExits := List.forall_mem_map.mpr fun block member => by
    rw [MachineFunction.rewrite, layoutNext_rewrite, MachineBasicBlock.rewrite, exits_rewrite]
    exact wellFormed.listedExits block member

end Structure

/-! ## The rewritten function runs the same -/

def runEffects (effect : Other → MachineContext World → Option (MachineContext World)) :
    List Other → MachineContext World → Option (MachineContext World)
  | [], context => some context
  | inst :: rest, context => do
      let next ← effect inst context
      runEffects effect rest next

section Runs

variable {Observation : Type u}
variable (effect : Inst → MachineContext World → Option (MachineContext World))
variable (otherEffect : Other → MachineContext World → Option (MachineContext World))
variable (observe : Event Inst World → Option Observation)
variable (otherObserve : Event Other World → Option Observation)

/-- An instruction is replaced by one that does and shows the same, or it is
not observed and neither is any of the instructions in its place. -/
inductive RewritesTo (inst : Inst) : List Other → Prop where
  | same {other : Other} :
      (∀ context, otherEffect other context = effect inst context) →
      (∀ context, otherObserve (.executed other context) = observe (.executed inst context)) →
      RewritesTo inst [other]
  | silent {insts : List Other} :
      (∀ context, observe (.executed inst context) = none) →
      (∀ other ∈ insts, ∀ context, otherObserve (.executed other context) = none) →
      (∀ context, ∃ after, effect inst context = some after ∧
        runEffects otherEffect insts context = some after) →
      RewritesTo inst insts

/-- Everything but the instructions is observed alike. -/
structure SameEnds : Prop where
  entered : ∀ block context, otherObserve (.entered block context) =
    observe (.entered block context)
  returned : ∀ context, otherObserve (.returned context) = observe (.returned context)
  trapped : ∀ context, otherObserve (.trapped context) = observe (.trapped context)

variable (visible : Nat → Bool) (rewriting : Inst → List Other)

def Rewritable (insts : List (MachineInstr Inst)) : Prop :=
  ∀ inst, .ordinary inst ∈ insts →
    RewritesTo effect otherEffect observe otherObserve inst (rewriting inst)

inductive RewrittenConfig : Config Inst World → Config Other World → Prop where
  | running (block : Nat) {rest : List (MachineInstr Inst)} (context : MachineContext World) :
      Rewritable effect otherEffect observe otherObserve rewriting rest →
      RewrittenConfig (.running block rest context)
        (.running block (rest.flatMap (MachineInstr.rewrite rewriting)) context)
  | halted : RewrittenConfig .halted .halted

def Config.remaining : Config Inst World → Nat
  | .running _ rest _ => rest.length
  | .halted => 0

variable {effect otherEffect observe otherObserve}

theorem silent_ordinaries (other : MachineFunction Other) (block : Nat) {insts : List Other}
    (rest : List (MachineInstr Other))
    (hidden : ∀ inst ∈ insts, ∀ context, otherObserve (.executed inst context) = none)
    {context after : MachineContext World}
    (runs : runEffects otherEffect insts context = some after) :
    Silent (observeSteps otherObserve (step otherEffect visible other)) insts.length
      (.running block (insts.map .ordinary ++ rest) context) (.running block rest after) := by
  induction insts generalizing context with
  | nil =>
      cases runs
      exact .refl _
  | cons inst insts induction =>
      rw [runEffects] at runs
      rcases Option.bind_eq_some_iff.mp runs with ⟨next, executes, runs⟩
      have executed : step otherEffect visible other
          (.running block (.ordinary inst :: (insts.map .ordinary ++ rest)) context) =
          some (some (.executed inst context),
            .running block (insts.map .ordinary ++ rest) next) := by
        rw [step, executes]
      have unseen : (some (Event.executed inst context)).bind otherObserve = none :=
        hidden inst List.mem_cons_self context
      refine .head ?_ (induction (fun later member =>
        hidden later (List.mem_cons_of_mem inst member)) runs)
      rw [← unseen]
      exact observeSteps_of_steps otherObserve executed

theorem Rewritable.tail {inst : MachineInstr Inst} {rest : List (MachineInstr Inst)}
    (rewritable : Rewritable effect otherEffect observe otherObserve rewriting (inst :: rest)) :
    Rewritable effect otherEffect observe otherObserve rewriting rest :=
  fun other member => rewritable other (List.mem_cons_of_mem inst member)

section Advances

variable {function : MachineFunction Inst}

private theorem rewrittenConfig_start
    (rewritable : ∀ block ∈ function.blocks,
      Rewritable effect otherEffect observe otherObserve rewriting block.insts)
    (context : MachineContext World) :
    RewrittenConfig effect otherEffect observe otherObserve rewriting (function.start context)
      ((function.rewrite rewriting).start context) := by
  rcases function with ⟨blocks, nextNumber⟩
  cases blocks with
  | nil => exact .halted
  | cons entry rest =>
      exact .running entry.number context (rewritable entry List.mem_cons_self)

variable (ends : SameEnds observe otherObserve)
include ends

theorem ordinary_advances (block : Nat) {inst : Inst} {rest : List (MachineInstr Inst)}
    (restRewritable : Rewritable effect otherEffect observe otherObserve rewriting
      (.ordinary inst :: rest)) (context : MachineContext World)
    {event : Option Observation} {next : Config Inst World}
    (steps : observeSteps observe (step effect visible function)
      (.running block (.ordinary inst :: rest) context) = some (event, next)) :
    (∃ otherNext, observeSteps otherObserve
        (step otherEffect visible (function.rewrite rewriting))
        (.running block ((rewriting inst).map .ordinary ++
          rest.flatMap (MachineInstr.rewrite rewriting)) context) = some (event, otherNext) ∧
      RewrittenConfig effect otherEffect observe otherObserve rewriting next otherNext) ∨
    (event = none ∧ ∃ count otherNext,
      Silent (observeSteps otherObserve (step otherEffect visible (function.rewrite rewriting)))
        count (.running block ((rewriting inst).map .ordinary ++
          rest.flatMap (MachineInstr.rewrite rewriting)) context) otherNext ∧
      RewrittenConfig effect otherEffect observe otherObserve rewriting next otherNext ∧
      (count = 0 → next.remaining < rest.length + 1)) := by
  have rewritten := restRewritable inst List.mem_cons_self
  have later := restRewritable.tail
  generalize rewriting inst = insts at rewritten ⊢
  cases rewritten with
  | @same other effects shown =>
      left
      simp only [observeSteps, step] at steps
      simp only [observeSteps, List.map_cons, List.map_nil, List.singleton_append, step,
        effects context]
      cases executes : effect inst context with
      | none =>
          rw [executes] at steps
          cases steps
          refine ⟨.halted, ?_, .halted⟩
          rw [Option.map_some, Option.bind_some, Option.bind_some, ends.trapped]
      | some after =>
          rw [executes] at steps
          cases steps
          refine ⟨_, ?_, .running block after later⟩
          rw [Option.map_some, Option.bind_some, Option.bind_some, shown context]
  | silent hidden othersHidden runs =>
      right
      rcases runs context with ⟨after, executes, otherRuns⟩
      have executed : step effect visible function
          (.running block (.ordinary inst :: rest) context) =
          some (some (.executed inst context), .running block rest after) := by
        rw [step, executes]
      rw [observeSteps_of_steps observe executed, Option.bind_some, hidden context] at steps
      cases steps
      exact ⟨rfl, insts.length, _,
        silent_ordinaries visible _ block _ othersHidden otherRuns,
        .running block after later, fun _ => Nat.lt_succ_self rest.length⟩

variable (rewritable : ∀ block ∈ function.blocks,
  Rewritable effect otherEffect observe otherObserve rewriting block.insts)
include rewritable

theorem transfer_rewrite (source target : Nat)
    (context : MachineContext World) {event : Option (Event Inst World)}
    {next : Config Inst World}
    (moves : transfer visible function source target context = some (event, next)) :
    ∃ otherEvent otherNext,
      transfer visible (function.rewrite rewriting) source target context =
        some (otherEvent, otherNext) ∧
      otherEvent.bind otherObserve = event.bind observe ∧
      RewrittenConfig effect otherEffect observe otherObserve rewriting next otherNext := by
  rw [transfer_eq] at moves
  rw [transfer_eq, MachineFunction.block?_rewrite]
  cases found : function.block? target with
  | none =>
      rw [found] at moves
      cases moves
      exact ⟨_, _, rfl, ends.trapped context, .halted⟩
  | some block =>
      rw [found] at moves
      dsimp only [Option.map_some] at moves ⊢
      have phis : (MachineBasicBlock.rewrite rewriting block).phis = block.phis := rfl
      rw [phis]
      cases assigned : assignPhis source context block.phis context with
      | none =>
          rw [assigned] at moves
          cases moves
          exact ⟨_, _, rfl, ends.trapped context, .halted⟩
      | some entered =>
          rw [assigned] at moves
          cases moves
          refine ⟨_, _, rfl, ?_,
            .running target entered (rewritable block (mem_of_block? found))⟩
          cases visible target with
          | false => rfl
          | true => exact ends.entered target entered

theorem observed_transfer_rewrite (source target : Nat)
    (context : MachineContext World) {config : Config Inst World}
    {otherConfig : Config Other World} {event : Option Observation} {next : Config Inst World}
    (transfers : step effect visible function config =
      transfer visible function source target context)
    (otherTransfers : step otherEffect visible (function.rewrite rewriting) otherConfig =
      transfer visible (function.rewrite rewriting) source target context)
    (steps : observeSteps observe (step effect visible function) config =
      some (event, next)) :
    ∃ otherNext, observeSteps otherObserve
        (step otherEffect visible (function.rewrite rewriting)) otherConfig =
          some (event, otherNext) ∧
      RewrittenConfig effect otherEffect observe otherObserve rewriting next otherNext := by
  rw [observeSteps, transfers, Option.map_eq_some_iff] at steps
  rcases steps with ⟨⟨shown, after⟩, moves, same⟩
  cases same
  rcases transfer_rewrite visible rewriting ends rewritable source target context moves with
    ⟨otherEvent, otherNext, otherMoves, events, related⟩
  refine ⟨otherNext, ?_, related⟩
  rw [← events]
  exact observeSteps_of_steps otherObserve (otherTransfers.trans otherMoves)

private theorem rewrite_simulates :
    StutterSimulates (observeSteps observe (step effect visible function))
      (observeSteps otherObserve (step otherEffect visible (function.rewrite rewriting)))
      (RewrittenConfig effect otherEffect observe otherObserve rewriting) Config.remaining where
  halts := by
    intro config other related halted
    cases related with
    | running block context restRewritable =>
        rw [observeSteps, Option.map_eq_none_iff] at halted
        exact absurd halted (step_running_ne_none effect visible function block _ context)
    | halted => rfl
  advances := by
    intro config other event next related steps
    cases related with
    | halted => cases steps
    | @running block rest context restRewritable =>
        cases rest with
        | nil =>
            left
            cases layout : layoutNext function.blocks block with
            | none =>
                have otherLayout : layoutNext (function.rewrite rewriting).blocks block = none := by
                  rw [MachineFunction.rewrite, layoutNext_rewrite, layout]
                simp only [observeSteps, step, layout] at steps
                cases steps
                refine ⟨.halted, ?_, .halted⟩
                simp only [observeSteps, List.flatMap_nil, step, otherLayout, Option.map_some,
                  Option.bind_some, ends.trapped]
            | some successor =>
                have otherLayout : layoutNext (function.rewrite rewriting).blocks block =
                    some successor := by
                  rw [MachineFunction.rewrite, layoutNext_rewrite, layout]
                apply observed_transfer_rewrite visible rewriting ends rewritable block successor
                  context _ _ steps
                · rw [step, layout]
                · rw [List.flatMap_nil, step, otherLayout]
        | cons inst rest =>
            cases inst with
            | ordinary inst =>
                exact ordinary_advances visible rewriting ends block restRewritable context steps
            | DBG_VALUE register =>
                left
                cases steps
                exact ⟨_, rfl, .running block context restRewritable.tail⟩
            | Select dst lhs rhs imm src src2 =>
                left
                cases steps
                exact ⟨_, rfl, .running block _ restRewritable.tail⟩
            | J_rr op rA rX dst =>
                left
                cases taken : op.taken (context.regs rA) (context.regs rX) with
                | true =>
                    apply observed_transfer_rewrite visible rewriting ends rewritable block dst
                      context _ _ steps
                    · rw [step, if_pos taken]
                    · exact if_pos taken
                | false =>
                    simp only [observeSteps, step, taken] at steps
                    cases steps
                    refine ⟨_, ?_, .running block context restRewritable.tail⟩
                    simp only [observeSteps, List.flatMap_cons, MachineInstr.rewrite,
                      List.singleton_append, step, taken]
                    rfl
            | J_ri op rA imm dst =>
                left
                cases taken : op.taken (context.regs rA) (signExtend32 imm) with
                | true =>
                    apply observed_transfer_rewrite visible rewriting ends rewritable block dst
                      context _ _ steps
                    · rw [step, if_pos taken]
                    · exact if_pos taken
                | false =>
                    simp only [observeSteps, step, taken] at steps
                    cases steps
                    refine ⟨_, ?_, .running block context restRewritable.tail⟩
                    simp only [observeSteps, List.flatMap_cons, MachineInstr.rewrite,
                      List.singleton_append, step, taken]
                    rfl
            | JMP dst =>
                left
                exact observed_transfer_rewrite visible rewriting ends rewritable block dst
                  context rfl rfl steps
            | RET =>
                left
                cases steps
                refine ⟨.halted, ?_, .halted⟩
                simp only [observeSteps, List.flatMap_cons, MachineInstr.rewrite,
                  List.singleton_append, step, Option.map_some, Option.bind_some, ends.returned]

/-- Functions whose instructions are rewritten one by one show the same. -/
theorem rewrite_hasTrace_iff (context : MachineContext World) (observed : List Observation) :
    (∃ trace, HasTrace (step effect visible function) (function.start context) trace ∧
        trace.filterMap observe = observed) ↔
      ∃ trace, HasTrace (step otherEffect visible (function.rewrite rewriting))
        ((function.rewrite rewriting).start context) trace ∧
        trace.filterMap otherObserve = observed := by
  rw [← hasTrace_observeSteps_iff, ← hasTrace_observeSteps_iff]
  exact (rewrite_simulates visible rewriting ends rewritable).hasTrace_iff
    (rewrittenConfig_start rewriting rewritable context) observed

end Advances

end Runs

end BpfBackend.CodeGen
