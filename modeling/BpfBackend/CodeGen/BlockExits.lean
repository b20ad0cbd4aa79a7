import BpfBackend.CodeGen.MachineFunction

/-! # The exits of a block

How control leaves a block, for every outcome of its conditional jumps.
-/

namespace BpfBackend.CodeGen

open MC Simulation

/-! ## Instructions -/

namespace MachineInstr

variable {Inst : Type}

def isDebugValue : MachineInstr Inst → Bool
  | DBG_VALUE _ => true
  | _ => false

def isBranch : MachineInstr Inst → Bool
  | J_rr .. | J_ri .. | JMP _ => true
  | _ => false

/-- No instruction of the target is predicated. -/
def isUnpredicatedTerminator (inst : MachineInstr Inst) : Bool := inst.isTerminator

def isJMP : MachineInstr Inst → Bool
  | JMP _ => true
  | _ => false

end MachineInstr

/-! ## Exits -/

inductive BlockExit where
  | jump (dst : Nat)
  | ret
  | fallThrough
  deriving DecidableEq, Repr

/-- The exit in a layout: falling through is a jump to the layout successor. -/
def BlockExit.inLayout (next : Option Nat) : BlockExit → BlockExit
  | fallThrough =>
      match next with
      | some successor => jump successor
      | none => fallThrough
  | exit => exit

variable {Inst : Type}

/-- The first outcome is that of the first conditional jump. -/
def blockExit : List (MachineInstr Inst) → (Nat → Bool) → BlockExit
  | [], _ => .fallThrough
  | .JMP dst :: _, _ => .jump dst
  | .RET :: _, _ => .ret
  | .J_rr _ _ _ dst :: rest, taken =>
      if taken 0 then .jump dst else blockExit rest (fun later => taken (later + 1))
  | .J_ri _ _ _ dst :: rest, taken =>
      if taken 0 then .jump dst else blockExit rest (fun later => taken (later + 1))
  | .ordinary _ :: rest, taken => blockExit rest taken
  | .DBG_VALUE _ :: rest, taken => blockExit rest taken
  | .Select .. :: rest, taken => blockExit rest taken

/-- Only terminators and debug values follow a terminator. -/
def terminatorsLast : List (MachineInstr Inst) → Bool
  | [] => true
  | inst :: rest =>
      if inst.isTerminator then rest.all (fun later => later.isTerminator || later.isDebugValue)
      else terminatorsLast rest

def SameExits (next : Option Nat) (left right : List (MachineInstr Inst)) : Prop :=
  ∀ taken, (blockExit left taken).inLayout next = (blockExit right taken).inLayout next

/-! ## Parts of a block -/

private theorem blockExit_cons_of_not_terminator {inst : MachineInstr Inst}
    (straight : inst.isTerminator = false) (rest : List (MachineInstr Inst)) :
    blockExit (inst :: rest) = blockExit rest := by
  funext taken
  cases inst with
  | ordinary inst => rfl
  | DBG_VALUE register => rfl
  | Select dst lhs rhs imm src src2 => rfl
  | J_rr op rA rX dst => cases straight
  | J_ri op rA imm dst => cases straight
  | JMP dst => cases straight
  | RET => cases straight

theorem blockExit_append_of_not_terminators {above : List (MachineInstr Inst)}
    (straight : ∀ inst ∈ above, inst.isTerminator = false) (below : List (MachineInstr Inst)) :
    blockExit (above ++ below) = blockExit below := by
  induction above with
  | nil => rfl
  | cons inst above induction =>
      rw [List.cons_append, blockExit_cons_of_not_terminator (straight inst List.mem_cons_self)]
      exact induction fun other member => straight other (List.mem_cons_of_mem inst member)

namespace SameExits

variable {next : Option Nat} {left middle right : List (MachineInstr Inst)}

theorem refl (insts : List (MachineInstr Inst)) : SameExits next insts insts := fun _ => rfl

theorem trans (first : SameExits next left middle) (second : SameExits next middle right) :
    SameExits next left right := fun taken => (first taken).trans (second taken)

theorem append (above : List (MachineInstr Inst)) (same : SameExits next left right) :
    SameExits next (above ++ left) (above ++ right) := by
  induction above with
  | nil => exact same
  | cons inst above induction =>
      intro taken
      have conditional : ∀ dst : Nat,
          BlockExit.inLayout next (if taken 0 then .jump dst
            else blockExit (above ++ left) fun later => taken (later + 1)) =
          BlockExit.inLayout next (if taken 0 then .jump dst
            else blockExit (above ++ right) fun later => taken (later + 1)) := by
        intro dst
        cases taken 0 with
        | true => rfl
        | false => exact induction fun later => taken (later + 1)
      cases inst with
      | J_rr op rA rX dst => exact conditional dst
      | J_ri op rA imm dst => exact conditional dst
      | JMP dst => rfl
      | RET => rfl
      | ordinary inst => exact induction taken
      | DBG_VALUE register => exact induction taken
      | Select dst lhs rhs imm src src2 => exact induction taken

end SameExits

theorem not_terminator_of_above {above below : List (MachineInstr Inst)}
    {inst : MachineInstr Inst} (last : terminatorsLast (above ++ inst :: below) = true)
    (straight : inst.isTerminator = false) (real : inst.isDebugValue = false) :
    ∀ other ∈ above, other.isTerminator = false := by
  induction above with
  | nil =>
      intro other member
      cases member
  | cons head above induction =>
      rw [List.cons_append, terminatorsLast] at last
      cases terminates : head.isTerminator with
      | true =>
          rw [terminates, if_pos rfl, List.all_eq_true] at last
          have follows := last inst (by simp)
          rw [straight, real] at follows
          cases follows
      | false =>
          rw [terminates] at last
          intro other member
          rcases List.mem_cons.mp member with rfl | member
          · exact terminates
          · exact induction last other member

/-! ## Executions of a block -/

section Execution

variable {World : Type}
variable (effect : Inst → MachineContext World → Option (MachineContext World))
variable (visible : Nat → Bool) (function : MachineFunction Inst)

def BlockExit.leave (block : Nat) (context : MachineContext World) :
    BlockExit → Option (Option (Event Inst World) × Config Inst World)
  | jump dst => transfer visible function block dst context
  | ret => some (some (.returned context), .halted)
  | fallThrough =>
      match layoutNext function.blocks block with
      | none => some (some (.trapped context), .halted)
      | some next => transfer visible function block next context

/-- A configuration that leads to an ordinary instruction that traps, or whose
block is left by one of its exits. -/
def LeavesBlock (block : Nat) (insts : List (MachineInstr Inst))
    (context : MachineContext World) : Prop :=
  (∃ trace inst rest after,
    Reaches (step effect visible function) (.running block insts context) trace
      (.running block (.ordinary inst :: rest) after) ∧ effect inst after = none) ∨
  ∃ trace config taken after,
    Reaches (step effect visible function) (.running block insts context) trace config ∧
      step effect visible function config =
        (blockExit insts taken).leave visible function block after

variable {effect visible function}

theorem LeavesBlock.step {block : Nat} {inst : MachineInstr Inst}
    {rest : List (MachineInstr Inst)} {context next : MachineContext World}
    {event : Option (Event Inst World)}
    (steps : CodeGen.step effect visible function (.running block (inst :: rest) context) =
      some (event, .running block rest next))
    (extends_exit : ∀ taken, ∃ further, blockExit (inst :: rest) further = blockExit rest taken)
    (leaves : LeavesBlock effect visible function block rest next) :
    LeavesBlock effect visible function block (inst :: rest) context := by
  rcases leaves with ⟨trace, other, later, after, reaches, traps⟩ |
    ⟨trace, config, taken, after, reaches, exit⟩
  · exact .inl ⟨_, other, later, after, .head steps reaches, traps⟩
  · rcases extends_exit taken with ⟨further, same⟩
    refine .inr ⟨_, config, further, after, .head steps reaches, ?_⟩
    rw [same]
    exact exit

theorem LeavesBlock.conditional {block dst : Nat} {inst : MachineInstr Inst}
    {rest : List (MachineInstr Inst)} {context : MachineContext World} {jumps : Bool}
    (steps : CodeGen.step effect visible function (.running block (inst :: rest) context) =
      if jumps then transfer visible function block dst context
      else some (none, .running block rest context))
    (exit : ∀ taken, blockExit (inst :: rest) taken =
      if taken 0 then .jump dst else blockExit rest (fun later => taken (later + 1)))
    (leaves : LeavesBlock effect visible function block rest context) :
    LeavesBlock effect visible function block (inst :: rest) context := by
  cases jumps with
  | true =>
      refine .inr ⟨[], _, fun _ => true, context, .refl _, ?_⟩
      rw [steps, exit]
      rfl
  | false =>
      refine leaves.step steps fun taken => ?_
      refine ⟨fun count => if count = 0 then false else taken (count - 1), ?_⟩
      rw [exit]
      rfl

variable (effect visible function)

/-- Every execution of a block that does not trap in it leaves the block by one
of its exits. -/
theorem leavesBlock (block : Nat) (insts : List (MachineInstr Inst))
    (context : MachineContext World) : LeavesBlock effect visible function block insts context := by
  induction insts generalizing context with
  | nil => exact .inr ⟨[], _, fun _ => false, context, .refl _, rfl⟩
  | cons inst rest induction =>
      cases inst with
      | ordinary inst =>
          cases executes : effect inst context with
          | none => exact .inl ⟨[], inst, rest, context, .refl _, executes⟩
          | some after =>
              have steps : CodeGen.step effect visible function
                  (.running block (.ordinary inst :: rest) context) =
                  some (some (.executed inst context), .running block rest after) := by
                rw [CodeGen.step, executes]
              exact (induction after).step steps fun taken => ⟨taken, rfl⟩
      | DBG_VALUE register => exact (induction context).step rfl fun taken => ⟨taken, rfl⟩
      | Select dst lhs rhs imm src src2 =>
          exact (induction _).step rfl fun taken => ⟨taken, rfl⟩
      | J_rr op rA rX dst => exact (induction context).conditional rfl fun _ => rfl
      | J_ri op rA imm dst => exact (induction context).conditional rfl fun _ => rfl
      | JMP dst => exact .inr ⟨[], _, fun _ => false, context, .refl _, rfl⟩
      | RET => exact .inr ⟨[], _, fun _ => false, context, .refl _, rfl⟩

end Execution

/-! ## The blocks to which a block leads -/

theorem mem_exits_iff {insts : List (MachineInstr Inst)} {next : Option Nat} {target : Nat} :
    target ∈ exits insts next ↔
      ∃ taken, (blockExit insts taken).inLayout next = .jump target := by
  induction insts with
  | nil => cases next <;> simp [exits, blockExit, BlockExit.inLayout, eq_comm]
  | cons inst rest induction =>
      -- A jump that is not taken leaves the later outcomes to the rest.
      have conditional : ∀ dst : Nat,
          target ∈ dst :: exits rest next ↔
            ∃ taken : Nat → Bool, BlockExit.inLayout next (if taken 0 then .jump dst
              else blockExit rest fun later => taken (later + 1)) = .jump target := by
        intro dst
        rw [List.mem_cons, induction]
        constructor
        · intro leads
          rcases leads with rfl | ⟨taken, exit⟩
          · exact ⟨fun _ => true, rfl⟩
          · exact ⟨fun count => if count = 0 then false else taken (count - 1), exit⟩
        · intro leads
          rcases leads with ⟨taken, exit⟩
          cases first : taken 0 with
          | true =>
              rw [first] at exit
              exact .inl (BlockExit.jump.inj exit).symm
          | false =>
              rw [first] at exit
              exact .inr ⟨_, exit⟩
      cases inst with
      | ordinary inst => exact induction
      | DBG_VALUE register => exact induction
      | Select dst lhs rhs imm src src2 => exact induction
      | J_rr op rA rX dst => exact conditional dst
      | J_ri op rA imm dst => exact conditional dst
      | JMP dst => simp [exits, blockExit, BlockExit.inLayout, eq_comm]
      | RET => simp [exits, blockExit, BlockExit.inLayout]

theorem SameExits.mem_exits_iff {next : Option Nat} {left right : List (MachineInstr Inst)}
    (same : SameExits next left right) (target : Nat) :
    target ∈ exits left next ↔ target ∈ exits right next := by
  rw [CodeGen.mem_exits_iff, CodeGen.mem_exits_iff]
  exact exists_congr fun taken => by rw [same taken]

end BpfBackend.CodeGen
