import BpfBackend.CodeGen.ConditionCodes
import BpfBackend.Foundation.Simulation
import Mathlib.Data.List.Basic
import Mathlib.Data.List.Nodup

/-! # Machine functions

Basic blocks in layout order, with the PHIs, the successor lists and the
execution of a function before its blocks are emitted. What an ordinary
instruction does is a parameter.
-/

namespace BpfBackend.CodeGen

open MC Simulation

/-! ## Blocks -/

/-- Registers are virtual and blocks are named by their numbers. -/
inductive MachineInstr (Inst : Type) where
  | ordinary (inst : Inst)
  | DBG_VALUE (register : Nat)
  | Select (dst lhs rhs : Nat) (imm : CondCode) (src src2 : Nat)
  | J_rr (op : JccOp) (rA rX dst : Nat)
  | J_ri (op : JccOp) (rA : Nat) (imm : BitVec 64) (dst : Nat)
  | JMP (dst : Nat)
  | RET
  deriving DecidableEq, Repr

structure MachinePhi where
  dst : Nat
  incoming : List (Nat × Nat)
  deriving DecidableEq, Repr

structure MachineBasicBlock (Inst : Type) where
  number : Nat
  phis : List MachinePhi
  insts : List (MachineInstr Inst)
  successors : List Nat
  deriving DecidableEq, Repr

structure MachineFunction (Inst : Type) where
  blocks : List (MachineBasicBlock Inst)
  nextNumber : Nat
  deriving DecidableEq, Repr

variable {Inst : Type} {World : Type}

/-- What control flow needs of a block, before or after instruction selection. -/
class BasicBlock (Block : Type) where
  number : Block → Nat
  phis : Block → List MachinePhi

instance : BasicBlock (MachineBasicBlock Inst) := ⟨(·.number), (·.phis)⟩

section Layout

variable {Block : Type} [BasicBlock Block]

def findBlock (blocks : List Block) (number : Nat) : Option Block :=
  blocks.find? (BasicBlock.number · = number)

def layoutNext : List Block → Nat → Option Nat
  | [], _ => none
  | block :: rest, number =>
      if BasicBlock.number block = number then rest.head?.map BasicBlock.number
      else layoutNext rest number

/-! Neither looks at more of the blocks than their numbers. -/

variable {Other : Type} [BasicBlock Other]

theorem layoutNext_congr {blocks : List Block} {others : List Other}
    (numbers : blocks.map BasicBlock.number = others.map BasicBlock.number) (number : Nat) :
    layoutNext blocks number = layoutNext others number := by
  induction blocks generalizing others with
  | nil =>
      cases others with
      | nil => rfl
      | cons other others => cases numbers
  | cons block rest induction =>
      cases others with
      | nil => cases numbers
      | cons other others =>
          rw [List.map_cons, List.map_cons, List.cons.injEq] at numbers
          rw [layoutNext, layoutNext, numbers.1, induction numbers.2, ← List.head?_map,
            ← List.head?_map, numbers.2]

variable (rewrite : Block → Other)
variable (kept : ∀ block, BasicBlock.number (rewrite block) = BasicBlock.number block)
include kept

theorem layoutNext_map (blocks : List Block) (number : Nat) :
    layoutNext (blocks.map rewrite) number = layoutNext blocks number := by
  apply layoutNext_congr
  rw [List.map_map]
  exact List.map_congr_left fun block _ => kept block

theorem findBlock_map (blocks : List Block) (number : Nat) :
    findBlock (blocks.map rewrite) number = (findBlock blocks number).map rewrite := by
  have same : (fun block => decide (BasicBlock.number (rewrite block) = number)) =
      fun block => decide (BasicBlock.number block = number) := by
    funext block
    rw [kept]
  rw [findBlock, findBlock, List.find?_map, Function.comp_def, same]

end Layout

theorem layoutNext_cons (block : MachineBasicBlock Inst) (rest : List (MachineBasicBlock Inst))
    (number : Nat) :
    layoutNext (block :: rest) number =
      if block.number = number then rest.head?.map (·.number) else layoutNext rest number := rfl

def MachineFunction.block? (function : MachineFunction Inst) (number : Nat) :
    Option (MachineBasicBlock Inst) :=
  findBlock function.blocks number

theorem MachineFunction.block?_eq (function : MachineFunction Inst) (number : Nat) :
    function.block? number = function.blocks.find? (·.number = number) := rfl

theorem number_of_block? {function : MachineFunction Inst} {number : Nat}
    {block : MachineBasicBlock Inst} (found : function.block? number = some block) :
    block.number = number := by
  rw [MachineFunction.block?_eq] at found
  simpa using List.find?_some found

theorem mem_of_block? {function : MachineFunction Inst} {number : Nat}
    {block : MachineBasicBlock Inst} (found : function.block? number = some block) :
    block ∈ function.blocks :=
  List.mem_of_find?_eq_some found

namespace MachineInstr

def isTerminator : MachineInstr Inst → Bool
  | J_rr .. | J_ri .. | JMP _ | RET => true
  | _ => false

def isSelect : MachineInstr Inst → Bool
  | Select .. => true
  | _ => false

end MachineInstr

def exits : List (MachineInstr Inst) → Option Nat → List Nat
  | [], next => next.toList
  | .JMP dst :: _, _ => [dst]
  | .RET :: _, _ => []
  | .J_rr _ _ _ dst :: rest, next => dst :: exits rest next
  | .J_ri _ _ _ dst :: rest, next => dst :: exits rest next
  | .ordinary _ :: rest, next => exits rest next
  | .DBG_VALUE _ :: rest, next => exits rest next
  | .Select .. :: rest, next => exits rest next

def selectsFirst : List (MachineInstr Inst) → Bool
  | [] => true
  | inst :: rest =>
      if inst.isTerminator then rest.all (!·.isSelect) else selectsFirst rest

/-- Blocks are distinct, the blocks that they name exist, and every successor
list is the set of the block's exits. -/
structure MachineFunction.WellFormed (function : MachineFunction Inst) : Prop where
  distinct : (function.blocks.map (·.number)).Nodup
  numbered : ∀ block ∈ function.blocks, block.number < function.nextNumber
  successors : ∀ block ∈ function.blocks, ∀ successor ∈ block.successors,
    successor < function.nextNumber
  incoming : ∀ block ∈ function.blocks, ∀ phi ∈ block.phis, ∀ entry ∈ phi.incoming,
    entry.2 < function.nextNumber
  selectsFirst : ∀ block ∈ function.blocks, selectsFirst block.insts = true
  exitsListed : ∀ block ∈ function.blocks,
    exits block.insts (layoutNext function.blocks block.number) ⊆ block.successors
  listedExits : ∀ block ∈ function.blocks,
    block.successors ⊆ exits block.insts (layoutNext function.blocks block.number)

/-! ## Execution -/

structure MachineContext (World : Type) where
  regs : Nat → BitVec 64
  world : World

def MachineContext.setReg (context : MachineContext World) (register : Nat)
    (value : BitVec 64) : MachineContext World :=
  { context with
    regs := fun other => if other = register then value else context.regs other }

inductive Config (Inst : Type) (World : Type) where
  | running (block : Nat) (rest : List (MachineInstr Inst)) (context : MachineContext World)
  | halted

inductive Event (Inst : Type) (World : Type) where
  | executed (inst : Inst) (context : MachineContext World)
  | entered (block : Nat) (context : MachineContext World)
  | returned (context : MachineContext World)
  | trapped (context : MachineContext World)

def MachinePhi.valueFrom (phi : MachinePhi) (predecessor : Nat) : Option Nat :=
  (phi.incoming.find? (·.2 = predecessor)).map (·.1)

/-- The PHIs of a block read the registers that `before` holds. -/
def assignPhis (predecessor : Nat) (before : MachineContext World) :
    List MachinePhi → MachineContext World → Option (MachineContext World)
  | [], context => some context
  | phi :: rest, context =>
      match phi.valueFrom predecessor with
      | none => none
      | some source =>
          assignPhis predecessor before rest (context.setReg phi.dst (before.regs source))

def transferTo {Block Result : Type} [BasicBlock Block] (trapped : Result)
    (enter : Block → MachineContext World → Result) (source : Nat)
    (context : MachineContext World) : Option Block → Result
  | none => trapped
  | some block =>
      match assignPhis source context (BasicBlock.phis block) context with
      | none => trapped
      | some entered => enter block entered

section Execution

variable (effect : Inst → MachineContext World → Option (MachineContext World))
variable (visible : Nat → Bool) (function : MachineFunction Inst)

def transfer (source target : Nat) (context : MachineContext World) :
    Option (Option (Event Inst World) × Config Inst World) :=
  transferTo (some (some (.trapped context), .halted))
    (fun block entered =>
      some (if visible target then some (.entered target entered) else none,
        .running target block.insts entered))
    source context (function.block? target)

/-- A `Select` takes `$src` if `$lhs $imm $rhs` holds and `$src2` otherwise. -/
def step : StepFunction (Config Inst World) (Event Inst World)
  | .halted => none
  | .running block [] context =>
      match layoutNext function.blocks block with
      | none => some (some (.trapped context), .halted)
      | some next => transfer visible function block next context
  | .running block (.ordinary inst :: rest) context =>
      match effect inst context with
      | none => some (some (.trapped context), .halted)
      | some after => some (some (.executed inst context), .running block rest after)
  | .running block (.DBG_VALUE _ :: rest) context =>
      some (none, .running block rest context)
  | .running block (.Select dst lhs rhs imm src src2 :: rest) context =>
      some (none, .running block rest (context.setReg dst
        (if imm.holds (context.regs lhs) (context.regs rhs) then context.regs src
        else context.regs src2)))
  | .running block (.J_rr op rA rX dst :: rest) context =>
      if op.taken (context.regs rA) (context.regs rX) then
        transfer visible function block dst context
      else
        some (none, .running block rest context)
  | .running block (.J_ri op rA imm dst :: rest) context =>
      if op.taken (context.regs rA) (signExtend32 imm) then
        transfer visible function block dst context
      else
        some (none, .running block rest context)
  | .running block (.JMP dst :: _) context => transfer visible function block dst context
  | .running _ (.RET :: _) context => some (some (.returned context), .halted)

theorem transfer_eq (source target : Nat) (context : MachineContext World) :
    transfer visible function source target context =
      match function.block? target with
      | none => some (some (.trapped context), .halted)
      | some block =>
          match assignPhis source context block.phis context with
          | none => some (some (.trapped context), .halted)
          | some entered =>
              some (if visible target then some (.entered target entered) else none,
                .running target block.insts entered) := by
  rw [transfer]
  cases function.block? target <;> rfl

private theorem transfer_ne_none (source target : Nat) (context : MachineContext World) :
    transfer visible function source target context ≠ none := by
  rw [transfer_eq]
  split
  · simp
  · split <;> simp

theorem step_running_ne_none (block : Nat) (rest : List (MachineInstr Inst))
    (context : MachineContext World) :
    step effect visible function (.running block rest context) ≠ none := by
  cases rest with
  | nil =>
      simp only [step]
      split
      · simp
      · exact transfer_ne_none visible function _ _ _
  | cons inst rest =>
      cases inst with
      | ordinary inst =>
          simp only [step]
          split <;> simp
      | DBG_VALUE register => simp [step]
      | Select dst lhs rhs imm src src2 => simp [step]
      | J_rr op rA rX dst =>
          simp only [step]
          split
          · exact transfer_ne_none visible function _ _ _
          · simp
      | J_ri op rA imm dst =>
          simp only [step]
          split
          · exact transfer_ne_none visible function _ _ _
          · simp
      | JMP dst => exact transfer_ne_none visible function _ _ _
      | RET => simp [step]

/-- The first block of the layout is the entry. -/
def MachineFunction.start (context : MachineContext World) : Config Inst World :=
  match function.blocks with
  | [] => .halted
  | entry :: _ => .running entry.number entry.insts context

end Execution

end BpfBackend.CodeGen
