import BpfBackend.Foundation.Simulation
import BpfBackend.MC.Machine
import BpfBackend.MC.ObjectFile

/-! # Executing instructions

A machine that fetches one instruction after another. It runs the blocks of a
function, where a branch names a block, and the object code of the function,
where a branch holds a displacement and a relocation names a symbol.
-/

namespace BpfBackend.MC

open Simulation

/-! ## One instruction -/

/-- The addresses of the symbols and what the callees do. A call is known by the
symbol that the linker put into its field and by the rest of the field. -/
structure Environment where
  address : MCSymbol → BitVec 64
  call : Option MCSymbol → BitVec 64 → MachineState → Option MachineState

def Environment.constant (environment : Environment) : Option MCSymbol → BitVec 64 → BitVec 64
  | some symbol, value => environment.address symbol + value
  | none, value => value

inductive Outcome where
  | continues (state : MachineState)
  | jumps (dst : MCOperand)
  | returns

abbrev Reference := MCSymbol × Placement

/-- A relocation adds what its field holds, and is against the start of the
section if the symbol lies in one. -/
def MCOperand.link (relocation : Option Reference) :
    MCOperand → Option (Option MCSymbol × BitVec 64)
  | imm value =>
      match relocation with
      | some (symbol, placement) => some (some symbol, value - placement.fixupValue)
      | none => some (none, value)
  | expr (.SymbolRef symbol) => some (some symbol, 0)
  | _ => none

def execute (environment : Environment) (relocation : Option Reference) (inst : MCInst)
    (state : MachineState) : Option Outcome :=
  match inst.opcode, inst.operands with
  | .J_rr op, [.reg rA, .reg rX, dst] =>
      some (if op.taken (state.regs rA) (state.regs rX) then .jumps dst else .continues state)
  | .J_ri op, [.reg rA, .imm imm, dst] =>
      some (if op.taken (state.regs rA) imm then .jumps dst else .continues state)
  | .JMP, [dst] => some (.jumps dst)
  | .JAL, [dst] => do
      let (symbol, value) ← dst.link relocation
      (environment.call symbol value state).map .continues
  | .LD_imm64, [.reg rA, imm] => do
      let (symbol, value) ← imm.link relocation
      some (.continues (state.setReg rA (environment.constant symbol value)))
  | .RET, [] => some .returns
  | _, _ => (execInst inst state).map .continues

theorem execute_JAL (environment : Environment) (relocation : Option Reference)
    (dst : MCOperand) (state : MachineState) :
    execute environment relocation ⟨.JAL, [dst]⟩ state =
      (dst.link relocation).bind fun linked =>
        (environment.call linked.1 linked.2 state).map .continues := rfl

theorem execute_LD_imm64 (environment : Environment) (relocation : Option Reference) (rA : Reg)
    (imm : MCOperand) (state : MachineState) :
    execute environment relocation ⟨.LD_imm64, [.reg rA, imm]⟩ state =
      (imm.link relocation).map fun linked =>
        .continues (state.setReg rA (environment.constant linked.1 linked.2)) := by
  simp only [execute]
  cases imm.link relocation <;> rfl

/-! ## Machines -/

inductive MachineEvent where
  | executed (opcode : Opcode) (state : MachineState)
  | returned (state : MachineState)
  | trapped (state : MachineState)

inductive MachineConfig (Position : Type) where
  | running (position : Position) (state : MachineState)
  | halted

structure Fetched (Position : Type) where
  inst : MCInst
  relocation : Option Reference
  next : Position

/-- What a machine executes: the instruction at a position and the position
that a branch operand of this instruction names. -/
structure Code (Position : Type) where
  fetch : Position → Option (Fetched Position)
  target : Position → MCOperand → Option Position

/-- One instruction; control that leaves the code traps. -/
def machineStep {Position : Type} (environment : Environment) (code : Code Position) :
    StepFunction (MachineConfig Position) MachineEvent
  | .halted => none
  | .running position state =>
      match code.fetch position with
      | none => some (some (.trapped state), .halted)
      | some fetched =>
          match execute environment fetched.relocation fetched.inst state with
          | none => some (some (.trapped state), .halted)
          | some (.continues after) =>
              some (some (.executed fetched.inst.opcode state), .running fetched.next after)
          | some (.jumps dst) =>
              match code.target position dst with
              | none => some (some (.trapped state), .halted)
              | some next =>
                  some (some (.executed fetched.inst.opcode state), .running next state)
          | some .returns => some (some (.returned state), .halted)

section MachineStep

variable {Position : Type} {environment : Environment} {code : Code Position}
variable {position : Position} {fetched : Fetched Position} {state after : MachineState}

theorem machineStep_ends (fetch : code.fetch position = none) :
    machineStep environment code (.running position state) =
      some (some (.trapped state), .halted) := by
  simp only [machineStep, fetch]

theorem machineStep_fails (fetch : code.fetch position = some fetched)
    (executes : execute environment fetched.relocation fetched.inst state = none) :
    machineStep environment code (.running position state) =
      some (some (.trapped state), .halted) := by
  simp only [machineStep, fetch, executes]

theorem machineStep_continues (fetch : code.fetch position = some fetched)
    (executes : execute environment fetched.relocation fetched.inst state =
      some (.continues after)) :
    machineStep environment code (.running position state) =
      some (some (.executed fetched.inst.opcode state), .running fetched.next after) := by
  simp only [machineStep, fetch, executes]

theorem machineStep_jumps {dst : MCOperand} {next : Position}
    (fetch : code.fetch position = some fetched)
    (executes : execute environment fetched.relocation fetched.inst state = some (.jumps dst))
    (target : code.target position dst = some next) :
    machineStep environment code (.running position state) =
      some (some (.executed fetched.inst.opcode state), .running next state) := by
  simp only [machineStep, fetch, executes, target]

theorem machineStep_returns (fetch : code.fetch position = some fetched)
    (executes : execute environment fetched.relocation fetched.inst state = some .returns) :
    machineStep environment code (.running position state) =
      some (some (.returned state), .halted) := by
  simp only [machineStep, fetch, executes]

end MachineStep

/-! ## Blocks and object code -/

/-- A position in the blocks of a function is what is left of them; the last
instruction of a block is followed by the first of the next block. -/
def blocksCode (blocks : List (List MCInst)) : Code (List MCInst) where
  fetch
    | [] => none
    | inst :: rest => some ⟨inst.withoutNOP, none, rest⟩
  target _ dst :=
    match dst with
    | .expr (.SymbolRef (.block number)) =>
        if number < blocks.length then some (blocks.drop number).flatten else none
    | _ => none

def ObjectCode.relocationAt (object : ObjectCode) (slot : Nat) : Option Reference :=
  (object.relocations.find? fun relocation => relocation.offset = 8 * slot).map fun relocation =>
    (relocation.symbol, relocation.placement)

/-- A position in the text is the number of a slot; a branch counts the slots
from the next instruction. -/
def ObjectCode.code (object : ObjectCode) : Code Nat where
  fetch slot := do
    let (inst, _) ← decodeInst (object.text.drop (8 * slot))
    some ⟨inst, object.relocationAt slot, slot + inst.slotCount⟩
  target slot dst :=
    match dst with
    | .imm offset => ((slot : Int) + 1 + offset.toInt).toNat?
    | _ => none

end BpfBackend.MC
