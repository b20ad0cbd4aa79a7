import BpfBackend.CodeGen.FrameLowering

/-! # Spill slots

Register allocation takes the spill slots of a frame for registers of their
own. The object code keeps them in memory, which makes no difference to a
program that does not access them otherwise.
-/

namespace BpfBackend.CodeGen

open ByteMemory MC Simulation

/-! ## Slots -/

/-- Spill slots are frame objects that do not overlap. -/
structure SpillSlots (getObjectOffset : Int → BitVec 64) where
  indices : List Int
  apart : ∀ left ∈ indices, ∀ right ∈ indices, left ≠ right →
    Disjoint (getObjectOffset left) 8 (getObjectOffset right) 8

variable {getObjectOffset : Int → BitVec 64}

private theorem disjoint_add (frame : BitVec 64) {left right : BitVec 64} {count otherCount : Nat}
    (disjoint : Disjoint left count right otherCount) :
    Disjoint (frame + left) count (frame + right) otherCount := by
  intro index inRange
  have distance : frame + right + BitVec.ofNat 64 index - (frame + left) =
      right + BitVec.ofNat 64 index - left := by
    bv_omega
  rw [distance]
  exact disjoint index inRange

def SpillSlots.cells (slots : SpillSlots getObjectOffset) (frame : BitVec 64) :
    Cells Int 64 8 where
  names := slots.indices
  address index := frame + getObjectOffset index
  apart left leftMember right rightMember different :=
    disjoint_add frame (slots.apart left leftMember right rightMember different)

inductive SlotUse where
  | spill (SrcReg : Reg) (FI : Int)
  | reload (DestReg : Reg) (FI : Int)
  deriving DecidableEq, Repr

def FrameInst.slotUse (indices : List Int) : FrameInst → Option SlotUse
  | frame (.memory (.ST .D SrcReg) FI imm) =>
      if imm = 0 ∧ FI ∈ indices then some (.spill SrcReg FI) else none
  | frame (.memory (.LD .D DestReg) FI imm) =>
      if imm = 0 ∧ FI ∈ indices then some (.reload DestReg FI) else none
  | _ => none

def SlotUse.toInst : SlotUse → FrameInst
  | spill SrcReg FI => .frame (storeRegToStackSlot SrcReg FI)
  | reload DestReg FI => .frame (loadRegFromStackSlot DestReg FI)

def SlotUse.index : SlotUse → Int
  | spill _ FI | reload _ FI => FI

private theorem FrameInst.slotUse_eq_some {indices : List Int} {inst : FrameInst} {use : SlotUse}
    (uses : inst.slotUse indices = some use) :
    inst = use.toInst ∧ use.index ∈ indices := by
  unfold FrameInst.slotUse at uses
  split at uses
  · split at uses
    · rename_i conditions
      rcases conditions with ⟨rfl, member⟩
      cases uses
      exact ⟨rfl, member⟩
    · cases uses
  · split at uses
    · rename_i conditions
      rcases conditions with ⟨rfl, member⟩
      cases uses
      exact ⟨rfl, member⟩
    · cases uses
  · cases uses

/-! ## Execution with slots of their own -/

structure SlotWorld where
  memory : Memory 64
  slots : Int → BitVec 64

abbrev SlotContext := MachineContext SlotWorld

def SlotContext.inMemory (context : SlotContext) : MemoryContext :=
  ⟨context.regs, context.world.memory⟩

def FrameInst.slotEffect (environment : Environment) (getObjectOffset : Int → BitVec 64)
    (indices : List Int) (inst : FrameInst) (context : SlotContext) : Option SlotContext :=
  match inst.slotUse indices with
  | some (.spill SrcReg FI) =>
      some ⟨context.regs, context.world.memory,
        Function.update context.world.slots FI (context.regs (regNumber SrcReg))⟩
  | some (.reload DestReg FI) =>
      some (context.setReg (regNumber DestReg) (context.world.slots FI))
  | none =>
      (inst.effect environment getObjectOffset context.inMemory).map fun after =>
        ⟨after.regs, after.world, context.world.slots⟩

/-! ## Instructions that stay away from the slots -/

def InstrAction.accessed (regs : Reg → BitVec 64) : InstrAction → Option (BitVec 64 × Nat)
  | .access transfer base offset => some (regs base + offset, transfer.size.bytes)
  | _ => none

/-- The destination of an `XADD` is tied to its addend. -/
def MemoryAccess.defined : MemoryAccess → Option Reg
  | LD _ rA => some rA
  | ST _ _ => none
  | XADD _ dst => some dst

def InstrAction.defined : InstrAction → Option Reg
  | .define rA _ => some rA
  | .access transfer _ _ => transfer.defined
  | _ => none

structure StatesAgree (region : Set (BitVec 64)) (left right : MachineState) : Prop where
  regs : left.regs = right.regs
  outside : Set.EqOn left.memory right.memory regionᶜ

structure StatesAgreeAfter (region : Set (BitVec 64)) (before left right : MachineState) :
    Prop where
  agree : StatesAgree region left right
  kept : Set.EqOn right.memory before.memory region

section Agreement

variable {region : Set (BitVec 64)} {left right : MachineState}

theorem StatesAgree.setReg (agree : StatesAgree region left right) (register : Reg)
    (value : BitVec 64) :
    StatesAgreeAfter region right (left.setReg register value) (right.setReg register value) where
  agree := ⟨by rw [MachineState.setReg, MachineState.setReg, agree.regs], agree.outside⟩
  kept := Set.eqOn_refl _ _

theorem StatesAgree.loadMem (agree : StatesAgree region left right) {size : SizeOp}
    {address : BitVec 64} (apart : Within regionᶜ address size.bytes) :
    left.loadMem size address = right.loadMem size address :=
  load_of_eqOn agree.outside apart

theorem StatesAgree.storeMem (agree : StatesAgree region left right) {size : SizeOp}
    {address : BitVec 64} (apart : Within regionᶜ address size.bytes)
    (value : BitVec (8 * size.bytes)) :
    StatesAgreeAfter region right (left.storeMem size address value)
      (right.storeMem size address value) where
  agree := ⟨agree.regs, store_eqOn agree.outside address value⟩
  kept := by
    have kept := @store_eqOn_compl _ _ right.memory address _ apart value
    rwa [compl_compl] at kept

private theorem StatesAgree.refl_after (agree : StatesAgree region left right) :
    StatesAgreeAfter region right left right := ⟨agree, Set.eqOn_refl _ _⟩

private theorem MemoryAccess.perform_agree (access : MemoryAccess)
    (agree : StatesAgree region left right) {address : BitVec 64}
    (apart : Within regionᶜ address access.size.bytes) :
    StatesAgreeAfter region right (access.perform address left) (access.perform address right) := by
  cases access with
  | LD size rA =>
      have same := @StatesAgree.loadMem region left right agree size address apart
      simp only [perform, same]
      exact agree.setReg rA _
  | ST size rX =>
      simp only [perform, agree.regs]
      exact agree.storeMem apart _
  | XADD size dst =>
      have same := @StatesAgree.loadMem region left right agree size address apart
      simp only [perform, agree.regs, same]
      exact @StatesAgree.storeMem region left right agree size address apart _

end Agreement

/-! ## Calls -/

/-- A callee neither reads nor writes the slots of its caller and gives the
frame register back. -/
structure CallsKeepSlots (environment : Environment) (region : Set (BitVec 64)) :
    Prop where
  agrees : ∀ symbol value {left right}, StatesAgree region left right →
    Option.Rel (StatesAgreeAfter region right) (environment.call symbol value left)
      (environment.call symbol value right)
  frame : ∀ symbol value {before after}, environment.call symbol value before = some after →
    after.regs .R10 = before.regs .R10

section Actions

variable {environment : Environment} {region : Set (BitVec 64)} {left right : MachineState}

private theorem InstrAction.run_agree (calls : CallsKeepSlots environment region)
    (action : InstrAction) (agree : StatesAgree region left right)
    (apart : ∀ address count, action.accessed left.regs = some (address, count) →
      Within regionᶜ address count) :
    Option.Rel (StatesAgreeAfter region right) (action.run environment left)
      (action.run environment right) := by
  cases action with
  | idle => exact .some agree.refl_after
  | define rA value =>
      simp only [run, agree.regs]
      cases value environment right.regs with
      | none => exact .none
      | some result => exact .some (agree.setReg rA result)
  | access transfer base offset =>
      have within := apart _ _ rfl
      rw [agree.regs] at within
      simp only [run, agree.regs]
      exact .some (transfer.perform_agree agree within)
  | call symbol value => exact calls.agrees symbol value agree

private theorem frame_setReg {register : Reg} (other : register ≠ .R10) (state : MachineState)
    (value : BitVec 64) : (state.setReg register value).regs .R10 = state.regs .R10 :=
  if_neg (Ne.symm other)

theorem InstrAction.run_frame (calls : CallsKeepSlots environment region)
    {action : InstrAction} (other : action.defined ≠ some .R10) {before after : MachineState}
    (runs : action.run environment before = some after) :
    after.regs .R10 = before.regs .R10 := by
  have defines : ∀ {register : Reg}, action.defined = some register → register ≠ .R10 := by
    rintro register defined rfl
    exact other defined
  cases action with
  | idle =>
      cases runs
      rfl
  | define rA value =>
      rcases Option.bind_eq_some_iff.mp runs with ⟨result, _, same⟩
      cases same
      exact frame_setReg (defines rfl) before result
  | access transfer base offset =>
      cases runs
      cases transfer with
      | LD size rA => exact frame_setReg (defines rfl) before _
      | ST size rX => rfl
      | XADD size dst => rfl
  | call symbol value => exact calls.frame symbol value runs

end Actions

/-! ## Instructions with frame indices -/

def FrameInst.accessed (getObjectOffset : Int → BitVec 64) (inst : FrameInst)
    (regs : Reg → BitVec 64) : Option (BitVec 64 × Nat) :=
  (inst.action getObjectOffset).bind (·.accessed regs)

def FrameInst.defined (inst : FrameInst) : Option Reg :=
  (inst.action fun _ => 0).bind InstrAction.defined

/-- Registers that are never allocated. -/
def getReservedRegs : List Reg := [.R10, .R11]

def FrameInst.keepsReserved (inst : FrameInst) : Bool :=
  match inst.defined with
  | some register => !getReservedRegs.contains register
  | none => true

private theorem FrameInst.defined_ne_frame {inst : FrameInst} (keeps : inst.keepsReserved = true) :
    inst.defined ≠ some .R10 := by
  intro defined
  rw [keepsReserved, defined] at keeps
  cases keeps

section FrameInstructions

variable {environment : Environment} {region : Set (BitVec 64)} {left right : MachineState}

private theorem FrameInst.defined_of_action {inst : FrameInst} {action : InstrAction}
    (acts : inst.action getObjectOffset = some action) : inst.defined = action.defined := by
  cases inst with
  | selected inst =>
      rw [FrameInst.action] at acts
      rw [FrameInst.defined, FrameInst.action, acts]
      rfl
  | frame use =>
      cases acts
      cases use <;> rfl
  | _ =>
      cases acts
      rfl

private theorem FrameInst.run_agree (calls : CallsKeepSlots environment region) (inst : FrameInst)
    (agree : StatesAgree region left right)
    (apart : ∀ address count, inst.accessed getObjectOffset left.regs = some (address, count) →
      Within regionᶜ address count) :
    Option.Rel (StatesAgreeAfter region right) (inst.run environment getObjectOffset left)
      (inst.run environment getObjectOffset right) := by
  rw [FrameInst.run, FrameInst.run]
  rw [FrameInst.accessed] at apart
  cases acts : inst.action getObjectOffset with
  | none => exact .none
  | some action =>
      rw [acts] at apart
      exact action.run_agree calls agree apart

private theorem FrameInst.run_frame (calls : CallsKeepSlots environment region) {inst : FrameInst}
    (keeps : inst.keepsReserved = true) {before after : MachineState}
    (runs : inst.run environment getObjectOffset before = some after) :
    after.regs .R10 = before.regs .R10 := by
  have other := FrameInst.defined_ne_frame keeps
  rw [FrameInst.run] at runs
  cases acts : inst.action getObjectOffset with
  | none =>
      rw [acts] at runs
      cases runs
  | some action =>
      rw [acts] at runs
      rw [FrameInst.defined_of_action acts] at other
      exact InstrAction.run_frame calls other runs

end FrameInstructions

/-! ## Slots in memory -/

/-- Memory holds the slots, and is the same elsewhere. -/
structure SlotsRelated (slots : SpillSlots getObjectOffset) (frame : BitVec 64)
    (context : SlotContext) (other : MemoryContext) : Prop where
  regs : context.regs = other.regs
  frameRegister : other.regs (regNumber .R10) = frame
  outside : Set.EqOn context.world.memory other.world (slots.cells frame).regionᶜ
  held : (slots.cells frame).Hold other.world context.world.slots

section Related

variable {slots : SpillSlots getObjectOffset} {frame : BitVec 64} {environment : Environment}
variable {context : SlotContext} {other : MemoryContext}

private theorem SlotsRelated.statesAgree (related : SlotsRelated slots frame context other) :
    StatesAgree (slots.cells frame).region context.inMemory.state other.state where
  regs := by
    funext register
    exact congrFun related.regs (regNumber register)
  outside := related.outside

private theorem SlotsRelated.address_eq (related : SlotsRelated slots frame context other)
    (FI : Int) :
    other.state.regs .R10 + (getObjectOffset FI + 0) = (slots.cells frame).address FI := by
  have zero : getObjectOffset FI + 0 = getObjectOffset FI := BitVec.add_zero _
  rw [zero, ← related.frameRegister]
  rfl

theorem SlotsRelated.spill (related : SlotsRelated slots frame context other) (SrcReg : Reg)
    {FI : Int} (member : FI ∈ slots.indices) :
    ∃ after, (FrameInst.frame (storeRegToStackSlot SrcReg FI)).effect environment
        getObjectOffset other = some after ∧
      SlotsRelated slots frame ⟨context.regs, context.world.memory,
        Function.update context.world.slots FI (context.regs (regNumber SrcReg))⟩ after := by
  have stores : (FrameInst.frame (storeRegToStackSlot SrcReg FI)).effect environment
      getObjectOffset other = some (other.withState (other.state.storeMem .D
        (other.state.regs .R10 + (getObjectOffset FI + 0))
        ((other.state.regs SrcReg).setWidth _))) := rfl
  have inside : 8 ≤ 2 ^ 64 := by decide
  rw [related.address_eq, other.withState_storeMem] at stores
  refine ⟨_, stores, related.regs, related.frameRegister, ?_, ?_⟩
  · have within : Within (slots.cells frame).region ((slots.cells frame).address FI) 8 :=
      Cells.within_region inside member
    exact related.outside.trans (store_eqOn_compl within _).symm
  · have whole : (other.state.regs SrcReg).setWidth (8 * SizeOp.D.bytes) =
        context.regs (regNumber SrcReg) := by
      rw [related.regs]
      exact BitVec.setWidth_eq _
    rw [whole]
    exact related.held.store inside member _

theorem SlotsRelated.reload (related : SlotsRelated slots frame context other) {DestReg : Reg}
    {FI : Int} (member : FI ∈ slots.indices) (different : DestReg ≠ .R10) :
    ∃ after, (FrameInst.frame (loadRegFromStackSlot DestReg FI)).effect environment
        getObjectOffset other = some after ∧
      SlotsRelated slots frame
        (context.setReg (regNumber DestReg) (context.world.slots FI)) after := by
  have loads : (FrameInst.frame (loadRegFromStackSlot DestReg FI)).effect environment
      getObjectOffset other = some (other.withState (other.state.setReg DestReg
        ((other.state.loadMem .D
          (other.state.regs .R10 + (getObjectOffset FI + 0))).setWidth 64))) := rfl
  have held : (other.state.loadMem .D ((slots.cells frame).address FI)).setWidth 64 =
      context.world.slots FI := by
    rw [← related.held FI member]
    exact BitVec.setWidth_eq _
  rw [related.address_eq, held, other.withState_setReg] at loads
  refine ⟨_, loads, ?_, ?_, related.outside, related.held⟩
  · rw [MachineContext.setReg, MachineContext.setReg, related.regs]
  · have other : regNumber .R10 ≠ regNumber DestReg := by
      intro equal
      have registers := congrArg physReg equal
      rw [physReg_regNumber, physReg_regNumber] at registers
      exact different (Option.some.inj registers).symm
    exact (if_neg other).trans related.frameRegister

theorem SlotsRelated.run (related : SlotsRelated slots frame context other)
    (calls : CallsKeepSlots environment (slots.cells frame).region) {inst : FrameInst}
    (keeps : inst.keepsReserved = true)
    (apart : ∀ address count, inst.accessed getObjectOffset context.inMemory.state.regs =
      some (address, count) → Within (slots.cells frame).regionᶜ address count) :
    Option.Rel (SlotsRelated slots frame)
      ((inst.effect environment getObjectOffset context.inMemory).map fun after =>
        ⟨after.regs, after.world, context.world.slots⟩)
      (inst.effect environment getObjectOffset other) := by
  rw [FrameInst.effect, FrameInst.effect, Option.map_map]
  have agree := inst.run_agree calls related.statesAgree apart
  have frames : ∀ after, inst.run environment getObjectOffset other.state = some after →
      after.regs .R10 = other.state.regs .R10 := fun after runs => inst.run_frame calls keeps runs
  generalize inst.run environment getObjectOffset context.inMemory.state = result at agree
  generalize inst.run environment getObjectOffset other.state = otherResult at agree frames
  cases agree with
  | none => exact .none
  | @some after otherAfter agree =>
      apply Option.Rel.some
      constructor
      · funext number
        change (context.inMemory.withState after).regs number =
          (other.withState otherAfter).regs number
        simp only [MemoryContext.withState, agree.agree.regs]
        cases physReg number with
        | none => exact congrFun related.regs number
        | some register => rfl
      · exact (frames otherAfter rfl).trans related.frameRegister
      · exact agree.agree.outside
      · exact related.held.of_eqOn (by decide) agree.kept

theorem SlotsRelated.effect (related : SlotsRelated slots frame context other)
    (calls : CallsKeepSlots environment (slots.cells frame).region) {inst : FrameInst}
    (keeps : inst.keepsReserved = true)
    (apart : inst.slotUse slots.indices = none → ∀ address count,
      inst.accessed getObjectOffset context.inMemory.state.regs = some (address, count) →
        Within (slots.cells frame).regionᶜ address count) :
    Option.Rel (SlotsRelated slots frame)
      (inst.slotEffect environment getObjectOffset slots.indices context)
      (inst.effect environment getObjectOffset other) := by
  rw [FrameInst.slotEffect]
  cases uses : inst.slotUse slots.indices with
  | none => exact related.run calls keeps (apart uses)
  | some use =>
      rcases FrameInst.slotUse_eq_some uses with ⟨rfl, member⟩
      have different := FrameInst.defined_ne_frame keeps
      cases use with
      | spill SrcReg FI =>
          rcases @SlotsRelated.spill _ slots frame environment context other related SrcReg FI
            member with ⟨after, stores, afterRelated⟩
          rw [SlotUse.toInst, stores]
          exact .some afterRelated
      | reload DestReg FI =>
          have free : DestReg ≠ .R10 := by
            rintro rfl
            exact different rfl
          rcases @SlotsRelated.reload _ slots frame environment context other related DestReg FI
            member free with ⟨after, loads, afterRelated⟩
          rw [SlotUse.toInst, loads]
          exact .some afterRelated

end Related

/-! ## Whole runs -/

/-- Nothing is seen of the slots. -/
def hideState (cells : Cells Int 64 8) (state : MachineState) : MachineState :=
  ⟨state.regs, fun address => if address ∈ cells.region then 0 else state.memory address⟩

def Observation.hide (cells : Cells Int 64 8) : Observation → Observation
  | executed opcode state => .executed opcode (hideState cells state)
  | returned state => .returned (hideState cells state)
  | trapped state => .trapped (hideState cells state)

def observeHidden (cells : Cells Int 64 8) (event : Event FrameInst (Memory 64)) :
    Option Observation :=
  (observeFrame event).bind fun shown => some (shown.hide cells)

def SlotContext.event : Event FrameInst SlotWorld → Event FrameInst (Memory 64)
  | .executed inst context => .executed inst (SlotContext.inMemory context)
  | .entered block context => .entered block (SlotContext.inMemory context)
  | .returned context => .returned (SlotContext.inMemory context)
  | .trapped context => .trapped (SlotContext.inMemory context)

def observeSlots (cells : Cells Int 64 8) (event : Event FrameInst SlotWorld) :
    Option Observation :=
  observeHidden cells (SlotContext.event event)

/-- The next instruction accesses no slot, unless it spills or reloads. -/
def SlotsUntouched (slots : SpillSlots getObjectOffset) (frame : BitVec 64) :
    Config FrameInst SlotWorld → Prop
  | .running _ (.ordinary inst :: _) context =>
      inst.slotUse slots.indices = none → ∀ address count,
        inst.accessed getObjectOffset (SlotContext.inMemory context).state.regs =
          some (address, count) → Within (slots.cells frame).regionᶜ address count
  | _ => True

/-- Register allocation defines no reserved register and leaves no `Select`. -/
def MachineInstr.isAllocated : MachineInstr FrameInst → Bool
  | ordinary inst => inst.keepsReserved
  | Select .. => false
  | _ => true

structure MachineFunction.Allocated (function : MachineFunction FrameInst) : Prop where
  noPhis : ∀ block ∈ function.blocks, block.phis = []
  allocated : ∀ block ∈ function.blocks, ∀ inst ∈ block.insts, inst.isAllocated = true

section Runs

variable (environment : Environment) (visible : Nat → Bool)
variable (slots : SpillSlots getObjectOffset) (frame : BitVec 64)
variable (function : MachineFunction FrameInst)

abbrev slotStep : StepFunction (Config FrameInst SlotWorld) (Event FrameInst SlotWorld) :=
  step (FrameInst.slotEffect environment getObjectOffset slots.indices) visible function

abbrev frameStep (getObjectOffset : Int → BitVec 64) :
    StepFunction (Config FrameInst (Memory 64)) (Event FrameInst (Memory 64)) :=
  step (FrameInst.effect environment getObjectOffset) visible function

inductive SlotConfig : Config FrameInst SlotWorld → Config FrameInst (Memory 64) → Prop where
  | running (block : Nat) {rest : List (MachineInstr FrameInst)} {context : SlotContext}
      {other : MemoryContext} :
      SlotsRelated slots frame context other → (∀ inst ∈ rest, inst.isAllocated = true) →
      SlotConfig (.running block rest context) (.running block rest other)
  | halted : SlotConfig .halted .halted

variable {environment visible slots frame function}
variable {context : SlotContext} {other : MemoryContext}

private theorem SlotsRelated.hideState_eq (related : SlotsRelated slots frame context other) :
    hideState (slots.cells frame) context.inMemory.state =
      hideState (slots.cells frame) other.state := by
  have memories : (hideState (slots.cells frame) context.inMemory.state).memory =
      (hideState (slots.cells frame) other.state).memory := by
    funext address
    simp only [hideState]
    split
    · rfl
    · rename_i outside
      exact related.outside outside
  have registers := related.statesAgree.regs
  simp only [hideState] at memories ⊢
  rw [registers, memories]

theorem SlotsRelated.executed (related : SlotsRelated slots frame context other)
    (inst : FrameInst) :
    observeHidden (slots.cells frame) (.executed inst other) =
      observeSlots (slots.cells frame) (.executed inst context) := by
  simp only [observeHidden, observeSlots, SlotContext.event, observeFrame, Observation.external]
  split
  · rw [Option.bind_some, Option.bind_some, Observation.hide, Observation.hide,
      related.hideState_eq]
  · rfl

theorem SlotsRelated.trapped (related : SlotsRelated slots frame context other) :
    observeHidden (slots.cells frame) (.trapped other) =
      observeSlots (slots.cells frame) (.trapped context) :=
  congrArg (fun state => some (Observation.trapped state)) related.hideState_eq.symm

theorem SlotsRelated.returned (related : SlotsRelated slots frame context other) :
    observeHidden (slots.cells frame) (.returned other) =
      observeSlots (slots.cells frame) (.returned context) :=
  congrArg (fun state => some (Observation.returned state)) related.hideState_eq.symm

theorem transfer_slots (allocated : function.Allocated)
    (related : SlotsRelated slots frame context other) (source target : Nat)
    {event : Option (Event FrameInst SlotWorld)} {next : Config FrameInst SlotWorld}
    (moves : transfer visible function source target context = some (event, next)) :
    ∃ otherEvent otherNext,
      transfer visible function source target other = some (otherEvent, otherNext) ∧
      otherEvent.bind (observeHidden (slots.cells frame)) =
        event.bind (observeSlots (slots.cells frame)) ∧
      SlotConfig slots frame next otherNext := by
  rw [transfer_eq] at moves ⊢
  cases found : function.block? target with
  | none =>
      rw [found] at moves
      cases moves
      exact ⟨_, _, rfl, related.trapped, .halted⟩
  | some block =>
      have member := mem_of_block? found
      rw [found] at moves
      dsimp only at moves ⊢
      rw [allocated.noPhis block member, assignPhis] at moves ⊢
      cases moves
      refine ⟨_, _, rfl, ?_, .running target related (allocated.allocated block member)⟩
      cases visible target <;> rfl

theorem SlotConfig.advances (allocated : function.Allocated)
    (calls : CallsKeepSlots environment (slots.cells frame).region)
    {config next : Config FrameInst SlotWorld} {otherConfig : Config FrameInst (Memory 64)}
    {event : Option (Event FrameInst SlotWorld)}
    (related : SlotConfig slots frame config otherConfig)
    (untouched : SlotsUntouched slots frame config)
    (steps : slotStep environment visible slots function config = some (event, next)) :
    ∃ otherEvent otherNext,
      frameStep environment visible function getObjectOffset otherConfig =
        some (otherEvent, otherNext) ∧
      otherEvent.bind (observeHidden (slots.cells frame)) =
        event.bind (observeSlots (slots.cells frame)) ∧
      SlotConfig slots frame next otherNext := by
  cases related with
  | halted => cases steps
  | @running block rest context other related remaining =>
      cases rest with
      | nil =>
          rw [slotStep, step] at steps
          rw [frameStep, step]
          cases layout : layoutNext function.blocks block with
          | none =>
              rw [layout] at steps
              cases steps
              exact ⟨_, _, rfl, related.trapped, .halted⟩
          | some successor =>
              rw [layout] at steps
              exact transfer_slots allocated related block successor steps
      | cons inst rest =>
          have later : ∀ inst ∈ rest, inst.isAllocated = true :=
            fun other member => remaining other (List.mem_cons_of_mem inst member)
          have own := remaining inst List.mem_cons_self
          cases inst with
          | ordinary inst =>
              have effects := related.effect calls own untouched
              rw [slotStep, step] at steps
              rw [frameStep, step]
              generalize inst.slotEffect environment getObjectOffset slots.indices context =
                result at effects steps
              generalize inst.effect environment getObjectOffset other = otherResult at effects
              cases effects with
              | none =>
                  cases steps
                  exact ⟨_, _, rfl, related.trapped, .halted⟩
              | some afterRelated =>
                  cases steps
                  exact ⟨_, _, rfl, related.executed inst, .running block afterRelated later⟩
          | DBG_VALUE register =>
              cases steps
              exact ⟨_, _, rfl, rfl, .running block related later⟩
          | Select dst lhs rhs imm src src2 => cases own
          | J_rr op rA rX dst =>
              rw [slotStep, step] at steps
              rw [frameStep, step, ← related.regs]
              split at steps
              · rw [if_pos ‹_›]
                exact transfer_slots allocated related block dst steps
              · rw [if_neg ‹_›]
                cases steps
                exact ⟨_, _, rfl, rfl, .running block related later⟩
          | J_ri op rA imm dst =>
              rw [slotStep, step] at steps
              rw [frameStep, step, ← related.regs]
              split at steps
              · rw [if_pos ‹_›]
                exact transfer_slots allocated related block dst steps
              · rw [if_neg ‹_›]
                cases steps
                exact ⟨_, _, rfl, rfl, .running block related later⟩
          | JMP dst => exact transfer_slots allocated related block dst steps
          | RET =>
              cases steps
              exact ⟨_, _, rfl, related.returned, .halted⟩

end Runs

/-! ## From spill slots to object code -/

end BpfBackend.CodeGen
