import BpfBackend.MC.Execution

/-! # Object code executes like its blocks

At every slot the object code holds the instruction of the blocks that was
placed there, its branches lead to the slots of the blocks that they name, and
its relocations hand back the symbols that the instructions lost.
-/

namespace BpfBackend.MC

open Layout Simulation

/-! ## Two machines with the same code -/

/-- Two instructions do the same; if they continue or jump, then to related
positions. -/
inductive OutcomesAgree {Position Other : Type} (Related : Position → Other → Prop)
    (target : MCOperand → Option Position) (otherTarget : MCOperand → Option Other)
    (next : Position) (otherNext : Other) :
    Option Outcome → Option Outcome → Prop where
  | fails : OutcomesAgree Related target otherTarget next otherNext none none
  | continues (state : MachineState) : Related next otherNext →
      OutcomesAgree Related target otherTarget next otherNext (some (.continues state))
        (some (.continues state))
  | jumps {dst otherDst : MCOperand} {position : Position} {otherPosition : Other} :
      target dst = some position → otherTarget otherDst = some otherPosition →
      Related position otherPosition →
      OutcomesAgree Related target otherTarget next otherNext (some (.jumps dst))
        (some (.jumps otherDst))
  | returns : OutcomesAgree Related target otherTarget next otherNext (some .returns)
      (some .returns)

structure SameCode {Position Other : Type} (environment : Environment)
    (code : Code Position) (other : Code Other) (Related : Position → Other → Prop) :
    Prop where
  ends : ∀ {position otherPosition}, Related position otherPosition →
    code.fetch position = none → other.fetch otherPosition = none
  fetches : ∀ {position otherPosition fetched}, Related position otherPosition →
    code.fetch position = some fetched → ∃ otherFetched,
      other.fetch otherPosition = some otherFetched ∧
      otherFetched.inst.opcode = fetched.inst.opcode ∧
      ∀ state, OutcomesAgree Related (code.target position) (other.target otherPosition)
        fetched.next otherFetched.next
        (execute environment fetched.relocation fetched.inst state)
        (execute environment otherFetched.relocation otherFetched.inst state)

section SameCode

variable {Position Other : Type} {environment : Environment}
variable {code : Code Position} {other : Code Other}
variable {Related : Position → Other → Prop}

inductive ConfigsRelated (Related : Position → Other → Prop) :
    MachineConfig Position → MachineConfig Other → Prop where
  | running {position : Position} {otherPosition : Other} (state : MachineState) :
      Related position otherPosition →
      ConfigsRelated Related (.running position state) (.running otherPosition state)
  | halted : ConfigsRelated Related .halted .halted

private theorem machineStep_running_ne_none (position : Position) (state : MachineState) :
    machineStep environment code (.running position state) ≠ none := by
  simp only [machineStep]
  split
  · simp
  · split
    · simp
    · simp
    · split <;> simp
    · simp

theorem SameCode.simulates (same : SameCode environment code other Related) :
    Simulates (machineStep environment code) (machineStep environment other)
      (ConfigsRelated Related) where
  halts := by
    intro config otherConfig related halted
    cases related with
    | running state positions => exact absurd halted (machineStep_running_ne_none _ _)
    | halted => rfl
  advances := by
    intro config otherConfig event next related steps
    left
    cases related with
    | halted => cases steps
    | running state positions =>
        rename_i position otherPosition
        cases fetch : code.fetch position with
        | none =>
            rw [machineStep_ends fetch] at steps
            cases steps
            exact ⟨.halted, machineStep_ends (same.ends positions fetch), .halted⟩
        | some fetched =>
            rcases same.fetches positions fetch with
              ⟨otherFetched, otherFetch, opcode, agree⟩
            have outcomes := agree state
            generalize outcome : execute environment fetched.relocation fetched.inst state =
              result at outcomes
            generalize otherOutcome : execute environment otherFetched.relocation
              otherFetched.inst state = otherResult at outcomes
            cases outcomes with
            | fails =>
                rw [machineStep_fails fetch outcome] at steps
                cases steps
                exact ⟨.halted, machineStep_fails otherFetch otherOutcome, .halted⟩
            | continues after nexts =>
                rw [machineStep_continues fetch outcome] at steps
                cases steps
                rw [← opcode]
                exact ⟨_, machineStep_continues otherFetch otherOutcome, .running after nexts⟩
            | jumps target otherTarget targets =>
                rw [machineStep_jumps fetch outcome target] at steps
                cases steps
                rw [← opcode]
                exact ⟨_, machineStep_jumps otherFetch otherOutcome otherTarget,
                  .running state targets⟩
            | returns =>
                rw [machineStep_returns fetch outcome] at steps
                cases steps
                exact ⟨.halted, machineStep_returns otherFetch otherOutcome, .halted⟩

end SameCode

/-! ## Fetching from the text -/

section Fetch

variable {locate : MCSymbol → Option Nat}

private theorem resolveForms_append (locate : MCSymbol → Option Nat) (slot : Nat)
    (first second : List Form) :
    resolveForms locate slot (first ++ second) =
      resolveForms locate slot first ++
        resolveForms locate (slot + totalSize MCInst.slotCount (first.map Form.toMCInst))
          second := by
  induction first generalizing slot with
  | nil => rfl
  | cons form rest induction =>
      rw [List.cons_append, resolveForms, induction, resolveForms, List.map_cons,
        totalSize_cons, Nat.add_assoc, List.cons_append]

theorem length_resolvedBytes (locate : MCSymbol → Option Nat) (slot : Nat)
    (forms : List Form) :
    (formBytes (resolveForms locate slot forms)).length =
      8 * totalSize MCInst.slotCount (forms.map Form.toMCInst) := by
  induction forms generalizing slot with
  | nil => rfl
  | cons form rest induction =>
      rw [resolveForms, formBytes_cons, List.length_append, Form.length_bytes,
        Form.slotCount_resolve, induction, List.map_cons, totalSize_cons, Nat.mul_add]

theorem drop_resolvedBytes (locate : MCSymbol → Option Nat) (first rest : List Form)
    (after : List Byte) :
    (formBytes (resolveForms locate 0 (first ++ rest)) ++ after).drop
        (8 * totalSize MCInst.slotCount (first.map Form.toMCInst)) =
      formBytes (resolveForms locate
        (totalSize MCInst.slotCount (first.map Form.toMCInst)) rest) ++ after := by
  rw [resolveForms_append, formBytes_append, List.append_assoc,
    ← length_resolvedBytes locate 0 first, List.drop_left, Nat.zero_add]

theorem mem_relocationsFrom_bounds {placement : MCSymbol → Placement} {start : Nat}
    {insts : List MCInst} {relocation : Relocation}
    (member : relocation ∈ relocationsFrom placement start insts) :
    8 * start ≤ relocation.offset ∧
      relocation.offset < 8 * (start + totalSize MCInst.slotCount insts) := by
  rcases List.mem_flatMap.mp member with ⟨⟨slot, inst⟩, placed, named⟩
  rcases Option.map_eq_some_iff.mp (Option.mem_toList.mp named) with ⟨reference, _, rfl⟩
  have bounds := place_bounds placed
  have occupied := inst.one_le_slotCount
  dsimp only at bounds ⊢
  omega

theorem find_relocationsFrom (placement : MCSymbol → Placement) (base : Nat)
    (first rest : List MCInst) (inst : MCInst) :
    (relocationsFrom placement base (first ++ inst :: rest)).find? (fun relocation =>
        relocation.offset = 8 * (base + totalSize MCInst.slotCount first)) =
      inst.relocation placement (base + totalSize MCInst.slotCount first) := by
  have parts : relocationsFrom placement base (first ++ inst :: rest) =
      relocationsFrom placement base first ++
        ((inst.relocation placement (base + totalSize MCInst.slotCount first)).toList ++
        relocationsFrom placement (base + totalSize MCInst.slotCount first + inst.slotCount)
          rest) := by
    rw [relocationsFrom, place_append, List.flatMap_append]
    rfl
  have earlier : (relocationsFrom placement base first).find? (fun relocation =>
      relocation.offset = 8 * (base + totalSize MCInst.slotCount first)) = none := by
    rw [List.find?_eq_none]
    intro relocation member
    have bounds := mem_relocationsFrom_bounds member
    simp only [decide_eq_true_eq]
    omega
  have later : (relocationsFrom placement (base + totalSize MCInst.slotCount first +
      inst.slotCount) rest).find? (fun relocation =>
        relocation.offset = 8 * (base + totalSize MCInst.slotCount first)) = none := by
    rw [List.find?_eq_none]
    intro relocation member
    have bounds := mem_relocationsFrom_bounds member
    have occupied := inst.one_le_slotCount
    simp only [decide_eq_true_eq]
    omega
  rw [parts, List.find?_append, earlier, Option.none_or, List.find?_append, later,
    Option.or_none]
  cases named : inst.reference with
  | none => simp [MCInst.relocation, named]
  | some reference => simp [MCInst.relocation, named]

end Fetch

/-! ## One instruction at a slot -/

def Opcode.isBranch : Opcode → Bool
  | J_rr _ | J_ri _ | JMP => true
  | _ => false

def Opcode.isBarrier : Opcode → Bool
  | JMP | RET => true
  | _ => false

/-- Branches name symbols, as those that come from machine code do. -/
def SymbolicBranches (blocks : List (List MCInst)) : Prop :=
  ∀ block ∈ blocks, ∀ inst ∈ block, inst.opcode.isBranch = true → inst.branchTarget.isSome = true

instance (blocks : List (List MCInst)) : Decidable (SymbolicBranches blocks) :=
  inferInstanceAs (Decidable (∀ block ∈ blocks, ∀ inst ∈ block, _ → _))

def FitsFields (blocks : List (List MCInst)) : Prop :=
  ∀ block ∈ blocks, ∀ inst ∈ block, inst.fitsFields = true

instance (blocks : List (List MCInst)) : Decidable (FitsFields blocks) :=
  inferInstanceAs (Decidable (∀ block ∈ blocks, ∀ inst ∈ block, _ = true))

instance (blocks : List (List MCInst)) : Decidable (DisplacementsFit blocks) :=
  inferInstanceAs (Decidable (∀ site ∈ branchSites blocks,
    ∀ targetSlot ∈ symbolSlot blocks site.target, _ ∧ _))

section Agreement

variable {Position : Type} {Related : Position → Nat → Prop}
variable {locate : MCSymbol → Option Nat} {slot : Nat}
variable {target : MCOperand → Option Position} {otherTarget : MCOperand → Option Nat}
variable {next : Position} {otherNext : Nat}

def BranchAgrees (Related : Position → Nat → Prop) (locate : MCSymbol → Option Nat)
    (slot : Nat) (target : MCOperand → Option Position)
    (otherTarget : MCOperand → Option Nat) (symbol : MCSymbol) : Prop :=
  ∃ position otherPosition, target (.expr (.SymbolRef symbol)) = some position ∧
    otherTarget (.imm (signExtend16 (Target.resolve locate slot (.symbol symbol)).bits)) =
      some otherPosition ∧ Related position otherPosition

private theorem outcomesAgree_refl (outcome : Option MachineState)
    (nexts : Related next otherNext) :
    OutcomesAgree Related target otherTarget next otherNext (outcome.map .continues)
      (outcome.map .continues) := by
  cases outcome with
  | none => exact .fails
  | some state => exact .continues state nexts

theorem outcomesAgree_branch {symbol : MCSymbol} (taken : Bool) (state : MachineState)
    (agrees : BranchAgrees Related locate slot target otherTarget symbol)
    (nexts : taken = false → Related next otherNext) :
    OutcomesAgree Related target otherTarget next otherNext
      (some (if taken then .jumps (.expr (.SymbolRef symbol)) else .continues state))
      (some (if taken then
        .jumps (.imm (signExtend16 (Target.resolve locate slot (.symbol symbol)).bits))
        else .continues state)) := by
  rcases agrees with ⟨position, otherPosition, found, otherFound, related⟩
  cases taken with
  | false => exact .continues state (nexts rfl)
  | true => exact .jumps found otherFound related

def MCInst.placedReference (placement : MCSymbol → Placement) (inst : MCInst) :
    Option Reference :=
  inst.reference.map fun reference => (reference.1, placement reference.1)

private theorem link_zero {symbol : MCSymbol} {placement : Placement}
    (kept : placement.fixupValue = 0) :
    (MCOperand.imm 0).link (some (symbol, placement)) = some (some symbol, 0) := by
  rw [MCOperand.link, kept]
  rfl

/-- An instruction does in the blocks what its bytes and its relocation make
the machine do in the text. -/
theorem Form.outcomesAgree (environment : Environment) (placement : MCSymbol → Placement)
    (form : Form) (state : MachineState)
    (kept : form.toMCInst.keepsReference placement = true)
    (symbolic : form.toMCInst.opcode.isBranch = true →
      form.toMCInst.branchTarget.isSome = true)
    (branches : ∀ symbol, form.toMCInst.branchTarget = some symbol →
      BranchAgrees Related locate slot target otherTarget symbol)
    (nexts : form.toMCInst.opcode.isBarrier = false → Related next otherNext) :
    OutcomesAgree Related target otherTarget next otherNext
      (execute environment none form.toMCInst.asEncoded state)
      (execute environment (form.toMCInst.placedReference placement)
        (form.resolve locate slot).decoded state) := by
  cases form
  case JMP_RR jcc rA rX dst =>
    cases dst with
    | imm value => cases symbolic rfl
    | symbol name =>
        exact outcomesAgree_branch (jcc.taken (state.regs rA) (state.regs rX)) state
          (branches name rfl) fun _ => nexts rfl
  case JMP_RI jcc rA imm dst =>
    cases dst with
    | imm value => cases symbolic rfl
    | symbol name =>
        exact outcomesAgree_branch (jcc.taken (state.regs rA) (signExtend32 imm)) state
          (branches name rfl) fun _ => nexts rfl
  case BRANCH dst =>
    cases dst with
    | imm value => cases symbolic rfl
    | symbol name =>
        apply outcomesAgree_branch true state (branches name rfl)
        intro never
        cases never
  case CALL dst =>
    cases dst with
    | imm value =>
        exact outcomesAgree_refl (environment.call none (signExtend32 value) state) (nexts rfl)
    | symbol name =>
        have linked : execute environment
            ((Form.CALL (.symbol name)).toMCInst.placedReference placement)
            ((Form.CALL (.symbol name)).resolve locate slot).decoded state =
            (environment.call (some name) 0 state).map Outcome.continues := by
          have decoded : ((Form.CALL (.symbol name)).resolve locate slot).decoded =
              ⟨.JAL, [.imm 0]⟩ := rfl
          have relocation : (Form.CALL (.symbol name)).toMCInst.placedReference placement =
              some (name, placement name) := rfl
          rw [decoded, relocation, execute_JAL, link_zero (of_decide_eq_true kept)]
          rfl
        rw [linked]
        exact outcomesAgree_refl (environment.call (some name) 0 state) (nexts rfl)
  case LD_IMM64 rA imm =>
    cases imm with
    | imm value => exact .continues _ (nexts rfl)
    | symbol name =>
        have linked : execute environment
            ((Form.LD_IMM64 rA (.symbol name)).toMCInst.placedReference placement)
            ((Form.LD_IMM64 rA (.symbol name)).resolve locate slot).decoded state =
            some (Outcome.continues
              (state.setReg rA (environment.constant (some name) 0))) := by
          have decoded : ((Form.LD_IMM64 rA (.symbol name)).resolve locate slot).decoded =
              ⟨.LD_imm64, [.reg rA, .imm 0]⟩ := rfl
          have relocation :
              (Form.LD_IMM64 rA (.symbol name)).toMCInst.placedReference placement =
              some (name, placement name) := rfl
          rw [decoded, relocation, execute_LD_imm64, link_zero (of_decide_eq_true kept)]
          rfl
        rw [linked]
        exact .continues _ (nexts rfl)
  case RET => exact .returns
  case ALU_RR alu rA rX =>
    exact outcomesAgree_refl (execInst (Form.decoded (.ALU_RR alu rA rX)) state) (nexts rfl)
  case ALU_RI alu rA imm =>
    exact outcomesAgree_refl (execInst (Form.decoded (.ALU_RI alu rA imm)) state) (nexts rfl)
  case MOV_RR rA rX =>
    exact outcomesAgree_refl (execInst (Form.decoded (.MOV_RR rA rX)) state) (nexts rfl)
  case MOV_RI rA imm =>
    exact outcomesAgree_refl (execInst (Form.decoded (.MOV_RI rA imm)) state) (nexts rfl)
  case STORE size rX base offset =>
    exact outcomesAgree_refl (execInst (Form.decoded (.STORE size rX base offset)) state)
      (nexts rfl)
  case LOAD size rA base offset =>
    exact outcomesAgree_refl (execInst (Form.decoded (.LOAD size rA base offset)) state)
      (nexts rfl)
  case NOP_I imm =>
    exact outcomesAgree_refl (execInst (Form.decoded (.NOP_I imm)) state) (nexts rfl)
  case XADD size dst base offset =>
    exact outcomesAgree_refl (execInst (Form.decoded (.XADD size dst base offset)) state)
      (nexts rfl)

end Agreement

/-! ## A function inside a text section -/

def slotsOf (blocks : List (List Form)) : Nat :=
  totalSize MCInst.slotCount (blocks.flatten.map Form.toMCInst)

/-- The text holds a function from a slot on, with its branches resolved, and
the relocations in its range are those of its instructions. -/
structure ObjectCode.Holds (object : ObjectCode) (placement : MCSymbol → Placement)
    (base : Nat) (blocks : List (List Form)) : Prop where
  text : ∃ before after, object.text = before ++
      (formBytes (resolveForms (symbolSlot (blocks.map (List.map Form.toMCInst))) 0
        blocks.flatten) ++ after) ∧ before.length = 8 * base
  relocations : ∃ earlier later, object.relocations =
      earlier ++ (relocationsFrom placement base (blocks.flatten.map Form.toMCInst) ++ later) ∧
      (∀ relocation ∈ earlier, relocation.offset < 8 * base) ∧
      ∀ relocation ∈ later, 8 * (base + slotsOf blocks) ≤ relocation.offset

/-- The last instruction of the last block lets no control past it. -/
def EndsInBarrier (blocks : List (List MCInst)) : Bool :=
  (blocks.getLast?.bind List.getLast?).any (·.opcode.isBarrier)

private theorem endsInBarrier_iff {blocks : List (List MCInst)} :
    EndsInBarrier blocks = true ↔ ∃ before block inst,
      blocks = before ++ [block ++ [inst]] ∧ inst.opcode.isBarrier = true := by
  simp only [EndsInBarrier, Option.any_eq_true, Option.bind_eq_some_iff,
    List.getLast?_eq_some_iff]
  constructor
  · intro found
    rcases found with ⟨inst, ⟨_, ⟨before, rfl⟩, block, rfl⟩, barrier⟩
    exact ⟨before, block, inst, rfl, barrier⟩
  · intro found
    rcases found with ⟨before, block, inst, rfl, barrier⟩
    exact ⟨inst, ⟨_, ⟨before, rfl⟩, block, rfl⟩, barrier⟩

/-- What is left of the blocks starts at this slot of the text. If nothing is
left, the text ends there. -/
structure PlacedAt (object : ObjectCode) (base : Nat) (blocks : List (List Form))
    (rest : List MCInst) (slot : Nat) : Prop where
  placed : ∃ first further : List Form, blocks.flatten = first ++ further ∧
    rest = further.map Form.toMCInst ∧
    slot = base + totalSize MCInst.slotCount (first.map Form.toMCInst)
  ends : rest = [] → object.text.length = 8 * slot

section Placed

variable {object : ObjectCode} {placement : MCSymbol → Placement} {base : Nat}
variable {blocks : List (List Form)}
variable {first further : List Form} {form : Form}

theorem ObjectCode.Holds.fetch (holds : object.Holds placement base blocks)
    (whole : blocks.flatten = first ++ form :: further) :
    object.code.fetch (base + totalSize MCInst.slotCount (first.map Form.toMCInst)) =
      some ⟨(form.resolve (symbolSlot (blocks.map (List.map Form.toMCInst)))
            (totalSize MCInst.slotCount (first.map Form.toMCInst))).decoded,
          form.toMCInst.placedReference placement,
          base + totalSize MCInst.slotCount ((first ++ [form]).map Form.toMCInst)⟩ := by
  rcases holds.text with ⟨before, after, text, length⟩
  rcases holds.relocations with ⟨earlier, later, relocations, earlierBelow, laterAbove⟩
  have dropped : object.text.drop
      (8 * (base + totalSize MCInst.slotCount (first.map Form.toMCInst))) =
      (form.resolve (symbolSlot (blocks.map (List.map Form.toMCInst)))
          (totalSize MCInst.slotCount (first.map Form.toMCInst))).bytes ++
        (formBytes (resolveForms (symbolSlot (blocks.map (List.map Form.toMCInst)))
          (totalSize MCInst.slotCount (first.map Form.toMCInst) + form.toMCInst.slotCount)
          further) ++ after) := by
    rw [text, Nat.mul_add, ← length, List.drop_length_add_append, whole, drop_resolvedBytes,
      resolveForms, formBytes_cons, List.append_assoc]
  have size : totalSize MCInst.slotCount ((first ++ [form]).map Form.toMCInst) =
      totalSize MCInst.slotCount (first.map Form.toMCInst) + form.toMCInst.slotCount := by
    simp [totalSize]
  have inside : totalSize MCInst.slotCount (first.map Form.toMCInst) + 1 ≤ slotsOf blocks := by
    have occupied := form.toMCInst.one_le_slotCount
    rw [slotsOf, whole]
    simp only [totalSize, List.map_append, List.map_cons, List.sum_append, List.sum_cons]
    omega
  have notEarlier : earlier.find? (fun relocation => relocation.offset =
      8 * (base + totalSize MCInst.slotCount (first.map Form.toMCInst))) = none := by
    rw [List.find?_eq_none]
    intro relocation member
    have below := earlierBelow relocation member
    simp only [decide_eq_true_eq]
    omega
  have notLater : later.find? (fun relocation => relocation.offset =
      8 * (base + totalSize MCInst.slotCount (first.map Form.toMCInst))) = none := by
    rw [List.find?_eq_none]
    intro relocation member
    have above := laterAbove relocation member
    simp only [decide_eq_true_eq]
    omega
  have relocation : object.relocationAt
      (base + totalSize MCInst.slotCount (first.map Form.toMCInst)) =
      form.toMCInst.placedReference placement := by
    rw [ObjectCode.relocationAt, relocations, List.find?_append, notEarlier, Option.none_or,
      List.find?_append, notLater, Option.or_none, whole, List.map_append, List.map_cons,
      find_relocationsFrom]
    cases named : form.toMCInst.reference <;>
      simp [MCInst.relocation, MCInst.placedReference, named]
  simp only [ObjectCode.code, relocation, dropped, decodeInst_bytes, size, bind, Option.bind]
  cases form <;> rfl

def ObjectCode.Closes (object : ObjectCode) (base : Nat) (blocks : List (List Form)) : Prop :=
  EndsInBarrier (blocks.map (List.map Form.toMCInst)) = true ∨
    object.text.length = 8 * (base + slotsOf blocks)

private theorem placedAt_of_split (closes : object.Closes base blocks)
    (whole : blocks.flatten = first ++ further)
    (more : EndsInBarrier (blocks.map (List.map Form.toMCInst)) = true → further ≠ []) :
    PlacedAt object base blocks (further.map Form.toMCInst)
      (base + totalSize MCInst.slotCount (first.map Form.toMCInst)) where
  placed := ⟨first, further, whole, rfl, rfl⟩
  ends := by
    intro empty
    have exhausted : further = [] := List.map_eq_nil_iff.mp empty
    rcases closes with barrier | length
    · exact absurd exhausted (more barrier)
    · rw [length, slotsOf, whole, exhausted, List.append_nil]

theorem drop_flatten_ne_nil
    (barrier : EndsInBarrier (blocks.map (List.map Form.toMCInst)) = true)
    {number : Nat} (inRange : number < blocks.length) :
    (blocks.drop number).flatten ≠ [] := by
  intro empty
  rcases endsInBarrier_iff.mp barrier with ⟨before, block, inst, split, -⟩
  have bound : number ≤ before.length := by
    have lengths := congrArg List.length split
    simp only [List.length_map, List.length_append, List.length_singleton] at lengths
    omega
  have mapped : ((blocks.map (List.map Form.toMCInst)).drop number).flatten = [] := by
    rw [← List.map_drop, ← List.map_flatten, empty]
    rfl
  rw [split, List.drop_append_of_le_length bound] at mapped
  simp at mapped

private theorem isBarrier_of_last
    (barrier : EndsInBarrier (blocks.map (List.map Form.toMCInst)) = true)
    (whole : blocks.flatten = first ++ [form]) : form.toMCInst.opcode.isBarrier = true := by
  rcases endsInBarrier_iff.mp barrier with ⟨before, block, inst, split, isBarrier⟩
  have insts : first.map Form.toMCInst ++ [form.toMCInst] =
      before.flatten ++ block ++ [inst] := by
    rw [← List.map_singleton, ← List.map_append, ← whole, List.map_flatten, split]
    simp
  have last := congrArg List.getLast? insts
  simp only [List.getLast?_concat, Option.some.injEq] at last
  rw [last]
  exact isBarrier

theorem placedAt_block (closes : object.Closes base blocks) {number targetSlot : Nat}
    (found : symbolSlot (blocks.map (List.map Form.toMCInst)) (.block number) =
      some targetSlot) :
    number < blocks.length ∧
      PlacedAt object base blocks
        ((blocks.map (List.map Form.toMCInst)).drop number).flatten (base + targetSlot) := by
  rw [symbolSlot, blockSlots, List.getElem?_map, getElem?_place, Option.map_map,
    Option.map_eq_some_iff] at found
  rcases found with ⟨block, present, position⟩
  have inRange : number < blocks.length := by
    have inMapped := (List.getElem?_eq_some_iff.mp present).1
    rwa [List.length_map] at inMapped
  have start : targetSlot =
      totalSize MCInst.slotCount ((blocks.take number).flatten.map Form.toMCInst) := by
    rw [← position, List.map_flatten, List.map_take, totalSize_flatten]
    exact Nat.zero_add _
  have whole : blocks.flatten = (blocks.take number).flatten ++ (blocks.drop number).flatten := by
    rw [← List.flatten_append, List.take_append_drop]
  have placed := placedAt_of_split closes whole fun barrier => drop_flatten_ne_nil barrier inRange
  rw [List.map_flatten, List.map_drop, ← start] at placed
  exact ⟨inRange, placed⟩

private theorem toInt_signExtend16_ofInt {value : Int} (low : -32768 ≤ value)
    (high : value ≤ 32767) :
    (signExtend16 (BitVec.ofInt 64 value)).toInt = value := by
  rw [signExtend16, setWidth_ofInt, BitVec.toInt_signExtend_of_le (by omega)]
  exact (toInt_ofInt_eq_iff value).mpr ⟨low, high⟩

private theorem target_displacement (object : ObjectCode) (base : Nat) {slot targetSlot : Nat}
    (low : -32768 ≤ displacement slot targetSlot)
    (high : displacement slot targetSlot ≤ 32767) :
    object.code.target (base + slot)
        (.imm (signExtend16 (BitVec.ofInt 64 (displacement slot targetSlot)))) =
      some (base + targetSlot) := by
  have lands : ((base + slot : Nat) : Int) + 1 + displacement slot targetSlot =
      ((base + targetSlot : Nat) : Int) := by
    unfold displacement
    omega
  simp only [ObjectCode.code, toInt_signExtend16_ofInt low high, lands]
  rfl

theorem branchAgrees_of_fits (closes : object.Closes base blocks) {rest : List MCInst}
    {slot : Nat} {symbol : MCSymbol} {targetSlot : Nat}
    (found : symbolSlot (blocks.map (List.map Form.toMCInst)) symbol = some targetSlot)
    (low : -32768 ≤ displacement slot targetSlot)
    (high : displacement slot targetSlot ≤ 32767) :
    BranchAgrees (PlacedAt object base blocks)
      (symbolSlot (blocks.map (List.map Form.toMCInst))) slot
      ((blocksCode (blocks.map (List.map Form.toMCInst))).target rest)
      (object.code.target (base + slot)) symbol := by
  cases symbol with
  | global name => cases found
  | block number =>
      rcases placedAt_block closes found with ⟨inRange, placed⟩
      refine ⟨_, base + targetSlot, ?_, ?_, placed⟩
      · simp only [blocksCode, List.length_map]
        rw [if_pos inRange]
      · rw [Target.resolve, found]
        exact target_displacement object base low high

end Placed

private theorem Form.opcode_resolve_decoded (form : Form) (locate : MCSymbol → Option Nat)
    (slot : Nat) :
    (form.resolve locate slot).decoded.opcode = form.toMCInst.withoutNOP.opcode := by
  cases form <;> rfl

structure Assembles (blocks : List (List MCInst)) : Prop where
  wellFormed : WellFormedBlocks blocks
  named : NamesBlocks blocks
  symbolic : SymbolicBranches blocks
  fitsFields : FitsFields blocks

theorem ObjectCode.Holds.sameCode (environment : Environment) {object : ObjectCode}
    {placement : MCSymbol → Placement} {base : Nat} {blocks : List (List Form)}
    (holds : object.Holds placement base blocks)
    (assembles : Assembles (blocks.map (List.map Form.toMCInst)))
    (kept : keepsReferences placement (blocks.map (List.map Form.toMCInst)) = true)
    (fits : DisplacementsFit (blocks.map (List.map Form.toMCInst)))
    (closes : object.Closes base blocks) :
    SameCode environment (blocksCode (blocks.map (List.map Form.toMCInst)))
      object.code (PlacedAt object base blocks) where
  ends := by
    intro rest slot placed ended
    cases rest with
    | nil =>
        have dropped : object.text.drop (8 * slot) = [] :=
          List.drop_eq_nil_of_le (Nat.le_of_eq (placed.ends rfl))
        simp only [ObjectCode.code, dropped]
        rfl
    | cons inst rest => cases ended
  fetches := by
    intro rest slot fetched placed fetch
    rcases placed.placed with ⟨first, further, whole, rfl, rfl⟩
    cases further with
    | nil => cases fetch
    | cons form further =>
        cases fetch
        have split : blocks.flatten = (first ++ [form]) ++ further := by
          rw [whole, List.append_assoc]
          rfl
        refine ⟨_, holds.fetch whole, form.opcode_resolve_decoded _ _, ?_⟩
        intro state
        have present : form.toMCInst ∈ (blocks.map (List.map Form.toMCInst)).flatten := by
          rw [← List.map_flatten, whole]
          exact List.mem_map_of_mem (List.mem_append_right _ List.mem_cons_self)
        rcases List.mem_flatten.mp present with ⟨block, blockMember, member⟩
        rw [← MCInst.asEncoded_of_fitsFields (assembles.fitsFields block blockMember _ member)]
        apply form.outcomesAgree environment placement state
        · exact List.all_eq_true.mp kept _ present
        · exact assembles.symbolic block blockMember _ member
        · intro symbol target
          have site : BranchSite.mk
              (totalSize MCInst.slotCount (first.map Form.toMCInst)) symbol ∈
              branchSites (blocks.map (List.map Form.toMCInst)) := by
            rw [branchSites, ← List.map_flatten, whole, List.map_append,
              branchSitesFrom_append, List.map_cons, Nat.zero_add]
            apply List.mem_append_right
            simp [branchSitesFrom, place, target]
          rcases Option.isSome_iff_exists.mp (assembles.named _ site) with ⟨targetSlot, found⟩
          have range := fits _ site targetSlot found
          exact branchAgrees_of_fits closes found range.1 range.2
        · intro passes
          apply placedAt_of_split closes split
          intro barrier exhausted
          rw [exhausted, List.append_nil] at split
          rw [isBarrier_of_last barrier split] at passes
          cases passes

/-! ## The blocks and their object code -/

def resolvedObject (placement : MCSymbol → Placement) (blocks : List (List Form)) :
    ObjectCode where
  text := formBytes (resolveForms (symbolSlot (blocks.map (List.map Form.toMCInst))) 0
    blocks.flatten)
  relocations := relocationsFrom placement 0 (blocks.map (List.map Form.toMCInst)).flatten

section Resolved

variable (build : Build) (placement : MCSymbol → Placement)

theorem emitFunction_forms (blocks : List (List Form))
    (named : NamesBlocks (blocks.map (List.map Form.toMCInst))) :
    emitFunction build placement (blocks.map (List.map Form.toMCInst)) =
      (build.assert (keepsReferences placement (blocks.map (List.map Form.toMCInst)))
        "Value == 0").map fun _ => (resolvedObject placement blocks).text := by
  have emitted := emitBlocks_forms 0 blocks
  rw [emitFunction, emitted]
  exact applyFixups_forms build placement blocks named

private theorem holds_resolvedObject (blocks : List (List Form)) :
    (resolvedObject placement blocks).Holds placement 0 blocks where
  text := ⟨[], [], by rw [List.append_nil]; rfl, rfl⟩
  relocations := by
    refine ⟨[], [], ?_, List.forall_mem_nil _, List.forall_mem_nil _⟩
    rw [List.append_nil, List.nil_append, List.map_flatten]
    rfl

private theorem closes_resolvedObject (blocks : List (List Form)) :
    (resolvedObject placement blocks).Closes 0 blocks := by
  right
  rw [resolvedObject, length_resolvedBytes, Nat.zero_add, slotsOf]

end Resolved

theorem ObjectCode.Holds.hasTrace_iff {object : ObjectCode} {placement : MCSymbol → Placement}
    {base : Nat} {blocks : List (List Form)} (holds : object.Holds placement base blocks)
    (assembles : Assembles (blocks.map (List.map Form.toMCInst)))
    (kept : keepsReferences placement (blocks.map (List.map Form.toMCInst)) = true)
    (fits : DisplacementsFit (blocks.map (List.map Form.toMCInst)))
    (closes : object.Closes base blocks) (environment : Environment) (state : MachineState)
    (trace : List MachineEvent) :
    HasTrace (machineStep environment (blocksCode (blocks.map (List.map Form.toMCInst))))
        (.running (blocks.map (List.map Form.toMCInst)).flatten state) trace ↔
      HasTrace (machineStep environment object.code) (.running base state) trace := by
  have nonempty : EndsInBarrier (blocks.map (List.map Form.toMCInst)) = true →
      blocks.flatten ≠ [] := by
    intro barrier
    cases blocks with
    | nil => cases barrier
    | cons block rest => exact drop_flatten_ne_nil barrier (Nat.succ_pos rest.length)
  have start := @placedAt_of_split object base blocks [] _ closes rfl nonempty
  rw [List.map_flatten] at start
  exact (holds.sameCode environment assembles kept fits closes).simulates.hasTrace_iff
    (.running state start) trace

theorem Assembles.emitObject_runs (build : Build) (placement : MCSymbol → Placement)
    {blocks : List (List MCInst)} (assembles : Assembles blocks)
    (kept : keepsReferences placement blocks = true) (fits : DisplacementsFit blocks) :
    ∃ object, emitObject build placement blocks = .ok object ∧
      emitFunction build placement blocks = .ok object.text ∧
      ∀ environment state trace,
        HasTrace (machineStep environment (blocksCode blocks))
            (.running blocks.flatten state) trace ↔
          HasTrace (machineStep environment object.code) (.running 0 state) trace := by
  rcases exists_formBlocks assembles.wellFormed with ⟨forms, rfl⟩
  have object := emitObject_forms build placement forms assembles.named
  have text := emitFunction_forms build placement forms assembles.named
  rw [kept, Build.assert_true] at object text
  exact ⟨resolvedObject placement forms, object, text,
    (holds_resolvedObject placement forms).hasTrace_iff assembles kept fits
      (closes_resolvedObject placement forms)⟩

/-- The assembler's output executes like its input: from the start of the
function, the object code and the blocks have the same traces, in every
environment and from every machine state. A build with assertions stops if a
symbol lies elsewhere in its section. -/
theorem emitObject_hasTrace_iff (build : Build) (placement : MCSymbol → Placement)
    (blocks : List (List MCInst)) (wellFormed : WellFormedBlocks blocks)
    (named : NamesBlocks blocks) (symbolic : SymbolicBranches blocks)
    (fitsFields : FitsFields blocks) (fits : DisplacementsFit blocks) :
    (keepsReferences placement blocks = true →
      ∃ object, emitObject build placement blocks = .ok object ∧
        emitFunction build placement blocks = .ok object.text ∧
        ∀ environment state trace,
          HasTrace (machineStep environment (blocksCode blocks))
              (.running blocks.flatten state) trace ↔
            HasTrace (machineStep environment object.code) (.running 0 state) trace) ∧
      (keepsReferences placement blocks = false →
        emitObject .assertions placement blocks = .error (.assertion "Value == 0")) := by
  constructor
  · intro kept
    exact Assembles.emitObject_runs build placement ⟨wellFormed, named, symbolic, fitsFields⟩
      kept fits
  · intro lost
    rcases exists_formBlocks wellFormed with ⟨forms, rfl⟩
    rw [emitObject_forms .assertions placement forms named, lost]
    rfl

theorem emitObject_hasTrace_iff_countdown :
    let blocks : List (List MCInst) :=
      [[⟨.LD_imm64, [.reg .R6, .expr (.SymbolRef (.global "counter"))]⟩],
        [⟨.JAL, [.expr (.SymbolRef (.global "tick"))]⟩,
          ⟨.ALU_ri .ADD, [.reg .R6, .reg .R6, .imm (-1)]⟩,
          ⟨.J_ri .JNE, [.reg .R6, .imm 0, .expr (.SymbolRef (.block 1))]⟩],
        [⟨.RET, []⟩]]
    let placement : MCSymbol → Placement := fun symbol =>
      if symbol = .global "counter" then .inSection 0 else .external
    ∃ object, emitObject .assertions placement blocks = .ok object ∧
      emitFunction .assertions placement blocks = .ok object.text ∧
      ∀ environment state trace,
        HasTrace (machineStep environment (blocksCode blocks))
            (.running blocks.flatten state) trace ↔
          HasTrace (machineStep environment object.code) (.running 0 state) trace :=
  (emitObject_hasTrace_iff .assertions _ _ (by decide) (by decide) (by decide) (by decide)
    (by decide)).1 (by decide)

end BpfBackend.MC
