import BpfBackend.MC.CodePadding
import BpfBackend.MC.ObjectExecution

/-! # Text sections

The functions of a translation unit share one section. Each starts at the
alignment that the target and its own attribute ask for, behind a gap that the
assembler backend fills.
-/

namespace BpfBackend.MC

open ItemStream Layout Simulation

/-! ## Functions and their alignment -/

/-- `setMinFunctionAlignment(3)`, a binary logarithm. -/
def MinFunctionAlignment : Nat := 3

/-- `setPrefFunctionAlignment(3)`. -/
def PrefFunctionAlignment : Nat := 3

/-- A function as it reaches the streamer. The attribute `align` is given by its
logarithm, which LLVM bounds. -/
structure MCFunction where
  name : String
  optimizeForSize : Bool
  align : Option (Fin 30)
  blocks : List (List MCInst)

def MCFunction.alignment (function : MCFunction) : Nat :=
  let preferred := if function.optimizeForSize then MinFunctionAlignment
    else max MinFunctionAlignment PrefFunctionAlignment
  match function.align with
  | some align => max preferred align
  | none => preferred

def RoundUpToAlignment (Value Align : Nat) : Nat := (Value + Align - 1) / Align * Align

def OffsetToAlignment (Value Align : Nat) : Nat := RoundUpToAlignment Value Align - Value

/-! ## Emitting a section -/

def emitGap (offset : Nat) (function : MCFunction) : Compile (List Byte) :=
  let Count := OffsetToAlignment offset (2 ^ function.alignment)
  match writeNopData (BitVec.ofNat 64 Count) with
  | some padding => .ok padding
  | none => .error (.report_fatal_error s!"unable to write nop sequence of {Count} bytes")

structure FunctionFixups where
  fixups : List MCFixup
  addresses : List Nat

def emitFunctions (start : Nat) : List MCFunction →
    Compile (List Byte × List FunctionFixups × List (String × Nat))
  | [] => .ok ([], [], [])
  | function :: rest => do
      let padding ← emitGap start function
      let entry := start + padding.length
      let (bytes, fixups, addresses) ← emitBlocks entry function.blocks
      let (restBytes, restFixups, symbols) ← emitFunctions (entry + bytes.length) rest
      pure (padding ++ (bytes ++ restBytes), ⟨fixups, addresses⟩ :: restFixups,
        (function.name, entry) :: symbols)

def applyFunctionFixups (build : Build) (placement : MCSymbol → Placement) :
    List FunctionFixups → List Byte → Compile (List Byte)
  | [], data => .ok data
  | function :: rest, data => do
      applyFunctionFixups build placement rest
        (← applyFixups build placement function.addresses function.fixups data)

def recordFunctionRelocations (placement : MCSymbol → Placement) :
    List FunctionFixups → Compile (List Relocation)
  | [] => .ok []
  | function :: rest => do
      let relocations ← recordRelocations placement function.addresses function.fixups
      pure (relocations ++ (← recordFunctionRelocations placement rest))

structure TextSection where
  object : ObjectCode
  symbols : List (String × Nat)

/-- `placement` is the symbol table, also for the functions of this section. -/
def emitSection (build : Build) (placement : MCSymbol → Placement)
    (functions : List MCFunction) : Compile TextSection := do
  let (bytes, fixups, symbols) ← emitFunctions 0 functions
  let text ← applyFunctionFixups build placement fixups bytes
  pure ⟨⟨text, ← recordFunctionRelocations placement fixups⟩, symbols⟩

/-! ## Gaps -/

private theorem three_le_alignment (function : MCFunction) : 3 ≤ function.alignment := by
  rw [MCFunction.alignment]
  cases function.optimizeForSize <;> cases function.align <;>
    simp [MinFunctionAlignment, PrefFunctionAlignment]

private theorem alignment_lt (function : MCFunction) : function.alignment < 30 := by
  rw [MCFunction.alignment]
  cases function.optimizeForSize <;> cases function.align <;>
    simp [MinFunctionAlignment, PrefFunctionAlignment]

theorem offsetToAlignment_slots (slot : Nat) {align : Nat} (slots : 3 ≤ align) :
    ∃ gap, OffsetToAlignment (8 * slot) (2 ^ align) = 8 * gap ∧ 8 * gap < 2 ^ align ∧
      2 ^ align ∣ 8 * (slot + gap) := by
  rcases Nat.exists_eq_add_of_le slots with ⟨more, rfl⟩
  have power : 2 ^ (3 + more) = 8 * 2 ^ more := by rw [Nat.pow_add]
  have positive : 0 < 2 ^ (3 + more) := Nat.two_pow_pos _
  have parts := Nat.div_add_mod (8 * slot + 2 ^ (3 + more) - 1) (2 ^ (3 + more))
  have remainder := Nat.mod_lt (8 * slot + 2 ^ (3 + more) - 1) positive
  rw [OffsetToAlignment, RoundUpToAlignment]
  generalize (8 * slot + 2 ^ (3 + more) - 1) % 2 ^ (3 + more) = left at parts remainder
  generalize (8 * slot + 2 ^ (3 + more) - 1) / 2 ^ (3 + more) = units at parts ⊢
  have whole : units * 2 ^ (3 + more) = 8 * (units * 2 ^ more) := by
    rw [power, Nat.mul_left_comm]
  have product : 2 ^ (3 + more) * units = units * 2 ^ (3 + more) := Nat.mul_comm _ _
  refine ⟨units * 2 ^ more - slot, by omega, by omega, units, ?_⟩
  omega

def fillers (gap : Nat) : List Byte := (List.replicate gap (Write64 nopWord)).flatten

private theorem length_fillers (gap : Nat) : (fillers gap).length = 8 * gap := by
  rw [fillers, List.length_flatten, List.map_replicate, List.sum_replicate_nat, Nat.mul_comm]
  rfl

theorem emitGap_eq (slot : Nat) (function : MCFunction) :
    ∃ gap, emitGap (8 * slot) function = .ok (fillers gap) ∧ 8 * gap < 2 ^ function.alignment ∧
      2 ^ function.alignment ∣ 8 * (slot + gap) := by
  rcases offsetToAlignment_slots slot (three_le_alignment function) with
    ⟨gap, distance, small, aligned⟩
  have bound : 2 ^ function.alignment ≤ 2 ^ 30 :=
    Nat.pow_le_pow_right (by decide) (Nat.le_of_lt (alignment_lt function))
  have count : (BitVec.ofNat 64 (8 * gap)).toNat = 8 * gap :=
    Nat.mod_eq_of_lt (by omega)
  have multiple : BitVec.ofNat 64 (8 * gap) % 8 = 0 := by
    apply BitVec.eq_of_toNat_eq
    rw [BitVec.toNat_umod, count]
    exact Nat.mul_mod_right 8 gap
  have accepts : writeNopData (BitVec.ofNat 64 (8 * gap)) =
      some ((writeNopLoop (BitVec.ofNat 64 (8 * gap))).run ⟨0, []⟩) := by
    rw [writeNopData, if_neg (not_not_intro multiple)]
  have filled := (writeNopData_eq accepts).2
  rw [count, Nat.mul_div_cancel_left gap (by decide : 0 < 8)] at filled
  refine ⟨gap, ?_, small, aligned⟩
  rw [emitGap, distance, accepts, filled]
  rfl

/-! ## Moving a function -/

theorem branchValue_shift (start : Nat) (addresses : List Nat) (fixup : MCFixup) :
    branchValue (addresses.map (start + ·)) (fixup.shift start) =
      branchValue addresses fixup := by
  rcases fixup with ⟨offset, value, kind⟩
  cases kind with
  | FK_SecRel_4 => rfl
  | FK_SecRel_8 => rfl
  | FK_PCRel_2 =>
      rcases value with (number | name) | value | _
      · have distance : ∀ address : Nat,
            BitVec.ofNat 64 (start + address) - BitVec.ofNat 64 (start + offset) =
              BitVec.ofNat 64 address - BitVec.ofNat 64 offset := by
          intro address
          apply BitVec.eq_of_toNat_eq
          simp only [BitVec.toNat_sub, BitVec.toNat_ofNat]
          omega
        simp only [branchValue, MCFixup.shift, List.getElem?_map]
        cases addresses[number]? with
        | none => rfl
        | some address => exact congrArg some (distance address)
      all_goals rfl

private theorem fixupWrites_shift (start : Nat) (addresses : List Nat) (fixup : MCFixup) :
    fixupWrites (addresses.map (start + ·)) (fixup.shift start) =
      (fixupWrites addresses fixup).map fun write => (start + write.1, write.2) := by
  unfold fixupWrites
  rw [branchValue_shift]
  cases branchValue addresses fixup <;> rfl

private theorem formFixups_add (start offset : Nat) (forms : List Form) :
    formFixups (start + offset) forms =
      (formFixups offset forms).map (MCFixup.shift start) := by
  induction forms generalizing offset with
  | nil => rfl
  | cons form rest induction =>
      rw [formFixups, Nat.add_assoc, induction, formFixups, List.map_append, List.map_map]
      congr 1
      apply List.map_congr_left
      intro fixup _
      simp [MCFixup.shift, Nat.add_assoc]

section Moved

variable {blocks : List (List Form)}

theorem blockAddresses_add (slot : Nat) (blocks : List (List MCInst)) :
    (place (totalSize MCInst.slotCount) slot blocks).map (fun placed => 8 * placed.1) =
      ((blockSlots blocks).map (8 * ·)).map (8 * slot + ·) := by
  rw [← Nat.add_zero slot, place_add, blockSlots]
  simp [Function.comp_def, Nat.mul_add]

private theorem branchWrites_bounds (named : NamesBlocks (blocks.map (List.map Form.toMCInst))) :
    ∀ write ∈ branchWrites (blocks.map (List.map Form.toMCInst)),
      write.1 < (formBytes blocks.flatten).length := by
  intro write member
  have position : write.1 ∈ (branchWrites (blocks.map (List.map Form.toMCInst))).map Prod.fst :=
    List.mem_map_of_mem member
  rw [positions_branchWrites named] at position
  rcases List.mem_flatMap.mp position with ⟨site, siteMember, positions⟩
  have bounds := branchSites_bounds siteMember
  rw [← List.map_flatten] at bounds
  simp only [List.mem_cons, List.not_mem_nil, or_false] at positions
  rw [length_formBytes]
  omega

theorem applyFixups_moved (build : Build) (placement : MCSymbol → Placement)
    (named : NamesBlocks (blocks.map (List.map Form.toMCInst))) {slot : Nat}
    {before : List Byte} (length : before.length = 8 * slot) (after : List Byte) :
    applyFixups build placement
        ((place (totalSize MCInst.slotCount) slot (blocks.map (List.map Form.toMCInst))).map
          fun placed => 8 * placed.1)
        (formFixups (8 * slot) blocks.flatten)
        (before ++ (formBytes blocks.flatten ++ after)) =
      (build.assert (keepsReferences placement (blocks.map (List.map Form.toMCInst)))
        "Value == 0").map fun _ =>
        before ++ ((resolvedObject placement blocks).text ++ after) := by
  have kept := all_isKept_formFixups placement (8 * slot) blocks.flatten
  rw [List.map_flatten] at kept
  rw [keepsReferences, ← kept, blockAddresses_add, ← Nat.add_zero (8 * slot), formFixups_add,
    Nat.add_zero]
  have resolved : ∀ fixup ∈ (formFixups 0 blocks.flatten).map (MCFixup.shift (8 * slot)),
      Resolved (((blockSlots (blocks.map (List.map Form.toMCInst))).map (8 * ·)).map
        (8 * slot + ·)) fixup := by
    intro fixup member
    rcases List.mem_map.mp member with ⟨unmoved, unmovedMember, rfl⟩
    rw [Resolved, branchValue_shift]
    exact resolved_formFixups named unmoved unmovedMember
  have writes : ((formFixups 0 blocks.flatten).map (MCFixup.shift (8 * slot))).flatMap
      (fixupWrites (((blockSlots (blocks.map (List.map Form.toMCInst))).map (8 * ·)).map
        (8 * slot + ·))) =
      (branchWrites (blocks.map (List.map Form.toMCInst))).map fun write =>
        (before.length + write.1, write.2) := by
    rw [← flatMap_fixupWrites_formFixups, List.flatMap_map, List.map_flatMap, length]
    apply List.flatMap_congr
    intro fixup _
    exact fixupWrites_shift (8 * slot) _ fixup
  rw [applyFixups_eq_patch build placement resolved, writes, patch_append_right,
    patch_append_left (branchWrites_bounds named), patch_branchWrites named]
  rfl

private theorem recordRelocations_moved (placement : MCSymbol → Placement)
    (named : NamesBlocks (blocks.map (List.map Form.toMCInst))) (slot : Nat) :
    recordRelocations placement
        ((place (totalSize MCInst.slotCount) slot (blocks.map (List.map Form.toMCInst))).map
          fun placed => 8 * placed.1)
        (formFixups (8 * slot) blocks.flatten) =
      .ok (relocationsFrom placement slot (blocks.flatten.map Form.toMCInst)) := by
  apply recordRelocations_formFixups
  intro site member
  rw [branchSitesFrom, ← Nat.add_zero slot, place_add, List.flatMap_map] at member
  rcases List.mem_flatMap.mp member with ⟨placed, placedMember, siteMember⟩
  rcases List.mem_map.mp siteMember with ⟨symbol, target, rfl⟩
  have site : BranchSite.mk placed.1 symbol ∈
      branchSites (blocks.map (List.map Form.toMCInst)) := by
    rw [branchSites, ← List.map_flatten, branchSitesFrom]
    exact List.mem_flatMap.mpr ⟨placed, placedMember, List.mem_map.mpr ⟨symbol, target, rfl⟩⟩
  rcases isSome_blockAddress (named _ site) with ⟨number, same, found⟩
  refine ⟨number, same, ?_⟩
  rw [blockAddresses_add, List.getElem?_map, Option.isSome_map]
  exact found

end Moved

/-! ## The functions of a section -/

/-- A function that the assembler encodes without loss, and in which control does
not run past the last instruction. -/
structure MCFunction.Assemblable (placement : MCSymbol → Placement) (function : MCFunction) :
    Prop where
  assembles : Assembles function.blocks
  kept : keepsReferences placement function.blocks = true
  fits : DisplacementsFit function.blocks
  barrier : EndsInBarrier function.blocks = true

structure MCFunction.Encodable (function : MCFunction) : Prop where
  wellFormed : WellFormedBlocks function.blocks
  named : NamesBlocks function.blocks

section Section

variable (placement : MCSymbol → Placement)

/-- The text, the relocations and the symbols of functions that are laid out
from a slot on. -/
inductive PlacedFunctions :
    Nat → List MCFunction → List Byte → List Relocation → List (String × Nat) → Prop where
  | nil (slot : Nat) : PlacedFunctions slot [] [] [] []
  | cons {slot gap : Nat} {function : MCFunction} {rest : List MCFunction}
      {text : List Byte} {blocks : List (List Form)} {relocations : List Relocation}
      {symbols : List (String × Nat)} :
      function.blocks = blocks.map (List.map Form.toMCInst) →
      NamesBlocks (blocks.map (List.map Form.toMCInst)) →
      8 * gap < 2 ^ function.alignment → 2 ^ function.alignment ∣ 8 * (slot + gap) →
      PlacedFunctions (slot + gap + slotsOf blocks) rest text relocations symbols →
      PlacedFunctions slot (function :: rest)
        (fillers gap ++ ((resolvedObject placement blocks).text ++ text))
        (relocationsFrom placement (slot + gap) (blocks.flatten.map Form.toMCInst) ++ relocations)
        ((function.name, 8 * (slot + gap)) :: symbols)

private theorem length_resolvedObject (blocks : List (List Form)) :
    (resolvedObject placement blocks).text.length = 8 * slotsOf blocks := by
  rw [resolvedObject, length_resolvedBytes, slotsOf]

theorem emitFunctions_placed (build : Build) (slot : Nat) {functions : List MCFunction}
    (encodable : ∀ function ∈ functions, function.Encodable) :
    ∃ bytes fixups symbols text relocations,
      emitFunctions (8 * slot) functions = .ok (bytes, fixups, symbols) ∧
      PlacedFunctions placement slot functions text relocations symbols ∧
      recordFunctionRelocations placement fixups = .ok relocations ∧
      ∀ before : List Byte, before.length = 8 * slot →
        applyFunctionFixups build placement fixups (before ++ bytes) =
          (build.assert (functions.all fun function => keepsReferences placement function.blocks)
            "Value == 0").map fun _ => before ++ text := by
  induction functions generalizing slot with
  | nil =>
      refine ⟨[], [], [], [], [], rfl, .nil slot, rfl, fun before _ => ?_⟩
      rw [List.all_nil, Build.assert_true]
      rfl
  | cons function rest induction =>
      have own := encodable function List.mem_cons_self
      rcases exists_formBlocks own.wellFormed with ⟨blocks, same⟩
      have named : NamesBlocks (blocks.map (List.map Form.toMCInst)) := same ▸ own.named
      rcases emitGap_eq slot function with ⟨gap, filled, small, aligned⟩
      have entry : 8 * slot + (fillers gap).length = 8 * (slot + gap) := by
        rw [length_fillers, Nat.mul_add]
      have further : 8 * (slot + gap) + (formBytes blocks.flatten).length =
          8 * (slot + gap + slotsOf blocks) := by
        rw [length_formBytes, slotsOf, Nat.mul_add 8 (slot + gap)]
      rcases induction (slot + gap + slotsOf blocks) (fun other member =>
        encodable other (List.mem_cons_of_mem _ member)) with
        ⟨bytes, fixups, symbols, text, relocations, emits, placed, recorded, applies⟩
      refine ⟨fillers gap ++ (formBytes blocks.flatten ++ bytes),
        ⟨formFixups (8 * (slot + gap)) blocks.flatten,
          (place (totalSize MCInst.slotCount) (slot + gap)
            (blocks.map (List.map Form.toMCInst))).map fun placed => 8 * placed.1⟩ :: fixups,
        _, _, _, ?_, .cons same.symm named small aligned placed, ?_, ?_⟩
      · rw [emitFunctions, filled]
        simp only [bind, Except.bind]
        rw [entry, ← same, emitBlocks_forms]
        simp only [further, emits]
        rfl
      · rw [recordFunctionRelocations, recordRelocations_moved placement named]
        simp only [bind, Except.bind, recorded]
        rfl
      · intro before length
        have start : (before ++ fillers gap).length = 8 * (slot + gap) := by
          rw [List.length_append, length]
          exact entry
        have ended : (before ++ fillers gap ++
            (resolvedObject placement blocks).text).length =
            8 * (slot + gap + slotsOf blocks) := by
          rw [List.length_append, start, length_resolvedObject, Nat.mul_add 8 (slot + gap)]
        have later := applies _ ended
        simp only [List.append_assoc] at later
        rw [applyFunctionFixups, ← List.append_assoc,
          applyFixups_moved build placement named start, List.all_cons, same]
        simp only [List.append_assoc]
        exact build.assert_bind _ later

private theorem PlacedFunctions.le_offset {slot : Nat} {functions : List MCFunction}
    {text : List Byte} {relocations : List Relocation} {symbols : List (String × Nat)}
    (placed : PlacedFunctions placement slot functions text relocations symbols) :
    ∀ relocation ∈ relocations, 8 * slot ≤ relocation.offset := by
  induction placed with
  | nil slot => exact List.forall_mem_nil _
  | cons same named small aligned further induction =>
      intro relocation member
      rcases List.mem_append.mp member with own | later
      · have bounds := mem_relocationsFrom_bounds own
        omega
      · have bound := induction relocation later
        omega

theorem PlacedFunctions.holds {slot : Nat} {functions : List MCFunction}
    {text : List Byte} {relocations : List Relocation} {symbols : List (String × Nat)}
    (placed : PlacedFunctions placement slot functions text relocations symbols) {index : Nat}
    {function : MCFunction} (present : functions[index]? = some function)
    {before : List Byte} (length : before.length = 8 * slot) {earlier : List Relocation}
    (earlierBelow : ∀ relocation ∈ earlier, relocation.offset < 8 * slot) :
    ∃ base blocks, function.blocks = blocks.map (List.map Form.toMCInst) ∧
      symbols[index]? = some (function.name, 8 * base) ∧
      2 ^ function.alignment ∣ 8 * base ∧
      ObjectCode.Holds ⟨before ++ text, earlier ++ relocations⟩ placement base blocks := by
  induction placed generalizing index before earlier with
  | nil slot => cases present
  | @cons slot gap own rest text blocks relocations symbols same named small aligned further
      induction =>
      cases index with
      | zero =>
          cases present
          refine ⟨slot + gap, blocks, same, rfl, aligned, ⟨before ++ fillers gap, text, ?_, ?_⟩,
            ⟨earlier, relocations, rfl, ?_, further.le_offset⟩⟩
          · simp only [List.append_assoc]
            rfl
          · rw [List.length_append, length, length_fillers, Nat.mul_add]
          · intro relocation member
            have below := earlierBelow relocation member
            omega
      | succ index =>
          have ended : (before ++ fillers gap ++
              (resolvedObject placement blocks).text).length =
              8 * (slot + gap + slotsOf blocks) := by
            simp only [List.length_append, length, length_fillers, length_resolvedObject]
            omega
          have below : ∀ relocation ∈
              earlier ++ relocationsFrom placement (slot + gap)
                (blocks.flatten.map Form.toMCInst),
              relocation.offset < 8 * (slot + gap + slotsOf blocks) := by
            intro relocation member
            rcases List.mem_append.mp member with early | own
            · have bound := earlierBelow relocation early
              omega
            · exact (mem_relocationsFrom_bounds own).2
          have later := induction present ended below
          simp only [List.append_assoc] at later
          simpa using later

theorem emitSection_placed (build : Build) {functions : List MCFunction}
    (encodable : ∀ function ∈ functions, function.Encodable) :
    ∃ result, emitSection build placement functions =
        (build.assert (functions.all fun function => keepsReferences placement function.blocks)
          "Value == 0").map (fun _ => result) ∧
      PlacedFunctions placement 0 functions result.object.text result.object.relocations
        result.symbols := by
  rcases emitFunctions_placed placement build 0 encodable with
    ⟨bytes, fixups, symbols, text, relocations, emits, placed, recorded, applies⟩
  refine ⟨⟨⟨text, relocations⟩, symbols⟩, ?_, placed⟩
  have applied := applies [] rfl
  simp only [List.nil_append] at applied
  rw [emitSection, emits]
  simp only [bind, Except.bind, applied, recorded]
  cases build.assert (functions.all fun function => keepsReferences placement function.blocks)
    "Value == 0" <;> rfl

end Section

section Assemblable

variable {placement : MCSymbol → Placement}

private theorem MCFunction.Assemblable.encodable {function : MCFunction}
    (assemblable : function.Assemblable placement) : function.Encodable :=
  ⟨assemblable.assembles.wellFormed, assemblable.assembles.named⟩

theorem emitSection_holds (build : Build) {functions : List MCFunction}
    (assemblable : ∀ function ∈ functions, function.Assemblable placement) :
    ∃ result, emitSection build placement functions = .ok result ∧
      ∀ (index : Nat) (function : MCFunction), functions[index]? = some function →
        ∃ slot blocks, function.blocks = blocks.map (List.map Form.toMCInst) ∧
          result.symbols[index]? = some (function.name, 8 * slot) ∧
          2 ^ function.alignment ∣ 8 * slot ∧ result.object.Holds placement slot blocks := by
  rcases emitSection_placed placement build fun function member =>
    (assemblable function member).encodable with ⟨result, emits, placed⟩
  have kept : (functions.all fun function => keepsReferences placement function.blocks) = true :=
    List.all_eq_true.mpr fun function member => (assemblable function member).kept
  rw [kept, Build.assert_true] at emits
  refine ⟨result, emits, ?_⟩
  intro index function present
  exact @PlacedFunctions.holds placement _ _ _ _ _ placed index function present [] rfl []
    (List.forall_mem_nil _)

theorem MCFunction.Assemblable.hasTrace_iff {function : MCFunction}
    (assemblable : function.Assemblable placement) {object : ObjectCode} {slot : Nat}
    {blocks : List (List Form)} (same : function.blocks = blocks.map (List.map Form.toMCInst))
    (holds : object.Holds placement slot blocks) (environment : Environment)
    (state : MachineState) (trace : List MachineEvent) :
    HasTrace (machineStep environment (blocksCode function.blocks))
        (.running function.blocks.flatten state) trace ↔
      HasTrace (machineStep environment object.code) (.running slot state) trace := by
  have assembles := assemblable.assembles
  have kept := assemblable.kept
  have fits := assemblable.fits
  have barrier := assemblable.barrier
  rw [same] at assembles kept fits barrier ⊢
  exact holds.hasTrace_iff assembles kept fits (.inl barrier) environment state trace

end Assemblable

/-- Every function of a section starts where its symbol says, at its alignment,
with the bytes that it has alone, and from there the section's code has the
traces of the function's blocks. -/
theorem emitSection_hasTrace_iff (build : Build) (placement : MCSymbol → Placement)
    (functions : List MCFunction)
    (assemblable : ∀ function ∈ functions, function.Assemblable placement) :
    ∃ result, emitSection build placement functions = .ok result ∧
      ∀ (index : Nat) (function : MCFunction), functions[index]? = some function →
        ∃ slot own, result.symbols[index]? = some (function.name, 8 * slot) ∧
          2 ^ function.alignment ∣ 8 * slot ∧
          emitFunction build placement function.blocks = .ok own ∧
          own <+: result.object.text.drop (8 * slot) ∧
          ∀ environment state trace,
            HasTrace (machineStep environment (blocksCode function.blocks))
                (.running function.blocks.flatten state) trace ↔
              HasTrace (machineStep environment result.object.code)
                (.running slot state) trace := by
  rcases emitSection_holds build assemblable with ⟨result, emits, located⟩
  refine ⟨result, emits, ?_⟩
  intro index function present
  rcases located index function present with ⟨slot, blocks, same, symbol, aligned, holds⟩
  have own := assemblable function (List.mem_of_getElem? present)
  rcases holds.text with ⟨before, after, whole, length⟩
  have dropped : result.object.text.drop (8 * slot) =
      (resolvedObject placement blocks).text ++ after := by
    rw [whole, ← length, List.drop_left]
    rfl
  refine ⟨slot, (resolvedObject placement blocks).text, symbol, aligned, ?_,
    ⟨after, dropped.symm⟩, own.hasTrace_iff same holds⟩
  have named := own.assembles.named
  have kept := own.kept
  rw [same] at named kept ⊢
  rw [emitFunction_forms build placement blocks named, kept, Build.assert_true]
  rfl

def countdownAndTick : List MCFunction :=
  [⟨"countdown", false, none,
    [[⟨.MOV_ri, [.reg .R6, .imm 3]⟩],
      [⟨.JAL, [.expr (.SymbolRef (.global "tick"))]⟩,
        ⟨.ALU_ri .ADD, [.reg .R6, .reg .R6, .imm (-1)]⟩,
        ⟨.J_ri .JNE, [.reg .R6, .imm 0, .expr (.SymbolRef (.block 1))]⟩],
      [⟨.RET, []⟩]]⟩,
    ⟨"tick", true, some 5,
      [[⟨.LD_imm64, [.reg .R1, .expr (.SymbolRef (.global "ticks"))]⟩, ⟨.RET, []⟩]]⟩]

private theorem assemblable_countdownAndTick :
    ∀ function ∈ countdownAndTick, function.Assemblable fun _ => .external := by
  intro function member
  rcases List.mem_cons.mp member with rfl | member
  · exact ⟨⟨by decide, by decide, by decide, by decide⟩, by decide, by decide, by decide⟩
  · rw [List.mem_singleton.mp member]
    exact ⟨⟨by decide, by decide, by decide, by decide⟩, by decide, by decide, by decide⟩

theorem emitSection_hasTrace_iff_countdownAndTick :
    let placement : MCSymbol → Placement := fun _ => .external
    ∃ result, emitSection .assertions placement countdownAndTick = .ok result ∧
      ∀ (index : Nat) (function : MCFunction), countdownAndTick[index]? = some function →
        ∃ slot own, result.symbols[index]? = some (function.name, 8 * slot) ∧
          2 ^ function.alignment ∣ 8 * slot ∧
          emitFunction .assertions placement function.blocks = .ok own ∧
          own <+: result.object.text.drop (8 * slot) ∧
          ∀ environment state trace,
            HasTrace (machineStep environment (blocksCode function.blocks))
                (.running function.blocks.flatten state) trace ↔
              HasTrace (machineStep environment result.object.code)
                (.running slot state) trace :=
  emitSection_hasTrace_iff .assertions (fun _ => .external) countdownAndTick
    assemblable_countdownAndTick

/-! ## Reading a section -/

def contiguous (slot : Nat) : List MCFunction → Bool
  | [] => true
  | function :: rest =>
      decide (2 ^ function.alignment ∣ 8 * slot) &&
        contiguous (slot + totalSize MCInst.slotCount function.blocks.flatten) rest

def MCFunction.disassemble (build : Build) (placement : MCSymbol → Placement)
    (function : MCFunction) : Option (List MCInst) :=
  match emitFunction build placement function.blocks with
  | .ok own => decodeStream own
  | .error _ => none

theorem gap_eq_zero_iff {slot gap align : Nat} (small : 8 * gap < 2 ^ align)
    (aligned : 2 ^ align ∣ 8 * (slot + gap)) : gap = 0 ↔ 2 ^ align ∣ 8 * slot := by
  constructor
  · intro none
    rwa [none] at aligned
  · intro already
    rw [Nat.mul_add] at aligned
    have multiple : 2 ^ align ∣ 8 * gap := (Nat.dvd_add_right already).mp aligned
    have zero := Nat.eq_zero_of_dvd_of_lt multiple small
    omega

section Reading

variable (build : Build) {placement : MCSymbol → Placement}

private theorem disassemble_resolvedObject {function : MCFunction} {blocks : List (List Form)}
    (same : function.blocks = blocks.map (List.map Form.toMCInst))
    (named : NamesBlocks (blocks.map (List.map Form.toMCInst)))
    (passes : PassesAssertions build placement function.blocks) :
    ∃ forms, (resolvedObject placement blocks).text = formBytes forms ∧
      function.disassemble build placement = some (forms.map Form.decoded) := by
  refine ⟨_, rfl, ?_⟩
  rw [same] at passes
  have emits : emitFunction build placement (blocks.map (List.map Form.toMCInst)) =
      .ok (resolvedObject placement blocks).text := by
    rw [emitFunction_forms build placement blocks named]
    exact assert_map_eq_ok_iff.mpr ⟨passes, rfl⟩
  rw [MCFunction.disassemble, same, emits]
  exact decodeStream_formBytes _

/-- Without gaps the text is a stream of forms. The filler of the first gap is no
instruction. -/
theorem PlacedFunctions.reads {slot : Nat} {functions : List MCFunction}
    {text : List Byte} {relocations : List Relocation} {symbols : List (String × Nat)}
    (placed : PlacedFunctions placement slot functions text relocations symbols)
    (passes : ∀ function ∈ functions, PassesAssertions build placement function.blocks) :
    (contiguous slot functions = true → ∃ forms parts, text = formBytes forms ∧
      functions.mapM (MCFunction.disassemble build placement) = some parts ∧
      forms.map Form.decoded = parts.flatten) ∧
    (contiguous slot functions = false → ∃ forms rest,
      text = formBytes forms ++ (Write64 nopWord ++ rest)) := by
  induction placed with
  | nil slot =>
      constructor
      · intro _
        exact ⟨[], [], rfl, rfl, rfl⟩
      · intro gapped
        cases gapped
  | @cons slot gap function rest text blocks relocations symbols same named small aligned further
      induction =>
      have next : totalSize MCInst.slotCount function.blocks.flatten = slotsOf blocks := by
        rw [same, ← List.map_flatten, slotsOf]
      have none := gap_eq_zero_iff small aligned
      have later := induction fun other member => passes other (List.mem_cons_of_mem _ member)
      rcases disassemble_resolvedObject build same named (passes function List.mem_cons_self) with
        ⟨own, ownText, ownReads⟩
      rw [contiguous, next, ownText]
      cases gap with
      | zero =>
          rw [decide_eq_true (none.mp rfl), Bool.true_and]
          constructor
          · intro packed
            rcases later.1 packed with ⟨forms, parts, rfl, partsRead, decoded⟩
            refine ⟨own ++ forms, own.map Form.decoded :: parts, ?_, ?_, ?_⟩
            · rw [formBytes_append]
              rfl
            · rw [List.mapM_cons, ownReads, partsRead]
              rfl
            · rw [List.map_append, decoded, List.flatten_cons]
          · intro gapped
            rcases later.2 gapped with ⟨forms, after, rfl⟩
            refine ⟨own ++ forms, after, ?_⟩
            rw [formBytes_append, List.append_assoc]
            rfl
      | succ gap =>
          have gapped : ¬2 ^ function.alignment ∣ 8 * slot := fun already =>
            Nat.succ_ne_zero gap (none.mpr already)
          rw [decide_eq_false gapped, Bool.false_and]
          constructor
          · intro packed
            cases packed
          · intro _
            refine ⟨[], fillers gap ++ (formBytes own ++ text), ?_⟩
            rw [fillers, List.replicate_succ, List.flatten_cons, List.append_assoc]
            rfl

end Reading

/-- A section of encodable functions is emitted unless a reference fails an
assertion. It reads as instructions if and only if no function needs a gap, and
then as those of its functions. -/
theorem emitSection_reads (build : Build) (placement : MCSymbol → Placement)
    (functions : List MCFunction) (encodable : ∀ function ∈ functions, function.Encodable) :
    ((∃ result, emitSection build placement functions = .ok result) ↔
        ∀ function ∈ functions, PassesAssertions build placement function.blocks) ∧
      ∀ result, emitSection build placement functions = .ok result →
        (contiguous 0 functions = true → ∃ parts,
          functions.mapM (MCFunction.disassemble build placement) = some parts ∧
            decodeStream result.object.text = some parts.flatten) ∧
        (contiguous 0 functions = false → decodeStream result.object.text = none) := by
  rcases emitSection_placed placement build encodable with ⟨emitted, emits, placed⟩
  have accepts_iff : ∀ result, emitSection build placement functions = .ok result ↔
      (∀ function ∈ functions, PassesAssertions build placement function.blocks) ∧
        emitted = result := by
    intro result
    rw [emits, assert_map_eq_ok_iff]
    simp only [List.all_eq_true, PassesAssertions]
    exact and_congr_left fun _ =>
      ⟨fun kept function member asserts => kept asserts function member,
        fun kept asserts function member => kept function member asserts⟩
  constructor
  · constructor
    · intro accepts
      rcases accepts with ⟨result, accepts⟩
      exact ((accepts_iff result).mp accepts).1
    · intro passes
      exact ⟨_, (accepts_iff _).mpr ⟨passes, rfl⟩⟩
  · intro result accepts
    rcases (accepts_iff result).mp accepts with ⟨passes, rfl⟩
    rcases placed.reads build passes with ⟨packed, gapped⟩
    constructor
    · intro contiguous
      rcases packed contiguous with ⟨forms, parts, text, partsRead, decoded⟩
      refine ⟨parts, partsRead, ?_⟩
      rw [text, decodeStream_formBytes, decoded]
    · intro separated
      rcases gapped separated with ⟨forms, rest, text⟩
      rw [text]
      exact readAll_flatMap_append_of_none (fun form _ => form.bytes_ne_nil)
        (fun form _ rest => decodeInst_bytes form rest) (List.cons_ne_nil _ _)
        (decodeInst_nopWord rest)

theorem emitSection_reads_countdownAndTick :
    let placement : MCSymbol → Placement := fun _ => .external
    (∃ result, emitSection .assertions placement countdownAndTick = .ok result ∧
      decodeStream result.object.text = none) ∧
    ∃ result parts, emitSection .assertions placement countdownAndTick.reverse = .ok result ∧
      countdownAndTick.reverse.mapM (MCFunction.disassemble .assertions placement) =
        some parts ∧
      decodeStream result.object.text = some parts.flatten := by
  intro placement
  have passes : ∀ function ∈ countdownAndTick,
      PassesAssertions .assertions placement function.blocks :=
    fun function member _ => (assemblable_countdownAndTick function member).kept
  constructor
  · have reads := emitSection_reads .assertions placement countdownAndTick fun function member =>
      (assemblable_countdownAndTick function member).encodable
    rcases reads.1.mpr passes with ⟨result, emits⟩
    exact ⟨result, emits, (reads.2 result emits).2 (by decide)⟩
  · have reads := emitSection_reads .assertions placement countdownAndTick.reverse
      fun function member =>
        (assemblable_countdownAndTick function (List.mem_reverse.mp member)).encodable
    rcases reads.1.mpr fun function member => passes function (List.mem_reverse.mp member) with
      ⟨result, emits⟩
    rcases (reads.2 result emits).1 (by decide) with ⟨parts, partsRead, decoded⟩
    exact ⟨result, parts, emits, partsRead, decoded⟩

end BpfBackend.MC
