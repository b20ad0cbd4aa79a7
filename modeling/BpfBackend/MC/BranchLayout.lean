import BpfBackend.MC.AsmBackend
import Mathlib.Data.List.Nodup

/-! # Branch layout

Where the branches of a function and the blocks they name lie, counted in
eight-byte slots, and what the fixups write into the emitted bytes.
-/

namespace BpfBackend.MC

open Layout

/-! ## Slots -/

def MCInst.slotCount (inst : MCInst) : Nat :=
  if inst.opcode = .LD_imm64 then 2 else 1

def MCInst.branchTarget (inst : MCInst) : Option MCSymbol :=
  match inst.opcode, inst.operands with
  | .J_rr _, [_, _, .expr (.SymbolRef symbol)] => some symbol
  | .J_ri _, [_, _, .expr (.SymbolRef symbol)] => some symbol
  | .JMP, [.expr (.SymbolRef symbol)] => some symbol
  | _, _ => none

def MCInst.reference (inst : MCInst) : Option (MCSymbol × RelocType) :=
  match inst.opcode, inst.operands with
  | .JAL, [.expr (.SymbolRef symbol)] => some (symbol, .R_X86_64_PC32)
  | .LD_imm64, [_, .expr (.SymbolRef symbol)] => some (symbol, .R_X86_64_64)
  | _, _ => none

def MCInst.keepsReference (placement : MCSymbol → Placement) (inst : MCInst) : Bool :=
  match inst.reference with
  | some (symbol, _) => (placement symbol).fixupValue = 0
  | none => true

/-- Every symbol that is left to the linker is external or at the start of its
section. -/
def keepsReferences (placement : MCSymbol → Placement) (blocks : List (List MCInst)) : Bool :=
  blocks.flatten.all (MCInst.keepsReference placement)

def blockSlots (blocks : List (List MCInst)) : List Nat :=
  (place (totalSize MCInst.slotCount) 0 blocks).map Prod.fst

structure BranchSite where
  slot : Nat
  target : MCSymbol
  deriving DecidableEq, Repr

def branchSitesFrom (start : Nat) (insts : List MCInst) : List BranchSite :=
  (place MCInst.slotCount start insts).flatMap fun (slot, inst) =>
    inst.branchTarget.toList.map (BranchSite.mk slot)

def branchSites (blocks : List (List MCInst)) : List BranchSite :=
  branchSitesFrom 0 blocks.flatten

def symbolSlot (blocks : List (List MCInst)) : MCSymbol → Option Nat
  | .block number => (blockSlots blocks)[number]?
  | .global _ => none

/-- Every branch names a block of the function. -/
def NamesBlocks (blocks : List (List MCInst)) : Prop :=
  ∀ site ∈ branchSites blocks, (symbolSlot blocks site.target).isSome = true

instance (blocks : List (List MCInst)) : Decidable (NamesBlocks blocks) :=
  inferInstanceAs (Decidable (∀ site ∈ branchSites blocks, _ = true))

def WellFormedBlocks (blocks : List (List MCInst)) : Prop :=
  ∀ block ∈ blocks, ∀ inst ∈ block, inst.WellFormed

instance (blocks : List (List MCInst)) : Decidable (WellFormedBlocks blocks) :=
  inferInstanceAs (Decidable (∀ block ∈ blocks, ∀ inst ∈ block, inst.WellFormed))

def MCFixup.isBranch (fixup : MCFixup) : Bool := fixup.kind = .FK_PCRel_2

def BranchSite.fixup (site : BranchSite) : MCFixup :=
  ⟨8 * site.slot, .SymbolRef site.target, .FK_PCRel_2⟩

def branchField (data : List Byte) (slot : Nat) : Option (BitVec 16) := do
  let low ← data[8 * slot + 2]?
  let high ← data[8 * slot + 3]?
  pure (high ++ low)

/-- The number of slots from the instruction after a branch to its target. -/
def displacement (slot targetSlot : Nat) : Int := targetSlot - slot - 1

/-! ## Emitted forms -/

theorem exists_formBlocks {blocks : List (List MCInst)}
    (wellFormed : WellFormedBlocks blocks) :
    ∃ forms : List (List Form), forms.map (List.map Form.toMCInst) = blocks := by
  induction blocks with
  | nil => exact ⟨[], rfl⟩
  | cons block rest induction =>
      rcases exists_forms (wellFormed block List.mem_cons_self) with ⟨forms, rfl⟩
      rcases induction fun other member =>
        wellFormed other (List.mem_cons_of_mem _ member) with ⟨restForms, rfl⟩
      exact ⟨forms :: restForms, rfl⟩

theorem Form.length_bytes (form : Form) :
    form.bytes.length = 8 * form.toMCInst.slotCount := by
  cases form <;> rfl

theorem length_formBytes (forms : List Form) :
    (formBytes forms).length =
      8 * totalSize MCInst.slotCount (forms.map Form.toMCInst) := by
  induction forms with
  | nil => rfl
  | cons form rest induction =>
      rw [formBytes, List.flatMap_cons, List.length_append, form.length_bytes]
      rw [formBytes] at induction
      rw [induction, List.map_cons, totalSize_cons, Nat.mul_add]

theorem Form.branchFixups (form : Form) :
    form.fixups.filter MCFixup.isBranch =
      form.toMCInst.branchTarget.toList.map fun symbol =>
        ⟨0, .SymbolRef symbol, .FK_PCRel_2⟩ := by
  cases form
  case JMP_RR jcc rA rX dst => cases dst <;> rfl
  case JMP_RI jcc rA imm dst => cases dst <;> rfl
  case BRANCH dst => cases dst <;> rfl
  case CALL dst => cases dst <;> rfl
  case LD_IMM64 rA imm => cases imm <;> rfl
  all_goals rfl

theorem branchFixups_formFixups (slot : Nat) (forms : List Form) :
    (formFixups (8 * slot) forms).filter MCFixup.isBranch =
      (branchSitesFrom slot (forms.map Form.toMCInst)).map BranchSite.fixup := by
  induction forms generalizing slot with
  | nil => rfl
  | cons form rest induction =>
      have shifted : (form.fixups.map (MCFixup.shift (8 * slot))).filter MCFixup.isBranch =
          (form.fixups.filter MCFixup.isBranch).map (MCFixup.shift (8 * slot)) :=
        List.filter_map
      rw [formFixups, List.filter_append, shifted, form.branchFixups,
        form.length_bytes, ← Nat.mul_add, induction]
      simp [branchSitesFrom, place, BranchSite.fixup, MCFixup.shift, Function.comp_def]

private theorem Form.all_isKept_fixups (placement : MCSymbol → Placement) (form : Form) :
    form.fixups.all (MCFixup.isKept placement) =
      form.toMCInst.keepsReference placement := by
  cases form
  case JMP_RR jcc rA rX dst => cases dst <;> rfl
  case JMP_RI jcc rA imm dst => cases dst <;> rfl
  case BRANCH dst => cases dst <;> rfl
  case CALL dst =>
    cases dst with
    | imm value => rfl
    | symbol name => exact Bool.and_true _
  case LD_IMM64 rA imm =>
    cases imm with
    | imm value => rfl
    | symbol name => exact Bool.and_true _
  all_goals rfl

theorem all_isKept_formFixups (placement : MCSymbol → Placement) (start : Nat)
    (forms : List Form) :
    (formFixups start forms).all (MCFixup.isKept placement) =
      (forms.map Form.toMCInst).all (MCInst.keepsReference placement) := by
  induction forms generalizing start with
  | nil => rfl
  | cons form rest induction =>
      have shifted : (form.fixups.map (MCFixup.shift start)).all (MCFixup.isKept placement) =
          form.fixups.all (MCFixup.isKept placement) := by
        rw [List.all_map]
        rfl
      rw [formFixups, List.all_append, shifted, form.all_isKept_fixups, induction,
        List.map_cons, List.all_cons]

theorem formBytes_append (first second : List Form) :
    formBytes (first ++ second) = formBytes first ++ formBytes second :=
  List.flatMap_append

private theorem formFixups_append (start : Nat) (first second : List Form) :
    formFixups start (first ++ second) =
      formFixups start first ++ formFixups (start + (formBytes first).length) second := by
  induction first generalizing start with
  | nil => rfl
  | cons form rest induction =>
      rw [List.cons_append, formFixups, formFixups, induction, List.append_assoc,
        formBytes, formBytes, List.flatMap_cons, List.length_append, Nat.add_assoc]

theorem emitBlocks_forms (slot : Nat) (blocks : List (List Form)) :
    emitBlocks (8 * slot) (blocks.map (List.map Form.toMCInst)) =
      .ok (formBytes blocks.flatten, formFixups (8 * slot) blocks.flatten,
        (place (totalSize MCInst.slotCount) slot
          (blocks.map (List.map Form.toMCInst))).map fun placed => 8 * placed.1) := by
  induction blocks generalizing slot with
  | nil => rfl
  | cons block rest induction =>
      rw [List.map_cons, emitBlocks, emitInstructions_forms]
      simp only [bind, Except.bind]
      rw [length_formBytes, ← Nat.mul_add, induction]
      simp only [pure, Except.pure, List.flatten_cons, formBytes_append,
        formFixups_append, length_formBytes, ← Nat.mul_add, place, List.map_cons]

/-! ## The displacement of a branch -/

/-- The unsigned division is right for backward branches too: `Value - 8` wraps
to `8 * (targetSlot - slot - 1)` modulo `2 ^ 64`, and the quotient keeps it
modulo `2 ^ 61`. -/
theorem half_of_value (slot targetSlot : Nat) :
    (((BitVec.ofNat 64 (8 * targetSlot) - BitVec.ofNat 64 (8 * slot) - 8) / 8).setWidth 16 :
        BitVec 16) =
      BitVec.ofInt 16 (displacement slot targetSlot) := by
  have eight : (8 : BitVec 64).toNat = 8 := rfl
  apply BitVec.eq_of_toNat_eq
  simp only [BitVec.toNat_setWidth, BitVec.toNat_udiv, BitVec.toNat_sub, BitVec.toNat_ofNat,
    BitVec.toNat_ofInt, displacement, eight]
  omega

private theorem branchValue_site {blocks : List (List MCInst)} {site : BranchSite}
    {targetSlot : Nat} (named : symbolSlot blocks site.target = some targetSlot) :
    branchValue ((blockSlots blocks).map (8 * ·)) site.fixup =
      some (BitVec.ofNat 64 (8 * targetSlot) - BitVec.ofNat 64 (8 * site.slot)) := by
  rcases site with ⟨slot, target⟩
  cases target with
  | global name => cases named
  | block number =>
      have found : ((blockSlots blocks).map (8 * ·))[number]? = some (8 * targetSlot) := by
        rw [List.getElem?_map]
        exact congrArg (Option.map (8 * ·)) named
      simp only [branchValue, BranchSite.fixup, found, Option.map_some]

theorem fixupWrites_site {blocks : List (List MCInst)} {site : BranchSite}
    {targetSlot : Nat} (named : symbolSlot blocks site.target = some targetSlot) :
    fixupWrites ((blockSlots blocks).map (8 * ·)) site.fixup =
      [(8 * site.slot + 2,
          (BitVec.ofInt 16 (displacement site.slot targetSlot)).extractLsb' 0 8),
        (8 * site.slot + 3,
          (BitVec.ofInt 16 (displacement site.slot targetSlot)).extractLsb' 8 8)] := by
  rw [fixupWrites, branchValue_site named]
  simp only [BranchSite.fixup, half_of_value]

/-! ## Branches lie apart -/

theorem branchSites_bounds {start : Nat} {insts : List MCInst} {site : BranchSite}
    (member : site ∈ branchSitesFrom start insts) :
    start ≤ site.slot ∧ site.slot + 1 ≤ start + totalSize MCInst.slotCount insts := by
  rcases List.mem_flatMap.mp member with ⟨⟨slot, inst⟩, placed, named⟩
  rcases List.mem_map.mp named with ⟨symbol, _, rfl⟩
  have bounds := place_bounds placed
  have occupied : 1 ≤ inst.slotCount := by
    unfold MCInst.slotCount
    split <;> omega
  dsimp only at bounds ⊢
  omega

private theorem pairwise_branchSites (start : Nat) (insts : List MCInst) :
    (branchSitesFrom start insts).Pairwise fun earlier later =>
      earlier.slot < later.slot := by
  induction insts generalizing start with
  | nil => exact List.Pairwise.nil
  | cons inst rest induction =>
      have split : branchSitesFrom start (inst :: rest) =
          inst.branchTarget.toList.map (BranchSite.mk start) ++
            branchSitesFrom (start + inst.slotCount) rest := rfl
      have occupied : 1 ≤ inst.slotCount := by
        unfold MCInst.slotCount
        split <;> omega
      rw [split, List.pairwise_append]
      refine ⟨?_, induction _, ?_⟩
      · cases inst.branchTarget with
        | none => exact List.Pairwise.nil
        | some symbol => exact List.pairwise_singleton _ _
      · intro earlier earlierMember later laterMember
        rcases List.mem_map.mp earlierMember with ⟨symbol, _, rfl⟩
        have bounds := branchSites_bounds laterMember
        dsimp only
        omega

section Writes

variable {blocks : List (List MCInst)}

def branchWrites (blocks : List (List MCInst)) : List (Nat × Byte) :=
  ((branchSites blocks).map BranchSite.fixup).flatMap
    (fixupWrites ((blockSlots blocks).map (8 * ·)))

theorem positions_branchWrites (named : NamesBlocks blocks) :
    (branchWrites blocks).map Prod.fst =
      (branchSites blocks).flatMap fun site => [8 * site.slot + 2, 8 * site.slot + 3] := by
  rw [branchWrites, List.flatMap_map, List.map_flatMap]
  apply List.flatMap_congr
  intro site member
  rcases Option.isSome_iff_exists.mp (named site member) with ⟨targetSlot, found⟩
  rw [fixupWrites_site found]
  rfl

private theorem nodup_branchWrites (named : NamesBlocks blocks) :
    ((branchWrites blocks).map Prod.fst).Nodup := by
  rw [positions_branchWrites named, List.nodup_flatMap]
  constructor
  · intro site _
    simp
  · refine (pairwise_branchSites 0 blocks.flatten).imp ?_
    intro earlier later before
    simp only [Function.onFun, List.disjoint_cons_left, List.mem_cons, List.not_mem_nil,
      or_false, List.disjoint_nil_left, and_true]
    omega

private theorem branchField_of_bytes {data : List Byte} {slot : Nat} {half : BitVec 16}
    (low : data[8 * slot + 2]? = some (half.extractLsb' 0 8))
    (high : data[8 * slot + 3]? = some (half.extractLsb' 8 8)) :
    branchField data slot = some half := by
  have joined : half.extractLsb' 8 8 ++ half.extractLsb' 0 8 = half.extractLsb' 0 16 :=
    BitVec.extractLsb'_append_extractLsb'_eq_extractLsb' rfl
  have whole : half.extractLsb' 8 8 ++ half.extractLsb' 0 8 = half :=
    joined.trans BitVec.extractLsb'_eq_self
  rw [branchField, low, high]
  exact congrArg some whole

theorem branchField_patch {data : List Byte} {site : BranchSite} {targetSlot : Nat}
    (named : NamesBlocks blocks) (member : site ∈ branchSites blocks)
    (found : symbolSlot blocks site.target = some targetSlot)
    (long : data.length = 8 * totalSize MCInst.slotCount blocks.flatten) :
    branchField (patch data (branchWrites blocks)) site.slot =
      some (BitVec.ofInt 16 (displacement site.slot targetSlot)) := by
  have bounds := branchSites_bounds member
  have written : ∀ write ∈ fixupWrites ((blockSlots blocks).map (8 * ·)) site.fixup,
      write ∈ branchWrites blocks := fun write writeMember =>
    List.mem_flatMap.mpr ⟨site.fixup, List.mem_map_of_mem member, writeMember⟩
  rw [fixupWrites_site found] at written
  have separate := nodup_branchWrites named
  have low : (patch data (branchWrites blocks))[8 * site.slot + 2]? = some _ :=
    getElem?_patch_of_mem separate (written _ List.mem_cons_self)
      (by show 8 * site.slot + 2 < data.length; omega)
  have high : (patch data (branchWrites blocks))[8 * site.slot + 3]? = some _ :=
    getElem?_patch_of_mem separate (written _ (List.mem_cons_of_mem _ List.mem_cons_self))
      (by show 8 * site.slot + 3 < data.length; omega)
  exact branchField_of_bytes low high

private theorem getElem?_patch_branchWrites {data : List Byte} {index : Nat}
    (named : NamesBlocks blocks)
    (outside : ∀ site ∈ branchSites blocks,
      index ≠ 8 * site.slot + 2 ∧ index ≠ 8 * site.slot + 3) :
    (patch data (branchWrites blocks))[index]? = data[index]? := by
  apply getElem?_patch_of_notMem
  rw [positions_branchWrites named]
  intro written
  rcases List.mem_flatMap.mp written with ⟨site, member, position⟩
  rcases outside site member with ⟨notLow, notHigh⟩
  simp [notLow, notHigh] at position

end Writes

/-! ## Applying the branch fixups -/

theorem emitBlocks_of_wellFormed {blocks : List (List MCInst)}
    (wellFormed : WellFormedBlocks blocks) :
    ∃ bytes fixups,
      emitBlocks 0 blocks = .ok (bytes, fixups, (blockSlots blocks).map (8 * ·)) ∧
      bytes.length = 8 * totalSize MCInst.slotCount blocks.flatten ∧
      fixups.filter MCFixup.isBranch = (branchSites blocks).map BranchSite.fixup ∧
      ∀ placement : MCSymbol → Placement,
        fixups.all (MCFixup.isKept placement) = keepsReferences placement blocks := by
  rcases exists_formBlocks wellFormed with ⟨forms, rfl⟩
  refine ⟨formBytes forms.flatten, formFixups 0 forms.flatten, ?_, ?_, ?_, ?_⟩
  · rw [blockSlots, List.map_map]
    exact emitBlocks_forms 0 forms
  · rw [length_formBytes, List.map_flatten]
  · rw [branchSites, ← List.map_flatten]
    exact branchFixups_formFixups 0 forms.flatten
  · intro placement
    rw [keepsReferences, ← List.map_flatten]
    exact all_isKept_formFixups placement 0 forms.flatten

theorem resolved_of_branches {blocks : List (List MCInst)} {fixups : List MCFixup}
    (named : NamesBlocks blocks)
    (branches : ∀ fixup ∈ fixups, fixup.isBranch = true →
      fixup ∈ (branchSites blocks).map BranchSite.fixup) :
    ∀ fixup ∈ fixups, Resolved ((blockSlots blocks).map (8 * ·)) fixup := by
  intro fixup member branch
  have listed := branches fixup member (decide_eq_true branch)
  rcases List.mem_map.mp listed with ⟨site, siteMember, rfl⟩
  rcases Option.isSome_iff_exists.mp (named site siteMember) with ⟨targetSlot, found⟩
  rw [branchValue_site found]
  rfl

private theorem applyFixups_order (build : Build) (placement : MCSymbol → Placement)
    {blocks : List (List MCInst)} (named : NamesBlocks blocks) {order : List MCFixup}
    (permuted : order.Perm ((branchSites blocks).map BranchSite.fixup)) (data : List Byte) :
    applyFixups build placement ((blockSlots blocks).map (8 * ·)) order data =
      .ok (patch data (branchWrites blocks)) := by
  have resolved := resolved_of_branches named fun fixup member _ => permuted.mem_iff.mp member
  have kept : order.all (MCFixup.isKept placement) = true := by
    rw [List.all_eq_true]
    intro fixup member
    rcases List.mem_map.mp (permuted.mem_iff.mp member) with ⟨site, _, rfl⟩
    rfl
  rw [applyFixups_eq_patch build placement resolved, kept, Build.assert_true]
  exact congrArg Except.ok
    (patch_perm (nodup_branchWrites named) (permuted.flatMap_right _))

/-- Every branch of a laid-out function, forward or backward, holds its
displacement in slots modulo `2 ^ 16` once the fixups are applied in any order,
and no other byte changes. -/
theorem applyFixups_branches (build : Build) (placement : MCSymbol → Placement)
    (blocks : List (List MCInst)) (wellFormed : WellFormedBlocks blocks)
    (named : NamesBlocks blocks) :
    ∃ bytes fixups,
      emitBlocks 0 blocks = .ok (bytes, fixups, (blockSlots blocks).map (8 * ·)) ∧
      fixups.filter MCFixup.isBranch = (branchSites blocks).map BranchSite.fixup ∧
      ∀ order : List MCFixup, order.Perm (fixups.filter MCFixup.isBranch) →
        ∃ patched,
          applyFixups build placement ((blockSlots blocks).map (8 * ·)) order bytes =
            .ok patched ∧
          patched.length = bytes.length ∧
          (∀ site ∈ branchSites blocks, ∀ targetSlot,
            symbolSlot blocks site.target = some targetSlot →
            branchField patched site.slot =
              some (BitVec.ofInt 16 (displacement site.slot targetSlot))) ∧
          ∀ index, (∀ site ∈ branchSites blocks,
            index ≠ 8 * site.slot + 2 ∧ index ≠ 8 * site.slot + 3) →
            patched[index]? = bytes[index]? := by
  rcases emitBlocks_of_wellFormed wellFormed with ⟨bytes, fixups, emitted, long, branches, -⟩
  refine ⟨bytes, fixups, emitted, branches, ?_⟩
  intro order permuted
  rw [branches] at permuted
  refine ⟨patch bytes (branchWrites blocks), applyFixups_order build placement named permuted bytes,
    length_patch _ _, ?_, ?_⟩
  · intro site member targetSlot found
    exact branchField_patch named member found long
  · intro index outside
    exact getElem?_patch_branchWrites named outside

theorem applyFixups_branches_loop :
    let blocks : List (List MCInst) :=
      [[⟨.J_ri .JEQ, [.reg .R1, .imm 0, .expr (.SymbolRef (.block 2))]⟩],
        [⟨.LD_imm64, [.reg .R2, .expr (.SymbolRef (.global "map"))]⟩,
          ⟨.JMP, [.expr (.SymbolRef (.block 0))]⟩],
        [⟨.RET, []⟩]]
    ∃ bytes fixups,
      emitBlocks 0 blocks = .ok (bytes, fixups, (blockSlots blocks).map (8 * ·)) ∧
      fixups.filter MCFixup.isBranch = (branchSites blocks).map BranchSite.fixup ∧
      ∀ order : List MCFixup, order.Perm (fixups.filter MCFixup.isBranch) →
        ∃ patched,
          applyFixups .release (fun _ => .external) ((blockSlots blocks).map (8 * ·)) order bytes =
            .ok patched ∧
          patched.length = bytes.length ∧
          (∀ site ∈ branchSites blocks, ∀ targetSlot,
            symbolSlot blocks site.target = some targetSlot →
            branchField patched site.slot =
              some (BitVec.ofInt 16 (displacement site.slot targetSlot))) ∧
          ∀ index, (∀ site ∈ branchSites blocks,
            index ≠ 8 * site.slot + 2 ∧ index ≠ 8 * site.slot + 3) →
            patched[index]? = bytes[index]? :=
  applyFixups_branches .release (fun _ => .external) _ (by decide) (by decide)

end BpfBackend.MC
