import BpfBackend.MC.BranchLayout

/-! # Branches out of range

`applyFixup` truncates the displacement of a branch to 16 bits, whatever the
size of the function.
-/

namespace BpfBackend.MC

open Layout

/-- The machine continues at the slot after the branch plus the signed field. -/
def BranchSite.LandsOn (site : BranchSite) (data : List Byte) (targetSlot : Nat) : Prop :=
  ∃ field, branchField data site.slot = some field ∧
    (site.slot : Int) + 1 + field.toInt = targetSlot

def BranchesLand (blocks : List (List MCInst)) (data : List Byte) : Prop :=
  ∀ site ∈ branchSites blocks, ∀ targetSlot,
    symbolSlot blocks site.target = some targetSlot → site.LandsOn data targetSlot

def DisplacementsFit (blocks : List (List MCInst)) : Prop :=
  ∀ site ∈ branchSites blocks, ∀ targetSlot,
    symbolSlot blocks site.target = some targetSlot →
      -32768 ≤ displacement site.slot targetSlot ∧
        displacement site.slot targetSlot ≤ 32767

def PassesAssertions (build : Build) (placement : MCSymbol → Placement)
    (blocks : List (List MCInst)) : Prop :=
  build = .assertions → keepsReferences placement blocks = true

/-! ## The emitted function -/

private theorem fixupWrites_of_not_isBranch (addresses : List Nat) {fixup : MCFixup}
    (other : fixup.isBranch = false) : fixupWrites addresses fixup = [] := by
  rw [fixupWrites, branchValue_of_ne_FK_PCRel_2 addresses (of_decide_eq_false other)]

theorem flatMap_fixupWrites (addresses : List Nat) (fixups : List MCFixup) :
    fixups.flatMap (fixupWrites addresses) =
      (fixups.filter MCFixup.isBranch).flatMap (fixupWrites addresses) := by
  induction fixups with
  | nil => rfl
  | cons fixup rest induction =>
      rw [List.flatMap_cons, induction]
      cases branch : fixup.isBranch with
      | false =>
          rw [fixupWrites_of_not_isBranch addresses branch,
            List.filter_cons_of_neg (by simp [branch])]
          rfl
      | true =>
          rw [List.filter_cons_of_pos branch, List.flatMap_cons]

theorem emitFunction_of_wellFormed (build : Build) (placement : MCSymbol → Placement)
    {blocks : List (List MCInst)} (wellFormed : WellFormedBlocks blocks)
    (named : NamesBlocks blocks) :
    ∃ bytes, emitFunction build placement blocks =
        (build.assert (keepsReferences placement blocks) "Value == 0").map (fun _ =>
          patch bytes (branchWrites blocks)) ∧
      bytes.length = 8 * totalSize MCInst.slotCount blocks.flatten := by
  rcases emitBlocks_of_wellFormed wellFormed with
    ⟨bytes, fixups, emitted, long, branches, kept⟩
  have resolved := resolved_of_branches named fun fixup member branch => by
    rw [← branches]
    exact List.mem_filter.mpr ⟨member, branch⟩
  refine ⟨bytes, ?_, long⟩
  rw [emitFunction, emitted]
  simp only [bind, Except.bind]
  rw [applyFixups_eq_patch build placement resolved, flatMap_fixupWrites, branches, kept]
  rfl

theorem assert_map_eq_ok_iff {α : Type} {build : Build} {condition : Bool} {text : String}
    {value result : α} :
    (build.assert condition text).map (fun _ => value) = .ok result ↔
      (build = .assertions → condition = true) ∧ value = result := by
  cases build <;> cases condition <;> simp [Build.assert, Except.map]

theorem toInt_ofInt_eq_iff (value : Int) :
    (BitVec.ofInt 16 value).toInt = value ↔ -32768 ≤ value ∧ value ≤ 32767 := by
  rw [BitVec.toInt_ofInt, Int.bmod_def]
  constructor
  · intro equal
    split at equal <;> omega
  · intro fits
    split <;> omega

private theorem landsOn_patch_iff {blocks : List (List MCInst)} {data : List Byte}
    {site : BranchSite} {targetSlot : Nat} (named : NamesBlocks blocks)
    (member : site ∈ branchSites blocks)
    (found : symbolSlot blocks site.target = some targetSlot)
    (long : data.length = 8 * totalSize MCInst.slotCount blocks.flatten) :
    site.LandsOn (patch data (branchWrites blocks)) targetSlot ↔
      -32768 ≤ displacement site.slot targetSlot ∧
        displacement site.slot targetSlot ≤ 32767 := by
  have field := branchField_patch named member found long
  rw [← toInt_ofInt_eq_iff]
  constructor
  · intro holds
    rcases holds with ⟨half, read, lands⟩
    rw [field] at read
    cases read
    unfold displacement at lands ⊢
    omega
  · intro fits
    refine ⟨_, field, ?_⟩
    rw [fits]
    unfold displacement
    omega

/-- A function is emitted unless a reference to a symbol fails an assertion. The
branches of an emitted function all lead to their blocks exactly when every
displacement fits the field: nothing refuses or rewrites a branch that does not. -/
theorem emitFunction_lands_iff (build : Build) (placement : MCSymbol → Placement)
    (blocks : List (List MCInst)) (wellFormed : WellFormedBlocks blocks)
    (named : NamesBlocks blocks) :
    ((∃ bytes, emitFunction build placement blocks = .ok bytes) ↔
        PassesAssertions build placement blocks) ∧
      ((∀ bytes, emitFunction build placement blocks = .ok bytes → BranchesLand blocks bytes) ↔
        (PassesAssertions build placement blocks → DisplacementsFit blocks)) := by
  rcases emitFunction_of_wellFormed build placement wellFormed named with ⟨data, emitted, long⟩
  have emits_iff : ∀ bytes, emitFunction build placement blocks = .ok bytes ↔
      PassesAssertions build placement blocks ∧ patch data (branchWrites blocks) = bytes := by
    intro bytes
    rw [emitted]
    exact assert_map_eq_ok_iff
  constructor
  · constructor
    · intro emits
      rcases emits with ⟨bytes, emits⟩
      exact ((emits_iff bytes).mp emits).1
    · intro passes
      exact ⟨_, (emits_iff _).mpr ⟨passes, rfl⟩⟩
  · constructor
    · intro lands passes site member targetSlot found
      exact (landsOn_patch_iff named member found long).mp
        (lands _ ((emits_iff _).mpr ⟨passes, rfl⟩) site member targetSlot found)
    · intro fits bytes emits
      rcases (emits_iff bytes).mp emits with ⟨passes, rfl⟩
      intro site member targetSlot found
      exact (landsOn_patch_iff named member found long).mpr
        (fits passes site member targetSlot found)

theorem emitFunction_lands_iff_next :
    let blocks : List (List MCInst) :=
      [[⟨.JMP, [.expr (.SymbolRef (.block 1))]⟩], [⟨.RET, []⟩]]
    ((∃ bytes, emitFunction .release (fun _ => .external) blocks = .ok bytes) ↔
        PassesAssertions .release (fun _ => .external) blocks) ∧
      ((∀ bytes, emitFunction .release (fun _ => .external) blocks = .ok bytes →
          BranchesLand blocks bytes) ↔
        (PassesAssertions .release (fun _ => .external) blocks → DisplacementsFit blocks)) :=
  emitFunction_lands_iff .release (fun _ => .external) _ (by decide) (by decide)

/-! ## A jump that is too long -/

def farJump (count : Nat) : List (List MCInst) :=
  [[⟨.JMP, [.expr (.SymbolRef (.block 2))]⟩],
    List.replicate count ⟨.MOV_ri, [.reg .R0, .imm 0]⟩, [⟨.RET, []⟩]]

theorem branchSitesFrom_append (start : Nat) (first second : List MCInst) :
    branchSitesFrom start (first ++ second) =
      branchSitesFrom start first ++
        branchSitesFrom (start + totalSize MCInst.slotCount first) second := by
  rw [branchSitesFrom, place_append, List.flatMap_append]
  rfl

private theorem branchSitesFrom_eq_nil {start : Nat} {insts : List MCInst}
    (straight : ∀ inst ∈ insts, inst.branchTarget = none) :
    branchSitesFrom start insts = [] := by
  rw [branchSitesFrom, List.flatMap_eq_nil_iff]
  intro holds placed
  rcases holds with ⟨slot, inst⟩
  simp [straight inst (mem_of_mem_place placed)]

private theorem branchSites_farJump (count : Nat) :
    branchSites (farJump count) = [⟨0, .block 2⟩] := by
  have body : branchSitesFrom 1 (List.replicate count ⟨.MOV_ri, [.reg .R0, .imm 0]⟩) = [] :=
    branchSitesFrom_eq_nil fun inst member => by
      rw [List.eq_of_mem_replicate member]
      rfl
  have flat : (farJump count).flatten =
      [⟨.JMP, [.expr (.SymbolRef (.block 2))]⟩] ++
        (List.replicate count ⟨.MOV_ri, [.reg .R0, .imm 0]⟩ ++ [⟨.RET, []⟩]) := by
    simp [farJump]
  rw [branchSites, flat, branchSitesFrom_append, branchSitesFrom_append]
  exact congrArg (_ :: · ++ _) body

private theorem symbolSlot_farJump (count : Nat) :
    symbolSlot (farJump count) (.block 2) = some (1 + count) := by
  have size : totalSize MCInst.slotCount
      (List.replicate count ⟨.MOV_ri, [.reg .R0, .imm 0]⟩) = count := by
    rw [totalSize_replicate]
    exact Nat.mul_one count
  simp only [symbolSlot, blockSlots, farJump, place, size]
  rfl

private theorem wellFormed_farJump (count : Nat) : WellFormedBlocks (farJump count) := by
  intro block blockMember inst member
  simp only [farJump, List.mem_cons, List.not_mem_nil, or_false] at blockMember
  rcases blockMember with rfl | rfl | rfl
  · rw [List.mem_singleton.mp member]
    decide
  · rw [List.eq_of_mem_replicate member]
    decide
  · rw [List.mem_singleton.mp member]
    decide

private theorem namesBlocks_farJump (count : Nat) : NamesBlocks (farJump count) := by
  intro site member
  rw [branchSites_farJump, List.mem_singleton] at member
  subst member
  rw [symbolSlot_farJump]
  rfl

private theorem keepsReferences_farJump (placement : MCSymbol → Placement) (count : Nat) :
    keepsReferences placement (farJump count) = true := by
  have body : (List.replicate count ⟨.MOV_ri, [.reg .R0, .imm 0]⟩).all
      (MCInst.keepsReference placement) = true := by
    rw [List.all_eq_true]
    intro inst member
    rw [List.eq_of_mem_replicate member]
    rfl
  simp only [keepsReferences, farJump, List.flatten_cons, List.all_append, body]
  rfl

/-- A jump over 32768 instructions is emitted, and does not lead to its block. -/
theorem emitFunction_farJump :
    WellFormedBlocks (farJump 32768) ∧ NamesBlocks (farJump 32768) ∧
      ∃ bytes, emitFunction .assertions (fun _ => .external) (farJump 32768) = .ok bytes ∧
        ¬ BranchesLand (farJump 32768) bytes := by
  have named := namesBlocks_farJump 32768
  rcases emitFunction_of_wellFormed .assertions (fun _ => .external)
    (wellFormed_farJump 32768) named with ⟨data, emitted, long⟩
  rw [keepsReferences_farJump, Build.assert_true] at emitted
  refine ⟨wellFormed_farJump 32768, named, _, emitted, ?_⟩
  intro lands
  have member : (⟨0, .block 2⟩ : BranchSite) ∈ branchSites (farJump 32768) := by
    rw [branchSites_farJump]
    exact List.mem_singleton.mpr rfl
  have found := symbolSlot_farJump 32768
  have fits := (landsOn_patch_iff named member found long).mp
    (lands _ member _ found)
  simp [displacement] at fits

end BpfBackend.MC
