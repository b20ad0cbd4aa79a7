import BpfBackend.MC.BranchRange

/-! # Object files

The text section of a function with its relocations. The branches to blocks of
the function are resolved in the text, and every other symbol is left to a
relocation.
-/

namespace BpfBackend.MC

open BitFields Layout

/-! ## Relocations -/

/-- A relocation against a symbol, or against the section in which the symbol
lies. -/
structure Relocation where
  offset : Nat
  symbol : MCSymbol
  placement : Placement
  type : RelocType
  deriving DecidableEq, Repr

structure ObjectCode where
  text : List Byte
  relocations : List Relocation
  deriving DecidableEq, Repr

/-- The emitter records fixups against symbol references only. -/
def recordRelocation (placement : MCSymbol → Placement) (fixup : MCFixup) :
    Compile Relocation := do
  match fixup.value with
  | .SymbolRef symbol => pure ⟨fixup.offset, symbol, placement symbol, ← GetRelocType fixup⟩
  | _ => .error (.report_fatal_error "expected relocatable expression")

def recordRelocations (placement : MCSymbol → Placement) (addresses : List Nat) :
    List MCFixup → Compile (List Relocation)
  | [] => .ok []
  | fixup :: rest =>
      if (branchValue addresses fixup).isSome then recordRelocations placement addresses rest
      else do
        let relocation ← recordRelocation placement fixup
        pure (relocation :: (← recordRelocations placement addresses rest))

def emitObject (build : Build) (placement : MCSymbol → Placement)
    (blocks : List (List MCInst)) : Compile ObjectCode := do
  let (bytes, fixups, addresses) ← emitBlocks 0 blocks
  let text ← applyFixups build placement addresses fixups bytes
  pure ⟨text, ← recordRelocations placement addresses fixups⟩

/-! ## The relocations of a function -/

section Relocations

variable (placement : MCSymbol → Placement)

def MCInst.relocation (slot : Nat) (inst : MCInst) : Option Relocation :=
  inst.reference.map fun reference =>
    ⟨8 * slot, reference.1, placement reference.1, reference.2⟩

def relocationsFrom (start : Nat) (insts : List MCInst) : List Relocation :=
  (place MCInst.slotCount start insts).flatMap fun placed =>
    (placed.2.relocation placement placed.1).toList

private theorem recordRelocations_append (addresses : List Nat) (first second : List MCFixup)
    {firstRelocations secondRelocations : List Relocation}
    (recorded : recordRelocations placement addresses first = .ok firstRelocations)
    (furtherRecorded : recordRelocations placement addresses second = .ok secondRelocations) :
    recordRelocations placement addresses (first ++ second) =
      .ok (firstRelocations ++ secondRelocations) := by
  induction first generalizing firstRelocations with
  | nil =>
      cases recorded
      exact furtherRecorded
  | cons fixup rest induction =>
      rw [recordRelocations] at recorded
      rw [List.cons_append, recordRelocations]
      split at recorded
      · rw [if_pos ‹_›]
        exact induction recorded
      · rcases bind_eq_ok recorded with ⟨relocation, fixupRecorded, recorded⟩
        rcases bind_eq_ok recorded with ⟨restRelocations, restRecorded, recorded⟩
        cases recorded
        rw [if_neg ‹_›, fixupRecorded, induction restRecorded]
        rfl

theorem Form.recordRelocations_fixups (addresses : List Nat) (slot : Nat) (form : Form)
    (resolved : ∀ symbol, form.toMCInst.branchTarget = some symbol →
      ∃ number, symbol = .block number ∧ addresses[number]?.isSome = true) :
    recordRelocations placement addresses (form.fixups.map (MCFixup.shift (8 * slot))) =
      .ok (form.toMCInst.relocation placement slot).toList := by
  have branch : ∀ symbol, form.toMCInst.branchTarget = some symbol →
      recordRelocations placement addresses [⟨8 * slot + 0, .SymbolRef symbol, .FK_PCRel_2⟩] =
        .ok [] := by
    intro symbol target
    rcases resolved symbol target with ⟨number, rfl, found⟩
    simp [recordRelocations, branchValue, found]
  cases form
  case JMP_RR jcc rA rX dst =>
    cases dst with
    | imm value => rfl
    | symbol name => exact branch name rfl
  case JMP_RI jcc rA imm dst =>
    cases dst with
    | imm value => rfl
    | symbol name => exact branch name rfl
  case BRANCH dst =>
    cases dst with
    | imm value => rfl
    | symbol name => exact branch name rfl
  case CALL dst => cases dst <;> rfl
  case LD_IMM64 rA imm => cases imm <;> rfl
  all_goals rfl

theorem recordRelocations_formFixups (addresses : List Nat) (slot : Nat)
    (forms : List Form)
    (resolved : ∀ site ∈ branchSitesFrom slot (forms.map Form.toMCInst),
      ∃ number, site.target = .block number ∧ addresses[number]?.isSome = true) :
    recordRelocations placement addresses (formFixups (8 * slot) forms) =
      .ok (relocationsFrom placement slot (forms.map Form.toMCInst)) := by
  induction forms generalizing slot with
  | nil => rfl
  | cons form rest induction =>
      have sites : branchSitesFrom slot ((form :: rest).map Form.toMCInst) =
          form.toMCInst.branchTarget.toList.map (BranchSite.mk slot) ++
            branchSitesFrom (slot + form.toMCInst.slotCount) (rest.map Form.toMCInst) := rfl
      rw [sites] at resolved
      have own := form.recordRelocations_fixups placement addresses slot fun symbol target =>
        resolved ⟨slot, symbol⟩ (List.mem_append_left _ (by simp [target]))
      have further := induction (slot + form.toMCInst.slotCount) fun site member =>
        resolved site (List.mem_append_right _ member)
      rw [formFixups, form.length_bytes, ← Nat.mul_add]
      exact recordRelocations_append placement addresses _ _ own further

end Relocations

/-! ## Resolved branches -/

/-- A branch operand after its fixup: the displacement to the named block. -/
def Target.resolve (locate : MCSymbol → Option Nat) (slot : Nat) : Target → Target
  | imm value => .imm value
  | symbol name =>
      match locate name with
      | some targetSlot => .imm (BitVec.ofInt 64 (displacement slot targetSlot))
      | none => .symbol name

def Form.resolve (locate : MCSymbol → Option Nat) (slot : Nat) : Form → Form
  | JMP_RR jcc rA rX dst => .JMP_RR jcc rA rX (dst.resolve locate slot)
  | JMP_RI jcc rA imm dst => .JMP_RI jcc rA imm (dst.resolve locate slot)
  | BRANCH dst => .BRANCH (dst.resolve locate slot)
  | form => form

def resolveForms (locate : MCSymbol → Option Nat) : Nat → List Form → List Form
  | _, [] => []
  | slot, form :: rest =>
      form.resolve locate slot ::
        resolveForms locate (slot + form.toMCInst.slotCount) rest

def offsetWrites (field : BitVec 16) : List (Nat × Byte) :=
  [(2, field.extractLsb' 0 8), (3, field.extractLsb' 8 8)]

def MCInst.slotWrites (locate : MCSymbol → Option Nat) (slot : Nat) (inst : MCInst) :
    List (Nat × Byte) :=
  match inst.branchTarget.bind locate with
  | some targetSlot => offsetWrites (BitVec.ofInt 16 (displacement slot targetSlot))
  | none => []

def writesFrom (locate : MCSymbol → Option Nat) : Nat → List MCInst → List (Nat × Byte)
  | _, [] => []
  | slot, inst :: rest =>
      (inst.slotWrites locate slot).map (fun write => (8 * slot + write.1, write.2)) ++
        writesFrom locate (slot + inst.slotCount) rest

private theorem flatMap_fixupWrites_sites {blocks : List (List MCInst)} (slot : Nat)
    (insts : List MCInst)
    (named : ∀ site ∈ branchSitesFrom slot insts,
      (symbolSlot blocks site.target).isSome = true) :
    ((branchSitesFrom slot insts).map BranchSite.fixup).flatMap
        (fixupWrites ((blockSlots blocks).map (8 * ·))) =
      writesFrom (symbolSlot blocks) slot insts := by
  induction insts generalizing slot with
  | nil => rfl
  | cons inst rest induction =>
      have sites : branchSitesFrom slot (inst :: rest) =
          inst.branchTarget.toList.map (BranchSite.mk slot) ++
            branchSitesFrom (slot + inst.slotCount) rest := rfl
      rw [sites] at named
      rw [sites, List.map_append, List.flatMap_append, writesFrom,
        induction _ fun site member => named site (List.mem_append_right _ member)]
      congr 1
      cases target : inst.branchTarget with
      | none => simp [MCInst.slotWrites, target]
      | some symbol =>
          have located := named ⟨slot, symbol⟩
            (List.mem_append_left _ (by simp [target]))
          rcases Option.isSome_iff_exists.mp located with ⟨targetSlot, found⟩
          have writes := @fixupWrites_site blocks ⟨slot, symbol⟩ targetSlot found
          simpa [MCInst.slotWrites, target, found, offsetWrites] using writes

theorem patch_slotBytes {word resolved : BitVec 64} {field : BitVec 16}
    (same : ∀ lo, lo + 8 ≤ 32 ∨ 48 ≤ lo →
      word.extractLsb' lo 8 = resolved.extractLsb' lo 8)
    (holds : resolved.extractLsb' 32 16 = field) :
    patch (slotBytes word) (offsetWrites field) = slotBytes resolved := by
  have halves : ∀ lo, lo + 8 ≤ 16 →
      field.extractLsb' lo 8 = resolved.extractLsb' (32 + lo) 8 := by
    intro lo inside
    rw [← holds]
    apply BitVec.eq_of_getLsbD_eq
    intro index inRange
    have inHalf : lo + index < 16 := by omega
    simp [inRange, inHalf, Nat.add_assoc]
  rw [offsetWrites, halves 0 (by omega), halves 8 (by omega), slotBytes, slotBytes,
    same 56 (by omega), same 48 (by omega), same 0 (by omega), same 8 (by omega),
    same 16 (by omega), same 24 (by omega)]
  rfl

theorem extract_assemble_offset (before after : List Placed) (left right : BitVec 16)
    (lo : Nat) (outside : lo + 8 ≤ 32 ∨ 48 ≤ lo) :
    (assemble 64 (before ++ ⟨32, 16, left⟩ :: after)).extractLsb' lo 8 =
      (assemble 64 (before ++ ⟨32, 16, right⟩ :: after)).extractLsb' lo 8 := by
  have avoids : ∀ value : BitVec 16, (Placed.mk 32 16 value).avoids lo 8 = true := by
    intro value
    rcases outside with below | above
    · simp [Placed.avoids, below]
    · simp [Placed.avoids, Placed.hi, above]
  exact extract_assemble_of_replaced before after (avoids left) (avoids right)

private theorem patch_assemble (before after : List Placed) (value field : BitVec 16)
    (beforeAvoids : before.all (·.avoids 32 16) = true)
    (afterAvoids : after.all (·.avoids 32 16) = true) :
    patch (slotBytes (assemble 64 (before ++ ⟨32, 16, value⟩ :: after)))
        (offsetWrites field) =
      slotBytes (assemble 64 (before ++ ⟨32, 16, field⟩ :: after)) :=
  patch_slotBytes (extract_assemble_offset before after value field)
    (extract_assemble 64 ⟨32, 16, field⟩ (Nat.le_add_left 48 16) beforeAvoids afterAvoids)

theorem setWidth_ofInt (value : Int) :
    (BitVec.ofInt 64 value).setWidth 16 = BitVec.ofInt 16 value := by
  apply BitVec.eq_of_toNat_eq
  simp only [BitVec.toNat_setWidth, BitVec.toNat_ofInt]
  omega

section Branches

variable {locate : MCSymbol → Option Nat} {slot : Nat} {name : MCSymbol}

private theorem Target.resolve_symbol_of_none (missing : locate name = none) :
    Target.resolve locate slot (.symbol name) = .symbol name := by
  rw [resolve, missing]

private theorem MCInst.slotWrites_of_none {inst : MCInst} (target : inst.branchTarget = some name)
    (missing : locate name = none) : inst.slotWrites locate slot = [] := by
  rw [slotWrites, target, Option.bind_some, missing]

private theorem MCInst.slotWrites_of_some {inst : MCInst} {targetSlot : Nat}
    (target : inst.branchTarget = some name) (found : locate name = some targetSlot) :
    inst.slotWrites locate slot =
      offsetWrites ((Target.resolve locate slot (.symbol name)).bits.setWidth 16) := by
  rw [slotWrites, target, Option.bind_some, found, Target.resolve, found]
  exact congrArg offsetWrites (setWidth_ofInt _).symm

end Branches

theorem Form.patch_bytes (locate : MCSymbol → Option Nat) (slot : Nat) (form : Form) :
    patch form.bytes (form.toMCInst.slotWrites locate slot) =
      (form.resolve locate slot).bytes := by
  cases form
  case JMP_RR jcc rA rX dst =>
    cases dst with
    | imm value => rfl
    | symbol name =>
        cases found : locate name with
        | none =>
            rw [MCInst.slotWrites_of_none rfl found, resolve,
              Target.resolve_symbol_of_none found]
            rfl
        | some targetSlot =>
            rw [MCInst.slotWrites_of_some rfl found]
            exact patch_assemble [op jcc.br_op, src 1, bpfClass 5, ⟨48, 4, rA.nibble⟩,
              ⟨52, 4, rX.nibble⟩] [] _ _ rfl rfl
  case JMP_RI jcc rA imm dst =>
    cases dst with
    | imm value => rfl
    | symbol name =>
        cases found : locate name with
        | none =>
            rw [MCInst.slotWrites_of_none rfl found, resolve,
              Target.resolve_symbol_of_none found]
            rfl
        | some targetSlot =>
            rw [MCInst.slotWrites_of_some rfl found]
            exact patch_assemble [op jcc.br_op, src 0, bpfClass 5, ⟨48, 4, rA.nibble⟩]
              [⟨0, 32, imm.setWidth 32⟩] _ _ rfl rfl
  case BRANCH dst =>
    cases dst with
    | imm value => rfl
    | symbol name =>
        cases found : locate name with
        | none =>
            rw [MCInst.slotWrites_of_none rfl found, resolve,
              Target.resolve_symbol_of_none found]
            rfl
        | some targetSlot =>
            rw [MCInst.slotWrites_of_some rfl found]
            exact patch_assemble [op 0, src 0, bpfClass 5] [] _ _ rfl rfl
  all_goals rfl

@[simp] theorem Form.slotCount_resolve (locate : MCSymbol → Option Nat) (slot : Nat)
    (form : Form) : (form.resolve locate slot).toMCInst.slotCount = form.toMCInst.slotCount := by
  cases form <;> rfl

theorem MCInst.one_le_slotCount (inst : MCInst) : 1 ≤ inst.slotCount := by
  unfold slotCount
  split <;> omega

private theorem MCInst.slotWrites_bounds {locate : MCSymbol → Option Nat} {slot : Nat}
    {inst : MCInst}
    {write : Nat × Byte} (member : write ∈ inst.slotWrites locate slot) : write.1 < 8 := by
  unfold slotWrites at member
  split at member
  · simp only [offsetWrites, List.mem_cons, List.not_mem_nil, or_false] at member
    rcases member with rfl | rfl <;> simp
  · cases member

theorem formBytes_cons (form : Form) (rest : List Form) :
    formBytes (form :: rest) = form.bytes ++ formBytes rest := List.flatMap_cons

theorem patch_formBytes (locate : MCSymbol → Option Nat) (forms : List Form) (slot : Nat)
    (before : List Byte) (length : before.length = 8 * slot) :
    patch (before ++ formBytes forms) (writesFrom locate slot (forms.map Form.toMCInst)) =
      before ++ formBytes (resolveForms locate slot forms) := by
  induction forms generalizing slot before with
  | nil => rfl
  | cons form rest induction =>
      have inside : ∀ write ∈ form.toMCInst.slotWrites locate slot,
          write.1 < form.bytes.length := by
        intro write member
        have bound := MCInst.slotWrites_bounds member
        have occupied := form.toMCInst.one_le_slotCount
        rw [form.length_bytes]
        omega
      have own : patch (before ++ (form.bytes ++ formBytes rest))
            ((form.toMCInst.slotWrites locate slot).map fun write =>
              (8 * slot + write.1, write.2)) =
          (before ++ (form.resolve locate slot).bytes) ++ formBytes rest := by
        rw [← length, patch_append_right, patch_append_left inside, form.patch_bytes,
          List.append_assoc]
      have further : (before ++ (form.resolve locate slot).bytes).length =
          8 * (slot + form.toMCInst.slotCount) := by
        rw [List.length_append, length, Form.length_bytes, Form.slotCount_resolve, Nat.mul_add]
      rw [List.map_cons, writesFrom, patch_append, formBytes_cons, own, induction _ _ further,
        resolveForms, formBytes_cons, List.append_assoc]

/-! ## The object code of a function -/

theorem isSome_blockAddress {blocks : List (List MCInst)} {symbol : MCSymbol}
    (named : (symbolSlot blocks symbol).isSome = true) :
    ∃ number, symbol = .block number ∧
      ((blockSlots blocks).map (8 * ·))[number]?.isSome = true := by
  cases symbol with
  | global name => cases named
  | block number =>
      refine ⟨number, rfl, ?_⟩
      rw [List.getElem?_map, Option.isSome_map]
      exact named

theorem resolved_formFixups {blocks : List (List Form)}
    (named : NamesBlocks (blocks.map (List.map Form.toMCInst))) :
    ∀ fixup ∈ formFixups 0 blocks.flatten,
      Resolved ((blockSlots (blocks.map (List.map Form.toMCInst))).map (8 * ·)) fixup := by
  apply resolved_of_branches named
  intro fixup member branch
  have listed : fixup ∈ (formFixups (8 * 0) blocks.flatten).filter MCFixup.isBranch :=
    List.mem_filter.mpr ⟨member, branch⟩
  rwa [branchFixups_formFixups, List.map_flatten] at listed

theorem flatMap_fixupWrites_formFixups (blocks : List (List Form)) :
    (formFixups 0 blocks.flatten).flatMap
        (fixupWrites ((blockSlots (blocks.map (List.map Form.toMCInst))).map (8 * ·))) =
      branchWrites (blocks.map (List.map Form.toMCInst)) := by
  rw [flatMap_fixupWrites, branchWrites, branchSites, ← List.map_flatten]
  exact congrArg (List.flatMap _) (branchFixups_formFixups 0 blocks.flatten)

theorem patch_branchWrites {blocks : List (List Form)}
    (named : NamesBlocks (blocks.map (List.map Form.toMCInst))) :
    patch (formBytes blocks.flatten) (branchWrites (blocks.map (List.map Form.toMCInst))) =
      formBytes (resolveForms (symbolSlot (blocks.map (List.map Form.toMCInst))) 0
        blocks.flatten) := by
  rw [branchWrites, branchSites, flatMap_fixupWrites_sites 0 _ named, ← List.map_flatten]
  exact patch_formBytes _ _ 0 [] rfl

theorem applyFixups_forms (build : Build) (placement : MCSymbol → Placement)
    (blocks : List (List Form)) (named : NamesBlocks (blocks.map (List.map Form.toMCInst))) :
    applyFixups build placement
        ((place (totalSize MCInst.slotCount) 0 (blocks.map (List.map Form.toMCInst))).map
          fun placed => 8 * placed.1)
        (formFixups 0 blocks.flatten) (formBytes blocks.flatten) =
      (build.assert (keepsReferences placement (blocks.map (List.map Form.toMCInst)))
        "Value == 0").map fun _ =>
        formBytes (resolveForms (symbolSlot (blocks.map (List.map Form.toMCInst))) 0
          blocks.flatten) := by
  have addresses : (place (totalSize MCInst.slotCount) 0
        (blocks.map (List.map Form.toMCInst))).map (fun placed => 8 * placed.1) =
      (blockSlots (blocks.map (List.map Form.toMCInst))).map (8 * ·) := by
    rw [blockSlots, List.map_map]
    rfl
  rw [addresses, applyFixups_eq_patch build placement (resolved_formFixups named),
    flatMap_fixupWrites_formFixups, patch_branchWrites named, all_isKept_formFixups,
    keepsReferences, List.map_flatten]

/-- The text of a function holds its instructions with their branches resolved,
and its relocations are the symbols of its calls and wide loads, in order. -/
theorem emitObject_forms (build : Build) (placement : MCSymbol → Placement)
    (blocks : List (List Form)) (named : NamesBlocks (blocks.map (List.map Form.toMCInst))) :
    emitObject build placement (blocks.map (List.map Form.toMCInst)) =
      (build.assert (keepsReferences placement (blocks.map (List.map Form.toMCInst)))
        "Value == 0").map fun _ =>
        ⟨formBytes (resolveForms (symbolSlot (blocks.map (List.map Form.toMCInst))) 0
            blocks.flatten),
          relocationsFrom placement 0 (blocks.map (List.map Form.toMCInst)).flatten⟩ := by
  have emitted := emitBlocks_forms 0 blocks
  have addresses : (place (totalSize MCInst.slotCount) 0
        (blocks.map (List.map Form.toMCInst))).map (fun placed => 8 * placed.1) =
      (blockSlots (blocks.map (List.map Form.toMCInst))).map (8 * ·) := by
    rw [blockSlots, List.map_map]
    rfl
  have sites : branchSites (blocks.map (List.map Form.toMCInst)) =
      branchSitesFrom 0 (blocks.flatten.map Form.toMCInst) := by
    rw [branchSites, ← List.map_flatten]
  have recorded := recordRelocations_formFixups placement
    ((blockSlots (blocks.map (List.map Form.toMCInst))).map (8 * ·)) 0 blocks.flatten
    fun site member => isSome_blockAddress (named site (sites ▸ member))
  rw [emitObject, emitted]
  simp only [bind, Except.bind]
  rw [applyFixups_forms build placement blocks named, addresses, recorded, List.map_flatten]
  cases build.assert (keepsReferences placement (blocks.map (List.map Form.toMCInst)))
    "Value == 0" <;> rfl

end BpfBackend.MC
