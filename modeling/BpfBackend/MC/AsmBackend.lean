import BpfBackend.Foundation.Layout
import BpfBackend.MC.InstructionStream

/-! # The assembler backend

`BPFAsmBackend.cpp` and `BPFELFObjectWriter.cpp`, and the way in which the
assembler drives them: the blocks of a function are laid out one after another
and each fixup is either resolved or turned into a relocation.
-/

namespace BpfBackend.MC

/-- `assert` is compiled to nothing in a release build. -/
inductive Build where
  | assertions
  | release
  deriving DecidableEq, Repr

def Build.assert (build : Build) (condition : Bool) (text : String) : Compile Unit :=
  if build = .assertions ∧ condition = false then .error (.assertion text) else .ok ()

@[simp] theorem Build.assert_true (build : Build) (text : String) :
    build.assert true text = .ok () := by
  simp [Build.assert]

@[simp] theorem Build.assert_release (condition : Bool) (text : String) :
    Build.release.assert condition text = .ok () := rfl

theorem Build.assert_bind {α β : Type} (build : Build) (first : Bool) {second : Bool}
    {text : String} {value : α} {rest : α → Compile β} {result : β}
    (further : rest value = (build.assert second text).map fun _ => result) :
    ((build.assert first text).map (fun _ => value) >>= rest) =
      (build.assert (first && second) text).map fun _ => result := by
  cases build with
  | release => exact further
  | assertions =>
      cases first with
      | true => exact further
      | false => rfl

/-! ## Symbols -/

/-- What the symbol table says of a symbol: it is external, also if the object
file defines it, or local at an offset in its section. -/
inductive Placement where
  | external
  | inSection (offset : BitVec 64)
  deriving DecidableEq, Repr

/-- The value handed to `applyFixup`: an external symbol is relocated against
itself, a local one against the symbol of its section. -/
def Placement.fixupValue : Placement → BitVec 64
  | external => 0
  | inSection offset => offset

def Placement.relocationTarget (symbolAddress : BitVec 64) : Placement → BitVec 64
  | external => symbolAddress
  | inSection offset => symbolAddress - offset

/-! ## Fixups -/

/-- A `uint16_t` stored at `offset` on a little-endian host. -/
def storeHalf (data : List Byte) (offset : Nat) (value : BitVec 16) : List Byte :=
  (data.set offset (value.extractLsb' 0 8)).set (offset + 1) (value.extractLsb' 8 8)

/-- `BitVec` division is the unsigned division of the source. -/
def applyFixup (build : Build) (fixup : MCFixup) (data : List Byte) (value : BitVec 64) :
    Compile (List Byte) := do
  if fixup.kind = .FK_SecRel_4 ∨ fixup.kind = .FK_SecRel_8 then
    build.assert (value = 0) "Value == 0"
    pure data
  else
    build.assert (fixup.kind = .FK_PCRel_2) "Fixup.getKind() == FK_PCRel_2"
    pure (storeHalf data (fixup.offset + 2) (((value - 8) / 8).setWidth 16))

inductive RelocType where
  | R_X86_64_64
  | R_X86_64_PC32
  deriving DecidableEq, Repr

def GetRelocType (fixup : MCFixup) : Compile RelocType :=
  match fixup.kind with
  | .FK_SecRel_8 => .ok .R_X86_64_64
  | .FK_SecRel_4 => .ok .R_X86_64_PC32
  | .FK_PCRel_2 => .error (.llvm_unreachable "invalid fixup kind!")

/-! ## Emitting a function -/

/-- The blocks of a function one after another, with the address of each. No
instruction requires relaxation, so the streamer emits each as data at once. -/
def emitBlocks (start : Nat) :
    List (List MCInst) → Compile (List Byte × List MCFixup × List Nat)
  | [] => .ok ([], [], [])
  | block :: rest => do
      let (bytes, fixups) ← emitInstructions start block
      let (restBytes, restFixups, addresses) ← emitBlocks (start + bytes.length) rest
      pure (bytes ++ restBytes, fixups ++ restFixups, start :: addresses)

def branchValue (addresses : List Nat) (fixup : MCFixup) : Option (BitVec 64) :=
  match fixup.kind, fixup.value with
  | .FK_PCRel_2, .SymbolRef (.block number) =>
      addresses[number]?.map fun address => BitVec.ofNat 64 address - BitVec.ofNat 64 fixup.offset
  | _, _ => none

/-- The value that the assembler hands to `applyFixup`. Whatever is no branch to
a block of the function becomes a relocation. -/
def evaluateFixup (placement : MCSymbol → Placement) (addresses : List Nat) (fixup : MCFixup) :
    Compile (BitVec 64) :=
  match branchValue addresses fixup with
  | some value => .ok value
  | none => do
      let _ ← GetRelocType fixup
      match fixup.value with
      | .SymbolRef symbol => pure (placement symbol).fixupValue
      | _ => pure 0

def applyFixups (build : Build) (placement : MCSymbol → Placement) (addresses : List Nat) :
    List MCFixup → List Byte → Compile (List Byte)
  | [], data => .ok data
  | fixup :: rest, data => do
      let value ← evaluateFixup placement addresses fixup
      applyFixups build placement addresses rest (← applyFixup build fixup data value)

def emitFunction (build : Build) (placement : MCSymbol → Placement)
    (blocks : List (List MCInst)) : Compile (List Byte) := do
  let (bytes, fixups, addresses) ← emitBlocks 0 blocks
  applyFixups build placement addresses fixups bytes

/-! ## Stores as patches -/

open Layout

private theorem storeHalf_eq_patch (data : List Byte) (offset : Nat) (value : BitVec 16) :
    storeHalf data offset value =
      patch data [(offset, value.extractLsb' 0 8), (offset + 1, value.extractLsb' 8 8)] := rfl

def fixupWrites (addresses : List Nat) (fixup : MCFixup) : List (Nat × Byte) :=
  match branchValue addresses fixup with
  | some value =>
      let half : BitVec 16 := ((value - 8) / 8).setWidth 16
      [(fixup.offset + 2, half.extractLsb' 0 8), (fixup.offset + 3, half.extractLsb' 8 8)]
  | none => []

def Resolved (addresses : List Nat) (fixup : MCFixup) : Prop :=
  fixup.kind = .FK_PCRel_2 → (branchValue addresses fixup).isSome = true

/-- The value of the fixup is the one that its field holds. -/
def MCFixup.isKept (placement : MCSymbol → Placement) (fixup : MCFixup) : Bool :=
  match fixup.kind, fixup.value with
  | .FK_SecRel_4, .SymbolRef symbol | .FK_SecRel_8, .SymbolRef symbol =>
      (placement symbol).fixupValue = 0
  | _, _ => true

theorem branchValue_of_ne_FK_PCRel_2 (addresses : List Nat) {fixup : MCFixup}
    (other : fixup.kind ≠ .FK_PCRel_2) : branchValue addresses fixup = none := by
  rcases fixup with ⟨offset, value, kind⟩
  cases kind with
  | FK_PCRel_2 => exact absurd rfl other
  | FK_SecRel_4 => rfl
  | FK_SecRel_8 => rfl

theorem applyFixup_of_ne_FK_PCRel_2 (build : Build) (placement : MCSymbol → Placement)
    (addresses : List Nat) {fixup : MCFixup} (other : fixup.kind ≠ .FK_PCRel_2)
    (data : List Byte) :
    ∃ value, evaluateFixup placement addresses fixup = .ok value ∧
      applyFixup build fixup data value =
        (build.assert (fixup.isKept placement) "Value == 0").map fun _ => data := by
  have unknown := branchValue_of_ne_FK_PCRel_2 addresses other
  rcases fixup with ⟨offset, value, kind⟩
  rw [evaluateFixup, unknown]
  cases kind with
  | FK_PCRel_2 => exact absurd rfl other
  | FK_SecRel_4 => cases value <;> exact ⟨_, rfl, rfl⟩
  | FK_SecRel_8 => cases value <;> exact ⟨_, rfl, rfl⟩

private theorem applyFixup_branch (build : Build) (placement : MCSymbol → Placement)
    {addresses : List Nat} {fixup : MCFixup} {value : BitVec 64}
    (known : branchValue addresses fixup = some value) (data : List Byte) :
    evaluateFixup placement addresses fixup = .ok value ∧
      applyFixup build fixup data value = .ok (patch data (fixupWrites addresses fixup)) ∧
      fixup.isKept placement = true := by
  have branch : fixup.kind = .FK_PCRel_2 := by
    by_contra other
    rw [branchValue_of_ne_FK_PCRel_2 addresses other] at known
    cases known
  refine ⟨?_, ?_, ?_⟩
  · rw [evaluateFixup, known]
  · simp [applyFixup, branch, fixupWrites, known, storeHalf_eq_patch]
  · rw [MCFixup.isKept, branch]

/-- Applying resolved fixups in turn patches the bytes in turn, unless a
reference fails its assertion. -/
theorem applyFixups_eq_patch (build : Build) (placement : MCSymbol → Placement)
    {addresses : List Nat} {fixups : List MCFixup}
    (resolved : ∀ fixup ∈ fixups, Resolved addresses fixup) (data : List Byte) :
    applyFixups build placement addresses fixups data =
      (build.assert (fixups.all (MCFixup.isKept placement)) "Value == 0").map fun _ =>
        patch data (fixups.flatMap (fixupWrites addresses)) := by
  induction fixups generalizing data with
  | nil =>
      rw [List.all_nil, Build.assert_true]
      rfl
  | cons fixup rest induction =>
      have further := induction fun other member =>
        resolved other (List.mem_cons_of_mem _ member)
      rw [applyFixups, List.all_cons, List.flatMap_cons, patch_append]
      cases known : branchValue addresses fixup with
      | some value =>
          rcases applyFixup_branch build placement known data with ⟨evaluated, applied, kept⟩
          rw [evaluated, kept, Bool.true_and, ← further]
          simp only [bind, Except.bind, applied]
      | none =>
          have other : fixup.kind ≠ .FK_PCRel_2 := by
            intro branch
            have found := resolved fixup List.mem_cons_self branch
            rw [known] at found
            cases found
          rcases applyFixup_of_ne_FK_PCRel_2 build placement addresses other data with
            ⟨value, evaluated, applied⟩
          have silent : fixupWrites addresses fixup = [] := by rw [fixupWrites, known]
          rw [evaluated, silent]
          simp only [bind, Except.bind, applied]
          exact build.assert_bind (fixup.isKept placement) (further data)

end BpfBackend.MC
