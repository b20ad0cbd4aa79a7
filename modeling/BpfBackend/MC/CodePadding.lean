import BpfBackend.Foundation.Loop
import BpfBackend.MC.InstructionStream
import BpfBackend.MC.Machine

/-! # Code padding

`BPFAsmBackend::writeNopData` fills the gap before an aligned function with
copies of one 64-bit word.
-/

namespace BpfBackend.MC

open ItemStream Loop

/-! ## The filler -/

def Write64 (value : BitVec 64) : List Byte :=
  (List.range 8).map fun index => value.extractLsb' (8 * index) 8

def nopWord : BitVec 64 := 0x15000000

structure NopState where
  i : Nat
  written : List Byte

/-- The counter stays below `2 ^ 64`: `Count` is a multiple of 8. -/
def writeNopBody (Count : BitVec 64) (state : NopState) : Pass NopState (List Byte) :=
  if state.i < Count.toNat then .again ⟨state.i + 8, state.written ++ Write64 nopWord⟩
  else .leave state.written

def writeNopLoop (Count : BitVec 64) : VariantLoop NopState (List Byte) where
  body := writeNopBody Count
  variant state := Count.toNat - state.i
  decreases := by
    intro state next pass
    rw [writeNopBody] at pass
    split at pass
    · rw [← Pass.again.inj pass]
      change Count.toNat - (state.i + 8) < Count.toNat - state.i
      omega
    · cases pass

def writeNopData (Count : BitVec 64) : Option (List Byte) :=
  if Count % 8 ≠ 0 then none else some ((writeNopLoop Count).run ⟨0, []⟩)

theorem writeNopData_eq {Count : BitVec 64} {padding : List Byte}
    (accepts : writeNopData Count = some padding) :
    Count.toNat % 8 = 0 ∧
      padding = (List.replicate (Count.toNat / 8) (Write64 nopWord)).flatten := by
  rw [writeNopData] at accepts
  split at accepts
  · cases accepts
  · rename_i multiple
    have aligned : Count.toNat % 8 = 0 := by
      have zero := congrArg BitVec.toNat (Decidable.not_not.mp multiple)
      simpa using zero
    refine ⟨aligned, ?_⟩
    rw [← Option.some.inj accepts]
    refine @VariantLoop.run_invariant _ _ (writeNopLoop Count)
      (fun state => ∃ count, state.i = 8 * count ∧ count ≤ Count.toNat / 8 ∧
        state.written = (List.replicate count (Write64 nopWord)).flatten)
      (fun written => written =
        (List.replicate (Count.toNat / 8) (Write64 nopWord)).flatten) ?_ ?_ _ ?_
    · intro state next invariant pass
      rcases invariant with ⟨count, position, atMost, written⟩
      simp only [writeNopLoop, writeNopBody] at pass
      split at pass
      · rename_i inside
        rw [← Pass.again.inj pass]
        refine ⟨count + 1, ?_, ?_, ?_⟩
        · change state.i + 8 = 8 * (count + 1)
          omega
        · omega
        · rw [List.replicate_succ', List.flatten_append, ← written]
          simp
      · cases pass
    · intro state result invariant pass
      rcases invariant with ⟨count, position, atMost, written⟩
      simp only [writeNopLoop, writeNopBody] at pass
      split at pass
      · cases pass
      · rename_i outside
        have full : count = Count.toNat / 8 := by omega
        rw [← Pass.leave.inj pass, written, full]
    · exact ⟨0, rfl, Nat.zero_le _, rfl⟩

private theorem length_writeNopData {Count : BitVec 64} {padding : List Byte}
    (accepts : writeNopData Count = some padding) : padding.length = Count.toNat := by
  rcases writeNopData_eq accepts with ⟨aligned, rfl⟩
  rw [List.length_flatten, List.map_replicate, List.sum_replicate_nat]
  change Count.toNat / 8 * 8 = Count.toNat
  omega

/-! ## Inert padding -/

def MCInst.jumpsToNext (inst : MCInst) : Bool :=
  match inst.opcode, inst.operands with
  | .JMP, [.imm dst] => dst = 0
  | .J_rr _, [_, _, .imm dst] => dst = 0
  | .J_ri _, [_, _, .imm dst] => dst = 0
  | _, _ => false

/-- Changes no register, no memory and no control flow. -/
def MCInst.Inert (inst : MCInst) : Prop :=
  inst.jumpsToNext = true ∨ ∀ state, execInst inst state = some state

def PaddingInert (Count : BitVec 64) (first padding second : List Byte) : Prop :=
  padding.length = Count.toNat ∧
  ∃ before fillers after, decodeStream first = some before ∧
    decodeStream second = some after ∧
    decodeStream (first ++ padding ++ second) = some (before ++ fillers ++ after) ∧
    fillers.length = Count.toNat / 8 ∧ ∀ filler ∈ fillers, filler.Inert

/-- The word is written with its least significant byte first, so the opcode
byte of each filler is zero, which is no instruction. -/
theorem decodeInst_nopWord (rest : List Byte) : decodeInst (Write64 nopWord ++ rest) = none := by
  have word : readSlot (Write64 nopWord ++ rest) = some (0x0000150000000000, rest) := by
    change some (_, rest) = _
    rfl
  rw [decodeInst, word]
  rfl

/-- The filler that the word stands for when its bytes come in the order of the
instruction's: `jeqi r0, 0` to the next instruction. -/
example : decodeInst [0x15, 0, 0, 0, 0, 0, 0, 0] =
    some (⟨.J_ri .JEQ, [.reg .R0, .imm 0, .imm 0]⟩, []) := by decide

/-- No gap but the empty one is inert, between any two sequences. -/
theorem writeNopData_inert_iff (Count : BitVec 64) {first second : List MCInst}
    (firstWellFormed : ∀ inst ∈ first, inst.WellFormed)
    (secondWellFormed : ∀ inst ∈ second, inst.WellFormed)
    {firstBytes secondBytes padding : List Byte} {firstFixups secondFixups : List MCFixup}
    {firstStart secondStart : Nat}
    (firstEmits : emitInstructions firstStart first = .ok (firstBytes, firstFixups))
    (secondEmits : emitInstructions secondStart second = .ok (secondBytes, secondFixups))
    (accepts : writeNopData Count = some padding) :
    PaddingInert Count firstBytes padding secondBytes ↔ Count = 0 := by
  rcases exists_forms firstWellFormed with ⟨firstForms, rfl⟩
  rcases exists_forms secondWellFormed with ⟨secondForms, rfl⟩
  rw [emitInstructions_forms] at firstEmits secondEmits
  cases firstEmits
  cases secondEmits
  rcases writeNopData_eq accepts with ⟨aligned, filled⟩
  constructor
  · intro inert
    rcases inert with ⟨_, before, fillers, after, _, _, reads, _⟩
    apply Decidable.byContradiction
    intro nonzero
    have positive : 0 < Count.toNat := by
      have different : Count.toNat ≠ 0 := fun zero => nonzero (BitVec.eq_of_toNat_eq zero)
      omega
    have fails : decodeStream (formBytes firstForms ++ padding ++ formBytes secondForms) =
        none := by
      have more : Count.toNat / 8 = Count.toNat / 8 - 1 + 1 := by omega
      rw [more, List.replicate_succ, List.flatten_cons] at filled
      rw [filled, List.append_assoc, List.append_assoc]
      exact readAll_flatMap_append_of_none (fun form _ => form.bytes_ne_nil)
        (fun form _ rest => decodeInst_bytes form rest) (List.cons_ne_nil _ _)
        (decodeInst_nopWord _)
    rw [fails] at reads
    cases reads
  · intro zero
    subst zero
    have empty : padding = [] := filled
    refine ⟨length_writeNopData accepts, firstForms.map Form.decoded, [],
      secondForms.map Form.decoded, decodeStream_formBytes firstForms,
      decodeStream_formBytes secondForms, ?_, rfl, ?_⟩
    · rw [empty, List.append_nil, List.append_nil, ← List.map_append, ← decodeStream_formBytes,
        formBytes, formBytes, formBytes, List.flatMap_append]
    · intro filler member
      cases member

theorem writeNopData_inert_iff_ret :
    PaddingInert 8 [0x95, 0, 0, 0, 0, 0, 0, 0] [0, 0, 0, 0x15, 0, 0, 0, 0]
      [0x95, 0, 0, 0, 0, 0, 0, 0] ↔ (8 : BitVec 64) = 0 :=
  @writeNopData_inert_iff 8 [⟨.RET, []⟩] [⟨.RET, []⟩] (by decide) (by decide) _ _ _ [] [] 0 16
    rfl rfl rfl

theorem writeNopData_unreadable :
    emitInstructions 0 [⟨.RET, []⟩] = .ok ([0x95, 0, 0, 0, 0, 0, 0, 0], []) ∧
      writeNopData 8 = some [0, 0, 0, 0x15, 0, 0, 0, 0] ∧
      ¬ PaddingInert 8 [0x95, 0, 0, 0, 0, 0, 0, 0] [0, 0, 0, 0x15, 0, 0, 0, 0]
        [0x95, 0, 0, 0, 0, 0, 0, 0] := by
  refine ⟨rfl, rfl, ?_⟩
  intro inert
  rcases inert with ⟨_, before, fillers, after, _, _, reads, _⟩
  have fails : decodeStream ([0x95, 0, 0, 0, 0, 0, 0, 0] ++ [0, 0, 0, 0x15, 0, 0, 0, 0] ++
      [0x95, 0, 0, 0, 0, 0, 0, 0]) = none := by decide
  rw [fails] at reads
  cases reads

end BpfBackend.MC
