import BpfBackend.CodeGen.SelectLowering
import BpfBackend.CodeGen.SymbolReferences

/-! # Operation actions

The actions that the constructor of `BPFTargetLowering` sets, and the switch of
`LowerOperation` that has to handle the custom ones.
-/

namespace BpfBackend.CodeGen

open MC

inductive ISD where
  | BR_CC | BR_JT | BRCOND | SETCC | SELECT | SELECT_CC | GlobalAddress
  | DYNAMIC_STACKALLOC | STACKSAVE | STACKRESTORE
  | SDIVREM | UDIVREM | SREM | UREM | MULHU | MULHS | UMUL_LOHI | SMUL_LOHI
  | ADDC | ADDE | SUBC | SUBE
  | ROTR | ROTL | SHL_PARTS | SRL_PARTS | SRA_PARTS
  | BSWAP | CTTZ | CTLZ | CTTZ_ZERO_UNDEF | CTLZ_ZERO_UNDEF | CTPOP
  | SIGN_EXTEND_INREG
  | other (opcode : Nat)
  deriving DecidableEq, Repr

inductive ValueType where
  | Other | i1
  | integer (vt : MVT)
  deriving DecidableEq, Repr

inductive LegalizeAction where
  | Legal | Promote | Expand | Custom
  deriving DecidableEq, Repr

/-! ## The table -/

/-- The `setOperationAction` calls of the constructor, in order. -/
def operationActions : List (ISD × ValueType × LegalizeAction) :=
  [(.BR_CC, .integer .i64, .Custom),
    (.BR_JT, .Other, .Expand),
    (.BRCOND, .Other, .Expand),
    (.SETCC, .integer .i64, .Expand),
    (.SELECT, .integer .i64, .Expand),
    (.SELECT_CC, .integer .i64, .Custom),
    (.GlobalAddress, .integer .i64, .Custom),
    (.DYNAMIC_STACKALLOC, .integer .i64, .Custom),
    (.STACKSAVE, .Other, .Expand),
    (.STACKRESTORE, .Other, .Expand),
    (.SDIVREM, .integer .i64, .Expand),
    (.UDIVREM, .integer .i64, .Expand),
    (.SREM, .integer .i64, .Expand),
    (.UREM, .integer .i64, .Expand),
    (.MULHU, .integer .i64, .Expand),
    (.MULHS, .integer .i64, .Expand),
    (.UMUL_LOHI, .integer .i64, .Expand),
    (.SMUL_LOHI, .integer .i64, .Expand),
    (.ADDC, .integer .i64, .Expand),
    (.ADDE, .integer .i64, .Expand),
    (.SUBC, .integer .i64, .Expand),
    (.SUBE, .integer .i64, .Expand),
    (.ROTR, .integer .i64, .Expand),
    (.ROTL, .integer .i64, .Expand),
    (.SHL_PARTS, .integer .i64, .Expand),
    (.SRL_PARTS, .integer .i64, .Expand),
    (.SRA_PARTS, .integer .i64, .Expand),
    (.BSWAP, .integer .i64, .Expand),
    (.CTTZ, .integer .i64, .Custom),
    (.CTLZ, .integer .i64, .Custom),
    (.CTTZ_ZERO_UNDEF, .integer .i64, .Custom),
    (.CTLZ_ZERO_UNDEF, .integer .i64, .Custom),
    (.CTPOP, .integer .i64, .Expand),
    (.SIGN_EXTEND_INREG, .i1, .Expand),
    (.SIGN_EXTEND_INREG, .integer .i8, .Expand),
    (.SIGN_EXTEND_INREG, .integer .i16, .Expand),
    (.SIGN_EXTEND_INREG, .integer .i32, .Expand)]

/-- The last call for an opcode and a type counts. The defaults of the base
class are shown as `Legal`; none of them is `Custom`. -/
def getOperationAction (opcode : ISD) (vt : ValueType) : LegalizeAction :=
  match operationActions.reverse.find? fun entry => entry.1 = opcode ∧ entry.2.1 = vt with
  | some (_, _, action) => action
  | none => .Legal

/-! ## Nodes -/

def loweredOpcodes : List ISD := [.BR_CC, .GlobalAddress, .SELECT_CC]

/-- A node of a finite DAG of i64 operations. An operand is the position of an
earlier node. The type of a generic node is the one by which its action is
looked up. -/
inductive Operation where
  | BR_CC (Chain : Nat) (CC : CondCode) (LHS RHS Dest : Nat)
  | SELECT_CC (LHS RHS TrueV FalseV : Nat) (CC : CondCode)
  | GlobalAddress (name : String) (offset : BitVec 64)
  | generic (opcode : ISD) (plain : opcode ∉ loweredOpcodes) (vt : ValueType)
      (operands : List Nat)

def Operation.getOpcode : Operation → ISD
  | BR_CC .. => .BR_CC
  | SELECT_CC .. => .SELECT_CC
  | GlobalAddress .. => .GlobalAddress
  | generic opcode _ _ _ => opcode

def Operation.actionType : Operation → ValueType
  | generic _ _ vt _ => vt
  | _ => .integer .i64

inductive LegalizedNode where
  | unchanged (operation : Operation)
  | BR_CC (Chain LHS RHS : Nat) (CC : CondCode) (Dest : Nat)
  | SELECT_CC (LHS RHS : Nat) (CC : CondCode) (TrueV FalseV : Nat)
  | value (node : SDValue)

/-! ## `LowerOperation` -/

def LowerBR_CC (LHS RHS : α) (CC : CondCode) : α × α × CondCode :=
  NegateCC LHS RHS CC

def LowerOperation : Operation → Compile LegalizedNode
  | .BR_CC Chain CC LHS RHS Dest =>
      let (LHS, RHS, CC) := LowerBR_CC LHS RHS CC
      .ok (.BR_CC Chain LHS RHS CC Dest)
  | .GlobalAddress name offset =>
      (LowerGlobalAddress (.GlobalAddress name offset)).map .value
  | .SELECT_CC LHS RHS TrueV FalseV CC =>
      let (LHS, RHS, CC, TrueV, FalseV) := LowerSELECT_CC LHS RHS TrueV FalseV CC
      .ok (.SELECT_CC LHS RHS CC TrueV FalseV)
  | .generic .. => .error (.llvm_unreachable "unimplemented operand")

def legalizeOperation (operation : Operation) : Compile LegalizedNode :=
  match getOperationAction operation.getOpcode operation.actionType with
  | .Custom => LowerOperation operation
  | _ => .ok (.unchanged operation)

/-- The nodes in the order in which the legalizer visits them. -/
def legalizeOperations : List Operation → Compile (List LegalizedNode)
  | [] => .ok []
  | operation :: rest => do
      let legalized ← legalizeOperation operation
      let restLegalized ← legalizeOperations rest
      pure (legalized :: restLegalized)

/-! ## The custom operations without a case -/

def unimplementedOpcodes : List ISD :=
  [.DYNAMIC_STACKALLOC, .CTTZ, .CTLZ, .CTTZ_ZERO_UNDEF, .CTLZ_ZERO_UNDEF]

def Operation.unimplemented (operation : Operation) : Prop :=
  operation.getOpcode ∈ unimplementedOpcodes ∧ operation.actionType = .integer .i64

private theorem custom_of_mem_operationActions : ∀ entry ∈ operationActions, entry.2.2 = .Custom →
    entry.1 ∈ loweredOpcodes ++ unimplementedOpcodes ∧ entry.2.1 = .integer .i64 := by
  decide

theorem getOperationAction_eq_custom_iff (opcode : ISD) (vt : ValueType) :
    getOperationAction opcode vt = .Custom ↔
      opcode ∈ loweredOpcodes ++ unimplementedOpcodes ∧ vt = .integer .i64 := by
  constructor
  · intro custom
    unfold getOperationAction at custom
    split at custom
    · rename_i foundOpcode foundType action found
      have listed := List.mem_reverse.1 (List.mem_of_find?_eq_some found)
      have same := List.find?_some found
      simp only [decide_eq_true_eq] at same
      rcases same with ⟨rfl, rfl⟩
      exact custom_of_mem_operationActions _ listed custom
    · cases custom
  · intro holds
    rcases holds with ⟨listed, rfl⟩
    revert opcode
    decide

private theorem legalizeOperation_of_unimplemented {operation : Operation}
    (unimplemented : operation.unimplemented) :
    legalizeOperation operation = .error (.llvm_unreachable "unimplemented operand") := by
  rcases unimplemented with ⟨listed, wide⟩
  have custom := (getOperationAction_eq_custom_iff _ _).2
    ⟨List.mem_append_right loweredOpcodes listed, wide⟩
  rw [legalizeOperation, custom]
  cases operation with
  | generic opcode plain vt operands => rfl
  | BR_CC | SELECT_CC | GlobalAddress => simp [Operation.getOpcode, unimplementedOpcodes] at listed

private theorem legalizeOperation_of_implemented {operation : Operation}
    (implemented : ¬ operation.unimplemented) :
    ∃ legalized, legalizeOperation operation = .ok legalized := by
  rw [legalizeOperation]
  split
  · rename_i custom
    rw [getOperationAction_eq_custom_iff] at custom
    rcases custom with ⟨listed, wide⟩
    rcases List.mem_append.1 listed with lowered | unimplemented
    · cases operation with
      | generic opcode plain vt operands => exact absurd lowered plain
      | BR_CC | SELECT_CC | GlobalAddress => exact ⟨_, rfl⟩
    · exact absurd ⟨unimplemented, wide⟩ implemented
  · exact ⟨_, rfl⟩

/-- A DAG is legalized exactly when none of its nodes is unimplemented. -/
theorem legalizeOperations_outcome (operations : List Operation) :
    ((∀ operation ∈ operations, ¬ operation.unimplemented) ∧
        ∃ legalized, legalizeOperations operations = .ok legalized) ∨
      ((∃ operation ∈ operations, operation.unimplemented) ∧
        legalizeOperations operations =
          .error (.llvm_unreachable "unimplemented operand")) := by
  induction operations with
  | nil => exact .inl ⟨fun operation member => absurd member List.not_mem_nil, [], rfl⟩
  | cons operation rest induction =>
      by_cases unimplemented : operation.unimplemented
      · refine .inr ⟨⟨operation, List.mem_cons_self, unimplemented⟩, ?_⟩
        rw [legalizeOperations, legalizeOperation_of_unimplemented unimplemented]
        rfl
      · rcases legalizeOperation_of_implemented unimplemented with ⟨legalized, head⟩
        rcases induction with ⟨implemented, restLegalized, tail⟩ | ⟨⟨other, member, bad⟩, tail⟩
        · refine .inl ⟨List.forall_mem_cons.2 ⟨unimplemented, implemented⟩,
            legalized :: restLegalized, ?_⟩
          simp only [legalizeOperations, head, tail, bind, Except.bind, pure, Except.pure]
        · refine .inr ⟨⟨other, List.mem_cons_of_mem operation member, bad⟩, ?_⟩
          simp only [legalizeOperations, head, tail, bind, Except.bind]

end BpfBackend.CodeGen
