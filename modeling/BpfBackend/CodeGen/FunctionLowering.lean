import BpfBackend.CodeGen.CallLowering
import BpfBackend.CodeGen.OperationLegality

/-! # Lowering of a function

Everything that the target-independent part asks of `BPFTargetLowering` while
it compiles, and the inputs on which no `llvm_unreachable` is reached.
-/

namespace BpfBackend.CodeGen

open MC

/-! ## Requests -/

/-- A legalized part is an i64, the only legal type. -/
def legalizedParts (flags : List ArgFlags) : List Arg := flags.map (Arg.mk .i64)

inductive Request where
  | formalArguments (callConv : CallingConv) (isVarArg hasStructRetAttr : Bool)
      (Ins : List ArgFlags)
  | call (callConv : CallingConv) (isVarArg : Bool) (Outs Ins : List ArgFlags)
      (Callee : SDValue)
  | returnValues (hasStructRetAttr : Bool) (Outs : List ArgFlags)
  | operations (dag : List Operation)

inductive LoweredRequest where
  | formalArguments (InVals : List IncomingValue)
  | call (sequence : CallSequence) (InVals : List IncomingValue)
  | returnValues (copies : List RegCopy)
  | operations (legalized : List LegalizedNode)

def Request.lower : Request → Compile LoweredRequest
  | formalArguments callConv isVarArg hasStructRetAttr Ins =>
      (LowerFormalArguments callConv isVarArg hasStructRetAttr (legalizedParts Ins)).map
        .formalArguments
  | call callConv isVarArg Outs Ins Callee =>
      (LowerCall ⟨callConv, isVarArg, legalizedParts Outs, legalizedParts Ins, Callee⟩).map
        fun (sequence, InVals) => .call sequence InVals
  | returnValues hasStructRetAttr Outs =>
      (LowerReturn hasStructRetAttr (legalizedParts Outs)).map .returnValues
  | operations dag => (legalizeOperations dag).map .operations

def lowerRequests : List Request → Compile (List LoweredRequest)
  | [] => .ok []
  | request :: rest => do
      let lowered ← request.lower
      let restLowered ← lowerRequests rest
      pure (lowered :: restLowered)

/-- Nodes are produced, or the input is refused. -/
def Defined : Compile α → Prop
  | .ok _ => True
  | .error (.report_fatal_error _) => True
  | .error (.llvm_unreachable _) => False
  | .error (.assertion _) => False

/-! ## Which requests are lowered, and which are refused -/

def Request.Lowered : Request → Prop
  | formalArguments callConv isVarArg hasStructRetAttr Ins =>
      callConv.Supported ∧ Ins.length ≤ 5 ∧ isVarArg = false ∧ hasStructRetAttr = false
  | call callConv _ Outs Ins _ =>
      callConv.Supported ∧ Outs.length ≤ 5 ∧ (∀ flags ∈ Outs, flags.isByVal = false) ∧
        Ins.length ≤ 1
  | returnValues hasStructRetAttr Outs => Outs.length ≤ 1 ∧ hasStructRetAttr = false
  | operations dag => ∀ operation ∈ dag, ¬ operation.unimplemented

def Request.Refused : Request → Prop
  | formalArguments callConv isVarArg hasStructRetAttr Ins =>
      callConv.Supported ∧ (5 < Ins.length ∨ isVarArg = true ∨ hasStructRetAttr = true)
  | call callConv _ Outs _ _ =>
      ¬ callConv.Supported ∨ 5 < Outs.length ∨ ∃ flags ∈ Outs, flags.isByVal = true
  | returnValues hasStructRetAttr Outs => Outs.length ≤ 1 ∧ hasStructRetAttr = true
  | operations _ => False

/-- Every request is lowered, as far as the first that is refused. -/
def Supported : List Request → Prop
  | [] => True
  | request :: rest => request.Refused ∨ request.Lowered ∧ Supported rest

/-! ## The request that comes next -/

@[simp] theorem length_legalizedParts (flags : List ArgFlags) :
    (legalizedParts flags).length = flags.length :=
  List.length_map _

private theorem returnAssignable_legalizedParts (flags : List ArgFlags) :
    returnAssignable (legalizedParts flags) = true ↔ flags.length ≤ 1 := by
  match flags with
  | [] => simp [legalizedParts, returnAssignable]
  | [part] => simp [legalizedParts, returnAssignable]
  | part :: second :: rest => simp [legalizedParts, returnAssignable]

private theorem inPlace_legalizedParts {flags : List ArgFlags}
    (inPlace : ∀ flag ∈ flags, flag.isByVal = false) :
    ∀ arg ∈ legalizedParts flags, arg.flags.isByVal = false := by
  intro arg member
  rcases List.mem_map.1 member with ⟨flag, present, rfl⟩
  exact inPlace flag present

/-- The answers to a request: nodes, a refusal, or undefined behaviour. -/
inductive Answer (request : Request) : Prop where
  | lowered (holds : request.Lowered) (result : LoweredRequest)
      (equation : request.lower = .ok result)
  | refused (holds : request.Refused) (message : String)
      (equation : request.lower = .error (.report_fatal_error message))
  | unreachable (notLowered : ¬ request.Lowered) (notRefused : ¬ request.Refused)
      (message : String) (equation : request.lower = .error (.llvm_unreachable message))

private theorem answer_formalArguments (callConv : CallingConv) (isVarArg hasStructRetAttr : Bool)
    (Ins : List ArgFlags) :
    Answer (.formalArguments callConv isVarArg hasStructRetAttr Ins) := by
  by_cases supported : callConv.Supported
  · by_cases fits : Ins.length ≤ 5
    · have lowered := LowerFormalArguments_fits supported isVarArg hasStructRetAttr
        ((length_legalizedParts Ins).symm ▸ fits)
      cases attributes : isVarArg || hasStructRetAttr with
      | false =>
          rw [attributes, if_neg Bool.false_ne_true] at lowered
          rw [Bool.or_eq_false_iff] at attributes
          exact .lowered ⟨supported, fits, attributes⟩ _
            (congrArg (Except.map LoweredRequest.formalArguments) lowered)
      | true =>
          rw [attributes, if_pos rfl] at lowered
          rw [Bool.or_eq_true_iff] at attributes
          exact .refused ⟨supported, .inr attributes⟩ _
            (congrArg (Except.map LoweredRequest.formalArguments) lowered)
    · have many : 5 < Ins.length := Nat.lt_of_not_le fits
      have refused := LowerFormalArguments_tooMany supported isVarArg hasStructRetAttr
        ((length_legalizedParts Ins).symm ▸ many)
      exact .refused ⟨supported, .inl many⟩ _
        (congrArg (Except.map LoweredRequest.formalArguments) refused)
  · refine .unreachable (fun lowered => supported lowered.1) (fun refused => supported refused.1)
      "Unsupported calling convention" ?_
    cases callConv with
    | C => exact absurd (.inl rfl) supported
    | Fast => exact absurd (.inr rfl) supported
    | other id unsupported => rfl

private theorem answer_call (callConv : CallingConv) (isVarArg : Bool) (Outs Ins : List ArgFlags)
    (Callee : SDValue) : Answer (.call callConv isVarArg Outs Ins Callee) := by
  let CLI : CallLoweringInfo :=
    ⟨callConv, isVarArg, legalizedParts Outs, legalizedParts Ins, Callee⟩
  have stops : ∀ {stop}, LowerCall CLI = .error stop →
      (Request.call callConv isVarArg Outs Ins Callee).lower = .error stop :=
    fun equation => congrArg (Except.map _) equation
  by_cases supported : callConv.Supported
  · by_cases fits : Outs.length ≤ 5
    · have partsFit : CLI.Outs.length ≤ 5 := (length_legalizedParts Outs).symm ▸ fits
      by_cases inPlace : ∀ flags ∈ Outs, flags.isByVal = false
      · have lowered := LowerCall_fits supported partsFit (inPlace_legalizedParts inPlace)
        rcases LowerCallResult_outcome (legalizedParts Ins) with
          ⟨assignable, results, resultsLowered⟩ | ⟨notAssignable, unhandled⟩
        · rw [resultsLowered] at lowered
          exact .lowered ⟨supported, fits, inPlace,
            (returnAssignable_legalizedParts Ins).1 assignable⟩ _
            (congrArg (Except.map _) lowered)
        · rw [unhandled] at lowered
          refine .unreachable ?_ ?_ _ (stops lowered)
          · intro holds
            rcases holds with ⟨-, -, -, single⟩
            rw [(returnAssignable_legalizedParts Ins).2 single] at notAssignable
            cases notAssignable
          · intro holds
            rcases holds with unsupported | many | ⟨flags, member, byVal⟩
            · exact unsupported supported
            · exact absurd fits (Nat.not_le_of_lt many)
            · rw [inPlace flags member] at byVal
              cases byVal
      · have someByVal : ∃ flags ∈ Outs, flags.isByVal = true := by
          simpa using inPlace
        rcases someByVal with ⟨flags, member, byVal⟩
        have refused : lowerCallSequence CLI = _ :=
          @lowerCallSequence_byVal CLI supported partsFit ⟨.i64, flags⟩
            (List.mem_map_of_mem member) byVal
        exact .refused (.inr (.inr ⟨flags, member, byVal⟩)) _
          (stops (LowerCall_of_sequence_error refused))
    · have many : 5 < Outs.length := Nat.lt_of_not_le fits
      have refused : lowerCallSequence CLI = _ :=
        lowerCallSequence_tooMany supported ((length_legalizedParts Outs).symm ▸ many)
      exact .refused (.inr (.inl many)) _ (stops (LowerCall_of_sequence_error refused))
  · refine .refused (.inl supported) "Unsupported calling convention" ?_
    cases callConv with
    | C => exact absurd (.inl rfl) supported
    | Fast => exact absurd (.inr rfl) supported
    | other id unsupported => rfl

private theorem answer_returnValues (hasStructRetAttr : Bool) (Outs : List ArgFlags) :
    Answer (.returnValues hasStructRetAttr Outs) := by
  rcases LowerReturn_outcome hasStructRetAttr (legalizedParts Outs) with
    ⟨assignable, ordinary, copies, lowered⟩ | ⟨assignable, structRet, stops⟩ |
      ⟨notAssignable, stops⟩
  · exact .lowered ⟨(returnAssignable_legalizedParts Outs).1 assignable, ordinary⟩ _
      (congrArg (Except.map LoweredRequest.returnValues) lowered)
  · exact .refused ⟨(returnAssignable_legalizedParts Outs).1 assignable, structRet⟩ _
      (congrArg (Except.map LoweredRequest.returnValues) stops)
  · have several : ¬ Outs.length ≤ 1 := by
      intro single
      rw [(returnAssignable_legalizedParts Outs).2 single] at notAssignable
      cases notAssignable
    exact .unreachable (fun lowered => several lowered.1) (fun refused => several refused.1) _
      (congrArg (Except.map LoweredRequest.returnValues) stops)

private theorem answer_operations (dag : List Operation) : Answer (.operations dag) := by
  rcases legalizeOperations_outcome dag with
    ⟨implemented, legalized, equation⟩ | ⟨⟨operation, member, unimplemented⟩, stops⟩
  · exact .lowered implemented _ (congrArg (Except.map LoweredRequest.operations) equation)
  · exact .unreachable (fun lowered => lowered operation member unimplemented) id _
      (congrArg (Except.map LoweredRequest.operations) stops)

theorem Request.answer (request : Request) : Answer request := by
  cases request with
  | formalArguments callConv isVarArg hasStructRetAttr Ins =>
      exact answer_formalArguments callConv isVarArg hasStructRetAttr Ins
  | call callConv isVarArg Outs Ins Callee =>
      exact answer_call callConv isVarArg Outs Ins Callee
  | returnValues hasStructRetAttr Outs => exact answer_returnValues hasStructRetAttr Outs
  | operations dag => exact answer_operations dag

/-! ## The whole compilation -/

private theorem Request.not_refused_of_lowered {request : Request} (lowered : request.Lowered) :
    ¬ request.Refused := by
  cases request with
  | formalArguments callConv isVarArg hasStructRetAttr Ins =>
      rcases lowered with ⟨-, fits, fixedArgs, ordinary⟩
      intro holds
      rcases holds with ⟨-, many | varArg | structRet⟩
      · exact absurd fits (Nat.not_le_of_lt many)
      · exact Bool.false_ne_true (fixedArgs.symm.trans varArg)
      · exact Bool.false_ne_true (ordinary.symm.trans structRet)
  | call callConv isVarArg Outs Ins Callee =>
      rcases lowered with ⟨supported, fits, inPlace, -⟩
      intro holds
      rcases holds with unsupported | many | ⟨flags, member, byVal⟩
      · exact unsupported supported
      · exact absurd fits (Nat.not_le_of_lt many)
      · exact Bool.false_ne_true ((inPlace flags member).symm.trans byVal)
  | returnValues hasStructRetAttr Outs =>
      rcases lowered with ⟨-, ordinary⟩
      intro holds
      rcases holds with ⟨-, structRet⟩
      exact Bool.false_ne_true (ordinary.symm.trans structRet)
  | operations dag => exact id

/-- No `llvm_unreachable` is reached exactly when every request is lowered, as
far as the first that is refused. -/
theorem lowerRequests_defined_iff (requests : List Request) :
    Defined (lowerRequests requests) ↔ Supported requests := by
  induction requests with
  | nil => exact ⟨fun _ => trivial, fun _ => trivial⟩
  | cons request rest induction =>
      rw [Supported, ← induction, lowerRequests]
      rcases request.answer with ⟨holds, result, equation⟩ | ⟨holds, message, equation⟩ |
        ⟨notLowered, notRefused, message, equation⟩
      · rw [equation]
        have continues : Defined (do
              let restLowered ← lowerRequests rest
              pure (result :: restLowered)) ↔ Defined (lowerRequests rest) := by
          rcases lowerRequests rest with stop | restLowered
          · exact Iff.rfl
          · exact Iff.rfl
        exact continues.trans ⟨fun defined => .inr ⟨holds, defined⟩,
          fun either => (either.resolve_left (Request.not_refused_of_lowered holds)).2⟩
      · rw [equation]
        exact ⟨fun _ => .inl holds, fun _ => trivial⟩
      · rw [equation]
        refine ⟨False.elim, ?_⟩
        intro holds
        rcases holds with refused | ⟨lowered, -⟩
        · exact notRefused refused
        · exact notLowered lowered

/-- A function that counts trailing zeros, one that returns two parts, and one
with the convention `Cold`, which is number 9. -/
theorem lowerRequests_undefined :
    ¬ Defined (lowerRequests [.formalArguments .C false false [⟨false, false, false⟩],
        .operations [.generic .CTTZ (by decide) (.integer .i64) []]]) ∧
      ¬ Defined (lowerRequests [.formalArguments .C false false [],
        .returnValues false [⟨false, false, false⟩, ⟨false, false, false⟩]]) ∧
      ¬ Defined (lowerRequests [.formalArguments (.other 9 (by decide)) false false []]) := by
  refine ⟨?_, ?_, ?_⟩ <;> exact id

end BpfBackend.CodeGen
