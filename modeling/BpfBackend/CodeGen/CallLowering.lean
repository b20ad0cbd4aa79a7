import BpfBackend.CodeGen.CallingConvention
import BpfBackend.CodeGen.SymbolReferences

/-! # Calls, formal arguments and returns

The four functions of `BPFISelLowering.cpp` that lower a call boundary, and
the agreement of a caller with its callee.
-/

namespace BpfBackend.CodeGen

open MC

/-- `CallingConv::ID`, in which `C` is 0 and `Fast` is 8. -/
inductive CallingConv where
  | C | Fast
  | other (id : Nat) (unsupported : id ≠ 0 ∧ id ≠ 8)
  deriving DecidableEq, Repr

def CallingConv.Supported (callConv : CallingConv) : Prop :=
  callConv = .C ∨ callConv = .Fast

/-! ## Nodes at the boundary -/

inductive OutgoingValue where
  | OutVal (index : Nat)
  | SIGN_EXTEND (vt : MVT) (node : OutgoingValue)
  | ZERO_EXTEND (vt : MVT) (node : OutgoingValue)
  | ANY_EXTEND (vt : MVT) (node : OutgoingValue)
  deriving DecidableEq, Repr

inductive IncomingValue where
  | CopyFromReg (register : Reg) (vt : MVT)
  | AssertSext (asserted : MVT) (node : IncomingValue)
  | AssertZext (asserted : MVT) (node : IncomingValue)
  | TRUNCATE (vt : MVT) (node : IncomingValue)
  deriving DecidableEq, Repr

structure RegCopy where
  register : Reg
  value : OutgoingValue
  deriving DecidableEq, Repr

/-! ## `LowerFormalArguments` -/

def assertExtension (assign : CCValAssign) (argValue : IncomingValue) : IncomingValue :=
  match assign.locInfo with
  | .SExt => .AssertSext assign.valVT argValue
  | .ZExt => .AssertZext assign.valVT argValue
  | _ => argValue

def lowerFormalArgument (assign : CCValAssign) : Compile IncomingValue :=
  match assign.loc with
  | .reg register =>
      if assign.locVT = .i64 then
        let argValue := assertExtension assign (.CopyFromReg register assign.locVT)
        if assign.locInfo ≠ .Full then .ok (.TRUNCATE assign.valVT argValue)
        else .ok argValue
      else .error (.llvm_unreachable "")
  | .mem _ => .error (.report_fatal_error "too many function args")

def lowerFormalArguments : List CCValAssign → Compile (List IncomingValue)
  | [] => .ok []
  | assign :: rest => do
      let argValue ← lowerFormalArgument assign
      let restValues ← lowerFormalArguments rest
      pure (argValue :: restValues)

def LowerFormalArguments (callConv : CallingConv) (isVarArg hasStructRetAttr : Bool)
    (Ins : List Arg) : Compile (List IncomingValue) := do
  match callConv with
  | .other _ _ => .error (.llvm_unreachable "Unsupported calling convention")
  | .C | .Fast => do
      let CCInfo ← analyze CC_BPF64 Ins
      let InVals ← lowerFormalArguments CCInfo.locs
      if isVarArg || hasStructRetAttr then
        .error (.report_fatal_error "functions with VarArgs or StructRet are not supported")
      else .ok InVals

/-! ## `LowerCallResult` and `LowerCall` -/

def lowerResult (assign : CCValAssign) : Compile IncomingValue :=
  match assign.loc with
  | .reg register => .ok (.CopyFromReg register assign.valVT)
  | .mem _ => .error (.assertion "isRegLoc()")

def lowerResults : List CCValAssign → Compile (List IncomingValue)
  | [] => .ok []
  | assign :: rest => do
      let result ← lowerResult assign
      let restResults ← lowerResults rest
      pure (result :: restResults)

def LowerCallResult (Ins : List Arg) : Compile (List IncomingValue) := do
  let CCInfo ← analyze RetCC_BPF64 Ins
  lowerResults CCInfo.locs

structure CallLoweringInfo where
  CallConv : CallingConv
  IsVarArg : Bool
  Outs : List Arg
  Ins : List Arg
  Callee : SDValue
  deriving DecidableEq, Repr

structure CallSequence where
  numBytes : Nat
  regsToPass : List RegCopy
  callee : SDValue
  deriving DecidableEq, Repr

def promoteValue (assign : CCValAssign) (arg : OutgoingValue) : OutgoingValue :=
  match assign.locInfo with
  | .Full => arg
  | .SExt => .SIGN_EXTEND assign.locVT arg
  | .ZExt => .ZERO_EXTEND assign.locVT arg
  | .AExt => .ANY_EXTEND assign.locVT arg

/-- The body of the loop over `ArgLocs`. `ByValArgs` is always empty. -/
def passArgument (index : Nat) (out : Arg) (assign : CCValAssign) : Compile RegCopy :=
  if out.flags.isByVal then .error (.assertion "begin() + idx < end()")
  else
    match assign.loc with
    | .reg register => .ok ⟨register, promoteValue assign (.OutVal index)⟩
    | .mem _ => .error (.llvm_unreachable "call arg pass bug")

def passArguments : Nat → List Arg → List CCValAssign → Compile (List RegCopy)
  | index, out :: outs, assign :: assigns => do
      let copy ← passArgument index out assign
      let restCopies ← passArguments (index + 1) outs assigns
      pure (copy :: restCopies)
  | _, _, _ => .ok []

def lowerCallSequence (CLI : CallLoweringInfo) : Compile CallSequence := do
  match CLI.CallConv with
  | .other _ _ => .error (.report_fatal_error "Unsupported calling convention")
  | .C | .Fast => do
      let CCInfo ← analyze CC_BPF64 CLI.Outs
      let NumBytes := CCInfo.stackOffset
      if 6 ≤ CLI.Outs.length then
        .error (.report_fatal_error "too many args\n")
      else if CLI.Outs.any (·.flags.isByVal) then
        .error (.report_fatal_error "cannot pass by value")
      else do
        let RegsToPass ← passArguments 0 CLI.Outs CCInfo.locs
        pure ⟨NumBytes, RegsToPass, LowerCallee CLI.Callee⟩

def LowerCall (CLI : CallLoweringInfo) : Compile (CallSequence × List IncomingValue) := do
  let sequence ← lowerCallSequence CLI
  let InVals ← LowerCallResult CLI.Ins
  pure (sequence, InVals)

/-! ## `LowerReturn` -/

def returnValue (index : Nat) (assign : CCValAssign) : Compile RegCopy :=
  match assign.loc with
  | .reg register => .ok ⟨register, .OutVal index⟩
  | .mem _ => .error (.assertion "VA.isRegLoc() && \"Can only return in registers!\"")

def returnValues : Nat → List CCValAssign → Compile (List RegCopy)
  | _, [] => .ok []
  | index, assign :: rest => do
      let copy ← returnValue index assign
      let restCopies ← returnValues (index + 1) rest
      pure (copy :: restCopies)

def LowerReturn (hasStructRetAttr : Bool) (Outs : List Arg) : Compile (List RegCopy) := do
  let CCInfo ← analyze RetCC_BPF64 Outs
  let copies ← returnValues 0 CCInfo.locs
  if hasStructRetAttr then .error (.report_fatal_error "BPF doesn't support struct return")
  else .ok copies

/-! ## Values -/

structure TypedValue where
  vt : MVT
  bits : BitVec vt.bits

def OutgoingValue.eval (anyExt : OutgoingValue → BitVec 64) (outVals : List TypedValue) :
    OutgoingValue → Option TypedValue
  | OutVal index => outVals[index]?
  | SIGN_EXTEND vt node =>
      (node.eval anyExt outVals).map fun value => ⟨vt, value.bits.signExtend vt.bits⟩
  | ZERO_EXTEND vt node =>
      (node.eval anyExt outVals).map fun value => ⟨vt, value.bits.setWidth vt.bits⟩
  | ANY_EXTEND vt node =>
      (node.eval anyExt outVals).map fun value =>
        ⟨vt, (anyExtend (anyExt (.ANY_EXTEND vt node)) value.bits).setWidth vt.bits⟩

/-- Only a 64-bit value fits a register. -/
def TypedValue.inRegister : TypedValue → Option (BitVec 64)
  | ⟨.i64, bits⟩ => some bits
  | _ => none

def copyToRegs (anyExt : OutgoingValue → BitVec 64) (outVals : List TypedValue) :
    List RegCopy → (Reg → BitVec 64) → Option (Reg → BitVec 64)
  | [], registers => some registers
  | copy :: rest, registers => do
      let value ← copy.value.eval anyExt outVals
      let content ← value.inRegister
      copyToRegs anyExt outVals rest (Function.update registers copy.register content)

def IncomingValue.eval (registers : Reg → BitVec 64) : IncomingValue → TypedValue
  | CopyFromReg register vt => ⟨vt, (registers register).setWidth vt.bits⟩
  | AssertSext _ node => node.eval registers
  | AssertZext _ node => node.eval registers
  | TRUNCATE vt node => ⟨vt, (node.eval registers).bits.setWidth vt.bits⟩

/-- Every assertion on the way to a value is true. -/
def IncomingValue.AssertsHold (registers : Reg → BitVec 64) : IncomingValue → Prop
  | CopyFromReg _ _ => True
  | AssertSext asserted node =>
      let value := node.eval registers
      node.AssertsHold registers ∧
        value.bits = (value.bits.setWidth asserted.bits).signExtend value.vt.bits
  | AssertZext asserted node =>
      let value := node.eval registers
      node.AssertsHold registers ∧
        value.bits = (value.bits.setWidth asserted.bits).setWidth value.vt.bits
  | TRUNCATE _ node => node.AssertsHold registers

/-! ## Results -/

private theorem lowerResults_in_R0 {assigns : List CCValAssign}
    (located : ∀ assign ∈ assigns, assign.loc = .reg .R0) :
    ∃ results, lowerResults assigns = .ok results := by
  induction assigns with
  | nil => exact ⟨[], rfl⟩
  | cons assign rest induction =>
      have inR0 := located assign List.mem_cons_self
      rcases induction fun other member => located other (List.mem_cons_of_mem assign member)
        with ⟨restResults, lowered⟩
      refine ⟨.CopyFromReg .R0 assign.valVT :: restResults, ?_⟩
      simp only [lowerResults, lowerResult, inR0, lowered, bind, Except.bind, pure, Except.pure]

theorem LowerCallResult_outcome (Ins : List Arg) :
    (returnAssignable Ins = true ∧ ∃ results, LowerCallResult Ins = .ok results) ∨
      (returnAssignable Ins = false ∧
        LowerCallResult Ins = .error (.llvm_unreachable "unhandled type")) := by
  rcases analyze_RetCC_BPF64 Ins with ⟨assignable, state, analyzed, located⟩ | ⟨no, stops⟩
  · rcases lowerResults_in_R0 located with ⟨results, lowered⟩
    refine .inl ⟨assignable, results, ?_⟩
    simp only [LowerCallResult, analyzed, lowered, bind, Except.bind]
  · refine .inr ⟨no, ?_⟩
    simp only [LowerCallResult, stops, bind, Except.bind]

private theorem returnValues_in_R0 {assigns : List CCValAssign} (index : Nat)
    (located : ∀ assign ∈ assigns, assign.loc = .reg .R0) :
    ∃ copies, returnValues index assigns = .ok copies := by
  induction assigns generalizing index with
  | nil => exact ⟨[], rfl⟩
  | cons assign rest induction =>
      have inR0 := located assign List.mem_cons_self
      rcases induction (index + 1)
        fun other member => located other (List.mem_cons_of_mem assign member)
        with ⟨restCopies, copied⟩
      refine ⟨⟨.R0, .OutVal index⟩ :: restCopies, ?_⟩
      simp only [returnValues, returnValue, inR0, copied, bind, Except.bind, pure, Except.pure]

/-- The parts are assigned before the attribute is looked at. -/
theorem LowerReturn_outcome (hasStructRetAttr : Bool) (Outs : List Arg) :
    (returnAssignable Outs = true ∧ hasStructRetAttr = false ∧
        ∃ copies, LowerReturn hasStructRetAttr Outs = .ok copies) ∨
      (returnAssignable Outs = true ∧ hasStructRetAttr = true ∧
        LowerReturn hasStructRetAttr Outs =
          .error (.report_fatal_error "BPF doesn't support struct return")) ∨
      (returnAssignable Outs = false ∧
        LowerReturn hasStructRetAttr Outs = .error (.llvm_unreachable "unhandled type")) := by
  rcases analyze_RetCC_BPF64 Outs with ⟨assignable, state, analyzed, located⟩ | ⟨no, stops⟩
  · rcases returnValues_in_R0 0 located with ⟨copies, copied⟩
    cases hasStructRetAttr with
    | false =>
        refine .inl ⟨assignable, rfl, copies, ?_⟩
        simp only [LowerReturn, analyzed, copied, bind, Except.bind, Bool.false_eq_true, if_false]
    | true =>
        refine .inr (.inl ⟨assignable, rfl, ?_⟩)
        simp only [LowerReturn, analyzed, copied, bind, Except.bind, if_true]
  · refine .inr (.inr ⟨no, ?_⟩)
    simp only [LowerReturn, stops, bind, Except.bind]

/-! ## Up to five arguments -/

def CCValAssign.getLocReg (assign : CCValAssign) : Reg :=
  match assign.loc with
  | .reg register => register
  | .mem _ => .R0

def CCValAssign.outgoing (assign : CCValAssign) : RegCopy :=
  ⟨assign.getLocReg, promoteValue assign (.OutVal assign.valNo)⟩

def CCValAssign.incoming (assign : CCValAssign) : IncomingValue :=
  let argValue := assertExtension assign (.CopyFromReg assign.getLocReg assign.locVT)
  if assign.locInfo ≠ .Full then .TRUNCATE assign.valVT argValue else argValue

private theorem argumentAssign_loc {index : Nat} (fits : index < 5) (arg : Arg) :
    (argumentAssign index arg).loc = .reg (argumentAssign index arg).getLocReg ∧
      argumentRegs[index]? = some (argumentAssign index arg).getLocReg := by
  have present : argumentRegs[index]? = some (argumentRegs.get ⟨index, fits⟩) :=
    List.getElem?_eq_getElem fits
  simp [CCValAssign.getLocReg, argumentAssign, argumentLocation, present]

private theorem passArgument_argumentAssign {index : Nat} (fits : index < 5) {arg : Arg}
    (inPlace : arg.flags.isByVal = false) :
    passArgument index arg (argumentAssign index arg) =
      .ok (argumentAssign index arg).outgoing := by
  simp only [passArgument, inPlace, Bool.false_eq_true, if_false,
    (argumentAssign_loc fits arg).1]
  rfl

private theorem lowerFormalArgument_argumentAssign {index : Nat} (fits : index < 5) (arg : Arg) :
    lowerFormalArgument (argumentAssign index arg) =
      .ok (argumentAssign index arg).incoming := by
  have wide : (argumentAssign index arg).locVT = .i64 := rfl
  simp only [lowerFormalArgument, (argumentAssign_loc fits arg).1, wide, if_true,
    CCValAssign.incoming]
  split <;> rfl

private theorem fits_cons {count : Nat} {arg : Arg} {rest : List Arg}
    (fits : count + (arg :: rest).length ≤ 5) :
    count < 5 ∧ count + 1 + rest.length ≤ 5 := by
  rw [List.length_cons] at fits
  omega

private theorem passArguments_argumentAssigns {count : Nat} {args : List Arg}
    (fits : count + args.length ≤ 5) (inPlace : ∀ arg ∈ args, arg.flags.isByVal = false) :
    passArguments count args (argumentAssigns count args) =
      .ok ((argumentAssigns count args).map CCValAssign.outgoing) := by
  induction args generalizing count with
  | nil => rfl
  | cons arg rest induction =>
      rcases fits_cons fits with ⟨headFits, restFits⟩
      have headPassed := passArgument_argumentAssign headFits (inPlace arg List.mem_cons_self)
      have restPassed := induction restFits
        fun other member => inPlace other (List.mem_cons_of_mem arg member)
      simp only [argumentAssigns, passArguments, headPassed, restPassed, bind, Except.bind,
        pure, Except.pure, List.map_cons]

private theorem lowerFormalArguments_argumentAssigns {count : Nat} {args : List Arg}
    (fits : count + args.length ≤ 5) :
    lowerFormalArguments (argumentAssigns count args) =
      .ok ((argumentAssigns count args).map CCValAssign.incoming) := by
  induction args generalizing count with
  | nil => rfl
  | cons arg rest induction =>
      rcases fits_cons fits with ⟨headFits, restFits⟩
      have headLowered := lowerFormalArgument_argumentAssign headFits arg
      simp only [argumentAssigns, lowerFormalArguments, headLowered, induction restFits, bind,
        Except.bind, pure, Except.pure, List.map_cons]

theorem lowerFormalArguments_tooMany {count : Nat} {args : List Arg}
    (many : 5 < count + args.length) (nonempty : args ≠ []) :
    lowerFormalArguments (argumentAssigns count args) =
      .error (.report_fatal_error "too many function args") := by
  induction args generalizing count with
  | nil => exact absurd rfl nonempty
  | cons arg rest induction =>
      by_cases fits : count < 5
      · have restMany : 5 < count + 1 + rest.length := by
          rw [List.length_cons] at many
          omega
        have restNonempty : rest ≠ [] := by
          intro equal
          rcases equal with rfl
          rw [List.length_nil] at restMany
          omega
        have headLowered := lowerFormalArgument_argumentAssign fits arg
        simp only [argumentAssigns, lowerFormalArguments, headLowered,
          induction restMany restNonempty, bind, Except.bind]
      · have beyond : argumentRegs[count]? = none :=
          List.getElem?_eq_none (Nat.le_of_not_lt fits)
        simp only [argumentAssigns, lowerFormalArguments, lowerFormalArgument, argumentAssign,
          argumentLocation, beyond, bind, Except.bind]

private theorem argumentAssigns_getLocReg {count : Nat} {args : List Arg}
    (fits : count + args.length ≤ 5) :
    (argumentAssigns count args).map CCValAssign.getLocReg =
      (argumentRegs.drop count).take args.length := by
  induction args generalizing count with
  | nil => rfl
  | cons arg rest induction =>
      rcases fits_cons fits with ⟨headFits, restFits⟩
      have headInRegs : count < argumentRegs.length := headFits
      have located := (argumentAssign_loc headFits arg).2
      rw [List.getElem?_eq_getElem headInRegs, Option.some.injEq] at located
      rw [argumentAssigns, List.map_cons, induction restFits, List.length_cons,
        List.drop_eq_getElem_cons headInRegs, List.take_succ_cons, located]

private theorem getElem?_argumentAssigns (count : Nat) (args : List Arg) (index : Nat) :
    (argumentAssigns count args)[index]? =
      args[index]?.map (argumentAssign (count + index)) := by
  induction args generalizing count index with
  | nil => rfl
  | cons arg rest induction =>
      cases index with
      | zero => rfl
      | succ index =>
          have shifted : count + 1 + index = count + (index + 1) := by omega
          rw [argumentAssigns, List.getElem?_cons_succ, List.getElem?_cons_succ, induction,
            shifted]

private theorem length_argumentAssigns (count : Nat) (args : List Arg) :
    (argumentAssigns count args).length = args.length := by
  induction args generalizing count with
  | nil => rfl
  | cons arg rest induction => rw [argumentAssigns, List.length_cons, induction, List.length_cons]

private theorem mem_map_argumentAssigns {args : List Arg} {result : α} {f : CCValAssign → α}
    (member : result ∈ (argumentAssigns 0 args).map f) :
    ∃ index arg, args[index]? = some arg ∧ result = f (argumentAssign index arg) := by
  rcases List.mem_map.1 member with ⟨assign, assigned, rfl⟩
  rcases List.mem_iff_getElem?.1 assigned with ⟨index, at_index⟩
  rw [getElem?_argumentAssigns, Option.map_eq_some_iff, Nat.zero_add] at at_index
  rcases at_index with ⟨arg, present, rfl⟩
  exact ⟨index, arg, present, rfl⟩

/-! ## From a caller to its callee -/

private theorem MVT.bits_le (vt : MVT) : vt.bits ≤ 64 := by
  cases vt <;> decide

private theorem setWidth_anyExtend {bits : Nat} (narrow : bits ≤ 64) (upper : BitVec 64)
    (low : BitVec bits) : (anyExtend upper low).setWidth bits = low := by
  apply BitVec.eq_of_getElem_eq
  intro index inRange
  have inRegister : index < 64 := Nat.lt_of_lt_of_le inRange narrow
  simp [anyExtend, inRange, inRegister]

theorem vt_of_promote_full {arg : Arg} (full : (promote arg).2 = .Full) : arg.vt = .i64 := by
  unfold promote at full
  split at full
  · assumption
  · split at full
    · cases full
    · split at full <;> cases full

/-- The caller's extension of a value to a register and the callee's
truncation of the register undo each other, whatever the extension. -/
theorem incoming_outgoing (anyExt : OutgoingValue → BitVec 64) {outVals : List TypedValue}
    {assign : CCValAssign} {value : TypedValue} (passed : outVals[assign.valNo]? = some value)
    (typed : value.vt = assign.valVT) (wide : assign.locVT = .i64)
    (full : assign.locInfo = .Full → assign.valVT = .i64) :
    ∃ content : BitVec 64, assign.outgoing.value.eval anyExt outVals = some ⟨.i64, content⟩ ∧
      ∀ registers, registers assign.getLocReg = content →
        assign.incoming.eval registers = value ∧ assign.incoming.AssertsHold registers := by
  rcases assign with ⟨valNo, valVT, loc, locVT, locInfo⟩
  rcases value with ⟨vt, bits⟩
  cases typed
  cases wide
  have narrow := MVT.bits_le valVT
  have truncated : ∀ content : BitVec 64, content.setWidth valVT.bits = bits →
      TypedValue.mk valVT ((content.setWidth 64).setWidth valVT.bits) = ⟨valVT, bits⟩ := by
    intro content low
    rw [BitVec.setWidth_eq, low]
  cases locInfo with
  | Full =>
      cases full rfl
      refine ⟨bits, passed, fun registers arrives => ⟨?_, trivial⟩⟩
      exact congrArg (TypedValue.mk .i64) ((BitVec.setWidth_eq _).trans arrives)
  | SExt =>
      have low := setWidth_signExtend narrow bits
      have asserted : ∀ content : BitVec 64, content = bits.signExtend 64 →
          content.setWidth 64 = ((content.setWidth 64).setWidth valVT.bits).signExtend 64 := by
        intro content extended
        rw [BitVec.setWidth_eq, extended, low]
      refine ⟨bits.signExtend 64, ?_, fun registers arrives =>
        ⟨truncated _ (arrives ▸ low), trivial, asserted _ arrives⟩⟩
      simp only [CCValAssign.outgoing, promoteValue, OutgoingValue.eval, passed, Option.map_some]
      rfl
  | ZExt =>
      have low : (bits.setWidth 64).setWidth valVT.bits = bits := by
        rw [BitVec.setWidth_setWidth_of_le bits narrow, BitVec.setWidth_eq]
      have asserted : ∀ content : BitVec 64, content = bits.setWidth 64 →
          content.setWidth 64 = ((content.setWidth 64).setWidth valVT.bits).setWidth 64 := by
        intro content extended
        rw [BitVec.setWidth_eq, extended, low]
      refine ⟨bits.setWidth 64, ?_, fun registers arrives =>
        ⟨truncated _ (arrives ▸ low), trivial, asserted _ arrives⟩⟩
      simp only [CCValAssign.outgoing, promoteValue, OutgoingValue.eval, passed, Option.map_some]
      rfl
  | AExt =>
      have low := setWidth_anyExtend narrow (anyExt (.ANY_EXTEND .i64 (.OutVal valNo))) bits
      refine ⟨anyExtend (anyExt (.ANY_EXTEND .i64 (.OutVal valNo))) bits, ?_,
        fun registers arrives => ⟨truncated _ (arrives ▸ low), trivial⟩⟩
      simp only [CCValAssign.outgoing, promoteValue, OutgoingValue.eval, passed, Option.map_some]
      exact congrArg (fun content => some (TypedValue.mk .i64 content)) (BitVec.setWidth_eq _)

theorem copyToRegs_distinct (anyExt : OutgoingValue → BitVec 64) (outVals : List TypedValue)
    {copies : List RegCopy} (distinct : (copies.map RegCopy.register).Nodup)
    (evaluates : ∀ copy ∈ copies, ∃ content : BitVec 64,
      copy.value.eval anyExt outVals = some ⟨.i64, content⟩)
    (registers : Reg → BitVec 64) :
    ∃ final, copyToRegs anyExt outVals copies registers = some final ∧
      (∀ copy ∈ copies,
        copy.value.eval anyExt outVals = some ⟨.i64, final copy.register⟩) ∧
      ∀ register, register ∉ copies.map RegCopy.register →
        final register = registers register := by
  induction copies generalizing registers with
  | nil => exact ⟨registers, rfl, by simp, fun _ _ => rfl⟩
  | cons copy rest induction =>
      rw [List.map_cons, List.nodup_cons] at distinct
      rcases evaluates copy List.mem_cons_self with ⟨content, evaluated⟩
      rcases induction distinct.2
        (fun other member => evaluates other (List.mem_cons_of_mem copy member))
        (Function.update registers copy.register content) with ⟨final, copied, kept, frame⟩
      refine ⟨final, ?_, ?_, ?_⟩
      · simp only [copyToRegs, evaluated, bind, Option.bind_some, TypedValue.inRegister]
        exact copied
      · intro other member
        rcases List.mem_cons.1 member with rfl | member
        · have arrived : final other.register = content :=
            (frame other.register distinct.1).trans (Function.update_self _ _ _)
          rw [arrived]
          exact evaluated
        · exact kept other member
      · intro register notCopied
        rw [List.map_cons, List.mem_cons, not_or] at notCopied
        rw [frame register notCopied.2, Function.update_of_ne notCopied.1]

theorem lowerCallSequence_fits {CLI : CallLoweringInfo}
    (supported : CLI.CallConv.Supported) (fits : CLI.Outs.length ≤ 5)
    (inPlace : ∀ arg ∈ CLI.Outs, arg.flags.isByVal = false) :
    lowerCallSequence CLI =
      .ok ⟨0, (argumentAssigns 0 CLI.Outs).map CCValAssign.outgoing,
        LowerCallee CLI.Callee⟩ := by
  have few : ¬ 6 ≤ CLI.Outs.length := by omega
  have noByVal : CLI.Outs.any (·.flags.isByVal) = false := by
    rw [List.any_eq_false]
    intro arg member
    rw [inPlace arg member]
    exact Bool.false_ne_true
  have noStack : 8 * (CLI.Outs.length - 5) = 0 := by omega
  have passed := @passArguments_argumentAssigns 0 CLI.Outs (by omega) inPlace
  rcases supported with conv | conv <;>
    simp [lowerCallSequence, conv, analyze_CC_BPF64, argumentState, few, noByVal, noStack,
      passed, bind, Except.bind, pure, Except.pure]

theorem LowerCall_fits {CLI : CallLoweringInfo} (supported : CLI.CallConv.Supported)
    (fits : CLI.Outs.length ≤ 5) (inPlace : ∀ arg ∈ CLI.Outs, arg.flags.isByVal = false) :
    LowerCall CLI = (LowerCallResult CLI.Ins).map
      (⟨0, (argumentAssigns 0 CLI.Outs).map CCValAssign.outgoing, LowerCallee CLI.Callee⟩, ·) := by
  simp only [LowerCall, lowerCallSequence_fits supported fits inPlace, bind, Except.bind]
  cases LowerCallResult CLI.Ins <;> rfl

theorem LowerCall_of_sequence_error {CLI : CallLoweringInfo} {stop : Stop}
    (refused : lowerCallSequence CLI = .error stop) : LowerCall CLI = .error stop := by
  simp only [LowerCall, refused, bind, Except.bind]

theorem LowerFormalArguments_fits {callConv : CallingConv}
    (supported : callConv.Supported) (isVarArg hasStructRetAttr : Bool) {args : List Arg}
    (fits : args.length ≤ 5) :
    LowerFormalArguments callConv isVarArg hasStructRetAttr args =
      if isVarArg || hasStructRetAttr then
        .error (.report_fatal_error "functions with VarArgs or StructRet are not supported")
      else .ok ((argumentAssigns 0 args).map CCValAssign.incoming) := by
  have lowered := @lowerFormalArguments_argumentAssigns 0 args (by omega)
  rcases supported with conv | conv <;>
    simp [LowerFormalArguments, conv, analyze_CC_BPF64, argumentState, lowered, bind, Except.bind]

theorem lowerCallSequence_byVal {CLI : CallLoweringInfo} (supported : CLI.CallConv.Supported)
    (fits : CLI.Outs.length ≤ 5) {arg : Arg} (member : arg ∈ CLI.Outs)
    (byVal : arg.flags.isByVal = true) :
    lowerCallSequence CLI = .error (.report_fatal_error "cannot pass by value") := by
  have few : ¬ 6 ≤ CLI.Outs.length := by omega
  have someByVal : CLI.Outs.any (·.flags.isByVal) = true :=
    List.any_eq_true.2 ⟨arg, member, byVal⟩
  rcases supported with conv | conv <;>
    simp only [lowerCallSequence, conv, analyze_CC_BPF64, few, someByVal, if_true, if_false, bind,
      Except.bind]

theorem lowerCallSequence_tooMany {CLI : CallLoweringInfo}
    (supported : CLI.CallConv.Supported) (many : 5 < CLI.Outs.length) :
    lowerCallSequence CLI = .error (.report_fatal_error "too many args\n") := by
  have six : 6 ≤ CLI.Outs.length := many
  rcases supported with conv | conv <;>
    simp [lowerCallSequence, conv, analyze_CC_BPF64, six, bind, Except.bind]

theorem LowerFormalArguments_tooMany {callConv : CallingConv}
    (supported : callConv.Supported) (isVarArg hasStructRetAttr : Bool)
    {args : List Arg} (many : 5 < args.length) :
    LowerFormalArguments callConv isVarArg hasStructRetAttr args =
      .error (.report_fatal_error "too many function args") := by
  have nonempty : args ≠ [] := by
    intro equal
    rcases equal with rfl
    exact absurd many (by decide)
  have lowered := @lowerFormalArguments_tooMany 0 args (by omega) nonempty
  rcases supported with conv | conv <;>
    simp [LowerFormalArguments, conv, analyze_CC_BPF64, argumentState, lowered, bind, Except.bind]

structure ArgumentsAgree (args : List Arg) (sequence : CallSequence)
    (InVals : List IncomingValue) : Prop where
  noStack : sequence.numBytes = 0
  inRegisters : sequence.regsToPass.length = args.length
  distinct : (sequence.regsToPass.map RegCopy.register).Nodup
  received : ∀ (anyExt : OutgoingValue → BitVec 64) (OutVals : List TypedValue)
    (registers : Reg → BitVec 64), OutVals.map TypedValue.vt = args.map Arg.vt →
      ∃ arrival, copyToRegs anyExt OutVals sequence.regsToPass registers = some arrival ∧
        InVals.map (IncomingValue.eval arrival) = OutVals ∧
        ∀ incoming ∈ InVals, incoming.AssertsHold arrival

private theorem map_register_outgoing (assigns : List CCValAssign) :
    (assigns.map CCValAssign.outgoing).map RegCopy.register =
      assigns.map CCValAssign.getLocReg := by
  rw [List.map_map]
  rfl

theorem exists_outVal {args : List Arg} {OutVals : List TypedValue}
    (typed : OutVals.map TypedValue.vt = args.map Arg.vt) {index : Nat} {arg : Arg}
    (at_index : args[index]? = some arg) :
    ∃ value, OutVals[index]? = some value ∧ value.vt = arg.vt := by
  have types : (OutVals.map TypedValue.vt)[index]? = some arg.vt := by
    rw [typed, List.getElem?_map, at_index, Option.map_some]
  rw [List.getElem?_map, Option.map_eq_some_iff] at types
  exact types

private theorem argument_crosses (anyExt : OutgoingValue → BitVec 64) {args : List Arg}
    {OutVals : List TypedValue} (typed : OutVals.map TypedValue.vt = args.map Arg.vt)
    {index : Nat} {arg : Arg} (at_index : args[index]? = some arg) :
    ∃ content : BitVec 64,
      (argumentAssign index arg).outgoing.value.eval anyExt OutVals = some ⟨.i64, content⟩ ∧
      ∀ registers, registers (argumentAssign index arg).getLocReg = content →
        some ((argumentAssign index arg).incoming.eval registers) = OutVals[index]? ∧
          (argumentAssign index arg).incoming.AssertsHold registers := by
  rcases exists_outVal typed at_index with ⟨value, passed, sameType⟩
  rcases @incoming_outgoing anyExt OutVals (argumentAssign index arg) value passed sameType rfl
    vt_of_promote_full with ⟨content, evaluated, arrives⟩
  refine ⟨content, evaluated, fun registers holds => ?_⟩
  rcases arrives registers holds with ⟨seen, asserted⟩
  exact ⟨by rw [seen, passed], asserted⟩

private theorem nodup_register_outgoing {args : List Arg} (fits : args.length ≤ 5) :
    (((argumentAssigns 0 args).map CCValAssign.outgoing).map RegCopy.register).Nodup := by
  have few : 0 + args.length ≤ 5 := by omega
  rw [map_register_outgoing, argumentAssigns_getLocReg few]
  exact List.Nodup.sublist (List.take_sublist _ _) (by decide)

private theorem outgoing_mem {args : List Arg} {index : Nat} {arg : Arg}
    (at_index : args[index]? = some arg) :
    (argumentAssign index arg).outgoing ∈
      (argumentAssigns 0 args).map CCValAssign.outgoing := by
  have assigned : (argumentAssigns 0 args)[index]? = some (argumentAssign index arg) := by
    rw [getElem?_argumentAssigns, at_index, Nat.zero_add, Option.map_some]
  exact List.mem_map_of_mem (List.mem_of_getElem? assigned)

theorem argumentsAgree {args : List Arg} (fits : args.length ≤ 5) (callee : SDValue) :
    ArgumentsAgree args ⟨0, (argumentAssigns 0 args).map CCValAssign.outgoing, callee⟩
      ((argumentAssigns 0 args).map CCValAssign.incoming) where
  noStack := rfl
  inRegisters := by rw [List.length_map, length_argumentAssigns]
  distinct := nodup_register_outgoing fits
  received := by
    intro anyExt OutVals registers typed
    have evaluates : ∀ copy ∈ (argumentAssigns 0 args).map CCValAssign.outgoing,
        ∃ content : BitVec 64, copy.value.eval anyExt OutVals = some ⟨.i64, content⟩ := by
      intro copy member
      rcases mem_map_argumentAssigns member with ⟨index, arg, at_index, rfl⟩
      rcases argument_crosses anyExt typed at_index with ⟨content, evaluated, -⟩
      exact ⟨content, evaluated⟩
    rcases copyToRegs_distinct anyExt OutVals (nodup_register_outgoing fits) evaluates registers
      with ⟨arrival, copied, kept, -⟩
    have arrives : ∀ {index arg}, args[index]? = some arg →
        some ((argumentAssign index arg).incoming.eval arrival) = OutVals[index]? ∧
          (argumentAssign index arg).incoming.AssertsHold arrival := by
      intro index arg at_index
      rcases argument_crosses anyExt typed at_index with ⟨content, evaluated, arrives⟩
      have same := Option.some.inj (evaluated.symm.trans (kept _ (outgoing_mem at_index)))
      exact arrives arrival (eq_of_heq (TypedValue.mk.inj same).2).symm
    refine ⟨arrival, copied, ?_, ?_⟩
    · apply List.ext_getElem?
      intro index
      rw [List.getElem?_map, List.getElem?_map, getElem?_argumentAssigns, Nat.zero_add]
      cases at_index : args[index]? with
      | none =>
          have noValue : (OutVals.map TypedValue.vt)[index]? = none := by
            rw [typed, List.getElem?_map, at_index, Option.map_none]
          rw [List.getElem?_map, Option.map_eq_none_iff] at noValue
          rw [noValue]
          rfl
      | some arg => exact (arrives at_index).1
    · intro incoming member
      rcases mem_map_argumentAssigns member with ⟨index, arg, at_index, rfl⟩
      exact (arrives at_index).2

/-- Caller and callee reject the same argument lists, and otherwise every
value arrives. -/
theorem LowerCall_LowerFormalArguments_agree {callConv : CallingConv}
    (supported : callConv.Supported) {args : List Arg}
    (inPlace : ∀ arg ∈ args, arg.flags.isByVal = false) (callee : SDValue) :
    (5 < args.length →
      LowerFormalArguments callConv false false args =
          .error (.report_fatal_error "too many function args") ∧
        ∀ Ins, LowerCall ⟨callConv, false, args, Ins, callee⟩ =
          .error (.report_fatal_error "too many args\n")) ∧
    (args.length ≤ 5 →
      ∃ sequence InVals,
        LowerFormalArguments callConv false false args = .ok InVals ∧
        (∀ Ins, LowerCall ⟨callConv, false, args, Ins, callee⟩ =
          (LowerCallResult Ins).map (sequence, ·)) ∧
        (∀ Ins message, LowerCall ⟨callConv, false, args, Ins, callee⟩ ≠
          .error (.report_fatal_error message)) ∧
        (∀ Ins, LowerCall ⟨callConv, false, args, Ins, callee⟩ ≠
          .error (.llvm_unreachable "call arg pass bug")) ∧
        ArgumentsAgree args sequence InVals) := by
  constructor
  · intro many
    refine ⟨LowerFormalArguments_tooMany supported false false many, fun Ins => ?_⟩
    exact LowerCall_of_sequence_error (lowerCallSequence_tooMany supported many)
  · intro fits
    have call : ∀ Ins, LowerCall ⟨callConv, false, args, Ins, callee⟩ =
        (LowerCallResult Ins).map
          (⟨0, (argumentAssigns 0 args).map CCValAssign.outgoing, LowerCallee callee⟩, ·) :=
      fun Ins => @LowerCall_fits ⟨callConv, false, args, Ins, callee⟩ supported fits inPlace
    refine ⟨_, _, LowerFormalArguments_fits supported false false fits, call, ?_, ?_,
      argumentsAgree fits (LowerCallee callee)⟩
    · intro Ins message
      rw [call]
      rcases LowerCallResult_outcome Ins with ⟨-, results, lowered⟩ | ⟨-, stops⟩
      · simp [lowered, Except.map]
      · simp [stops, Except.map]
    · intro Ins
      rw [call]
      rcases LowerCallResult_outcome Ins with ⟨-, results, lowered⟩ | ⟨-, stops⟩
      · simp [lowered, Except.map]
      · simp [stops, Except.map]

def mixedArgs : List Arg :=
  [⟨.i8, ⟨true, false, false⟩⟩, ⟨.i16, ⟨false, true, false⟩⟩, ⟨.i32, ⟨false, false, false⟩⟩,
    ⟨.i64, ⟨false, false, false⟩⟩]

theorem LowerCall_LowerFormalArguments_agree_mixed :
    (∀ arg ∈ mixedArgs, arg.flags.isByVal = false) ∧
      ∃ sequence InVals,
        LowerFormalArguments .C false false mixedArgs = .ok InVals ∧
        LowerCall ⟨.C, false, mixedArgs, [], .GlobalAddress "f" 0⟩ = .ok (sequence, []) ∧
        ∃ arrival, copyToRegs (fun _ => 0xdead0000beef0000)
            [⟨.i8, 0x80#8⟩, ⟨.i16, 0xffff#16⟩, ⟨.i32, 7#32⟩, ⟨.i64, 5#64⟩]
            sequence.regsToPass (fun _ => 0) = some arrival ∧
          InVals.map (IncomingValue.eval arrival) =
            [⟨.i8, 0x80#8⟩, ⟨.i16, 0xffff#16⟩, ⟨.i32, 7#32⟩, ⟨.i64, 5#64⟩] := by
  have inPlace : ∀ arg ∈ mixedArgs, arg.flags.isByVal = false := by decide
  rcases (LowerCall_LowerFormalArguments_agree (.inl rfl : CallingConv.C.Supported) inPlace
    (.GlobalAddress "f" 0)).2 (by decide) with ⟨sequence, InVals, formal, call, -, -, agree⟩
  refine ⟨inPlace, sequence, InVals, formal, call [], ?_⟩
  rcases agree.received (fun _ => 0xdead0000beef0000)
    [⟨.i8, 0x80#8⟩, ⟨.i16, 0xffff#16⟩, ⟨.i32, 7#32⟩, ⟨.i64, 5#64⟩] (fun _ => 0) rfl with
    ⟨arrival, copied, received, -⟩
  exact ⟨arrival, copied, received⟩

end BpfBackend.CodeGen
