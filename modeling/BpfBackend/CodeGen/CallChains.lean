import BpfBackend.CodeGen.CallLowering
import BpfBackend.Foundation.CallTree

/-! # Chains of calls

Functions that call each other through the registers that `LowerCall`,
`LowerFormalArguments`, `LowerReturn` and `LowerCallResult` agree on, at every
depth of calls.
-/

namespace BpfBackend.CodeGen

open MC CallTree

/-- What both sides of a call know of the callee. -/
structure Prototype where
  callConv : CallingConv
  args : List Arg
  results : List Arg
  callee : SDValue
  deriving DecidableEq, Repr

def Prototype.toCall (prototype : Prototype) : CallLoweringInfo :=
  ⟨prototype.callConv, false, prototype.args, prototype.results, prototype.callee⟩

/-- The prototypes that none of the four functions refuses. -/
structure Prototype.Lowerable (prototype : Prototype) : Prop where
  supported : prototype.callConv.Supported
  fits : prototype.args.length ≤ 5
  inPlace : ∀ arg ∈ prototype.args, arg.flags.isByVal = false
  returned : returnAssignable prototype.results = true

section Nodes

variable (anyExt : Prototype → List TypedValue → OutgoingValue → BitVec 64)

def Prototype.pass (prototype : Prototype) (OutVals : List TypedValue)
    (registers : Reg → BitVec 64) : Option (Reg → BitVec 64) := do
  let lowered ← (LowerCall prototype.toCall).toOption
  copyToRegs (anyExt prototype OutVals) OutVals lowered.1.regsToPass registers

def Prototype.receive (prototype : Prototype) (registers : Reg → BitVec 64) :
    Option (List TypedValue) := do
  let InVals ← (LowerFormalArguments prototype.callConv false false prototype.args).toOption
  some (InVals.map (IncomingValue.eval registers))

def Prototype.give (prototype : Prototype) (OutVals : List TypedValue)
    (registers : Reg → BitVec 64) : Option (Reg → BitVec 64) := do
  let copies ← (LowerReturn false prototype.results).toOption
  copyToRegs (anyExt prototype OutVals) OutVals copies registers

def Prototype.take (prototype : Prototype) (registers : Reg → BitVec 64) :
    Option (List TypedValue) := do
  let lowered ← (LowerCall prototype.toCall).toOption
  some (lowered.2.map (IncomingValue.eval registers))

/-- The upper bits of an any-extended value may depend on the prototype and on
all the values that cross with it. -/
def callBoundary : Boundary Prototype TypedValue (Reg → BitVec 64) :=
  ⟨Prototype.pass anyExt, Prototype.receive, Prototype.give anyExt, Prototype.take⟩

end Nodes

def callTyping : Typing Prototype TypedValue where
  args prototype values := values.map TypedValue.vt = prototype.args.map Arg.vt
  results prototype values := values.map TypedValue.vt = prototype.results.map Arg.vt

/-! ## Which prototypes the registers carry -/

theorem results_cross {results : List Arg} (assignable : returnAssignable results = true)
    {values : List TypedValue} (typed : values.map TypedValue.vt = results.map Arg.vt)
    (anyExt : OutgoingValue → BitVec 64) (registers : Reg → BitVec 64) :
    ∃ copies InVals final, LowerReturn false results = .ok copies ∧
      LowerCallResult results = .ok InVals ∧
      copyToRegs anyExt values copies registers = some final ∧
      InVals.map (IncomingValue.eval final) = values := by
  match results with
  | [] =>
      rw [List.map_nil, List.map_eq_nil_iff] at typed
      rcases typed with rfl
      exact ⟨[], [], registers, rfl, rfl, rfl, rfl⟩
  | [⟨vt, flags⟩] =>
      have wide : vt = .i64 := by simpa [returnAssignable] using assignable
      rcases wide with rfl
      have single : ∃ bits : BitVec 64, values = [⟨.i64, bits⟩] := by
        rcases List.map_eq_singleton_iff.mp typed with ⟨⟨vt, bits⟩, rfl, same⟩
        cases same
        exact ⟨bits, rfl⟩
      rcases single with ⟨bits, rfl⟩
      refine ⟨[⟨.R0, .OutVal 0⟩], [.CopyFromReg .R0 .i64],
        Function.update registers .R0 bits, rfl, rfl, rfl, ?_⟩
      rw [List.map_singleton, IncomingValue.eval, Function.update_self]
      exact congrArg (fun content => [TypedValue.mk .i64 content]) (BitVec.setWidth_eq bits)
  | first :: second :: rest => cases assignable

variable (anyExt : Prototype → List TypedValue → OutgoingValue → BitVec 64)

theorem Prototype.Lowerable.carries {prototype : Prototype} (lowerable : prototype.Lowerable) :
    (callBoundary anyExt).Carries callTyping prototype := by
  have call := @LowerCall_fits prototype.toCall lowerable.supported lowerable.fits
    lowerable.inPlace
  constructor
  · intro values typed registers
    have agree := argumentsAgree lowerable.fits (LowerCallee prototype.callee)
    have formal := LowerFormalArguments_fits lowerable.supported false false lowerable.fits
    rcases LowerCallResult_outcome prototype.results with ⟨-, InVals, lowered⟩ | ⟨refused, -⟩
    · rcases agree.received (anyExt prototype values) values registers typed with
        ⟨arrival, copied, received, -⟩
      have passed : prototype.pass anyExt values registers = some arrival := by
        rw [Prototype.pass, call, Prototype.toCall, lowered]
        exact copied
      have arrived : prototype.receive arrival = some values := by
        rw [Prototype.receive, formal]
        exact congrArg some received
      exact ⟨arrival, passed, arrived⟩
    · rw [lowerable.returned] at refused
      cases refused
  · intro values typed registers
    rcases results_cross lowerable.returned typed (anyExt prototype values) registers with
      ⟨copies, InVals, final, returned, lowered, copied, same⟩
    have given : prototype.give anyExt values registers = some final := by
      rw [Prototype.give, returned]
      exact copied
    have taken : prototype.take final = some values := by
      rw [Prototype.take, call, Prototype.toCall, lowered]
      exact congrArg some same
    exact ⟨final, given, taken⟩

theorem Prototype.lowerable_of_LowerCall {prototype : Prototype}
    {lowered : CallSequence × List IncomingValue}
    (call : LowerCall prototype.toCall = .ok lowered) : prototype.Lowerable := by
  have supported : prototype.callConv.Supported := by
    cases callConv : prototype.callConv with
    | C => exact .inl rfl
    | Fast => exact .inr rfl
    | other id unsupported =>
        have refused : lowerCallSequence prototype.toCall =
            .error (.report_fatal_error "Unsupported calling convention") := by
          rw [Prototype.toCall, callConv]
          rfl
        rw [LowerCall_of_sequence_error refused] at call
        cases call
  have fits : prototype.args.length ≤ 5 := by
    apply Nat.le_of_not_lt
    intro many
    rw [LowerCall_of_sequence_error (@lowerCallSequence_tooMany prototype.toCall supported many)]
      at call
    cases call
  have inPlace : ∀ arg ∈ prototype.args, arg.flags.isByVal = false := by
    intro arg member
    cases byVal : arg.flags.isByVal with
    | false => rfl
    | true =>
        rw [LowerCall_of_sequence_error
          (@lowerCallSequence_byVal prototype.toCall supported fits arg member byVal)] at call
        cases call
  refine ⟨supported, fits, inPlace, ?_⟩
  rcases LowerCallResult_outcome prototype.results with ⟨assignable, -⟩ | ⟨-, refused⟩
  · exact assignable
  · rw [@LowerCall_fits prototype.toCall supported fits inPlace, Prototype.toCall, refused] at call
    cases call

private theorem callBoundary_carries_iff (prototype : Prototype) :
    (callBoundary anyExt).Carries callTyping prototype ↔ prototype.Lowerable := by
  constructor
  · intro carries
    have typed : (prototype.args.map fun arg => TypedValue.mk arg.vt 0).map TypedValue.vt =
        prototype.args.map Arg.vt := by
      rw [List.map_map]
      rfl
    rcases carries.args typed (fun _ => 0) with ⟨arrival, passed, -⟩
    cases call : LowerCall prototype.toCall with
    | error stop =>
        change prototype.pass anyExt _ _ = some arrival at passed
        rw [Prototype.pass, call] at passed
        cases passed
    | ok lowered => exact Prototype.lowerable_of_LowerCall call
  · intro lowerable
    exact lowerable.carries anyExt

/-! ## Programs -/

/-- Through the registers a call computes what it computes directly, at every
depth of calls, whatever the functions leave in the registers in between. -/
theorem run_callBoundary {World : Type}
    {program : Program String TypedValue World Prototype} (typed : program.Typed callTyping)
    (lowerable : ∀ name function, program name = some function → function.signature.Lowerable)
    (disturb : Body String TypedValue World → (Reg → BitVec 64) → Reg → BitVec 64)
    (depth : Nat) {name : String} {function : CallTree.Function String TypedValue World Prototype}
    {args : List TypedValue} (found : program name = some function)
    (argsTyped : args.map TypedValue.vt = function.signature.args.map Arg.vt) (world : World)
    (registers : Reg → BitVec 64) :
    (program.run (callBoundary anyExt) disturb depth name args world registers).map Prod.fst =
      program.eval depth name args world := by
  apply Program.run_eq_eval disturb typed _ depth name function args found argsTyped
  intro other otherFunction otherFound
  exact (callBoundary_carries_iff anyExt otherFunction.signature).mpr
    (lowerable other otherFunction otherFound)

def triangleSum (n : BitVec 16) : List TypedValue → List TypedValue
  | [⟨.i64, below⟩] => [⟨.i64, BitVec.add below (n.signExtend 64)⟩]
  | _ => [⟨.i64, 0#64⟩]

def triangleBody (n : BitVec 16) (world : Unit) : Body String TypedValue Unit :=
  if n = 0 then .ret [⟨.i64, 0#64⟩] world
  else .call "triangle" [⟨.i16, (n - 1#16 : BitVec 16)⟩] world fun results after =>
    .ret (triangleSum n results) after

def trianglePrototype : Prototype :=
  ⟨.C, [⟨.i16, ⟨true, false, false⟩⟩], [⟨.i64, ⟨false, false, false⟩⟩],
    .GlobalAddress "triangle" 0⟩

def triangleFunction : CallTree.Function String TypedValue Unit Prototype where
  signature := trianglePrototype
  body
    | [⟨.i16, n⟩], world => triangleBody n world
    | _, world => .ret [] world

def triangle : Program String TypedValue Unit Prototype :=
  fun name => if name = "triangle" then some triangleFunction else none

private theorem triangle_eq_some {name : String}
    {function : CallTree.Function String TypedValue Unit Prototype}
    (found : triangle name = some function) : function = triangleFunction := by
  rw [triangle] at found
  split at found
  · exact (Option.some.inj found).symm
  · cases found

private theorem typed_triangleBody (n : BitVec 16) (world : Unit) :
    (triangleBody n world).Typed triangle callTyping trianglePrototype := by
  rw [triangleBody]
  split
  · exact .ret world rfl
  · refine .call world (rfl : triangle "triangle" = some triangleFunction) rfl ?_
    intro values after valuesTyped
    rcases List.map_eq_singleton_iff.mp valuesTyped with ⟨⟨valueVT, below⟩, rfl, wide⟩
    cases wide
    exact .ret after rfl

private theorem typed_triangle : triangle.Typed callTyping := by
  intro name function found args world argsTyped
  rcases triangle_eq_some found with rfl
  rcases List.map_eq_singleton_iff.mp argsTyped with ⟨⟨vt, n⟩, rfl, same⟩
  cases same
  exact typed_triangleBody n world

private theorem lowerable_triangle : trianglePrototype.Lowerable where
  supported := .inl rfl
  fits := by decide
  inPlace := by decide
  returned := rfl

theorem run_callBoundary_triangle :
    (triangle.run (callBoundary fun _ _ _ => 0xdead0000beef0000) (fun _ _ _ => -1) 4 "triangle"
      [⟨.i16, 3#16⟩] () (fun _ => 0)).map Prod.fst = some ([⟨.i64, 6#64⟩], ()) := by
  have same := run_callBoundary (fun _ _ _ => 0xdead0000beef0000) typed_triangle
    (fun name function found => triangle_eq_some found ▸ lowerable_triangle) (fun _ _ _ => -1) 4
    (rfl : triangle "triangle" = some triangleFunction)
    (rfl : [TypedValue.mk .i16 3#16].map TypedValue.vt = trianglePrototype.args.map Arg.vt) ()
    (fun _ => 0)
  exact same.trans rfl

end BpfBackend.CodeGen
