import BpfBackend.CodeGen.SelectionDAG

/-! # The calling convention

`BPFCallingConv.td` as `CCState` interprets it: rule by rule, each taking the
first free register.
-/

namespace BpfBackend.CodeGen

open MC

/-! ## Values and locations -/

structure ArgFlags where
  isSExt : Bool
  isZExt : Bool
  isByVal : Bool
  deriving DecidableEq, Repr

structure Arg where
  vt : MVT
  flags : ArgFlags
  deriving DecidableEq, Repr

inductive LocInfo where
  | Full | SExt | ZExt | AExt
  deriving DecidableEq, Repr

inductive Location where
  | reg (register : Reg)
  | mem (offset : Nat)
  deriving DecidableEq, Repr

structure CCValAssign where
  valNo : Nat
  valVT : MVT
  loc : Location
  locVT : MVT
  locInfo : LocInfo
  deriving DecidableEq, Repr

structure CCState where
  usedRegs : List Reg
  stackOffset : Nat
  locs : List CCValAssign
  deriving DecidableEq, Repr

namespace CCState

def initial : CCState := ⟨[], 0, []⟩

def AllocateReg (state : CCState) (regs : List Reg) : Option (Reg × CCState) :=
  match regs.find? (· ∉ state.usedRegs) with
  | none => none
  | some register => some (register, { state with usedRegs := register :: state.usedRegs })

def AllocateStack (state : CCState) (size align : Nat) : Nat × CCState :=
  let offset := (state.stackOffset + align - 1) / align * align
  (offset, { state with stackOffset := offset + size })

def addLoc (state : CCState) (assign : CCValAssign) : CCState :=
  { state with locs := state.locs ++ [assign] }

end CCState

/-! ## The conventions -/

/-- A convention gives no state when it assigns no location. -/
abbrev CCAssignFn := Nat → Arg → CCState → Option CCState

def argumentRegs : List Reg := [.R1, .R2, .R3, .R4, .R5]

/-- `CCPromoteToType<i64>` for the narrow types. -/
def promote (arg : Arg) : MVT × LocInfo :=
  match arg.vt with
  | .i64 => (.i64, .Full)
  | _ =>
      (.i64, if arg.flags.isSExt then .SExt else if arg.flags.isZExt then .ZExt else .AExt)

def CC_BPF64 : CCAssignFn := fun valNo arg state =>
  let (locVT, locInfo) := promote arg
  let onStack := fun (state : CCState) =>
    let (offset, state) := state.AllocateStack 8 8
    some (state.addLoc ⟨valNo, arg.vt, .mem offset, locVT, locInfo⟩)
  if locVT = .i64 then
    match state.AllocateReg argumentRegs with
    | some (register, state) =>
        some (state.addLoc ⟨valNo, arg.vt, .reg register, locVT, locInfo⟩)
    | none => onStack state
  else
    onStack state

def RetCC_BPF64 : CCAssignFn := fun valNo arg state =>
  if arg.vt = .i64 then
    match state.AllocateReg [.R0] with
    | some (register, state) =>
        some (state.addLoc ⟨valNo, arg.vt, .reg register, arg.vt, .Full⟩)
    | none => none
  else
    none

/-- Each part in turn; a part without a location is unreachable. -/
def analyzeFrom (assign : CCAssignFn) : Nat → List Arg → CCState → Compile CCState
  | _, [], state => .ok state
  | valNo, arg :: rest, state =>
      match assign valNo arg state with
      | none => .error (.llvm_unreachable "unhandled type")
      | some next => analyzeFrom assign (valNo + 1) rest next

def analyze (assign : CCAssignFn) (args : List Arg) : Compile CCState :=
  analyzeFrom assign 0 args .initial

/-! ## What the argument convention assigns -/

def argumentLocation (index : Nat) : Location :=
  match argumentRegs[index]? with
  | some register => .reg register
  | none => .mem (8 * (index - 5))

def argumentAssign (index : Nat) (arg : Arg) : CCValAssign :=
  ⟨index, arg.vt, argumentLocation index, .i64, (promote arg).2⟩

def argumentAssigns : Nat → List Arg → List CCValAssign
  | _, [] => []
  | index, arg :: rest => argumentAssign index arg :: argumentAssigns (index + 1) rest

def argumentState (count : Nat) (locs : List CCValAssign) : CCState :=
  ⟨(argumentRegs.take count).reverse, 8 * (count - 5), locs⟩

private theorem promote_fst (arg : Arg) : (promote arg).1 = .i64 := by
  unfold promote
  split <;> rfl

private theorem AllocateReg_argumentState_of_lt {count : Nat} (free : count < 5)
    (locs : List CCValAssign) :
    ∃ register, argumentRegs[count]? = some register ∧
      (argumentState count locs).AllocateReg argumentRegs =
        some (register, ⟨(argumentRegs.take (count + 1)).reverse, 8 * (count - 5), locs⟩) := by
  match count with
  | 0 => exact ⟨.R1, rfl, rfl⟩
  | 1 => exact ⟨.R2, rfl, rfl⟩
  | 2 => exact ⟨.R3, rfl, rfl⟩
  | 3 => exact ⟨.R4, rfl, rfl⟩
  | 4 => exact ⟨.R5, rfl, rfl⟩

private theorem AllocateReg_argumentState_of_ge {count : Nat} (full : 5 ≤ count)
    (locs : List CCValAssign) :
    (argumentState count locs).AllocateReg argumentRegs = none := by
  have all : argumentRegs.take count = argumentRegs := List.take_of_length_le full
  rw [argumentState, all]
  rfl

theorem CC_BPF64_argumentState (count : Nat) (arg : Arg) (locs : List CCValAssign) :
    CC_BPF64 count arg (argumentState count locs) =
      some (argumentState (count + 1) (locs ++ [argumentAssign count arg])) := by
  have promoted : promote arg = (.i64, (promote arg).2) := Prod.ext (promote_fst arg) rfl
  rw [CC_BPF64, promoted]
  by_cases free : count < 5
  · rcases AllocateReg_argumentState_of_lt free locs with ⟨register, atCount, allocated⟩
    have noStack : 8 * (count - 5) = 8 * (count + 1 - 5) := by omega
    simp only [if_true, allocated, CCState.addLoc]
    rw [argumentAssign, argumentLocation, atCount, noStack]
    rfl
  · have full : 5 ≤ count := Nat.le_of_not_lt free
    have beyond : argumentRegs[count]? = none := List.getElem?_eq_none full
    have all : argumentRegs.take count = argumentRegs := List.take_of_length_le full
    have allNext : argumentRegs.take (count + 1) = argumentRegs :=
      List.take_of_length_le (Nat.le_succ_of_le full)
    have aligned : (8 * (count - 5) + 8 - 1) / 8 * 8 = 8 * (count - 5) := by omega
    have nextOffset : 8 * (count - 5) + 8 = 8 * (count + 1 - 5) := by omega
    simp only [if_true, AllocateReg_argumentState_of_ge full, CCState.AllocateStack,
      CCState.addLoc]
    rw [argumentAssign, argumentLocation, beyond]
    simp only [argumentState, all, allNext, aligned]
    rw [nextOffset]

private theorem analyzeFrom_CC_BPF64 (count : Nat) (args : List Arg) (locs : List CCValAssign) :
    analyzeFrom CC_BPF64 count args (argumentState count locs) =
      .ok (argumentState (count + args.length) (locs ++ argumentAssigns count args)) := by
  induction args generalizing count locs with
  | nil => simp [analyzeFrom, argumentAssigns]
  | cons arg rest induction =>
      rw [analyzeFrom, CC_BPF64_argumentState]
      simp only [induction, argumentAssigns, List.length_cons, List.append_assoc,
        List.singleton_append]
      congr 2
      omega

theorem analyze_CC_BPF64 (args : List Arg) :
    analyze CC_BPF64 args =
      .ok (argumentState args.length (argumentAssigns 0 args)) := by
  have analyzed := analyzeFrom_CC_BPF64 0 args []
  rw [Nat.zero_add, List.nil_append] at analyzed
  exact analyzed

/-! ## What the return convention assigns -/

def returnAssignable (parts : List Arg) : Bool :=
  match parts with
  | [] => true
  | [part] => part.vt = .i64
  | _ => false

theorem analyze_RetCC_BPF64 (parts : List Arg) :
    (returnAssignable parts = true ∧ ∃ state, analyze RetCC_BPF64 parts = .ok state ∧
        ∀ assign ∈ state.locs, assign.loc = .reg .R0) ∨
      (returnAssignable parts = false ∧
        analyze RetCC_BPF64 parts = .error (.llvm_unreachable "unhandled type")) := by
  match parts with
  | [] =>
      refine .inl ⟨rfl, .initial, rfl, fun assign member => ?_⟩
      exact absurd member List.not_mem_nil
  | [part] =>
      by_cases wide : part.vt = .i64
      · refine .inl ⟨by simp [returnAssignable, wide], ?_⟩
        simp only [analyze, analyzeFrom, RetCC_BPF64, wide, if_true]
        refine ⟨⟨[.R0], 0, [⟨0, .i64, .reg .R0, .i64, .Full⟩]⟩, rfl, fun assign member => ?_⟩
        rw [List.mem_singleton.1 member]
      · refine .inr ⟨by simp [returnAssignable, wide], ?_⟩
        simp only [analyze, analyzeFrom, RetCC_BPF64, wide, if_false]
  | part :: second :: rest =>
      refine .inr ⟨rfl, ?_⟩
      by_cases wide : part.vt = .i64
      · by_cases secondWide : second.vt = .i64
        · simp only [analyze, analyzeFrom, RetCC_BPF64, wide, secondWide, if_true]
          rfl
        · simp only [analyze, analyzeFrom, RetCC_BPF64, wide, secondWide, if_true, if_false]
          rfl
      · simp only [analyze, analyzeFrom, RetCC_BPF64, wide, if_false]

end BpfBackend.CodeGen
