/-! # Calls through a machine state

A function body is a tree: it returns values, or calls a function and goes on
with the values that come back. A boundary carries the values of a call through
a machine state. If it carries those of every signature, a program computes
through the boundary what it computes directly.
-/

namespace BpfBackend.CallTree

variable {Name Value World Signature Machine : Type}

/-! ## Programs -/

inductive Body (Name Value World : Type) where
  | ret (values : List Value) (world : World)
  | call (callee : Name) (args : List Value) (world : World)
      (next : List Value → World → Body Name Value World)

structure Function (Name Value World Signature : Type) where
  signature : Signature
  body : List Value → World → Body Name Value World

abbrev Program (Name Value World Signature : Type) :=
  Name → Option (Function Name Value World Signature)

def Body.eval (answer : Name → List Value → World → Option (List Value × World)) :
    Body Name Value World → Option (List Value × World)
  | ret values world => some (values, world)
  | call callee args world next => do
      let results ← answer callee args world
      (next results.1 results.2).eval answer

/-- Calls no deeper than the given depth. -/
def Program.eval (program : Program Name Value World Signature) :
    Nat → Name → List Value → World → Option (List Value × World)
  | 0, _, _, _ => none
  | depth + 1, name, args, world => do
      let function ← program name
      (function.body args world).eval (Program.eval program depth)

/-! ## Boundaries -/

/-- The caller passes the arguments and the callee receives them; the callee
gives the results and the caller takes them. -/
structure Boundary (Signature Value Machine : Type) where
  pass : Signature → List Value → Machine → Option Machine
  receive : Signature → Machine → Option (List Value)
  give : Signature → List Value → Machine → Option Machine
  take : Signature → Machine → Option (List Value)

structure Typing (Signature Value : Type) where
  args : Signature → List Value → Prop
  results : Signature → List Value → Prop

/-- Typed values arrive, whatever the machine state was before. -/
structure Boundary.Carries (boundary : Boundary Signature Value Machine)
    (typing : Typing Signature Value) (signature : Signature) : Prop where
  args : ∀ {values}, typing.args signature values → ∀ machine, ∃ arrival,
    boundary.pass signature values machine = some arrival ∧
    boundary.receive signature arrival = some values
  results : ∀ {values}, typing.results signature values → ∀ machine, ∃ final,
    boundary.give signature values machine = some final ∧
    boundary.take signature final = some values

inductive Body.Typed (program : Program Name Value World Signature)
    (typing : Typing Signature Value) (signature : Signature) :
    Body Name Value World → Prop where
  | ret {values : List Value} (world : World) :
      typing.results signature values → Body.Typed program typing signature (.ret values world)
  | call {callee : Name} {function : Function Name Value World Signature} {args : List Value}
      (world : World) {next : List Value → World → Body Name Value World} :
      program callee = some function → typing.args function.signature args →
      (∀ values after, typing.results function.signature values →
        Body.Typed program typing signature (next values after)) →
      Body.Typed program typing signature (.call callee args world next)

def Program.Typed (program : Program Name Value World Signature)
    (typing : Typing Signature Value) : Prop :=
  ∀ name function, program name = some function → ∀ args world,
    typing.args function.signature args →
      (function.body args world).Typed program typing function.signature

/-! ## Typed programs compute typed results -/

section Results

variable {program : Program Name Value World Signature} {typing : Typing Signature Value}

def Answers (program : Program Name Value World Signature) (typing : Typing Signature Value)
    (answer : Name → List Value → World → Option (List Value × World)) : Prop :=
  ∀ name function args world values after, program name = some function →
    typing.args function.signature args → answer name args world = some (values, after) →
      typing.results function.signature values

theorem Body.Typed.results {signature : Signature}
    {answer : Name → List Value → World → Option (List Value × World)}
    (answers : Answers program typing answer) {body : Body Name Value World}
    (typed : body.Typed program typing signature) {values : List Value} {after : World}
    (evaluates : body.eval answer = some (values, after)) : typing.results signature values := by
  induction typed with
  | ret world valuesTyped =>
      cases evaluates
      exact valuesTyped
  | @call callee function args world next found argsTyped nextTyped induction =>
      rw [Body.eval] at evaluates
      rcases Option.bind_eq_some_iff.mp evaluates with ⟨⟨results, between⟩, answered, evaluates⟩
      exact induction results between
        (answers callee function args world results between found argsTyped answered) evaluates

theorem Program.Typed.answers (typed : program.Typed typing) (depth : Nat) :
    Answers program typing (program.eval depth) := by
  induction depth with
  | zero =>
      intro name function args world values after found argsTyped evaluates
      cases evaluates
  | succ depth induction =>
      intro name function args world values after found argsTyped evaluates
      rw [Program.eval, found] at evaluates
      exact (typed name function found args world argsTyped).results induction evaluates

end Results

/-! ## Execution through a boundary -/

section Execution

variable (boundary : Boundary Signature Value Machine)
variable (disturb : Body Name Value World → Machine → Machine)

/-- The body may have changed the machine state before each of its nodes. -/
def Body.run (signature : Signature)
    (invoke : Name → List Value → World → Machine → Option ((List Value × World) × Machine)) :
    Body Name Value World → Machine → Option (World × Machine)
  | ret values world, machine => do
      let final ← boundary.give signature values (disturb (.ret values world) machine)
      some (world, final)
  | call callee args world next, machine => do
      let returned ← invoke callee args world (disturb (.call callee args world next) machine)
      (next returned.1.1 returned.1.2).run signature invoke returned.2

def Program.run (program : Program Name Value World Signature) :
    Nat → Name → List Value → World → Machine → Option ((List Value × World) × Machine)
  | 0, _, _, _, _ => none
  | depth + 1, name, args, world, machine => do
      let function ← program name
      let arrival ← boundary.pass function.signature args machine
      let received ← boundary.receive function.signature arrival
      let outcome ← (function.body received world).run boundary disturb function.signature
        (Program.run program depth) arrival
      let taken ← boundary.take function.signature outcome.2
      some ((taken, outcome.1), outcome.2)

variable {boundary} {typing : Typing Signature Value}
variable {program : Program Name Value World Signature}

/-- The induction is on the body: what follows a call is typed, since the
results of the call are. -/
theorem Body.Typed.run_eq {signature : Signature}
    (carries : boundary.Carries typing signature)
    {answer : Name → List Value → World → Option (List Value × World)}
    (answers : Answers program typing answer)
    {invoke : Name → List Value → World → Machine → Option ((List Value × World) × Machine)}
    (invokes : ∀ name function args, program name = some function →
      typing.args function.signature args → ∀ world machine,
        (invoke name args world machine).map Prod.fst = answer name args world)
    {body : Body Name Value World} (typed : body.Typed program typing signature)
    (machine : Machine) :
    ((body.run boundary disturb signature invoke machine).bind fun outcome =>
      (boundary.take signature outcome.2).map fun taken => (taken, outcome.1)) =
        body.eval answer := by
  induction typed generalizing machine with
  | @ret values world valuesTyped =>
      rcases carries.results valuesTyped (disturb (.ret values world) machine) with
        ⟨final, given, taken⟩
      rw [Body.run, given]
      simp only [bind, Option.bind_some, taken, Option.map_some]
      rfl
  | @call callee function args world next found argsTyped nextTyped induction =>
      have same := invokes callee function args found argsTyped world
        (disturb (.call callee args world next) machine)
      rw [Body.eval, Body.run, ← same]
      cases invoked : invoke callee args world (disturb (.call callee args world next) machine) with
      | none => rfl
      | some returned =>
          have answered : answer callee args world = some returned.1 := by
            rw [← same, invoked]
            rfl
          exact induction returned.1.1 returned.1.2
            (answers callee function args world _ _ found argsTyped answered) returned.2

/-- A program computes the same through a boundary that carries its values. -/
theorem Program.run_eq_eval (typed : program.Typed typing)
    (carries : ∀ name function, program name = some function →
      boundary.Carries typing function.signature) (depth : Nat) :
    ∀ name function args, program name = some function →
      typing.args function.signature args → ∀ world machine,
        (program.run boundary disturb depth name args world machine).map Prod.fst =
          program.eval depth name args world := by
  induction depth with
  | zero =>
      intro name function args found argsTyped world machine
      rfl
  | succ depth induction =>
      intro name function args found argsTyped world machine
      have carried := carries name function found
      rcases carried.args argsTyped machine with ⟨arrival, passed, received⟩
      have body := (typed name function found args world argsTyped).run_eq disturb carried
        (typed.answers depth) induction arrival
      rw [Program.run, Program.eval]
      simp only [found, passed, received, bind, Option.bind_some]
      rw [← body, Option.map_bind]
      congr 1
      funext outcome
      rw [Function.comp_apply]
      cases boundary.take function.signature outcome.2 with
      | none => rfl
      | some taken => rfl

end Execution

end BpfBackend.CallTree
