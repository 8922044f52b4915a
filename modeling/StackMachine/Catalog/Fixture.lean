import StackMachine.Assembly
import StackMachine.Invocation
import StackMachine.Text.Search

/-!
# Fixtures

A fixture is a small program in assembly with its arguments, helper methods and
static fields, and the outcome that is expected of it. Checking a fixture assembles
the program, invokes it once, and says what is wrong if the outcome differs.
-/

namespace StackMachine

/-- The outcome that is expected of a program. -/
inductive Expectation where
  /-- It returns exactly this value. -/
  | returns (v : Value)
  /-- It returns a value with this text. -/
  | prints (text : String)
  /-- It returns without a value. -/
  | void
  /-- It fails with a message that has this text in it. -/
  | faults (text : String)
  /-- It returns, and a static field has exactly this value then. -/
  | leaves (field : String) (v : Value)

/-- A program and what is expected of it. -/
structure Fixture where
  /-- The name of the fixture. -/
  name : String
  /-- The opcode that the fixture is about. -/
  opcode : Opcode
  /-- The program. -/
  code : String
  /-- The objects that the arguments, the static fields and the expectation refer to. -/
  heap : Heap := .empty
  /-- The arguments. -/
  args : List Value := []
  /-- The names and programs of the methods; the last one of a name counts. -/
  methods : List (String × String) := []
  /-- The static fields; the last one of a name counts. -/
  statics : List (String × Value) := []
  /-- What is expected. -/
  expectation : Expectation := .void

/-- What is wrong with a fixture. -/
inductive Flaw where
  /-- The program cannot be assembled. -/
  | code (e : Assembly.Error)
  /-- A method cannot be assembled. -/
  | method (name : String) (e : Assembly.Error)
  /-- The invocation failed, and was expected to return. -/
  | failed (e : InvocationError)
  /-- The invocation failed in another way than expected. -/
  | otherFault (expected found : String)
  /-- The invocation returned, and was expected to fail. -/
  | noFault (expected found : String)
  /-- The static field has another value than expected. -/
  | otherField (name expected found : String)
  /-- The static field does not exist. -/
  | noField (e : FieldError)
  /-- The invocation returned something else than expected. -/
  | otherResult (expected found : String)

namespace Flaw

/-- The wording of a flaw. -/
def message : Flaw → String
  | code e => e.message
  | method name e => name ++ ": " ++ e.message
  | failed e => e.message
  | otherFault expected found =>
    "expected fault containing '" ++ expected ++ "', got '" ++ found ++ "'"
  | noFault expected found => "expected fault containing '" ++ expected ++ "', got " ++ found
  | otherField name expected found =>
    "expected " ++ name ++ " = " ++ expected ++ ", found " ++ found
  | noField e => e.message
  | otherResult expected found => "expected " ++ expected ++ ", got " ++ found

end Flaw

namespace Expectation

/-- Judge the outcome of an invocation. Values in reports are shown as the invocation
left them. -/
def judge (e : Expectation) :
    EStateM.Result InvocationError Machine (Option Value) → Except Flaw Unit
  | .error err _ =>
    match e with
    | faults text =>
      if Text.contains err.message text then .ok () else .error (.otherFault text err.message)
    | _ => .error (.failed err)
  | .ok result m =>
    let shown := (Control.return result).text m.heap
    match e, result with
    | faults text, _ => .error (.noFault text shown)
    | leaves name v, _ =>
      match m.statics.get name with
      | .ok w =>
        if w = v then .ok () else .error (.otherField name (v.text m.heap) (w.text m.heap))
      | .error err => .error (.noField err)
    | returns v, result =>
      if result = some v then .ok ()
      else .error (.otherResult ((Control.return (some v)).text m.heap) shown)
    | prints text, result =>
      if result.map (·.text m.heap) = some text then .ok ()
      else .error (.otherResult ("return " ++ text) shown)
    | void, result =>
      if result = none then .ok ()
      else .error (.otherResult ((Control.return none).text m.heap) shown)

end Expectation

namespace Fixture

/-- Assemble methods in order and add them to those that are there. -/
def assembleMethods (h : Heap) (known : Methods) :
    List (String × String) → Except Flaw (Methods × Heap)
  | [] => .ok (known, h)
  | (name, code) :: rest =>
    match assemble h code with
    | .error e => .error (.method name e)
    | .ok (body, h) => assembleMethods h (known.insert name body) rest

/-- Check a fixture. -/
def check (f : Fixture) : Except Flaw Unit := do
  let (block, h) ← (assemble f.heap f.code).mapError .code
  let (methods, h) ← assembleMethods h .empty f.methods
  let statics := f.statics.foldl (fun s (name, v) => s.define name v) .empty
  let frame := Frame.new (.ofArguments f.args) Frame.defaultMaxStack
  f.expectation.judge (Invocation.invoke methods block ⟨frame, statics, h⟩)

/-- The fixture with another expectation. -/
def expecting (f : Fixture) (e : Expectation) : Fixture := { f with expectation := e }

/-- The fixture that is expected to return a value. -/
def returns (f : Fixture) (v : Value) : Fixture := f.expecting (.returns v)

/-- The fixture that is expected to return a value with a given text. -/
def prints (f : Fixture) (text : String) : Fixture := f.expecting (.prints text)

/-- The fixture that is expected to fail with a given text in the message. -/
def faults (f : Fixture) (text : String) : Fixture := f.expecting (.faults text)

/-- The fixture that is expected to leave a value in a static field. -/
def leaves (f : Fixture) (field : String) (v : Value) : Fixture := f.expecting (.leaves field v)

end Fixture

/-- A line of assembly for each text. -/
def codeLines (lines : List String) : String := String.join (lines.map (· ++ "\n"))

end StackMachine
