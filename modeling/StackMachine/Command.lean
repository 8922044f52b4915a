import StackMachine.Catalog

/-!
# Commands

What the workbench does on request: list or check the fixtures of the catalog, run a
file of assembly, or evaluate a single instruction. A command gives a report: what it
writes and its exit code, which is 0 on success, 1 if the input is at fault or a
fixture fails, and 3 if an instruction fails.
-/

namespace StackMachine

/-- What a command writes, and its exit code. -/
structure Report where
  /-- The exit code. -/
  code : Nat
  /-- The text for the standard output. -/
  out : String
  /-- The text for the standard error output. -/
  err : String
deriving DecidableEq, Repr

namespace Report

/-- The report of a command that succeeded with a line of output. -/
def ok (line : String) : Report := ⟨0, line ++ "\n", ""⟩

/-- The report of a command whose input is at fault. -/
def inputError (message : String) : Report := ⟨1, "", "error: " ++ message ++ "\n"⟩

/-- The report of a command whose instruction failed. -/
def runtimeError (e : Failure) : Report := ⟨3, "", "runtime error: " ++ e.message ++ "\n"⟩

end Report

/-- A request to the workbench. -/
inductive Command where
  /-- List the fixtures whose names have the filter in them. -/
  | list (filter : Option String)
  /-- Check those fixtures. -/
  | check (filter : Option String)
  /-- Run the block in a file once, with values for the local slots. -/
  | run (path : String) (locals : List String) (maxStack : Nat)
  /-- Execute one instruction on a stack of values. -/
  | eval (instruction : String) (values : List String)
deriving DecidableEq, Repr

namespace Command

/-- A name followed by blanks up to a width. -/
def padded (name : String) (width : Nat) : String :=
  name ++ String.ofList (List.replicate (width - name.length) ' ')

/-- One line for each fixture: its name and its opcode, in columns. -/
def listReport (fixtures : List Fixture) : Report :=
  let width := (fixtures.map (·.name.length)).foldl max 0
  ⟨0, String.join (fixtures.map fun f =>
    padded f.name width ++ "  " ++ f.opcode.mnemonic ++ "\n"), ""⟩

/-- The line about a checked fixture. -/
def verdictLine (f : Fixture) : String :=
  match f.check with
  | .ok _ => "ok    " ++ f.name ++ "\n"
  | .error flaw => "FAIL  " ++ f.name ++ ": " ++ flaw.message ++ "\n"

/-- The fixture passes its check. -/
def passes (f : Fixture) : Bool :=
  match f.check with
  | .ok _ => true
  | .error _ => false

/-- One line for each fixture, and a count. -/
def checkReport (filter : Option String) (fixtures : List Fixture) : Report :=
  if fixtures = [] then .inputError ("no fixtures match '" ++ filter.getD "" ++ "'")
  else
    let passed := fixtures.countP passes
    let failed := fixtures.length - passed
    ⟨if failed = 0 then 0 else 1,
      String.join (fixtures.map verdictLine) ++ "\n" ++ Numeral.natText passed ++ " passed, " ++
        Numeral.natText failed ++ " failed\n", ""⟩

/-- The values of texts, in order; the first text that has none is reported. -/
def readValues (h : Heap) : List String → Except String (List Value × Heap)
  | [] => .ok ([], h)
  | text :: rest =>
    match Assembly.readValue text with
    | .error e => .error ("invalid value '" ++ text ++ "': " ++ e.message)
    | .ok l => do
      let (v, h) := l.load h
      let (vs, h) ← readValues h rest
      return (v :: vs, h)

/-- Run the block that a text assembles to, up to the first control event. -/
def runText (text : String) (locals : List String) (maxStack : Nat) : Report :=
  match assemble .empty text with
  | .error e => .inputError e.message
  | .ok (block, h) =>
    match readValues h locals with
    | .error message => .inputError message
    | .ok (args, h) =>
      match Action.run block ⟨.new (.ofArguments args) maxStack, .empty, h⟩ with
      | .ok control m => .ok (control.text m.heap)
      | .error e _ => .runtimeError e

/-- Push values in order. -/
def pushAll : List Value → Action Unit
  | [] => return ()
  | v :: vs => do
    Action.push v
    pushAll vs

/-- Execute an instruction on a stack of values, and show the top of the stack or the
control event. -/
def evalText (instruction : String) (values : List String) : Report :=
  match assemble .empty instruction with
  | .error e => .inputError e.message
  | .ok ([i], h) =>
    match readValues h values with
    | .error message => .inputError message
    | .ok (vs, h) =>
      match pushAll vs ⟨.new (.ofArguments []) Frame.defaultMaxStack, .empty, h⟩ with
      | .error e _ => .inputError e.message
      | .ok _ m =>
        match Action.step i m with
        | .ok .next m =>
          match m.frame.stack with
          | top :: _ => .ok (top.text m.heap)
          | [] => .ok "empty stack"
        | .ok control m => .ok (control.text m.heap)
        | .error e _ => .runtimeError e
  | .ok (block, _) =>
    .inputError ("expected exactly one instruction, found " ++ Numeral.natText block.length)

/-- The report of a command. The text of a file, or the reason why it cannot be read,
is given by `readFile`. -/
def report (readFile : String → Except String String) : Command → Report
  | list filter => listReport (Catalog.select filter)
  | check filter => checkReport filter (Catalog.select filter)
  | run path locals maxStack =>
    match readFile path with
    | .error reason => .inputError ("cannot read '" ++ path ++ "': " ++ reason)
    | .ok text => runText text locals maxStack
  | eval instruction values => evalText instruction values

end Command

end StackMachine
