import StackMachine.Command

/-!
# The command line

A command line names a subcommand, after switches that ask for more log output; the
options and arguments of the subcommand follow it. Options take their value from the
next argument or after an equals sign. Two hyphens end the options. A line that asks
for help or for the version is answered at that point, unless something before it is
wrong.
-/

namespace StackMachine.CommandLine

/-- Why a line does not give a command. -/
inductive Stop where
  /-- It asks for help. -/
  | help
  /-- It asks for the version. -/
  | version
  /-- It is not understood. -/
  | usage
deriving DecidableEq, Repr

/-- An option, which always has a value. -/
structure Setting where
  /-- The name, without its hyphens. -/
  name : String
  /-- The value may begin with a hyphen. -/
  hyphens : Bool
  /-- The option may be given more than once. -/
  repeats : Bool
  /-- The values that it can have. -/
  accepts : String → Bool := fun _ => true

/-- What a subcommand takes. -/
structure Form where
  /-- Its options. -/
  options : List Setting
  /-- The number of arguments that it needs. -/
  needed : Nat
  /-- It takes any number of further arguments, which may begin with a hyphen. -/
  more : Bool
  /-- The arguments that it can have. -/
  accepts : String → Bool := fun _ => true

/-- The options and arguments of a subcommand, in order. -/
structure Words where
  /-- The names and values of the options. -/
  values : List (String × String) := []
  /-- The arguments. -/
  arguments : List String := []

/-- How the next argument is to be taken. -/
inductive Position where
  /-- As an option, an argument, or the end of the options. -/
  | free
  /-- As the value of an option. -/
  | value (o : Setting)
  /-- As one of the further arguments, whatever it looks like. -/
  | further
  /-- As an argument, since the options have ended. -/
  | trailing

/-- An argument split at its first equals sign. -/
def splitEquals (cs : List Char) : List Char × Option (List Char) :=
  match cs.dropWhile (· ≠ '=') with
  | [] => (cs, none)
  | _ :: value => (cs.takeWhile (· ≠ '='), some value)

namespace Form

/-- Record the value of an option. -/
def addValue (o : Setting) (v : String) (w : Words) : Except Stop Words :=
  if !o.accepts v || !o.repeats && w.values.any (·.1 = o.name) then .error .usage
  else .ok { w with values := w.values ++ [(o.name, v)] }

/-- Record an argument. -/
def addArgument (f : Form) (a : String) (w : Words) : Except Stop Words :=
  if f.accepts a && (w.arguments.length < f.needed || f.more) then
    .ok { w with arguments := w.arguments ++ [a] }
  else .error .usage

/-- The next argument would be one of the further arguments. -/
def atFurther (f : Form) (w : Words) : Bool := f.more && f.needed ≤ w.arguments.length

/-- Where the reading stands after an argument. -/
def afterArgument (f : Form) (w : Words) : Position :=
  if f.needed < w.arguments.length then .further else .free

/-- Read one argument. -/
def readOne (f : Form) (p : Position) (w : Words) (a : String) :
    Except Stop (Position × Words) := do
  let argument (p : Words → Position) : Except Stop (Position × Words) := do
    let w ← f.addArgument a w
    return (p w, w)
  match p with
  | .trailing => argument fun _ => .trailing
  | .further => argument fun _ => .further
  | .value o =>
    if o.hyphens || !("-".isPrefixOf a && a ≠ "-") then
      return (.free, ← addValue o a w)
    else throw .usage
  | .free =>
    match a.toList with
    | ['-', '-'] => return (.trailing, w)
    | '-' :: '-' :: long =>
      let (name, attached) := splitEquals long
      if name = "help".toList then throw (if attached.isNone then .help else .usage)
      match f.options.find? (·.name.toList = name), attached with
      | some o, some v => return (.free, ← addValue o (String.ofList v) w)
      | some o, none => return (.value o, w)
      | none, _ => if f.atFurther w then argument f.afterArgument else throw .usage
    | '-' :: c :: cs =>
      if f.atFurther w && (c :: cs).any (· ≠ 'h') then argument f.afterArgument
      else throw (if c = 'h' then .help else .usage)
    | _ => argument f.afterArgument

/-- Read the arguments of a subcommand. -/
def read (f : Form) (p : Position) (w : Words) : List String → Except Stop Words
  | [] =>
    match p with
    | .value _ => .error .usage
    | _ => if w.arguments.length < f.needed then .error .usage else .ok w
  | a :: rest => do
    let (p, w) ← f.readOne p w a
    f.read p w rest

end Form

/-- A stack depth, which has to fit in a machine word. -/
def readDepth? (text : String) : Option Nat :=
  (Numeral.readNat? text.toList).filter (· < UInt64.size)

/-- The subcommands that show fixtures take a filter. -/
def fixtureForm : Form where
  options := [{ name := "filter", hyphens := false, repeats := false }]
  needed := 0
  more := false

/-- Running takes a file, which has to have a name, values for the slots, and a depth
for the stack. -/
def runForm : Form where
  options :=
    [{ name := "local", hyphens := true, repeats := true },
      { name := "max-stack", hyphens := false, repeats := false,
        accepts := fun text => (readDepth? text).isSome }]
  needed := 1
  more := false
  accepts := fun file => file ≠ ""

/-- Evaluating takes an instruction and values. -/
def evalForm : Form where
  options := []
  needed := 1
  more := true

/-- The values that an option was given. -/
def Words.valuesOf (w : Words) (name : String) : List String :=
  (w.values.filter (·.1 = name)).map (·.2)

/-- The command that a subcommand's words make. -/
def commandOf (name : String) (rest : List String) : Except Stop Command :=
  match name with
  | "list" => do
    let w ← fixtureForm.read .free {} rest
    return .list (w.valuesOf "filter").head?
  | "check" => do
    let w ← fixtureForm.read .free {} rest
    return .check (w.valuesOf "filter").head?
  | "run" => do
    let w ← runForm.read .free {} rest
    match w.arguments with
    | file :: _ =>
      let depth := (w.valuesOf "max-stack").head?.bind readDepth?
      return .run file (w.valuesOf "local") (depth.getD Frame.defaultMaxStack)
    | [] => throw .usage
  | "eval" => do
    let w ← evalForm.read .free {} rest
    match w.arguments with
    | instruction :: values => return .eval instruction values
    | [] => throw .usage
  | _ => .error .usage

/-- Help on one subcommand, or on all of them. -/
def helpStop : List String → Stop
  | [] => .help
  | [name] => if name ∈ ["list", "check", "run", "eval", "help"] then .help else .usage
  | _ => .usage

/-- Read a cluster of one-letter switches: how often more log output is asked for. -/
def readSwitches : List Char → Except Stop Nat
  | [] => .ok 0
  | 'v' :: cs => (readSwitches cs).map (· + 1)
  | 'h' :: _ => .error .help
  | 'V' :: _ => .error .version
  | _ => .error .usage

/-- Read a command line: how often more log output is asked for, and the command. -/
def read : List String → Except Stop (Nat × Command)
  | [] => .error .usage
  | "help" :: rest => .error (helpStop rest)
  | a :: rest =>
    match a.toList with
    | '-' :: '-' :: _ =>
      match a with
      | "--verbose" => (read rest).map fun (n, c) => (n + 1, c)
      | "--help" => .error .help
      | "--version" => .error .version
      | _ => .error .usage
    | '-' :: c :: cs => do
      let n ← readSwitches (c :: cs)
      let (m, command) ← read rest
      return (n + m, command)
    | _ => do
      let command ← commandOf a rest
      return (0, command)

/-- The name and version of the program. -/
def versionText : String := "opsem 0.1.0"

/-- The report on a line that gives no command. -/
def Stop.report : Stop → Report
  | help => .ok "usage: opsem [-v]... <list|check|run|eval> ..."
  | version => .ok versionText
  | usage => ⟨2, "", "error: usage: opsem [-v]... <list|check|run|eval> ...\n"⟩

/-- How often more log output may be asked for. -/
def verbosityLimit : Nat := 4

/-- The report on a command line. -/
def report (readFile : String → Except String String) (args : List String) : Report :=
  match read args with
  | .error stop => stop.report
  | .ok (verbosity, command) =>
    if verbosityLimit < verbosity then .inputError "Don't be crazy with verbose"
    else command.report readFile

end StackMachine.CommandLine
