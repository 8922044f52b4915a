import StackMachine.Assembly.Statement
import StackMachine.Text.Lines

/-!
# Assembly

Assembling a text reads its lines in order, up to the first one that has a problem,
and loads the statements: literals of strings and classes become new objects, one
for each place in the text. Disassembling writes one line for each instruction.
-/

namespace StackMachine

namespace Assembly

/-- The statements on lines, the first of which has a given number. -/
def readLines : Nat → List (List Char) → Except Error (List Statement)
  | _, [] => .ok []
  | number, line :: rest =>
    match Statement.ofLine line with
    | .error p => .error ⟨number, p⟩
    | .ok statement => do
      let statements ← readLines (number + 1) rest
      return statement.toList ++ statements

/-- The statements of a text. -/
def read (text : String) : Except Error (List Statement) := readLines 1 (Text.lines text.toList)

/-- The operand that a statement's operand becomes. -/
def loadOperand (h : Heap) : Operand Literal → Operand Value × Heap
  | .constant l => let (v, h) := l.load h; (.constant v, h)
  | .none => (.none, h)
  | .slot i => (.slot i, h)
  | .immediate n => (.immediate n, h)
  | .increment i d => (.increment i d, h)
  | .branch d => (.branch d, h)
  | .elementKind k => (.elementKind k, h)
  | .field f => (.field f, h)
  | .method m => (.method m, h)

/-- The instructions that statements become, in order. -/
def load (h : Heap) : List Statement → Block × Heap
  | [] => ([], h)
  | s :: rest =>
    let (operand, h) := loadOperand h s.operand
    let (block, h) := load h rest
    (⟨s.opcode, operand⟩ :: block, h)

/-- Read the text of a single value. -/
def readValue (text : String) : Except Error Literal :=
  let result : Except Problem Literal := do
    let (l, rest) ← takeConstant (← Token.scan text.toList)
    expectEnd rest
    return l
  result.mapError (⟨1, ·⟩)

end Assembly

/-- Assemble a text to a block, whose constants are on the heap. -/
def assemble (h : Heap) (text : String) : Except Assembly.Error (Block × Heap) :=
  (Assembly.read text).map (Assembly.load h)

/-- The text of a block, one line for each instruction. -/
def disassemble (h : Heap) (block : Block) : String :=
  String.join (block.map fun i => i.shownText h ++ "\n")

end StackMachine
