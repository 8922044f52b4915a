import StackMachine.Assembly.Number
import StackMachine.Assembly.Token

/-!
# Statements

A statement is an instruction whose constants are literals: what one line of
assembly says. Its first token is a mnemonic, and the shape of the opcode decides
how the tokens after it are read.
-/

namespace StackMachine.Assembly

/-- An instruction as assembly text states it. -/
abbrev Statement := Instruction Literal

/-- The next token, which has to be a word. The owner and the number of its arguments
are for the report that it is missing. -/
def takeWord (owner : String) (expected : Nat) :
    List Token → Except Problem (String × List Token)
  | .word w :: rest => .ok (w, rest)
  | t :: _ => .error (.unexpectedToken t.text)
  | [] => .error (.missingArgument owner expected)

/-- The next token, which has to be an integer from `lo` to `hi`. -/
def takeInt (lo hi : Int) (owner : String) (expected : Nat) (ts : List Token) :
    Except Problem (Int × List Token) := do
  let (w, rest) ← takeWord owner expected ts
  match Numeral.readInt? w.toList with
  | some n => if lo ≤ n ∧ n ≤ hi then return (n, rest) else throw (.invalidNumber w)
  | none => throw (.invalidNumber w)

/-- The next token, which has to be the index of a slot. -/
def takeSlot (owner : String) (expected : Nat) (ts : List Token) :
    Except Problem (UInt16 × List Token) := do
  let (w, rest) ← takeWord owner expected ts
  match Numeral.readNat? w.toList with
  | some n => if n < UInt16.size then return (.ofNat n, rest) else throw (.invalidNumber w)
  | none => throw (.invalidNumber w)

/-- The next token, which has to be a signed 16-bit number. -/
def takeShort (owner : String) (expected : Nat) (ts : List Token) :
    Except Problem (Int16 × List Token) := do
  let (n, rest) ← takeInt Int16.minValue.toInt Int16.maxValue.toInt owner expected ts
  return (.ofInt n, rest)

/-- The tokens of a constant: a quoted text, `null`, `class` and a name, or a number. -/
def takeConstant : List Token → Except Problem (Literal × List Token)
  | [] => .error (.missingArgument "value" 1)
  | .quoted s :: rest => .ok (.string s, rest)
  | .word w :: rest => do
    if w = "null" then return (.null, rest)
    else if w = "class" then
      let (name, rest) ← takeWord "class" 1 rest
      return (.className name, rest)
    else return (← readNumber w, rest)

/-- The element kind with a given name or type code. -/
def readElementKind? (w : String) : Option ElementKind :=
  (ElementKind.ofName? w).orElse fun _ => (Numeral.readNat? w.toList).bind ElementKind.ofTypeCode?

/-- No token may be left. -/
def expectEnd : List Token → Except Problem Unit
  | [] => .ok ()
  | t :: _ => .error (.unexpectedToken t.text)

/-- The operand of an opcode that takes a constant, wide or not. A constant of the
wrong kind is reported by its first token. -/
def readConstantOperand (mnemonic : String) (wide : Bool) (args : List Token) :
    Except Problem (Operand Literal) :=
  match args with
  | [] => .error (.missingArgument mnemonic 1)
  | first :: _ => do
    let (l, rest) ← takeConstant args
    expectEnd rest
    if l.kind.isWide = wide then return .constant l else throw (.invalidLiteral first.text)

/-- The operand of an opcode, which all the tokens after the mnemonic have to make. -/
def readOperand (op : Opcode) (args : List Token) : Except Problem (Operand Literal) :=
  let name := op.mnemonic
  match op.shape with
  | .none => do
    expectEnd args
    return .none
  | .slot => do
    let (i, rest) ← takeSlot name 1 args
    expectEnd rest
    return .slot i
  | .byte => do
    let (n, rest) ← takeInt Int8.minValue.toInt Int8.maxValue.toInt name 1 args
    expectEnd rest
    return .immediate (.ofInt n)
  | .short => do
    let (n, rest) ← takeShort name 1 args
    expectEnd rest
    return .immediate n.toInt32
  | .constant => readConstantOperand name false args
  | .wideConstant => readConstantOperand name true args
  | .increment => do
    let (i, rest) ← takeSlot name 2 args
    let (d, rest) ← takeShort name 2 rest
    expectEnd rest
    return .increment i d
  | .branch => do
    let (d, rest) ← takeShort name 1 args
    expectEnd rest
    return .branch d
  | .elementKind => do
    let (w, rest) ← takeWord name 1 args
    match readElementKind? w with
    | none => throw (.invalidElementKind w)
    | some k =>
      expectEnd rest
      return .elementKind k
  | .field => do
    let (field, rest) ← takeWord name 2 args
    let (descriptor, rest) ← takeWord name 2 rest
    match Descriptor.readField? descriptor.toList with
    | none => throw (.invalidDescriptor descriptor)
    | some k =>
      expectEnd rest
      return .field ⟨field, k⟩
  | .method => do
    let (method, rest) ← takeWord name 2 args
    let (descriptor, rest) ← takeWord name 2 rest
    match Descriptor.readMethod? descriptor.toList with
    | none => throw (.invalidDescriptor descriptor)
    | some (params, result) =>
      expectEnd rest
      return .method ⟨method, params, result⟩

/-- The statement that tokens make, if there are any. -/
def Statement.ofTokens : List Token → Except Problem (Option Statement)
  | [] => .ok none
  | .quoted s :: _ => .error (.unexpectedToken (Token.quoted s).text)
  | .word w :: args =>
    match Opcode.ofMnemonic? w with
    | none => .error (.unknownOpcode w)
    | some op => do
      let operand ← readOperand op args
      return some ⟨op, operand⟩

/-- The statement on a line, if there is one. -/
def Statement.ofLine (line : List Char) : Except Problem (Option Statement) := do
  Statement.ofTokens (← Token.scan line)

end StackMachine.Assembly
