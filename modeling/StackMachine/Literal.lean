import StackMachine.Decimal.Shortest
import StackMachine.Heap
import StackMachine.Instruction
import StackMachine.Text.Quoted

/-!
# Literals

What a value shows in text: a number, null, the characters of a string, the name
of a class, or the kind and length of an array. A literal does not keep the
identity of an object; loading one makes a new object.
-/

namespace StackMachine

/-- What a value shows in text. -/
inductive Literal where
  | int (n : Int32)
  | long (n : Int64)
  | float (x : Single)
  | double (x : Double)
  | null
  | string (s : String)
  | className (name : String)
  /-- An array is shown by its kind and length, which cannot be read back. -/
  | array (kind : ElementKind) (length : Nat)
deriving DecidableEq

namespace Literal

/-- The text of a literal. -/
def text : Literal → String
  | int n => Numeral.intText n.toInt
  | long n => String.ofList (Numeral.ofInt n.toInt ++ ['L'])
  | float x => String.ofList (x.chars ++ ['f'])
  | double x => String.ofList (x.chars ++ ['d'])
  | null => "null"
  | string s => String.ofList (Text.Quoted.write s.toList)
  | className name => "class " ++ name
  | array k n => k.name ++ "[" ++ Numeral.natText n ++ "]"

/-- The kind of the value that a literal stands for. -/
def kind : Literal → Kind
  | int _ => .int
  | long _ => .long
  | float _ => .float
  | double _ => .double
  | null | string _ | className _ | array .. => .reference

/-- The value that a literal stands for. Strings, class literals and arrays become
new objects. -/
def load (h : Heap) : Literal → Value × Heap
  | int n => (.int n, h)
  | long n => (.long n, h)
  | float x => (.float x, h)
  | double x => (.double x, h)
  | null => (.null, h)
  | string s => let (r, h) := h.alloc (.string s); (.reference r, h)
  | className s => let (r, h) := h.alloc (.className s); (.reference r, h)
  | array k n => let (r, h) := h.alloc (.array (.zeroed k n)); (.reference r, h)

/-- What an object shows. -/
def ofObject : Object → Literal
  | .array a => array a.declared a.length
  | .string s => string s
  | .className s => className s

/-- What a reference shows. -/
def ofReference (h : Heap) (r : Reference) : Literal := ((h.object? r).map ofObject).getD null

/-- What a value shows. -/
def ofValue (h : Heap) : Value → Literal
  | .int n => int n
  | .long n => long n
  | .float x => float x
  | .double x => double x
  | .reference r => ofReference h r

@[simp] theorem kind_load (h : Heap) (l : Literal) : (l.load h).1.kind = l.kind := by
  cases l <;> rfl

end Literal

/-- The text of a value. -/
def Value.text (h : Heap) (v : Value) : String := (Literal.ofValue h v).text

/-- An instruction with its constants shown as literals. -/
def Instruction.shown (h : Heap) (i : Instruction Value) : Instruction Literal :=
  i.map (Literal.ofValue h)

/-- The text of an instruction that can be executed. -/
def Instruction.shownText (h : Heap) (i : Instruction Value) : String :=
  (i.shown h).text Literal.text

end StackMachine
