import StackMachine.Catalog.Fixture
import StackMachine.Decimal.Literal

/-!
# Slot and array fixtures

Programs that store constants into consecutive local slots and return the last one,
programs that do the same with the element of an array, and the edge cases of slots
and arrays.
-/

namespace StackMachine.Catalog

/-- The slot that a load or store can imply. -/
def impliedSlot (n : Nat) : Option (Fin 4) := if h : n < 4 then some ⟨n, h⟩ else none

/-- A line that loads from a slot or stores into one, in the short form if there is one. -/
def slotLine (op : Option (Fin 4) → Opcode) (slot : Nat) : String :=
  match impliedSlot slot with
  | some n => (op (some n)).mnemonic
  | none => (op none).mnemonic ++ " " ++ Numeral.natText slot

/-- The lines that store constants into consecutive slots. -/
def storeLines : Nat → List (Kind × String) → List String
  | _, [] => []
  | slot, (k, push) :: rest => push :: slotLine (.store k) slot :: storeLines (slot + 1) rest

/-- Store constants into consecutive slots, the last of which is of a given kind; then
load that one and return it. -/
def stored (first : Nat) (before : List (Kind × String)) (k : Kind) (push : String) : Fixture :=
  let last := first + before.length
  let store := (Opcode.store k (impliedSlot last)).mnemonic
  let load := Opcode.load k (impliedSlot last)
  { name := "op_" ++ store ++ "_" ++ load.mnemonic
    opcode := load
    code := codeLines (storeLines first (before ++ [(k, push)]) ++
      [slotLine (.load k) last, k.initial ++ "return"]) }

/-- Store the least numbers of a kind into slots, ending with minus one. -/
def storedNumbers (k : Kind) (minusOne zero one two : String) : List Fixture :=
  [stored 0 [] k minusOne,
   stored 1 [] k minusOne,
   stored 1 [(.int, "iconst_0")] k minusOne,
   stored 1 [(k, one), (k, zero)] k minusOne,
   stored 1 [(k, two), (k, one), (k, zero)] k minusOne]

/-- Store nulls into slots, after ints. -/
def storedNulls : List Fixture :=
  let ints := [(Kind.int, "iconst_0"), (Kind.int, "iconst_1"), (Kind.int, "iconst_2")]
  [stored 0 [] .reference "aconst_null",
   stored 1 [] .reference "aconst_null",
   stored 1 [(.int, "iconst_1")] .reference "aconst_null",
   stored 1 (ints.take 2) .reference "aconst_null",
   stored 1 ints .reference "aconst_null"]

/-- Make an array of one element, store a constant into it, load the element and
return it. -/
def element (k : ElementKind) (push : String) : Fixture :=
  let create := if k = .reference then "anewarray" else "newarray " ++ k.name
  let store := Opcode.arrayStore k
  let load := Opcode.arrayLoad k
  { name := "op_" ++ store.mnemonic ++ "_" ++ load.mnemonic
    opcode := store
    code := codeLines ["iconst_1", create, "astore_1", "aload_1", "iconst_0", push,
      store.mnemonic, "aload_1", "iconst_0", load.mnemonic, k.valueKind.initial ++ "return"] }

/-- The edge cases of slots and arrays. -/
def slotEdges : List Fixture :=
  [Fixture.returns
    { name := "op_bastore_narrows"
      opcode := .arrayStore .byte
      code := codeLines ["iconst_1", "newarray byte", "astore_1", "aload_1", "iconst_0",
        "sipush 383", "bastore", "aload_1", "iconst_0", "baload", "ireturn"] }
    (.int 127),
   Fixture.faults
    { name := "op_baload_out_of_range"
      opcode := .arrayLoad .byte
      code := codeLines ["iconst_1", "newarray byte", "iconst_1", "baload", "ireturn"] }
    "array index 1 out of range (length 1)",
   Fixture.faults
    { name := "op_iastore_negative_index"
      opcode := .arrayStore .int
      code := codeLines ["iconst_1", "newarray int", "iconst_m1", "iconst_0", "iastore",
        "return"] }
    "array index -1 out of range",
   Fixture.returns
    { name := "op_arraylength"
      opcode := .arraylength
      code := codeLines ["bipush 12", "newarray double", "arraylength", "ireturn"] }
    (.int 12),
   Fixture.faults
    { name := "op_newarray_negative_size"
      opcode := .newarray
      code := codeLines ["iconst_m1", "newarray long", "areturn"] }
    "negative array size -1",
   Fixture.faults
    { name := "op_iaload_null"
      opcode := .arrayLoad .int
      code := codeLines ["aconst_null", "iconst_0", "iaload", "ireturn"] }
    "null reference",
   Fixture.faults
    { name := "op_iload_out_of_range"
      opcode := .load .int none
      code := codeLines ["iload 200", "ireturn"] }
    "local slot 200 out of range"]

/-- The fixtures about local slots and array elements. -/
def slots : List Fixture :=
  (storedNumbers .int "iconst_m1" "iconst_0" "iconst_1" "iconst_2").map (·.returns (.int (-1))) ++
  (storedNumbers .float "ldc -1.0f" "fconst_0" "fconst_1" "fconst_2").map
    (·.returns (.float (-1.0))) ++
  (storedNumbers .long "ldc2_w -1L" "lconst_0" "lconst_1" "ldc2_w 2L").map
    (·.returns (.long (-1))) ++
  (storedNumbers .double "ldc2_w -1.0d" "dconst_0" "dconst_1" "ldc2_w 2.0d").map
    (·.returns (.double (-1.0))) ++
  storedNulls.map (·.returns .null) ++
  [(element .byte "iconst_m1").returns (.int (-1)),
   (element .short "iconst_m1").returns (.int (-1)),
   (element .char "ldc 65535").returns (.int 0xffff),
   (element .int "iconst_m1").returns (.int (-1)),
   (element .float "ldc -1.0f").returns (.float (-1.0)),
   (element .long "ldc2_w -1L").returns (.long (-1)),
   (element .double "ldc2_w -1.0d").returns (.double (-1.0)),
   (element .reference "aconst_null").returns .null] ++
  slotEdges

end StackMachine.Catalog
