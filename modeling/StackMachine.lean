import StackMachine.Lookup
import StackMachine.Main
import StackMachine.Opcode.Lemmas
import StackMachine.Proofs.Plan
import StackMachine.Proofs.Performing
import StackMachine.Proofs.Effects
import StackMachine.Proofs.Failing
import StackMachine.Proofs.FlatMachine
import StackMachine.Proofs.Invoking
import StackMachine.Proofs.Kinding
import StackMachine.Proofs.Refinement
import StackMachine.Proofs.Soundness
import StackMachine.Proofs.DecimalText
import StackMachine.Proofs.Numbers
import StackMachine.Proofs.Roundtrip
import StackMachine.Proofs.Footprint
import StackMachine.Proofs.Termination
import StackMachine.Proofs.Reading
import StackMachine.Proofs.Canonical
import StackMachine.Proofs.OperandChecks
import StackMachine.Proofs.Relocation
import StackMachine.Proofs.Arrays
import StackMachine.Proofs.Origins
import StackMachine.Proofs.Indifference
import StackMachine.Proofs.Locating
import StackMachine.Proofs.FieldHistory
import StackMachine.Proofs.Turns
import StackMachine.Proofs.Reporting
import StackMachine.Proofs.Comparing
import StackMachine.Proofs.Elements
import StackMachine.Proofs.Saturation
import StackMachine.Proofs.Layout
import StackMachine.Proofs.LineByLine
import StackMachine.Proofs.Division
import StackMachine.Proofs.Integers
import StackMachine.Proofs.Replacing
import StackMachine.Proofs.CompactForms
import StackMachine.Proofs.Hexadecimal
import StackMachine.Proofs.Nearest
import StackMachine.Proofs.FloatLiterals
import StackMachine.Proofs.Running
import StackMachine.Proofs.Capacity
import StackMachine.Proofs.Narrowing
import StackMachine.Proofs.Tables
import StackMachine.Proofs.Checking
