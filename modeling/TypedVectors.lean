import TypedVectors.Binary64.Interchange
import TypedVectors.Proofs.RadixArray.Reader
import TypedVectors.Proofs.RadixArray.Update
import TypedVectors.Proofs.Success
import TypedVectors.Proofs.Lists
import TypedVectors.Proofs.Kind
import TypedVectors.Proofs.TypedVector.Follows
import TypedVectors.Proofs.TypedVector.Operand
import TypedVectors.Proofs.Cell.Conversion
import TypedVectors.Proofs.Binary64.Rounding
import TypedVectors.Proofs.Elementwise.Results
import TypedVectors.Proofs.Selection.Assignment
import TypedVectors.Proofs.Selection.Extraction
import TypedVectors.Proofs.Session.Assignment
import TypedVectors.Proofs.Session.PlainLists
import TypedVectors.Proofs.Session.Run
import TypedVectors.Proofs.Session.Search
import TypedVectors.Proofs.Selection.Resolution
import TypedVectors.Session.Basic
import TypedVectors.Proofs.RadixArray.History
import TypedVectors.Proofs.HashTrie.Bitmap
import TypedVectors.Proofs.HashTrie.Sound
import TypedVectors.Proofs.HashTrie.Insert
import TypedVectors.Proofs.HashTrie.Map
import TypedVectors.Proofs.Session.Names
import TypedVectors.Proofs.Selection.Reference
import TypedVectors.Proofs.Selection.ReadTargets
import TypedVectors.Proofs.Selection.WriteTargets
import TypedVectors.Proofs.Selection.Regrowth
import TypedVectors.Proofs.Selection.Lens
import TypedVectors.Proofs.Elementwise.Selection
import TypedVectors.Proofs.Binary64.Nearest
import TypedVectors.Proofs.Decimal.Value
import TypedVectors.Proofs.Decimal.Leading
import TypedVectors.Proofs.Numeral
import TypedVectors.Proofs.Decimal.Range
import TypedVectors.Proofs.Cell.Rendering
import TypedVectors.Proofs.Recycling
import TypedVectors.Proofs.Session.Outcome
import TypedVectors.Proofs.Failure
import TypedVectors.Proofs.Safety
import TypedVectors.Proofs.Session.Safety
import TypedVectors.Proofs.Session.Warnings
import TypedVectors.Proofs.Session.Deliveries
import TypedVectors.Proofs.Session.UniqueNames
import TypedVectors.Proofs.Binary64.Whole
import TypedVectors.Proofs.Selection.MixedSigns
import TypedVectors.Proofs.Elementwise.Recycled
import TypedVectors.Proofs.Elementwise.Locality
import TypedVectors.Proofs.Binary64.Division
import TypedVectors.Proofs.Elementwise.Integers
import TypedVectors.Proofs.Binary64.PowersOfTen
import TypedVectors.Proofs.Binary64.Restoration
import TypedVectors.Proofs.Binary64.Places
import TypedVectors.Proofs.Elementwise.Rounding
import TypedVectors.Proofs.Elementwise.Function
import TypedVectors.Proofs.Cell.Widening
import TypedVectors.Proofs.Numeral.Grammar
import TypedVectors.Proofs.Binary64.Overflow
import TypedVectors.Proofs.Elementwise.FiniteRounding
import TypedVectors.Proofs.Elementwise.Duality
import TypedVectors.Proofs.TypedVector.Concatenation
import TypedVectors.Proofs.Binary64.Order
import TypedVectors.Proofs.Binary64.Tolerance
import TypedVectors.Proofs.TypedVector.Progression
import TypedVectors.Proofs.TypedVector.WholeProgression
import TypedVectors.Proofs.Session.LowKinds
import TypedVectors.Proofs.Recycling.Cycles
import TypedVectors.Proofs.Binary64.Predecessor
import TypedVectors.Proofs.TypedVector.Position
import TypedVectors.Proofs.Binary64.Counts
import TypedVectors.Proofs.TypedVector.Repetition
import TypedVectors.Proofs.Elementwise.Conversion
import TypedVectors.Proofs.RadixArray.Shape
import TypedVectors.Proofs.HashTrie.Nodes
import TypedVectors.Proofs.HashTrie.Collisions
import TypedVectors.RadixArray.Memory
import TypedVectors.Proofs.RadixArray.Sharing
