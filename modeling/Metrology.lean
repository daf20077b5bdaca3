import Metrology.Catalog.Builtin
import Metrology.Decimal.Literal
import Metrology.Dimension.Fields
import Metrology.Expression
import Metrology.Json.Reader
import Metrology.Proofs.Expression.Soundness
import Metrology.Proofs.UnitOfMeasure.EqualOperands
import Metrology.Quantity.Fields
import Metrology.Quantity.Text
import Metrology.UnitOfMeasure.Description
import Metrology.Registry.ConfigurationFile
import Metrology.Proofs.Quantity.BaseValue
import Metrology.Proofs.Quantity.Order
import Metrology.Proofs.Binary64.Unpacked
import Metrology.Proofs.Binary64.Factor
import Metrology.Proofs.UnitOfMeasure.Usable
import Metrology.Proofs.Scalar.Lawful
import Metrology.Proofs.UnitOfMeasure.NormalForm
import Metrology.Proofs.UnitOfMeasure.Isolation
import Metrology.Proofs.Conversion.Groupoid
import Metrology.Proofs.Quantity.AffineSum
import Metrology.Proofs.Quantity.OwnUnit
import Metrology.Proofs.Catalog.Scale
import Metrology.Proofs.Registry.Session
import Metrology.Proofs.Registry.Repetition
import Metrology.Proofs.Registry.Rejection
import Metrology.Proofs.Registry.Scope
import Metrology.Proofs.Dimension.Storage
import Metrology.Proofs.Dimension.Fields
import Metrology.Proofs.Dimension.Reading
import Metrology.Proofs.Registry.Commutation
import Metrology.Proofs.UnitOfMeasure.Display
import Metrology.Proofs.Quantity.WrittenUnit
import Metrology.Proofs.UnitOfMeasure.Cancellation
import Metrology.Proofs.UnitOfMeasure.PowerLaws
import Metrology.Proofs.Dimension.Product
import Metrology.Proofs.UnitOfMeasure.Symmetry
import Metrology.Proofs.UnitOfMeasure.Reciprocal
import Metrology.Proofs.Exponent.Range
import Metrology.Proofs.Dimension.Overflow
import Metrology.Proofs.Quantity.FlooredDivision
import Metrology.Proofs.Binary64.Nearest
import Metrology.Proofs.Quantity.RemainderRange
import Metrology.Proofs.Dimension.Text
import Metrology.Proofs.Quantity.Fields
import Metrology.Proofs.Registry.Report
import Metrology.Proofs.Binary64.Sign
import Metrology.Proofs.Scalar.Parity
import Metrology.Proofs.Quantity.Parity
