import ScalarCell.Binary.Basic
import ScalarCell.Binary.Printer
import ScalarCell.Binary.Reader
import ScalarCell.Binary.Rounding
import ScalarCell.Binary.Shortest
import ScalarCell.Cell
import ScalarCell.Config
import ScalarCell.Conversion.Fractional
import ScalarCell.Conversion.Integral
import ScalarCell.Conversion.Truth
import ScalarCell.CustomType.Body
import ScalarCell.CustomType.Catalog
import ScalarCell.CustomType.Column
import ScalarCell.CustomType.Materialize
import ScalarCell.CustomType.Sample
import ScalarCell.CustomType.TypeMap
import ScalarCell.Decimal.Basic
import ScalarCell.Decimal.Double
import ScalarCell.Decimal.Reader
import ScalarCell.Decimal.Scientific
import ScalarCell.Error
import ScalarCell.Input
import ScalarCell.Integer
import ScalarCell.Kind
import ScalarCell.Numeral.Literal
import ScalarCell.Numeral.Scaled
import ScalarCell.Numeral.Whole
import ScalarCell.Oid
import ScalarCell.Proofs.Reads.SingleRead
import ScalarCell.Proofs.Reads.Transcript
import ScalarCell.Scalar.Basic
import ScalarCell.Scalar.Getter
import ScalarCell.Session
import ScalarCell.Target
import ScalarCell.Text.Blank
import ScalarCell.Text.Case
import ScalarCell.Text.Segments
import ScalarCell.Proofs.CustomType.Outcome
import ScalarCell.Proofs.Numeral.Run
import ScalarCell.Proofs.Decimal.Reader
import ScalarCell.Proofs.Decimal.Text
import ScalarCell.Proofs.Binary.Interval
import ScalarCell.Proofs.Binary.Shortest
import ScalarCell.Proofs.Binary.Reader
import ScalarCell.Proofs.Numeral.Literal
import ScalarCell.Proofs.Binary.Text
import ScalarCell.Proofs.Binary.Single
import ScalarCell.Proofs.Conversion.Width
import ScalarCell.Proofs.Integer.Text
import ScalarCell.Proofs.Conversion.Literal
import ScalarCell.Proofs.Scalar.Truth
import ScalarCell.Proofs.Config.Grammar
import ScalarCell.Proofs.Config.Parse
import ScalarCell.Proofs.CustomType.Column
import ScalarCell.Proofs.Numeral.Positional
import ScalarCell.Proofs.Decimal.Rounding
import ScalarCell.Proofs.Integer.Reader
import ScalarCell.Proofs.Decimal.Places
import ScalarCell.Proofs.Decimal.Scientific
import ScalarCell.Proofs.Conversion.Truncate
import ScalarCell.Proofs.Conversion.Shortest
import ScalarCell.Proofs.Binary.Error
import ScalarCell.Proofs.Decimal.Double
import ScalarCell.Proofs.Numeral.Written
import ScalarCell.Proofs.Conversion.Numeral
import ScalarCell.Proofs.Integer.Single
import ScalarCell.Proofs.Decimal.Language
import ScalarCell.Proofs.Binary.Language
import ScalarCell.Proofs.Conversion.Language
import ScalarCell.Proofs.Scalar.Grammar
import ScalarCell.Proofs.Scalar.Policy
import ScalarCell.Proofs.Scalar.Trimming
import ScalarCell.Proofs.Scalar.Failure
import ScalarCell.Proofs.CustomType.Factories
import ScalarCell.Proofs.CustomType.Early
import ScalarCell.Proofs.CustomType.Override
import ScalarCell.Proofs.CustomType.Registration
import ScalarCell.Proofs.CustomType.Session
