import DerivedSeries.Registry
import DerivedSeries.RateOptions
import DerivedSeries.Json.Codec
import DerivedSeries.Json.Import
import DerivedSeries.Config.File
import DerivedSeries.Proofs.Ranking.Selection
import DerivedSeries.Proofs.Averaging.OverSum
import DerivedSeries.Proofs.Interpolation
import DerivedSeries.Proofs.Merge.Transformed
import DerivedSeries.Proofs.Combining.Sum
import DerivedSeries.Proofs.Combining.Difference
import DerivedSeries.Proofs.Merge.Split
import DerivedSeries.Proofs.Combining.Additive
import DerivedSeries.Proofs.Ranking.Contributed
import DerivedSeries.Proofs.Combining.Exact
import DerivedSeries.Proofs.Combining.Integral
import DerivedSeries.Proofs.Combining.Reordered
import DerivedSeries.Proofs.OrderedMap
import DerivedSeries.Proofs.Registry
import DerivedSeries.Proofs.Combining.Nested
import DerivedSeries.Proofs.Decimal.Literal
import DerivedSeries.Proofs.Acceptance
import DerivedSeries.Proofs.Locality
import DerivedSeries.Proofs.Binary64.Rounding
import DerivedSeries.Proofs.Ranking.Nested
import DerivedSeries.Proofs.Ranking.Integral
import DerivedSeries.Proofs.Ranking.Numbers
import DerivedSeries.Proofs.Inverted
import DerivedSeries.Proofs.RateOptions
import DerivedSeries.Proofs.Json.Numeral
import DerivedSeries.Proofs.Decimal.Shortest
import DerivedSeries.Proofs.Json.Double
import DerivedSeries.Proofs.Json.Text
import DerivedSeries.Proofs.Json.Tree
import DerivedSeries.Proofs.Json.Codec
import DerivedSeries.Proofs.Json.Import
import DerivedSeries.Proofs.Combining.Folded
import DerivedSeries.Proofs.Json.ResultObject
import DerivedSeries.Proofs.Scaling
import DerivedSeries.Proofs.Interpolation.Integers
import DerivedSeries.Proofs.Toml.Document
import DerivedSeries.Proofs.Config.Layers
import DerivedSeries.Proofs.Interpolation.Doubles
import DerivedSeries.Proofs.Averaging.Integers
