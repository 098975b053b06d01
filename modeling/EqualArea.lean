import EqualArea.Binary64.Arith
import EqualArea.Coordinate.Lawful
import EqualArea.Coordinate.Tuple
import EqualArea.Decimal.Rounded
import EqualArea.Decimal.Shortest
import EqualArea.Registry
import EqualArea.Proofs.Disc
import EqualArea.Proofs.Construction
import EqualArea.Proofs.Sphere.Mapping
import EqualArea.Proofs.Sphere.RoundTrip
import EqualArea.Proofs.Authalic.Integral
import EqualArea.Proofs.Authalic.Latitude
import EqualArea.Proofs.Authalic.Sums
import EqualArea.Proofs.Ellipsoid.Constants
import EqualArea.Proofs.Ellipsoid.Mapping
import EqualArea.Proofs.Ellipsoid.RoundTrip
import EqualArea.Proofs.Area.Scale
import EqualArea.Proofs.Operator.Created
import EqualArea.Proofs.Area.Mapping
import EqualArea.Proofs.Area.Operator
import EqualArea.Proofs.Guarded.Arith
import EqualArea.Proofs.Guarded.Lift
import EqualArea.Proofs.Guarded.Authalic
import EqualArea.Proofs.Guarded.Construction
import EqualArea.Proofs.Guarded.Sphere
import EqualArea.Proofs.Guarded.Ellipsoid
import EqualArea.Proofs.Guarded.Transform
import EqualArea.Proofs.Guarded.Operator
import EqualArea.Proofs.Angle
import EqualArea.Proofs.Transform
import EqualArea.Proofs.Operator.Apply
import EqualArea.Proofs.Operator.RoundTrip
import EqualArea.Proofs.Authalic.Symmetry
import EqualArea.Proofs.Ellipsoid.AuthalicSphere
import EqualArea.Proofs.Aspects
import EqualArea.Proofs.Mirror
import EqualArea.Proofs.Operator.Pointwise
import EqualArea.Proofs.NaN.Arith
import EqualArea.Proofs.Registry.Session
import EqualArea.Proofs.Registry.Ledger
import EqualArea.Proofs.NaN.Mapping
import EqualArea.Proofs.NaN.Real
import EqualArea.Proofs.Jacobian.Corners
import EqualArea.Proofs.Registry.Derivatives
import EqualArea.Proofs.NaN.Operator
import EqualArea.Proofs.Operator.Shape
import EqualArea.Proofs.Operator.Log
import EqualArea.Proofs.Area.Centre
import EqualArea.Proofs.Authalic.Inversion
import EqualArea.Proofs.Authalic.RoundTrip
import EqualArea.Proofs.Authalic.Bijection
import EqualArea.Proofs.Authalic.Agreement
import EqualArea.Proofs.Domain
import EqualArea.Proofs.ObliqueCentre
import EqualArea.Proofs.Authalic.FixedPoint
import EqualArea.Proofs.Text.Trim
import EqualArea.Proofs.Ellipsoid.Named
import EqualArea.Proofs.Signed.Arith
import EqualArea.Proofs.Seam
