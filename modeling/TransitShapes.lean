import TransitShapes.Polyline.Split
import TransitShapes.Event.Record
import TransitShapes.Matcher
import TransitShapes.Format.Places
import TransitShapes.Format.Settings
import TransitShapes.Proofs.Collection.Search
import TransitShapes.Proofs.Network.Route
import TransitShapes.Proofs.Scalar.Sum
import TransitShapes.Proofs.Scalar.Product
import TransitShapes.Proofs.Polyline.Follow
import TransitShapes.Proofs.Matcher.Best
import TransitShapes.Proofs.Matcher.Answer
import TransitShapes.Proofs.Matcher.Ends
import TransitShapes.Proofs.Network.Visits
import TransitShapes.Proofs.Matcher.Path
import TransitShapes.Proofs.Network.Outcome
import TransitShapes.Proofs.Scalar.Real
import TransitShapes.Proofs.Network.Cost
import TransitShapes.Proofs.Network.Beam
import TransitShapes.Proofs.Network.Exhaustive
import TransitShapes.Proofs.Network.Drafts
import TransitShapes.Proofs.Matcher.Undefined
import TransitShapes.Proofs.Polyline.Matches
import TransitShapes.Proofs.Collection.Duplicates
import TransitShapes.Proofs.Network.Measured
import TransitShapes.Proofs.Network.Renumbering
import TransitShapes.Proofs.Network.Progress
import TransitShapes.Proofs.Format.RoundTrip
import TransitShapes.Proofs.Geometry.Arc
import TransitShapes.Proofs.Polyline.Split
import TransitShapes.Proofs.Collection.Window
import TransitShapes.Proofs.Geometry.Chord
import TransitShapes.Proofs.Network.Nearby
import TransitShapes.Proofs.Network.Forced
import TransitShapes.Proofs.Network.Turns
import TransitShapes.Proofs.Network.Reconstruct
import TransitShapes.Proofs.Polyline.Score
import TransitShapes.Proofs.Polyline.Grouping
import TransitShapes.Proofs.Collection.Symmetry
import TransitShapes.Proofs.Collection.OwnEnds
import TransitShapes.Proofs.Geometry.Projection
