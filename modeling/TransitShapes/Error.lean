/-! # What can go wrong with a shape -/

namespace TransitShapes

/-- Why an operation on points, polylines or stored shapes has no result. -/
inductive ShapeError where
  | tooFewPoints (required actual : Nat)
  | zeroVector
  | nonFiniteVector
  | indexOutOfRange (index : Int) (size : Nat)
  | duplicateName (name : String)
deriving Repr, DecidableEq

namespace ShapeError

def message : ShapeError → String
  | tooFewPoints required actual =>
    s!"operation needs at least {required} points, polyline has {actual}"
  | zeroVector => "cannot normalize a zero-length vector"
  | nonFiniteVector => "cannot normalize a vector with non-finite length"
  | indexOutOfRange index size =>
    s!"point index {index} out of range for polyline with {size} points"
  | duplicateName name => s!"duplicate shape found: {name}"

end ShapeError

end TransitShapes
