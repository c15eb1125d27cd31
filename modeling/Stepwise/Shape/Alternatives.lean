import Stepwise.Shape

/-!
# Alternatives of a shape

A union is the set of its alternatives: nested unions are taken apart, an alternative
that is named twice counts once, and a union that is left with one alternative is that
alternative. The kind of a shape's values is told where null is the only other
alternative.
-/

namespace Stepwise.Shape

mutual

/-- Whether two shapes are written alike, unions and choices in any order. Every record
    is of its own. -/
def alike : Shape → Shape → Bool
  | .any, .any | .unstated, .unstated | .null, .null | .truth, .truth | .int, .int
  | .real, .real | .text, .text => true
  | .choice xs, .choice ys => xs.all (ys.contains ·) && ys.all (xs.contains ·)
  | .list x, .list y => alike x y
  | .tuple x, .tuple y => alike x y
  | .set frozen x, .set frozen' y => frozen == frozen' && alike x y
  | .mapping plain k x, .mapping plain' l y => plain == plain' && alike k l && alike x y
  | .optional x, .optional y => alike x y
  | .union xs, .union ys => xs.length == ys.length && allAmong xs ys
  | _, _ => false

/-- Whether every shape of the first list is written like one of the second. -/
def allAmong : List Shape → List Shape → Bool
  | [], _ => true
  | x :: xs, ys => (ys.any fun y => alike x y) && allAmong xs ys

end

/-- Shapes without those that are written like an earlier one. -/
def distinct (shapes : List Shape) : List Shape :=
  shapes.foldl (fun found shape => if found.any (·.alike shape) then found else found ++ [shape]) []

/-- The shape with the given alternatives. -/
def ofAlternatives : List Shape → Shape
  | [only] => only
  | shapes => .union shapes

mutual

/-- The alternatives that a shape stands for, each once and with the shapes inside it
    put in order likewise. -/
def alternatives : Shape → List Shape
  | .list item => [.list (ofAlternatives (alternatives item))]
  | .tuple item => [.tuple (ofAlternatives (alternatives item))]
  | .set frozen item => [.set frozen (ofAlternatives (alternatives item))]
  | .mapping plain key value =>
    [.mapping plain (ofAlternatives (alternatives key)) (ofAlternatives (alternatives value))]
  | .optional shape => distinct (alternatives shape ++ [.null])
  | .union shapes => distinct (allAlternatives shapes)
  | shape => [shape]

/-- The alternatives of several shapes. -/
def allAlternatives : List Shape → List Shape
  | [] => []
  | shape :: rest => alternatives shape ++ allAlternatives rest

end

/-- Whether null is the only value of the shape. -/
def isNull : Shape → Bool
  | .null => true
  | _ => false

/-- The alternatives besides null. -/
def othersThanNull (shape : Shape) : List Shape :=
  shape.alternatives.filter fun alternative => !alternative.isNull

/-- Whether null is an alternative. -/
def offersNull (shape : Shape) : Bool := shape.alternatives.any isNull

/-- The shape without null, where only one alternative is left then. -/
def withoutNull (shape : Shape) : Shape := ofAlternatives shape.othersThanNull

/-- Whether values of the shape are sequences or sets. -/
def isSequence (shape : Shape) : Bool :=
  match shape.withoutNull with
  | .list _ | .tuple _ | .set .. => true
  | _ => false

/-- Whether values of the shape are mappings whose keys are not declared. -/
def isMapping (shape : Shape) : Bool :=
  match shape.withoutNull with
  | .mapping .. => true
  | _ => false

/-- Whether values of the shape are records with fields of their own. -/
def isRecord (shape : Shape) : Bool :=
  match shape.withoutNull with
  | .record .. => true
  | _ => false

end Stepwise.Shape
