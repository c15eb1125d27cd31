import Stepwise.Value.Equality

/-!
# Order of values

Numbers are ordered by exact value, texts by the code points of their characters, and
sequences of one kind by their first parts that differ. Other values have no order.
-/

namespace Stepwise.Value

mutual

/-- How two values stand to each other, if they can be compared. -/
def order? : Value → Value → Option Standing
  | .text s, .text t => some (if s < t then .less else if s = t then .equal else .greater)
  | .list xs, .list ys => orderAll? xs ys
  | .tuple xs, .tuple ys => orderAll? xs ys
  | a, b =>
    match a.number?, b.number? with
    | some n, some m => some (n.compare m)
    | _, _ => none

/-- How two sequences stand to each other. -/
def orderAll? : List Value → List Value → Option Standing
  | [], [] => some .equal
  | [], _ :: _ => some .less
  | _ :: _, [] => some .greater
  | x :: xs, y :: ys => if x.equal y then orderAll? xs ys else order? x y

end

end Stepwise.Value
