import ModelWeaver.Generator.OrderedSet

/-!
# Polylines

`PWL` puts a pair of variables on a polyline. The pair is the mean of the corners
under weights that form an ordered set of the second kind, so only the ends of one
segment count.
-/

namespace ModelWeaver.Polyline

open Model

/-- A corner of a polyline. -/
structure Point (κ : Type) where
  x : κ
  y : κ

/-- The lesser of two numbers; one that is not a number does not count. -/
def lesser (x y : Float) : Float :=
  if x.isNaN then y else if y.isNaN then x else if y < x then y else x

/-- The greater of two numbers; one that is not a number does not count. -/
def greater (x y : Float) : Float :=
  if x.isNaN then y else if y.isNaN then x else if x < y then y else x

/-- A variable between the least and the greatest of some numbers. -/
def spanning (name : String) (values : List Float) : Variable where
  name
  lower := some (values.foldl lesser Number.infinity)
  upper := some (values.foldl greater (-Number.infinity))

/-- The name of the weight of a point. -/
def weight (stem : String) (i : Nat) : String := s!"{stem}z_{i}"

/-- The names of the weights. -/
def weights (stem : String) (count : Nat) : List String :=
  (List.range count).map (weight stem)

/-- A sum of numbers, each times the weight of its point. -/
def weighted {κ : Type} (stem : String) (values : List κ) : Operand κ :=
  .sum (values.zipIdx.map fun (value, i) => .term (weight stem i) value)

/-- The variables of a polyline: the pair on it, the weights of the points and the
selectors of the segments. -/
def vars (stem x y : String) (points : List (Point Float)) : List Variable :=
  [spanning x (points.map Point.x), spanning y (points.map Point.y)] ++
    ((weights stem points.length).map fun name =>
      { name, lower := some 0.0, upper := some 1.0 }) ++
    (OrderedSet.selectors stem (points.length - 1)).map OrderedSet.binary

/-- The pair is the weighted mean of the points, of which at most two neighbours
have a weight. -/
def relations {κ : Type} [OfNat κ 1] (stem x y : String) (points : List (Point κ)) :
    List (Relation κ) :=
  let names := weights stem points.length
  ⟨.ofNames names, .eq, .constant 1⟩ :: OrderedSet.relations2 stem names 1 ++
    [⟨weighted stem (points.map Point.x), .eq, .single x⟩,
      ⟨weighted stem (points.map Point.y), .eq, .single y⟩]

/-- Read a point. -/
def Point.ofValue (value : Value) : Except Failure (Point Float) := do
  match ← value.elements with
  | [x, y] => return { x := ← x.toNumber, y := ← y.toNumber }
  | _ => throw (.badArgument .pwlPoint)

/-- `PWL[x,y]{points}` -/
def run (invocation : Invocation) : Action Context Unit := do
  let names ← parseVariableList (← invocation.requireIndex "PWL")
  let [x, y] := names | throw (.badArgument (.pwlVariables names.length))
  let points ← invocation.arguments.reading "PWL" ["xyvalues"] 1 do
    (← (← Bound.required "xyvalues").elements).mapM fun point => liftM (Point.ofValue point)
  if points.length < 2 then throw (.badArgument .pwlTooFew)
  let program ← Program.build (vars invocation.stem x y points)
    (relations invocation.stem x y points)
  modify (·.emit .model (program.renderFor invocation.stem []))

end ModelWeaver.Polyline
