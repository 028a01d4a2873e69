import NumericSteps.Double
import NumericSteps.Matrix.Basic

namespace NumericSteps.Matrix

/-- The squares are added in order, each sum rounded once, starting from negative zero, which is the
neutral element of addition of doubles. -/
def sumSquares (xs : List Float) : Float := xs.foldl (fun acc v => acc + v * v) (-0.0)

def normSquared (m : Matrix Float) : Float := sumSquares m.data

def norm (m : Matrix Float) : Float := m.normSquared.sqrt

/-- The square root of the least normal double, 2 ^ -511. -/
def lowScale : Float := Double.ofCode false (512 * Double.normalCode)

/-- Its inverse. -/
def highScale : Float := Double.ofCode false (1534 * Double.normalCode)

/-- The length of a vector. Of three scales it takes the lowest at which the squares have a sum of
at least one. -/
def vectorLength (xs : List Float) : Float :=
  let low := sumSquares (xs.map (· * lowScale))
  let plain := sumSquares xs
  if 1.0 ≤ low then low.sqrt * highScale
  else if 1.0 ≤ plain then plain.sqrt
  else (sumSquares (xs.map (· * highScale))).sqrt * lowScale

/-- The length of a vector of two entries, one of which is not zero. -/
def hypotenuse (x y : Float) : Float :=
  let long := if x.abs < y.abs then y.abs else x.abs
  let short := if x.abs < y.abs then x.abs else y.abs
  long * (1.0 + (short / long) * (short / long)).sqrt

def distance (a b : Matrix Float) : Except Failure Float := (a.sub b).map norm

/-- The matrices have a distance if they have one shape, and it is that of their values. -/
theorem distance_of_shape {a b : Matrix Float} (h : a.shape = b.shape) :
    a.distance b = .ok (sumSquares (List.zipWith (· - ·) a.data b.data)).sqrt := by
  rw [distance, sub, if_pos h]
  rfl

theorem distance_of_shape_ne {a b : Matrix Float} (h : a.shape ≠ b.shape) :
    a.distance b = .error (.shapeMismatch .subtract a.shape b.shape) := by
  rw [distance, sub, if_neg h]
  rfl

end NumericSteps.Matrix
