import NumericSteps.Matrix.Norm
import NumericSteps.Matrix.Product

namespace NumericSteps

/-- A reflection in a hyperplane, the normal scaled so that its first entry is one. -/
structure Reflection where
  /-- The entries of the normal after the first. -/
  tail : List Float
  /-- Half the square of the length of the normal; infinite where nothing is reflected. -/
  half : Float

namespace Reflection

def apply (r : Reflection) : List Float → List Float
  | [] => []
  | x :: xs =>
    let share := (x + Matrix.dot r.tail xs) / r.half
    (x - share) :: List.zipWith (fun t y => y - share * t) r.tail xs

/-- What comes after the first entry of a vector counts as zeros if it is shorter than this, the
least normal double. -/
def negligible : Float := Double.ofCode false Double.normalCode

/-- The reflection that clears a vector after its first entry, and what it makes of that entry. -/
def clearing : List Float → Reflection × Float
  | [] => (⟨[], 1.0 / 0.0⟩, 0.0)
  | x :: xs =>
    let rest := Matrix.vectorLength xs
    if rest < negligible then (⟨xs.map fun _ => 0.0, 1.0 / 0.0⟩, x)
    else
      let size := Matrix.hypotenuse x rest
      let first := if x < 0.0 then x - size else x + size
      let ratio := rest / first
      (⟨xs.map (· / first), (1.0 + ratio * ratio) / 2.0⟩, if x < 0.0 then size else -size)

/-- The product of reflections, applied to a vector. Each of them leaves as many entries in front
alone as there are reflections before it. -/
def product : List Reflection → List Float → List Float
  | [], xs => xs
  | _ :: _, [] => []
  | r :: rs, x :: xs => r.apply (x :: product rs xs)

/-- The reflections that bring vectors to triangular form, with the diagonal. -/
def triangular : List (List Float) → List (Reflection × Float)
  | [] => []
  | x :: xs =>
    let cleared := clearing x
    cleared :: triangular (xs.map fun y => (cleared.1.apply y).tail)
termination_by xs => xs.length
decreasing_by simp

end Reflection

/-- Row `j` of the identity matrix of `n` rows. -/
def unitVector (n j : Nat) : List Float := (List.range n).map fun i => if i = j then 1.0 else 0.0

/-- An orthonormal basis whose first members point along the given orthogonal vectors. -/
def orthonormalBasis (n : Nat) (xs : List (List Float)) : List (List Float) :=
  let steps := Reflection.triangular xs
  (List.range n).map fun j =>
    let v := Reflection.product (steps.map Prod.fst) (unitVector n j)
    if (steps.map Prod.snd).getD j 0.0 < 0.0 then v.map (- ·) else v

end NumericSteps
