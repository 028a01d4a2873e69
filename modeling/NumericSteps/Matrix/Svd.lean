import NumericSteps.Matrix.Bidiagonal

namespace NumericSteps

/-- Whether the orthogonal factors are square, or have as many columns and rows as there are
singular values. -/
inductive SvdMode
  | full
  | thin
deriving DecidableEq, Repr

namespace SvdMode

def key : SvdMode → String
  | .full => "full"
  | .thin => "thin"

def ofKey? (k : String) : Option SvdMode :=
  if k = "full" then some .full else if k = "thin" then some .thin else none

/-- The number of columns of the left factor, or of rows of the right one. -/
def width : SvdMode → Nat → Nat → Nat
  | .full, whole, _ => whole
  | .thin, _, k => k

end SvdMode

/-- The factors of a decomposition. -/
structure Svd where
  u : Matrix Float
  /-- The singular values from the largest down. -/
  values : List Float
  vt : Matrix Float

namespace Svd

def rankBound (f : Svd) : Nat := f.values.length

def sigma (f : Svd) : Matrix Float := Matrix.diagonal f.values

def largest (f : Svd) : Float := f.values.head?.getD 0

def smallest (f : Svd) : Float := f.values.getLast?.getD 0

def combine (a : Float) (x : List Float) (b : Float) (y : List Float) : List Float :=
  List.zipWith (fun p q => a * p + b * q) x y

/-- A combination of unit vectors, and the same combination of the columns of a matrix. -/
structure Column where
  image : List Float
  source : List Float

def Column.combine (a : Float) (x : Column) (b : Float) (y : Column) : Column :=
  ⟨Svd.combine a x.image b y.image, Svd.combine a x.source b y.source⟩

def Column.length (x : Column) : Float := Matrix.vectorLength x.image

def precision : Float := 1e-14

/-- Rotates two columns so that their images are orthogonal; tells if they were not already. -/
def orthogonalize (x y : Column) : Bool × Column × Column :=
  let alpha := Matrix.dot x.image x.image
  let beta := Matrix.dot y.image y.image
  let gamma := Matrix.dot x.image y.image
  if gamma.abs ≤ precision * (alpha * beta).sqrt then (false, x, y)
  else
    let zeta := (beta - alpha) / (2.0 * gamma)
    let root := zeta.abs + Matrix.hypotenuse 1.0 zeta
    let t := if zeta < 0.0 then -1.0 / root else 1.0 / root
    let c := 1.0 / (1.0 + t * t).sqrt
    let s := c * t
    (true, .combine c x (-s) y, .combine s x c y)

/-- Rotates a column against each of the others in turn. -/
def against (x : Column) : List Column → Bool × Column × List Column
  | [] => (false, x, [])
  | y :: ys =>
    let (turned, x₁, y₁) := orthogonalize x y
    let (more, x₂, ys₁) := against x₁ ys
    (turned || more, x₂, y₁ :: ys₁)

theorem against_length (x : Column) (ys : List Column) :
    (against x ys).2.2.length = ys.length := by
  induction ys generalizing x with
  | nil => rfl
  | cons y ys ih => simp [against, ih]

/-- Rotates every pair of columns once. -/
def sweep : List Column → Bool × List Column
  | [] => (false, [])
  | x :: xs =>
    let turned := against x xs
    let rest := sweep turned.2.2
    (turned.1 || rest.1, turned.2.1 :: rest.2)
termination_by xs => xs.length
decreasing_by
  simp only [List.length_cons, against_length]
  omega

/-- Sweeps until no pair turns, at most `fuel` times. -/
def settle : Nat → List Column → List Column
  | 0, xs => xs
  | fuel + 1, xs =>
    let swept := sweep xs
    if swept.1 then settle fuel swept.2 else swept.2

def sortByLength (xs : List Column) : List Column :=
  ((xs.map fun x => (x.length, x)).mergeSort fun a b => b.1 ≤ a.1).map Prod.snd

/-- Orthonormal vectors for the columns of a tall matrix and for its rows, and the lengths. -/
structure Axes where
  left : List (List Float)
  lengths : List Float
  right : List (List Float)

/-- The axes of the square matrix with the given columns. -/
def squareAxes (columns : List (List Float)) : Axes :=
  let n := columns.length
  let start := List.zipWith Column.mk columns ((List.range n).map (unitVector n))
  let settled := sortByLength (settle 60 start)
  ⟨orthonormalBasis n (settled.map Column.image), settled.map Column.length,
    settled.map Column.source⟩

/-- The largest magnitude, as a power of two; at least the least normal double. -/
def scaleOf (xs : List Float) : Float :=
  let top := xs.foldl (fun acc x => if acc < x.abs then x.abs else acc) 0.0
  Double.ofCode false (max 1 (Double.code top / Double.normalCode) * Double.normalCode)

/-- The axes of the matrix with the given columns, at least as many entries `m` in each as there
are columns. The reduced matrix is scaled to entries of about one. -/
def axes (m : Nat) (columns : List (List Float)) : Option Axes :=
  let n := columns.length
  let b := Bidiagonal.reduce m n columns
  if b.isFinite then
    let scale := scaleOf (b.diagonal ++ b.above)
    let found := squareAxes (b.columns.map (·.map (· / scale)))
    let inside := found.left.map (· ++ List.replicate (m - n) 0.0)
    let outside := (List.range (m - n)).map fun j => unitVector m (n + j)
    some ⟨(inside ++ outside).map b.applyLeft, found.lengths.map (· * scale),
      found.right.map b.applyRight⟩
  else none

def entry (vectors : List (List Float)) (j i : Nat) : Float := (vectors.getD j []).getD i 0.0

/-- The axes of the shorter side and of the longer side of a matrix. -/
def axesOf (a : Matrix Float) : Option Axes :=
  if a.cols ≤ a.rows then axes a.rows a.transpose.rowList
  else (axes a.cols a.rowList).map fun x => ⟨x.right, x.lengths, x.left⟩

/-- What a routine finds for a matrix with elements: the singular vectors of both sides as columns,
and the singular values by rank. -/
structure Found where
  u : Grid Float
  values : Nat → Float
  v : Grid Float

/-- The decomposition by any routine for matrices with elements, which may fail for a reason. A matrix
without elements has factors of the asked shapes and no singular values. -/
def decomposeWith (routine : Matrix Float → SvdMode → Except String Found) (a : Matrix Float)
    (mode : SvdMode) : Except Failure Svd :=
  if min a.rows a.cols = 0 then
    match mode with
    | .full => .ok ⟨Matrix.identity a.rows, [], Matrix.identity a.cols⟩
    | .thin => .ok ⟨Matrix.zeros a.rows 0, [], Matrix.zeros 0 a.cols⟩
  else
    match routine a mode with
    | .error reason => .error (.noDecomposition reason)
    | .ok x => .ok ⟨x.u.copy, (List.range (min a.rows a.cols)).map x.values, x.v.copy.transpose⟩

/-- The routine of the workflow. It finds nothing for a matrix with an element that is no finite number, or
so large that the reduction leaves the range of doubles. -/
def rotations (a : Matrix Float) (mode : SvdMode) : Except String Found :=
  let k := min a.rows a.cols
  match if a.data.all Float.isFinite then axesOf a else none with
  | none => .error "NoConvergence"
  | some x => .ok {
      u := ⟨a.rows, mode.width a.rows k, fun i j => entry x.left j i⟩
      values := fun i => x.lengths.getD i 0.0
      v := ⟨a.cols, mode.width a.cols k, fun i j => entry x.right j i⟩ }

def decompose : Matrix Float → SvdMode → Except Failure Svd := decomposeWith rotations

end Svd

end NumericSteps
