import NumericSteps.Matrix.Svd

namespace NumericSteps

/-- The left singular vectors, the square diagonal matrix of singular values, and the right
singular vectors transposed. -/
structure Factors where
  u : Matrix Float
  s : Matrix Float
  vt : Matrix Float

namespace Factors

def ofSvd (f : Svd) : Factors := ⟨f.u, f.sigma, f.vt⟩

def decomposeWith (routine : Matrix Float → SvdMode → Except String Svd.Found) (a : Matrix Float)
    (mode : SvdMode) : Except Failure Factors :=
  (Svd.decomposeWith routine a mode).map ofSvd

def recomposeWith (times : Grid Float → Grid Float → Grid Float) (u s vt : Matrix Float) :
    Except Failure (Matrix Float) :=
  Matrix.chainWith times [u, s, vt]

def decompose : Matrix Float → SvdMode → Except Failure Factors := decomposeWith Svd.rotations

def recompose : Matrix Float → Matrix Float → Matrix Float → Except Failure (Matrix Float) :=
  recomposeWith Grid.times

end Factors

end NumericSteps
