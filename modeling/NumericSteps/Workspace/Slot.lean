namespace NumericSteps

/-- A file of the workspace by its part in the workflow. -/
inductive Slot
  /-- The computed matrix that is checked. -/
  | matrixIn
  /-- The matrix it is checked against. -/
  | matrixOut
  | factorU
  | factorS
  | factorVt
  /-- The current approximation. -/
  | approxOld
  | grad
  /-- The next approximation. -/
  | approxNew
  /-- The value at which the descent ended. -/
  | solution
  | approxLog
deriving DecidableEq, Repr

namespace Slot

def all : List Slot :=
  [.matrixIn, .matrixOut, .factorU, .factorS, .factorVt, .approxOld, .grad, .approxNew,
    .solution, .approxLog]

theorem mem_all (s : Slot) : s ∈ all := by
  cases s <;> decide

theorem all_nodup : all.Nodup := by decide

/-- The word for a slot in messages. -/
def title : Slot → String
  | .matrixIn => "MatrixIn"
  | .matrixOut => "MatrixOut"
  | .factorU => "FactorU"
  | .factorS => "FactorS"
  | .factorVt => "FactorVt"
  | .approxOld => "ApproxOld"
  | .grad => "Grad"
  | .approxNew => "ApproxNew"
  | .solution => "Solution"
  | .approxLog => "ApproxLog"

/-- The key of a slot in a table of names; it is the default name of all but the factors. -/
def key : Slot → String
  | .matrixIn => "matrix_in"
  | .matrixOut => "matrix_out"
  | .factorU => "factor_u"
  | .factorS => "factor_s"
  | .factorVt => "factor_vt"
  | .approxOld => "approx_old"
  | .grad => "grad"
  | .approxNew => "approx_new"
  | .solution => "solution"
  | .approxLog => "approx_log"

end Slot

/-- A file name for every slot. -/
structure FileNames where
  matrixIn : String := "matrix_in"
  matrixOut : String := "matrix_out"
  factorU : String := "m1"
  factorS : String := "m2"
  factorVt : String := "m3"
  approxOld : String := "approx_old"
  grad : String := "grad"
  approxNew : String := "approx_new"
  solution : String := "solution"
  approxLog : String := "approx_log"
deriving DecidableEq, Repr

namespace FileNames

def name (t : FileNames) : Slot → String
  | .matrixIn => t.matrixIn
  | .matrixOut => t.matrixOut
  | .factorU => t.factorU
  | .factorS => t.factorS
  | .factorVt => t.factorVt
  | .approxOld => t.approxOld
  | .grad => t.grad
  | .approxNew => t.approxNew
  | .solution => t.solution
  | .approxLog => t.approxLog

def rename (t : FileNames) (s : Slot) (n : String) : FileNames :=
  match s with
  | .matrixIn => { t with matrixIn := n }
  | .matrixOut => { t with matrixOut := n }
  | .factorU => { t with factorU := n }
  | .factorS => { t with factorS := n }
  | .factorVt => { t with factorVt := n }
  | .approxOld => { t with approxOld := n }
  | .grad => { t with grad := n }
  | .approxNew => { t with approxNew := n }
  | .solution => { t with solution := n }
  | .approxLog => { t with approxLog := n }

theorem name_rename (t : FileNames) (s r : Slot) (n : String) :
    (t.rename s n).name r = if r = s then n else t.name r := by
  cases s <;> cases r <;> rfl

theorem ext_name (t u : FileNames) (h : ∀ s, t.name s = u.name s) : t = u := by
  cases t
  cases u
  have a := h .matrixIn
  have b := h .matrixOut
  have c := h .factorU
  have d := h .factorS
  have e := h .factorVt
  have f := h .approxOld
  have g := h .grad
  have i := h .approxNew
  have j := h .solution
  have k := h .approxLog
  simp only [name] at a b c d e f g i j k
  subst a b c d e f g i j k
  rfl

end FileNames

end NumericSteps
