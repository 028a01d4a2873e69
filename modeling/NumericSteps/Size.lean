namespace NumericSteps.Size

/-- One more than the largest size. -/
def limit : Nat := UInt64.size

/-- A size of a machine of 64 bits; there is none where it does not fit. -/
def fit? (n : Nat) : Option Nat := if n < limit then some n else none

def add? (a b : Nat) : Option Nat := fit? (a + b)

def mul? (a b : Nat) : Option Nat := fit? (a * b)

theorem fit?_eq_some {m n : Nat} : fit? m = some n ↔ m = n ∧ n < limit := by
  unfold fit?
  split
  · rename_i hm
    rw [Option.some.injEq]
    constructor
    · rintro rfl
      exact ⟨rfl, hm⟩
    · exact fun hn => hn.1
  · rename_i hm
    constructor
    · intro hn
      cases hn
    · rintro ⟨rfl, hn⟩
      exact absurd hn hm

theorem add?_eq_some {a b n : Nat} : add? a b = some n ↔ a + b = n ∧ n < limit := fit?_eq_some

theorem mul?_eq_some {a b n : Nat} : mul? a b = some n ↔ a * b = n ∧ n < limit := fit?_eq_some

theorem add?_of_lt {a b : Nat} (h : a + b < limit) : add? a b = some (a + b) := if_pos h

theorem mul?_of_lt {a b : Nat} (h : a * b < limit) : mul? a b = some (a * b) := if_pos h

/-- One more than the most bytes that a buffer can have. -/
def bufferLimit : Nat := 0x8000000000000000

/-- The bytes of so many doubles have to fit a signed 64-bit size. -/
def fits (length : Nat) : Bool := length * 8 < bufferLimit

theorem fits_iff {length : Nat} : fits length = true ↔ length * 8 ≤ 0x7fffffffffffffff := by
  rw [fits, decide_eq_true_iff, bufferLimit]
  omega

end NumericSteps.Size
