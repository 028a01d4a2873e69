import NumericSteps.Proofs.Decimal.Visible
import NumericSteps.Proofs.Text.Lines
import NumericSteps.Proofs.Text.Words

namespace NumericSteps

namespace Scalar

open Text

theorem ofText_line (x : Float) : ofText (line x) = .ok x := by
  have hvisible : ∀ c ∈ chars x, Visible c := visible_chars x
  have hfeed : '\n' ∉ chars x := fun hm => absurd (hvisible '\n' hm) (by decide)
  have htrim : trim (chars x) = chars x := trim_of_not_blank fun c hc => (hvisible c hc).not_blank
  rw [line, ofText_of_first hfeed (Or.inr ⟨[], rfl⟩), htrim, if_neg (chars_ne_nil x), ofWord, read_chars]

/-- The number on the first line of what a file holds. -/
def ofBytes? (bytes : Bytes) : Option Float := (decode bytes).bind fun cs => (ofText cs).toOption

theorem ofBytes?_nil : ofBytes? [] = none := by
  have hd : decode [] = some [] := decode_encode []
  rw [ofBytes?, hd]
  rfl

theorem ofBytes?_line (x : Float) : ofBytes? (encode (line x)) = some x := by
  rw [ofBytes?, decode_encode, Option.bind_some, ofText_line]
  rfl

end Scalar

end NumericSteps
