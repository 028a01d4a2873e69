namespace NumericSteps

/-- Numbers keep their spelling, and a text with half of a surrogate pair in it is kept apart: both matter
only where the value is used. -/
inductive Json
  | null
  | bool (b : Bool)
  | number (spelling : List Char)
  /-- `none` for escapes that name no character. -/
  | text (chars : Option (List Char))
  | array (items : List Json)
  | object (members : List (Option (List Char) × Json))

end NumericSteps
