namespace NumericSteps

abbrev Bytes := List UInt8

namespace Text

def encode (cs : List Char) : Bytes := cs.flatMap String.utf8EncodeChar

/-- The text that bytes encode, if they are valid. -/
def decode (bytes : Bytes) : Option (List Char) :=
  (ByteArray.mk bytes.toArray).utf8Decode?.map Array.toList

def utf8 (s : String) : Bytes := encode s.toList

theorem encode_append (cs ds : List Char) : encode (cs ++ ds) = encode cs ++ encode ds := by
  simp [encode]

theorem encode_flatten (lines : List (List Char)) :
    encode lines.flatten = (lines.map encode).flatten := by
  induction lines with
  | nil => rfl
  | cons line lines ih => rw [List.flatten_cons, encode_append, ih, List.map_cons, List.flatten_cons]

def lineFeed : UInt8 := 10

def carriageReturn : UInt8 := 13

end Text

end NumericSteps
