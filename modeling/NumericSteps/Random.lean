namespace NumericSteps.Random

abbrev Words := List UInt32

def rotateLeft (x : UInt32) (n : UInt32) : UInt32 := (x <<< n) ||| (x >>> (32 - n))

def rotateRight (x : UInt32) (n : UInt32) : UInt32 :=
  if n = 0 then x else (x >>> n) ||| (x <<< (32 - n))

/-- One step of the generator that spreads a seed. -/
def spreadStep (s : UInt64) : UInt64 := s * 6364136223846793005 + 11634580027462260723

def spreadWord (s : UInt64) : UInt32 :=
  rotateRight (((s >>> 18) ^^^ s) >>> 27).toUInt32 (s >>> 59).toUInt32

def spread : Nat → UInt64 → Words
  | 0, _ => []
  | n + 1, s =>
    let next := spreadStep s
    spreadWord next :: spread n next

/-- The key of a ChaCha stream, spread from a seed by a permuted congruential generator. -/
def keyOf (seed : UInt64) : Words := spread 8 seed

def word (ws : Words) (i : Nat) : UInt32 := ws.getD i 0

def quarterRound (a b c d : Nat) (ws : Words) : Words :=
  let wa := word ws a + word ws b
  let wd := rotateLeft (word ws d ^^^ wa) 16
  let wc := word ws c + wd
  let wb := rotateLeft (word ws b ^^^ wc) 12
  let wa := wa + wb
  let wd := rotateLeft (wd ^^^ wa) 8
  let wc := wc + wd
  let wb := rotateLeft (wb ^^^ wc) 7
  (((ws.set a wa).set b wb).set c wc).set d wd

/-- A round over the columns and one over the diagonals. -/
def doubleRound (ws : Words) : Words :=
  let columns := quarterRound 3 7 11 15 (quarterRound 2 6 10 14 (quarterRound 1 5 9 13
    (quarterRound 0 4 8 12 ws)))
  quarterRound 3 4 9 14 (quarterRound 2 7 8 13 (quarterRound 1 6 11 12
    (quarterRound 0 5 10 15 columns)))

def constants : Words := [0x61707865, 0x3320646e, 0x79622d32, 0x6b206574]

/-- The block of the stream with a given number. -/
def block (key : Words) (counter : UInt64) : Words :=
  let start := constants ++ key ++ [counter.toUInt32, (counter >>> 32).toUInt32, 0, 0]
  List.zipWith (· + ·) (Nat.repeat doubleRound 6 start) start

/-- Words in pairs, the low one first. -/
def pairs : Words → List UInt64
  | low :: high :: ws => (high.toUInt64 <<< 32 ||| low.toUInt64) :: pairs ws
  | _ => []

/-- A place in the stream: what is left of a block, and the number of the next one. -/
structure Stream where
  key : Words
  counter : UInt64
  ready : List UInt64

namespace Stream

def ofSeed (seed : UInt64) : Stream := ⟨keyOf seed, 0, []⟩

def next (s : Stream) : UInt64 × Stream :=
  match s.ready with
  | x :: xs => (x, { s with ready := xs })
  | [] =>
    match pairs (block s.key s.counter) with
    | x :: xs => (x, { s with counter := s.counter + 1, ready := xs })
    | [] => (0, { s with counter := s.counter + 1 })

end Stream

/-- The double from zero below one that 52 high bits give. -/
def unitFloat (bits : UInt64) : Float :=
  Float.ofBits ((bits >>> 12) ||| 0x3ff0000000000000) - 1.0

def Stream.nextFloat (s : Stream) : Float × Stream :=
  let (bits, rest) := s.next
  (unitFloat bits, rest)

/-- So many numbers of a source, and the source after them. -/
def draw {σ : Type} (next : σ → Float × σ) : Nat → σ → List Float × σ
  | 0, s => ([], s)
  | n + 1, s =>
    let first := next s
    let rest := draw next n first.2
    (first.1 :: rest.1, rest.2)

end NumericSteps.Random
