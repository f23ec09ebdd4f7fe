/-!
# Inflating

Deflated data is a sequence of blocks. A block is stored, or it holds literals and references to
earlier bytes in a prefix code, which is fixed or described at its start.

* `Inflate.Code.ofLengths?` is the canonical code with some lengths.
* `Inflate.run` inflates; its flag says whether the data were whole.
-/

namespace TableExport.Inflate

/-- A canonical prefix code: the number of symbols of each length, and the symbols in order. -/
structure Code where
  counts : Array Nat
  symbols : Array Nat

/-- The reader: the data, the position of the next bit, and the bytes written so far. -/
structure State where
  data : ByteArray
  position : Nat
  output : ByteArray

/-- The next bit. -/
def State.bit (state : State) : Option (Nat × State) :=
  (state.data[state.position / 8]?).map fun byte =>
    ((byte.toNat >>> (state.position % 8)) % 2, { state with position := state.position + 1 })

/-- The next bits as a number, the least significant first. -/
def State.bits (state : State) : Nat → Option (Nat × State)
  | 0 => some (0, state)
  | count + 1 => do
    let (low, state) ← state.bit
    let (high, state) ← state.bits count
    return (low + 2 * high, state)

/-- Whether there are codes for the numbers of symbols of each length, the shortest length first;
`left` codes are left of the length before. -/
def hasCodes (left : Nat) : List Nat → Bool
  | [] => true
  | count :: rest => count ≤ 2 * left && hasCodes (2 * left - count) rest

/-- The canonical code in which each symbol has a length, and 0 stands for none. There is none when
the lengths need more codes than there are. -/
def Code.ofLengths? (lengths : List Nat) : Option Code :=
  let counts := (List.range 16).map fun length => (lengths.filter (· == length)).length
  if hasCodes 1 (counts.drop 1) then
    let symbols := (List.range 15).flatMap fun i =>
      (lengths.zipIdx.filter fun entry => entry.1 == i + 1).map Prod.snd
    some ⟨counts.toArray, symbols.toArray⟩
  else none

/-- Reads a symbol bit by bit. `code` is the value of the bits so far, `first` the first code of
their length and `index` the place of its symbol. -/
def Code.symbolFrom (code : Code) (value first index : Nat) (length : Nat) (state : State) :
    Nat → Option (Nat × State)
  | 0 => none
  | left + 1 => do
    let (bit, state) ← state.bit
    let value := value + bit
    let count := code.counts[length]?.getD 0
    if value < first + count then
      (code.symbols[index + (value - first)]?).map fun symbol => (symbol, state)
    else code.symbolFrom (2 * value) (2 * (first + count)) (index + count) (length + 1) state left

/-- Reads a symbol. -/
def Code.symbol (code : Code) (state : State) : Option (Nat × State) :=
  code.symbolFrom 0 0 0 1 state 15

/-- The least lengths of references and the bits that follow their symbols. -/
def lengthBases : Array (Nat × Nat) :=
  #[(3, 0), (4, 0), (5, 0), (6, 0), (7, 0), (8, 0), (9, 0), (10, 0), (11, 1), (13, 1), (15, 1),
    (17, 1), (19, 2), (23, 2), (27, 2), (31, 2), (35, 3), (43, 3), (51, 3), (59, 3), (67, 4),
    (83, 4), (99, 4), (115, 4), (131, 5), (163, 5), (195, 5), (227, 5), (258, 0)]

/-- The least distances of references and the bits that follow their symbols. -/
def distanceBases : Array (Nat × Nat) :=
  #[(1, 0), (2, 0), (3, 0), (4, 0), (5, 1), (7, 1), (9, 2), (13, 2), (17, 3), (25, 3), (33, 4),
    (49, 4), (65, 5), (97, 5), (129, 6), (193, 6), (257, 7), (385, 7), (513, 8), (769, 8),
    (1025, 9), (1537, 9), (2049, 10), (3073, 10), (4097, 11), (6145, 11), (8193, 12), (12289, 12),
    (16385, 13), (24577, 13)]

/-- Writes bytes again that stand some way back. -/
def copyBack (output : ByteArray) (distance : Nat) : Nat → ByteArray
  | 0 => output
  | count + 1 =>
    copyBack (output.push ((output[output.size - distance]?).getD 0)) distance count

/-- Reads literals and references up to the end of a block. Each symbol takes at least one bit, so
`fuel` is the number of bits. A failure keeps what was written. -/
def symbols (literals distances : Code) : Nat → State → State × Bool
  | 0, state => (state, false)
  | fuel + 1, state =>
    match literals.symbol state with
    | none => (state, false)
    | some (symbol, next) =>
      if symbol < 256 then
        symbols literals distances fuel
          { next with output := next.output.push symbol.toUInt8 }
      else if symbol = 256 then (next, true)
      else
        let reference : Option (Nat × Nat × State) := do
          let (base, extra) ← lengthBases[symbol - 257]?
          let (more, next) ← next.bits extra
          let (symbol, next) ← distances.symbol next
          let (start, extra) ← distanceBases[symbol]?
          let (further, next) ← next.bits extra
          return (base + more, start + further, next)
        match reference with
        | none => (state, false)
        | some (length, distance, next) =>
          if next.output.size < distance then (next, false)
          else
            symbols literals distances fuel
              { next with output := copyBack next.output distance length }

/-- Copies a number of stored bytes from a whole byte on. -/
def copyStored (state : State) : Nat → State × Bool
  | 0 => (state, true)
  | count + 1 =>
    match state.data[state.position / 8]? with
    | some byte =>
      copyStored { state with position := state.position + 8, output := state.output.push byte }
        count
    | none => (state, false)

/-- A stored block: its length, the complement of it, and the bytes. -/
def stored (state : State) : State × Bool :=
  let state := { state with position := (state.position + 7) / 8 * 8 }
  let header : Option (Nat × State) := do
    let (length, state) ← state.bits 16
    let (complement, state) ← state.bits 16
    if length + complement = 65535 then some (length, state) else none
  match header with
  | some (length, state) => copyStored state length
  | none => (state, false)

/-- The lengths of the fixed code of literals. -/
def fixedLengths : List Nat :=
  List.replicate 144 8 ++ List.replicate 112 9 ++ List.replicate 24 7 ++ List.replicate 8 8

/-- The order in which the lengths of the code for lengths come. -/
def lengthOrder : List Nat := [16, 17, 18, 0, 8, 7, 9, 6, 10, 5, 11, 4, 12, 3, 13, 2, 14, 1, 15]

/-- Reads lengths of three bits. -/
def readLengths (state : State) : Nat → Option (List Nat × State)
  | 0 => some ([], state)
  | count + 1 => do
    let (length, state) ← state.bits 3
    let (rest, state) ← readLengths state count
    return (length :: rest, state)

/-- Reads `count` code lengths, where some symbols repeat the last length or zero. The lengths so
far are in reverse. -/
def codeLengths (code : Code) (count : Nat) :
    Nat → List Nat → State → Option (List Nat × State)
  | 0, _, _ => none
  | fuel + 1, lengths, state =>
    if lengths.length = count then some (lengths.reverse, state)
    else if count < lengths.length then none
    else do
      let (symbol, state) ← code.symbol state
      if symbol < 16 then codeLengths code count fuel (symbol :: lengths) state
      else if symbol = 16 then
        let last ← lengths.head?
        let (more, state) ← state.bits 2
        codeLengths code count fuel (List.replicate (3 + more) last ++ lengths) state
      else if symbol = 17 then
        let (more, state) ← state.bits 3
        codeLengths code count fuel (List.replicate (3 + more) 0 ++ lengths) state
      else
        let (more, state) ← state.bits 7
        codeLengths code count fuel (List.replicate (11 + more) 0 ++ lengths) state

/-- The codes that a block describes at its start. -/
def describedCodes (state : State) : Option (Code × Code × State) := do
  let (literalCount, state) ← state.bits 5
  let (distanceCount, state) ← state.bits 5
  let (lengthCount, state) ← state.bits 4
  let (given, state) ← readLengths state (lengthCount + 4)
  let pairs := lengthOrder.zip given
  let lengthCode ← Code.ofLengths? ((List.range 19).map fun i => (pairs.lookup i).getD 0)
  let total := literalCount + 257 + (distanceCount + 1)
  let (lengths, state) ← codeLengths lengthCode total (total + 1) [] state
  let literals ← Code.ofLengths? (lengths.take (literalCount + 257))
  let distances ← Code.ofLengths? (lengths.drop (literalCount + 257))
  return (literals, distances, state)

/-- The number of bits of the data. -/
def State.bitCount (state : State) : Nat := 8 * state.data.size

/-- The body of a block of a kind. -/
def block (kind : Nat) (state : State) : State × Bool :=
  match kind with
  | 0 => stored state
  | 1 =>
    match Code.ofLengths? fixedLengths, Code.ofLengths? (List.replicate 30 5) with
    | some literals, some distances => symbols literals distances (state.bitCount + 1) state
    | _, _ => (state, false)
  | 2 =>
    match describedCodes state with
    | some (literals, distances, state) =>
      symbols literals distances (state.bitCount + 1) state
    | none => (state, false)
  | _ => (state, false)

/-- Reads blocks up to the last one. Each takes at least three bits. -/
def blocks : Nat → State → State × Bool
  | 0, state => (state, false)
  | fuel + 1, state =>
    let header : Option (Nat × Nat × State) := do
      let (last, state) ← state.bit
      let (kind, state) ← state.bits 2
      return (last, kind, state)
    match header with
    | none => (state, false)
    | some (last, kind, state) =>
      let (state, whole) := block kind state
      if !whole then (state, false)
      else if last = 1 then (state, true)
      else blocks fuel state

/-- The inflated data, and whether the data were whole. -/
def run (data : ByteArray) : ByteArray × Bool :=
  let (state, whole) := blocks (8 * data.size + 1) ⟨data, 0, ByteArray.empty⟩
  (state.output, whole)

end TableExport.Inflate
