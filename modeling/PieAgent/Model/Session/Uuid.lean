import PieAgent.JavaScript.Core.Json

/-! # Session ids

An id is a UUID of version 7: 48 bits of a timestamp, 32 bits of a sequence number around the version and the variant,
and random bits. The module keeps the timestamp and the sequence number of the last id; a clock that stands still or
runs backwards counts the sequence number up instead, and the timestamp when that overflows.
-/

namespace PieAgent.Model.Uuid

open JavaScript

/-- The module variables. The timestamp is absent where the source has `-Infinity`. -/
structure Generator where
  lastTimestamp : Option ℤ := none
  sequence : UInt32 := 0

/-- What a call draws from outside: the clock and sixteen random bytes. -/
structure Draw where
  timestamp : ℤ
  random : Fin 16 → UInt8

/-- `x & 0xff` for a number of which `x` is the integral part. -/
def lowByte (x : ℤ) : UInt8 := UInt8.ofNat (x % 256).toNat

/-- The sequence number that a new timestamp starts with. -/
def Draw.sequence (draw : Draw) : UInt32 :=
  (draw.random 6).toUInt32 * 0x1000000 + (draw.random 7).toUInt32 * 0x10000 + (draw.random 8).toUInt32 * 0x100 +
    (draw.random 9).toUInt32

/-- The timestamp and the sequence number of the next id. -/
def Generator.advance (generator : Generator) (draw : Draw) : ℤ × UInt32 :=
  match generator.lastTimestamp with
  | none => (draw.timestamp, draw.sequence)
  | some lastTimestamp =>
    if lastTimestamp < draw.timestamp then (draw.timestamp, draw.sequence)
    else
      let sequence := generator.sequence + 1
      (if sequence = 0 then lastTimestamp + 1 else lastTimestamp, sequence)

/-- The sixteen bytes. A division of the timestamp is cut off towards zero by `&`. -/
def idBytes (lastTimestamp : ℤ) (sequence : UInt32) (random : Fin 16 → UInt8) : List UInt8 :=
  [lowByte (lastTimestamp.tdiv 0x10000000000), lowByte (lastTimestamp.tdiv 0x100000000),
    lowByte (lastTimestamp.tdiv 0x1000000), lowByte (lastTimestamp.tdiv 0x10000), lowByte (lastTimestamp.tdiv 0x100),
    lowByte lastTimestamp, ((0x70 : UInt32) ||| sequence >>> 28 &&& 0x0F).toUInt8, (sequence >>> 20 &&& 0xFF).toUInt8,
    ((0x80 : UInt32) ||| sequence >>> 14 &&& 0x3F).toUInt8, (sequence >>> 6 &&& 0xFF).toUInt8,
    ((sequence &&& 0x3F) <<< 2 ||| (random 10 &&& 0x03).toUInt32).toUInt8, random 11, random 12, random 13, random 14,
    random 15]

/-- `byte.toString(16).padStart(2, "0")`. -/
def byteHex (byte : UInt8) : JsString := ofText [hexDigit (byte.toNat / 16), hexDigit (byte.toNat % 16)]

def formatUuid (bytes : List UInt8) : JsString :=
  let hex := bytes.map byteHex
  (hex.take 4).flatten ++ js "-" ++ ((hex.take 6).drop 4).flatten ++ js "-" ++ ((hex.take 8).drop 6).flatten ++ js "-" ++
    ((hex.take 10).drop 8).flatten ++ js "-" ++ ((hex.take 16).drop 10).flatten

/-- `uuidv7`: the id and the new module variables. -/
def uuidv7 (generator : Generator) (draw : Draw) : JsString × Generator :=
  let (lastTimestamp, sequence) := generator.advance draw
  (formatUuid (idBytes lastTimestamp sequence draw.random), { lastTimestamp := some lastTimestamp, sequence })

/-- The timestamps and the ids of a sequence of calls. -/
def uuids : Generator → List Draw → List (ℤ × JsString)
  | _, [] => []
  | generator, draw :: draws =>
    ((generator.advance draw).1, (uuidv7 generator draw).1) :: uuids (uuidv7 generator draw).2 draws

end PieAgent.Model.Uuid
