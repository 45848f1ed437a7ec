import LightClient.Packed.Cursor

/-!
Reads and writes as data, so that any sequence of them can be run, also on after a read that
failed.
-/

namespace LightClient

inductive WriteStep where
  | u8 (value : UInt8)
  | u16 (value : UInt16)
  | u32 (value : UInt32)
  | u64 (value : UInt64)
  | varuint (value : UInt32)
  | raw (bytes : List UInt8)
  | bytes (bytes : List UInt8)

namespace WriteStep

def written : WriteStep → List UInt8
  | .u8 value => littleEndian 1 value.toNat
  | .u16 value => littleEndian 2 value.toNat
  | .u32 value => littleEndian 4 value.toNat
  | .u64 value => littleEndian 8 value.toNat
  | .varuint value => LightClient.varuint value
  | .raw data => data
  | .bytes data => packBytes data

def writeAll (steps : List WriteStep) : List UInt8 :=
  steps.flatMap written

end WriteStep

inductive ReadStep where
  | u8 (field : String)
  | u16 (field : String)
  | u32 (field : String)
  | u64 (field : String)
  | varuint (field : String)
  | exact (n : Nat) (field : String)
  | length (field : String) (minSize : Nat)
  | bytes (field : String)
  | finish (record : String)

inductive ReadValue where
  | number (n : Nat)
  | bytes (bytes : List UInt8)
  | done
  deriving DecidableEq

namespace ReadStep

def decoder : ReadStep → Decoder ReadValue
  | .u8 field => (.number ·.toNat) <$> Decoder.u8 field
  | .u16 field => (.number ·.toNat) <$> Decoder.u16 field
  | .u32 field => (.number ·.toNat) <$> Decoder.u32 field
  | .u64 field => (.number ·.toNat) <$> Decoder.u64 field
  | .varuint field => (.number ·.toNat) <$> Decoder.varuint32 field
  | .exact n field => .bytes <$> Decoder.exact n field
  | .length field minSize => .number <$> Decoder.length field minSize
  | .bytes field => .bytes <$> Decoder.bytes field
  | .finish record => (fun _ => .done) <$> Decoder.finish record

/-- Each read's result and the cursor after it; a read that fails leaves the next one at the
place that it reached. -/
def trace (c : Cursor) : List ReadStep → List (Except DecodeError ReadValue × Cursor)
  | [] => []
  | step :: steps =>
    let outcome := step.decoder.run c
    outcome :: trace outcome.2 steps

end ReadStep

end LightClient
