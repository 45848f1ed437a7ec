import LightClient.Json.Reader
import LightClient.Packed.Layout
import LightClient.Sha256

/-!
Digests: hashes, and byte strings of the same width.
-/

namespace LightClient

structure Digest where
  bytes : List UInt8
  length_bytes : bytes.length = 32
  deriving DecidableEq

namespace Digest

def size : Nat := 32

def zero : Digest := ⟨List.replicate 32 0, rfl⟩

instance : Inhabited Digest := ⟨zero⟩

def hash (message : List UInt8) : Digest :=
  ⟨Sha256.hash message, Sha256.length_hash message⟩

def isZero (d : Digest) : Bool :=
  d = zero

inductive ParseError where
  | hex (e : Hex.Error)
  | wrongSize (size : Nat)
  deriving DecidableEq

/-- The reason, without saying that it is about malformed input. -/
def ParseError.reason : ParseError → String
  | .hex e => "invalid digest hex: " ++ e.message
  | .wrongSize size => s!"digest must be 32 bytes, got {size}"

def ParseError.message (e : ParseError) : String :=
  "malformed input: " ++ e.reason

def ofBytes (bytes : List UInt8) : Except ParseError Digest :=
  if h : bytes.length = 32 then .ok ⟨bytes, h⟩ else .error (.wrongSize bytes.length)

/-- The text without one leading `0x`. -/
def dropMark (text : String) : String :=
  match text.toList with
  | '0' :: 'x' :: rest => String.ofList rest
  | _ => text

/-- Reads 64 hexadecimal digits, which may stand behind one `0x`. -/
def ofHex (text : String) : Except ParseError Digest := do
  let bytes ← (Hex.decode (dropMark text)).mapError .hex
  ofBytes bytes

/-- The digest in 64 lower-case digits. -/
def toHex (d : Digest) : String :=
  Hex.encode d.bytes

instance : ToString Digest := ⟨toHex⟩

def label (d : Digest) : String :=
  s!"Digest({d})"

instance : Layout Digest where
  pack d := d.bytes
  unpack := (fun b => ⟨b.1, b.2⟩) <$> Decoder.sized 32 "digest"
  minSize := 32
  record := "ibc_merkle::digest::Digest"

instance : JsonForm Digest where
  toJson d := .string d.toHex
  ofJson _ := Json.viaText fun s => (ofHex s).mapError ParseError.message

end Digest

end LightClient
