import LightClient.Json.Reader
import LightClient.Packed.Layout

/-!
Public keys of block producers: a curve and a compressed point, which is never looked into.
-/

namespace LightClient

inductive Curve where
  | k1
  | r1
  deriving DecidableEq

namespace Curve

def index : Curve → UInt32
  | .k1 => 0
  | .r1 => 1

def text : Curve → String
  | .k1 => "K1"
  | .r1 => "R1"

end Curve

/-- A curve and a compressed point on it. -/
structure PublicKey where
  curve : Curve
  point : List UInt8
  length_point : point.length = 33
  deriving DecidableEq

namespace PublicKey

inductive ParseError where
  | noCurve (text : String)
  | unknownCurve (curve : String)
  | hex (e : Hex.Error)
  | wrongSize (size : Nat)
  deriving DecidableEq

def ParseError.message : ParseError → String
  | .noCurve text => "malformed input: public key " ++ Quoted.text text ++ " has no type prefix"
  | .unknownCurve curve => "malformed input: unsupported key type " ++ Quoted.text curve
  | .hex e => "malformed input: invalid public key hex: " ++ e.message
  | .wrongSize size => s!"malformed input: public key must be 33 bytes, got {size}"

def curveOf (name : String) : Except ParseError Curve :=
  if name = "K1" then .ok .k1
  else if name = "R1" then .ok .r1
  else .error (.unknownCurve name)

def ofPoint (curve : Curve) (point : List UInt8) : Except ParseError PublicKey :=
  if h : point.length = 33 then .ok ⟨curve, point, h⟩ else .error (.wrongSize point.length)

/-- Reads the name of a curve, a colon and 66 hexadecimal digits. -/
def ofText (text : String) : Except ParseError PublicKey :=
  let cs := text.toList
  let name := cs.takeWhile (· ≠ ':')
  match cs.drop name.length with
  | [] => .error (.noCurve text)
  | _ :: digits => do
    let curve ← curveOf (String.ofList name)
    let point ← (Hex.decode (String.ofList digits)).mapError .hex
    ofPoint curve point

/-- The key as text, in lower-case digits. -/
def text (key : PublicKey) : String :=
  key.curve.text ++ ":" ++ Hex.encode key.point

instance : ToString PublicKey := ⟨text⟩

def label (key : PublicKey) : String :=
  s!"PublicKey({key})"

def unpackPoint (curve : Curve) : Decoder PublicKey :=
  (fun b => ⟨curve, b.1, b.2⟩) <$> Decoder.sized 33 "public key data"

instance : Layout PublicKey where
  pack key := varuint key.curve.index ++ key.point
  unpack := do
    let index ← Decoder.varuint32 "public key type"
    match index.toNat with
    | 0 => unpackPoint .k1
    | 1 => unpackPoint .r1
    | n => throw (.invalidValue "public key type" n)
  minSize := 34
  record := "ibc_block::key::PublicKey"

instance : JsonForm PublicKey where
  toJson key := .string key.text
  ofJson _ := Json.viaText fun s => (ofText s).mapError ParseError.message

end PublicKey

end LightClient
