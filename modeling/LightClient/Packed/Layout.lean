import LightClient.Packed.Cursor

/-!
Types with a packed layout: numbers, sequences behind their length, and optional values behind a
tag byte.
-/

namespace LightClient

/-- A type whose values are written as packed bytes. -/
class Layout (α : Type) where
  pack : α → List UInt8
  unpack : Decoder α
  /-- No value takes fewer bytes. -/
  minSize : Nat := 1
  /-- The name under which bytes left after a whole value are reported. -/
  record : String

export Layout (pack unpack)

def fromPacked {α : Type} [Layout α] (bytes : List UInt8) : Except DecodeError α :=
  unpack.whole (Layout.record α) bytes

instance : Layout UInt8 where
  pack n := littleEndian 1 n.toNat
  unpack := .u8 "u8"
  record := "u8"

instance : Layout UInt16 where
  pack n := littleEndian 2 n.toNat
  unpack := .u16 "u16"
  minSize := 2
  record := "u16"

instance : Layout UInt32 where
  pack n := littleEndian 4 n.toNat
  unpack := .u32 "u32"
  minSize := 4
  record := "u32"

instance : Layout UInt64 where
  pack n := littleEndian 8 n.toNat
  unpack := .u64 "u64"
  minSize := 8
  record := "u64"

instance {α : Type} [Layout α] : Layout (List α) where
  pack items := varuint (lengthPrefix items.length) ++ items.flatMap pack
  unpack := do
    let n ← Decoder.length "sequence" (Layout.minSize α)
    Decoder.replicate unpack n
  record := "alloc::vec::Vec<" ++ Layout.record α ++ ">"

instance {α : Type} [Layout α] : Layout (Option α) where
  pack
    | none => [0]
    | some a => 1 :: pack a
  unpack := do
    let tag ← Decoder.u8 "optional tag"
    match tag.toNat with
    | 0 => return none
    | 1 => some <$> unpack
    | n => throw (.invalidValue "optional tag" n)
  record := "core::option::Option<" ++ Layout.record α ++ ">"

end LightClient
