/-!
Reading a packed byte string from front to back. A decoder hands back its cursor whether it
succeeds or fails, so a failed read shows how much it consumed.
-/

namespace LightClient

inductive DecodeError where
  /-- Fewer bytes are left than the field takes. -/
  | unexpectedEnd (field : String)
  /-- The field holds no varuint of at most five bytes and 32 bits. -/
  | invalidVaruint (field : String)
  /-- The length read for the field cannot fit in the bytes left. -/
  | invalidLength (field : String) (length remaining : Nat)
  /-- The field holds a number without a meaning. -/
  | invalidValue (field : String) (value : Nat)
  /-- Bytes are left after the whole record. -/
  | trailingBytes (record : String) (remaining : Nat)
  deriving DecidableEq

def DecodeError.message : DecodeError → String
  | .unexpectedEnd field => s!"unexpected end of input while reading {field}"
  | .invalidVaruint field => s!"invalid varuint32 while reading {field}"
  | .invalidLength field length remaining =>
    s!"length {length} of {field} exceeds the {remaining} remaining bytes"
  | .invalidValue field value => s!"invalid value {value} for {field}"
  | .trailingBytes record remaining => s!"{remaining} trailing bytes after {record}"

/-- A place in a byte string: how many bytes were read, and the bytes that are left. -/
structure Cursor where
  position : Nat
  rest : List UInt8
  deriving DecidableEq

namespace Cursor

def start (bytes : List UInt8) : Cursor :=
  ⟨0, bytes⟩

def remaining (c : Cursor) : Nat :=
  c.rest.length

/-- The cursor `n` bytes further on, for `n` no more than are left. -/
def advance (c : Cursor) (n : Nat) : Cursor :=
  ⟨c.position + n, c.rest.drop n⟩

end Cursor

abbrev Decoder := ExceptT DecodeError (StateM Cursor)

/-- The number that little-endian bytes stand for. -/
def ofLittleEndian : List UInt8 → Nat
  | [] => 0
  | b :: bytes => b.toNat + 256 * ofLittleEndian bytes

/-- The lowest `width` bytes of a number, lowest first. -/
def littleEndian : Nat → Nat → List UInt8
  | 0, _ => []
  | width + 1, n => UInt8.ofNat n :: littleEndian width (n / 256)

@[simp] theorem length_littleEndian (width n : Nat) : (littleEndian width n).length = width := by
  induction width generalizing n with
  | zero => rfl
  | succ width ih => simp [littleEndian, ih]

/-- Groups of seven bits, lowest first, the high bit set on all but the last; `more` says how many
groups may follow the first. -/
def varuintGroups : Nat → Nat → List UInt8
  | 0, n => [UInt8.ofNat n]
  | more + 1, n =>
    if n < 128 then [UInt8.ofNat n]
    else UInt8.ofNat (n % 128 + 128) :: varuintGroups more (n / 128)

/-- The shortest varuint of a 32-bit number. -/
def varuint (n : UInt32) : List UInt8 :=
  varuintGroups 4 n.toNat

/-- The length written before a sequence; one that does not fit is written as the greatest. -/
def lengthPrefix (length : Nat) : UInt32 :=
  if length < UInt32.size then UInt32.ofNat length else 0xffffffff

/-- A byte string behind its length. -/
def packBytes (bytes : List UInt8) : List UInt8 :=
  varuint (lengthPrefix bytes.length) ++ bytes

namespace Decoder

/-- The next `n` bytes, with their number. With fewer left it fails and consumes nothing. -/
def sized (n : Nat) (field : String) : Decoder { bytes : List UInt8 // bytes.length = n } :=
  fun c =>
    if h : (c.rest.take n).length = n then (.ok ⟨c.rest.take n, h⟩, c.advance n)
    else (.error (.unexpectedEnd field), c)

def exact (n : Nat) (field : String) : Decoder (List UInt8) :=
  Subtype.val <$> sized n field

def fixed (width : Nat) (field : String) : Decoder Nat :=
  ofLittleEndian <$> exact width field

def u8 (field : String) : Decoder UInt8 := UInt8.ofNat <$> fixed 1 field

def u16 (field : String) : Decoder UInt16 := UInt16.ofNat <$> fixed 2 field

def u32 (field : String) : Decoder UInt32 := UInt32.ofNat <$> fixed 4 field

def u64 (field : String) : Decoder UInt64 := UInt64.ofNat <$> fixed 8 field

/-- The groups of a varuint from the one of the given weight on, at most `groups` of them, added
to the value of those before. -/
def varuintFrom (field : String) : Nat → Nat → Nat → Decoder UInt32
  | 0, _, _ => throw (.invalidVaruint field)
  | groups + 1, weight, value => do
    let byte ← fixed 1 field
    let value := value + byte % 128 * weight
    if byte < 128 then
      if value < UInt32.size then return UInt32.ofNat value else throw (.invalidVaruint field)
    else varuintFrom field groups (weight * 128) value

/-- A varuint of at most five groups and 32 bits; zero groups at its end are allowed. -/
def varuint32 (field : String) : Decoder UInt32 :=
  varuintFrom field 5 1 0

/-- The length of a sequence whose items take at least `minSize` bytes each. One that the bytes
left cannot hold is refused before any item is read. -/
def length (field : String) (minSize : Nat) : Decoder Nat := do
  let n ← varuint32 field
  let c ← get
  if n.toNat * minSize > c.remaining then
    throw (.invalidLength field n.toNat c.remaining)
  else return n.toNat

/-- A byte string behind its length. -/
def bytes (field : String) : Decoder (List UInt8) := do
  let n ← length field 1
  exact n field

def replicate {α : Type} (item : Decoder α) : Nat → Decoder (List α)
  | 0 => return []
  | n + 1 => do
    let a ← item
    let rest ← replicate item n
    return a :: rest

def finish (record : String) : Decoder Unit := fun c =>
  if c.remaining = 0 then (.ok (), c) else (.error (.trailingBytes record c.remaining), c)

/-- The value of the whole byte string, which must hold nothing else. -/
def whole {α : Type} (item : Decoder α) (record : String) (bytes : List UInt8) :
    Except DecodeError α :=
  (show Decoder α from do
    let a ← item
    finish record
    return a).run (Cursor.start bytes) |>.1

end Decoder

end LightClient
