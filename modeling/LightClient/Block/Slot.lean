import LightClient.Calendar.Scan
import LightClient.Json.Reader
import LightClient.Packed.Layout

/-!
Block production slots: half seconds since the start of the year 2000.
-/

namespace LightClient

structure Slot where
  index : UInt32
  deriving DecidableEq

namespace Slot

/-- The milliseconds from the start of 1970 to slot 0. -/
def epoch : Int := 946684800000

/-- The milliseconds of a slot. -/
def interval : Int := 500

/-- The start of a slot in milliseconds since the start of 1970. -/
def millis (s : Slot) : Int :=
  epoch + s.index.toNat * interval

def moment (s : Slot) : Moment :=
  .ofMillis s.millis

inductive Error where
  | unreadable (text : String) (fault : Moment.Fault)
  | beforeFirst (m : Moment)
  | afterLast (m : Moment)
  deriving DecidableEq

def Error.message : Error → String
  | .unreadable text fault => "invalid timestamp: " ++ Quoted.text text ++ ": " ++ fault.message
  | .beforeFirst m => s!"invalid timestamp: {m} precedes the block timestamp epoch"
  | .afterLast m => s!"invalid timestamp: {m} is past the last slot"

/-- The slot that a moment lies in. -/
def ofMoment (m : Moment) : Except Error Slot :=
  let offset := m.millis - epoch
  if offset < 0 then .error (.beforeFirst m)
  else if offset / interval < UInt32.size then .ok ⟨UInt32.ofNat (offset / interval).toNat⟩
  else .error (.afterLast m)

def ofText (text : String) : Except Error Slot :=
  match Moment.ofText text with
  | .ok m => ofMoment m
  | .error fault => .error (.unreadable text fault)

def text (s : Slot) : String :=
  s.moment.isoText

instance : ToString Slot := ⟨text⟩

instance : Layout Slot where
  pack s := littleEndian 4 s.index.toNat
  unpack := Slot.mk <$> .u32 "timestamp"
  minSize := 4
  record := "ibc_block::timestamp::BlockTimestamp"

instance : JsonForm Slot where
  toJson s := .string s.text
  ofJson _ := Json.viaText fun s => (ofText s).mapError Error.message

end Slot

end LightClient
