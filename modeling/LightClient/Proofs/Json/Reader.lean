import LightClient.Digest
import LightClient.Proofs.Block.AccountName
import LightClient.Proofs.Json.Document
import LightClient.Proofs.Text.Hex
import Mathlib.Data.List.Nodup

/-!
Typed values are read back from the JSON that they were written as. Main statements:
`LawfulJson.decodeText_compact` and `LawfulJson.decodeText_pretty`.
-/

namespace LightClient

open Json

/-- Types whose JSON says all of a value, and gives it back however it arrives. -/
class LawfulJson (α : Type) [JsonForm α] : Prop where
  plain (a : α) : (toJson a).Plain
  ofJson_toJson (arrival : Arrival) (a : α) : ofJson arrival (toJson a) = .ok a

variable {α β : Type}

/-- A text that is read as a JSON value gives what is read from that value. -/
theorem Json.decodeText_of_document [JsonForm α] {text : String} {j : Json} {a : α}
    (h : Document.ofText text = ⟨some j, true⟩) (ha : ofJson .streamed j = .ok a) :
    decodeText text = .ok a := by
  rw [decodeText, h]
  simp only [ha]
  rfl

namespace LawfulJson

variable [JsonForm α] [LawfulJson α]

/-- A value is read back from every text that is read as its JSON. -/
theorem decodeText_eq {text : String} {a : α} (h : Document.ofText text = ⟨some (toJson a), true⟩) :
    decodeText text = .ok a :=
  decodeText_of_document h (ofJson_toJson .streamed a)

theorem decodeText_compact (a : α) : decodeText (toJson a).compact = .ok a :=
  decodeText_eq (Document.ofText_compact (plain a))

theorem decodeText_pretty (a : α) : decodeText (toJson a).pretty = .ok a :=
  decodeText_eq (Document.ofText_pretty (plain a))

end LawfulJson

/-! ## Single values -/

theorem Json.natural_of_lt {n bound : Nat} (h : n < bound) :
    natural bound (.integer n) = .ok n :=
  if_pos h

theorem Json.viaText_string {parse : String → Except String α} {text : String} {a : α}
    (h : parse text = .ok a) : viaText parse (.string text) = .ok a := by
  change (parse text).mapError Error.refused = .ok a
  rw [h, mapError_ok]

/-- A number of fixed width is read from the number that it is written as. -/
theorem Json.ofNat_natural {ofNat : Nat → α} {n bound : Nat} {a : α} (h : n < bound)
    (ha : ofNat n = a) : ofNat <$> natural bound (.integer n) = .ok a := by
  rw [natural_of_lt h]
  exact congrArg Except.ok ha

instance : LawfulJson UInt8 where
  plain _ := trivial
  ofJson_toJson _ n := Json.ofNat_natural n.toNat_lt UInt8.ofNat_toNat

instance : LawfulJson UInt16 where
  plain _ := trivial
  ofJson_toJson _ n := Json.ofNat_natural n.toNat_lt UInt16.ofNat_toNat

instance : LawfulJson UInt32 where
  plain _ := trivial
  ofJson_toJson _ n := Json.ofNat_natural n.toNat_lt UInt32.ofNat_toNat

instance : LawfulJson UInt64 where
  plain _ := trivial
  ofJson_toJson _ n := Json.ofNat_natural n.toNat_lt UInt64.ofNat_toNat

instance : LawfulJson AccountName where
  plain _ := trivial
  ofJson_toJson _ name := Json.viaText_string (by rw [AccountName.ofText_text, mapError_ok])

instance : LawfulJson Digest where
  plain _ := trivial
  ofJson_toJson _ d := Json.viaText_string (by rw [Digest.ofHex_toHex, mapError_ok])

instance : LawfulJson HexBytes where
  plain _ := trivial
  ofJson_toJson _ b := by
    change (match Hex.decode (Hex.encode b.bytes) with
      | .ok bytes => Except.ok (HexBytes.mk bytes)
      | .error _ => .error Error.malformed) = _
    rw [Hex.decode_encode]

/-! ## Lists and optional values -/

theorem Json.plainItems_map {write : α → Json} (h : ∀ a, (write a).Plain) (items : List α) :
    PlainItems (items.map write) := by
  induction items with
  | nil => trivial
  | cons a items ih => exact ⟨h a, ih⟩

instance [JsonForm α] [LawfulJson α] : LawfulJson (List α) where
  plain items := ⟨rfl, plainItems_map (fun a : α => LawfulJson.plain a) items⟩
  ofJson_toJson arrival items := by
    have hread : (items.map toJson).mapM (ofJson arrival) = Except.ok (items.map id) := by
      rw [List.mapM_map]
      exact mapM_eq_ok fun a _ => LawfulJson.ofJson_toJson arrival a
    change ((items.map toJson).mapM (ofJson arrival) >>= fun values => Except.ok values) = _
    rw [hread, List.map_id]
    rfl

/-- Types whose JSON is never null, which then says that there is no value. -/
class NeverNull (α : Type) [JsonForm α] : Prop where
  toJson_ne_null (a : α) : toJson a ≠ .null

/-- What is not null is read as a value. -/
theorem Json.ofJson_option [JsonForm α] {j : Json} (h : j ≠ .null) (arrival : Arrival) :
    (ofJson arrival j : Except Error (Option α)) =
      some <$> (ofJson arrival j : Except Error α) := by
  cases j with
  | null => exact absurd rfl h
  | _ => rfl

instance [JsonForm α] [LawfulJson α] [NeverNull α] : LawfulJson (Option α) where
  plain a :=
    match a with
    | none => trivial
    | some a => LawfulJson.plain a
  ofJson_toJson arrival a := by
    cases a with
    | none => rfl
    | some a =>
      refine (Json.ofJson_option (NeverNull.toJson_ne_null a) arrival).trans ?_
      rw [LawfulJson.ofJson_toJson]
      rfl

/-! ## Records -/

namespace Json.Fields

variable {fields : Fields α} {members : List (String × Json)} {names seen : List String}

/-- The fields give this record from these members. -/
def Reads (fields : Fields α) (members : List (String × Json)) (a : α) : Prop :=
  ∀ arrival, fields.ofMembers arrival members = .ok a

theorem Reads.seq {f : Fields (α → β)} {x : Fields α} {g : α → β} {a : α}
    (hf : Reads f members g) (hx : Reads x members a) : Reads (f <*> x) members (g a) := by
  intro arrival
  change join (f.ofMembers arrival members) (x.ofMembers arrival members) = _
  rw [hf, hx]
  rfl

theorem Reads.map {x : Fields α} {a : α} (g : α → β) (hx : Reads x members a) :
    Reads (g <$> x) members (g a) :=
  .seq (f := pure g) (fun _ => rfl) hx

theorem Reads.fieldOr [JsonForm α] [LawfulJson α] {name : String} {place : Nat} {a : α}
    {absent : Except Error α} (h : findMember name 0 members = some (place, toJson a)) :
    Reads (Fields.fieldOr name absent) members a := by
  intro arrival
  rw [Fields.fieldOr]
  simp only [h, LawfulJson.ofJson_toJson]
  rfl

theorem Reads.field [JsonForm α] [LawfulJson α] {name : String} {place : Nat} {a : α}
    (h : findMember name 0 members = some (place, toJson a)) :
    Reads (Json.field name) members a :=
  .fieldOr h

theorem firstRepeat_eq_none {place : Nat} (h : (members.map (·.1) ++ seen).Nodup) :
    firstRepeat names seen place members = none := by
  induction members generalizing seen place with
  | nil => rfl
  | cons m members ih =>
    obtain ⟨k, v⟩ := m
    rw [List.map_cons, List.cons_append, List.nodup_cons, List.mem_append, not_or] at h
    rw [firstRepeat, if_neg (by simpa using h.1.2), ih]
    split
    · exact List.nodup_middle.mpr (List.nodup_cons.mpr ⟨by simpa using h.1, h.2⟩)
    · exact h.2

/-- A record is read from an object that names each of its fields once. -/
theorem Reads.read_object {a : α} (h : Reads fields members a)
    (hnames : members.map (·.1) = fields.names) (hn : fields.names.Nodup) (arrival : Arrival) :
    fields.read arrival (.object members) = .ok a := by
  rw [read, firstRepeat_eq_none (by rwa [List.append_nil, hnames]), h]
  rfl

end Json.Fields

end LightClient
