import LightClient.Relay.TableStore

/-!
A database as one JSON text, in which it is kept between runs.
-/

namespace LightClient

namespace Table

def json {κ ν : Type} (key : κ → Json) (value : ν → Json) (t : Table κ ν) : Json :=
  .array (t.entries.map fun (k, v) => .array [key k, value v])

def ofJson {κ ν : Type} [LT κ] [DecidableLT κ] [DecidableEq κ]
    (key : Json → Except Json.Error κ) (value : Json → Except Json.Error ν) :
    Json → Except Json.Error (Table κ ν)
  | .array items true => do
    let entries ← items.mapM fun
      | .array [k, v] true => do
        let k ← key k
        let v ← value v
        return (k, v)
      | _ => .error .malformed
    return entries.foldl (fun t (k, v) => t.insert k v) .empty
  | _ => .error .malformed

end Table

namespace Cell

/-- A column in JSON: a text as it is, bytes as an object around their digits. -/
def json : Cell → Json
  | .text s => .string s
  | .blob bytes => .object [("hex", toJson (HexBytes.mk bytes))]

def ofJson : Json → Except Json.Error Cell
  | .string s => .ok (.text s)
  | .object [("hex", j)] true => do
    let b : HexBytes ← LightClient.ofJson .whole j
    return .blob b.bytes
  | _ => .error .malformed

end Cell

namespace Row

/-- A row in JSON: an array of its columns. -/
def json (row : Row) : Json :=
  .array [row.id.json, row.root.json, row.header.json]

def ofJson : Json → Except Json.Error Row
  | .array [id, root, header] true => do
    let id ← Cell.ofJson id
    let root ← Cell.ofJson root
    let header ← Cell.ofJson header
    return ⟨id, root, header⟩
  | _ => .error .malformed

end Row

namespace TableStore

def image (s : TableStore) : String :=
  Json.compact (.array [
    s.texts.json .string .string,
    s.blocks.json .string (Table.json toJson Row.json)])

def ofImage (text : String) : Except Json.Error TableStore :=
  match Json.Document.ofText text with
  | ⟨some (.array [texts, blocks] true), true⟩ => do
    let texts ← Table.ofJson Json.text Json.text texts
    let blocks ← Table.ofJson Json.text (Table.ofJson (LightClient.ofJson .whole) Row.ofJson) blocks
    return ⟨texts, blocks⟩
  | _ => .error .malformed

end TableStore

end LightClient
