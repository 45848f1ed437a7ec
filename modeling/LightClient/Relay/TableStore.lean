import LightClient.Relay.Store
import LightClient.Relay.Table

/-!
A store that keeps texts and bytes, as a database does: snapshots as JSON texts under text keys,
and blocks in rows of three columns. What is read back is parsed and may fail.
-/

namespace LightClient

inductive Cell where
  | text (s : String)
  | blob (bytes : List UInt8)
  deriving DecidableEq

namespace Cell

/-- The text of a column that must hold one. -/
def asText : Cell → Except StoreError String
  | .text s => .ok s
  | .blob _ => .error .columnType

/-- The bytes of a column; a text counts as its UTF-8 bytes. -/
def asBytes : Cell → List UInt8
  | .text s => utf8 s
  | .blob bytes => bytes

end Cell

structure Row where
  id : Cell
  root : Cell
  header : Cell
  deriving DecidableEq

inductive Column where
  | id
  | root
  | header
  deriving DecidableEq

namespace Row

def ofRecord (r : BlockRecord) : Row :=
  ⟨.text r.id.toHex, .text r.root.toHex, .blob r.header.encode⟩

/-- The digest that a column holds as text. -/
def digest (s : String) : Except StoreError Digest :=
  (Digest.ofHex s).mapError .digest

/-- The block of a row. The types of the columns are looked at before their contents. -/
def toRecord (row : Row) (num : UInt32) : Except StoreError BlockRecord := do
  let idText ← row.id.asText
  let rootText ← row.root.asText
  let id ← digest idText
  let root ← digest rootText
  let header ← (Header.decode row.header.asBytes).mapError .header
  return ⟨num, id, root, header⟩

/-- The id of a row, without a look at the other columns. -/
def toId (row : Row) : Except StoreError Digest := do
  let s ← row.id.asText
  digest s

def set (row : Row) (column : Column) (cell : Cell) : Row :=
  match column with
  | .id => { row with id := cell }
  | .root => { row with root := cell }
  | .header => { row with header := cell }

end Row

/-- Texts by key, and rows by the text of a chain and block number. -/
structure TableStore where
  texts : Table String String
  blocks : Table String (Table UInt32 Row)
  deriving DecidableEq

namespace TableStore

def empty : TableStore :=
  ⟨.empty, .empty⟩

instance : Inhabited TableStore := ⟨empty⟩

/-- What the key of every snapshot starts with. -/
def keyStart : List Char := ['c', 'h', 'a', 'i', 'n', '/']

def chainKey (chain : AccountName) : String :=
  String.ofList (keyStart ++ chain.text.toList)

def getText (s : TableStore) (key : String) : Option String :=
  s.texts.find? key

def setText (s : TableStore) (key value : String) : TableStore :=
  { s with texts := s.texts.insert key value }

def rowsOf (s : TableStore) (chain : AccountName) : Table UInt32 Row :=
  (s.blocks.find? chain.text).getD .empty

def setRows (s : TableStore) (chain : AccountName) (rows : Table UInt32 Row) : TableStore :=
  { s with blocks := s.blocks.insert chain.text rows }

/-- Overwrites a snapshot and leaves the blocks alone. -/
def putChain (s : TableStore) (snapshot : Snapshot) : TableStore :=
  s.setText (chainKey snapshot.chain) (toJson snapshot).compact

/-- Writes one column of a block; gives the number of rows that it wrote. -/
def setColumn (s : TableStore) (chain : AccountName) (num : UInt32) (column : Column)
    (cell : Cell) : Nat × TableStore :=
  let rows := s.rowsOf chain
  match rows.find? num with
  | some row => (1, s.setRows chain (rows.insert num (row.set column cell)))
  | none => (0, s)

/-- Deletes a block; gives the number of rows that it deleted. -/
def deleteBlock (s : TableStore) (chain : AccountName) (num : UInt32) : Nat × TableStore :=
  let rows := s.rowsOf chain
  match rows.find? num with
  | some _ => (1, s.setRows chain (rows.erase num))
  | none => (0, s)

/-- Whether a key starts like that of a snapshot, in letters of either case. -/
def isChainKey (key : String) : Bool :=
  (key.toList.take keyStart.length).map Char.toLower = keyStart

/-- The characters behind the start of a snapshot's key, however often it is repeated; at most
`limit` times. -/
def dropStarts : Nat → List Char → List Char
  | 0, cs => cs
  | limit + 1, cs =>
    if cs.take keyStart.length = keyStart then dropStarts limit (cs.drop keyStart.length) else cs

def chainOfKey (key : String) : Except StoreError AccountName :=
  let cs := key.toList
  (AccountName.ofText (String.ofList (dropStarts cs.length cs))).mapError .chainName

def readSnapshot (text : String) : Except StoreError Snapshot :=
  (Json.decodeText text).mapError .snapshot

def record (s : TableStore) (snapshot : Snapshot) (block : BlockRecord) : TableStore :=
  (s.setRows snapshot.chain
    ((s.rowsOf snapshot.chain).insert block.blockNum (.ofRecord block))).putChain snapshot

instance : ChainStore TableStore where
  loadChain s chain :=
    match s.getText (chainKey chain) with
    | none => .ok none
    | some text => some <$> readSnapshot text
  appendBlock s snapshot block := (.ok (), s.record snapshot block)
  getBlock s chain num :=
    match (s.rowsOf chain).find? num with
    | none => .ok none
    | some row => some <$> row.toRecord num
  blockIds s chain low high := ((s.rowsOf chain).range low high).mapM Row.toId
  listChains s := (s.texts.keys.filter isChainKey).mapM chainOfKey

end TableStore

end LightClient
