import LightClient.Block.AccountName
import LightClient.Block.Header
import LightClient.Block.PublicKey
import LightClient.Block.Schedule
import LightClient.Block.Slot
import LightClient.Calendar.Date
import LightClient.Calendar.Moment
import LightClient.Calendar.Scan
import LightClient.Command.Arguments
import LightClient.Command.Run
import LightClient.Digest
import LightClient.Evidence.Inclusion
import LightClient.Evidence.Verify
import LightClient.Evidence.WireType
import LightClient.Json.Basic
import LightClient.Json.Document
import LightClient.Json.Reader
import LightClient.Json.Text
import LightClient.Json.Token
import LightClient.Main
import LightClient.Merkle.Accumulator
import LightClient.Merkle.Depth
import LightClient.Merkle.Error
import LightClient.Merkle.Frontier
import LightClient.Merkle.Pair
import LightClient.Merkle.Path
import LightClient.Merkle.Root
import LightClient.Merkle.Tree
import LightClient.Packed.Cursor
import LightClient.Packed.Layout
import LightClient.Packed.Script
import LightClient.Proofs.Block.AccountName
import LightClient.Proofs.Block.HexTexts
import LightClient.Proofs.Block.Id
import LightClient.Proofs.Block.NameTexts
import LightClient.Proofs.Block.PublicKey
import LightClient.Proofs.Block.ScheduleChange
import LightClient.Proofs.Block.Slot
import LightClient.Proofs.Block.SlotTexts
import LightClient.Proofs.Calendar.Date
import LightClient.Proofs.Calendar.Days
import LightClient.Proofs.Calendar.Scan
import LightClient.Proofs.Calendar.Stamp
import LightClient.Proofs.Command.Track
import LightClient.Proofs.Evidence.Receipts
import LightClient.Proofs.Evidence.Verify
import LightClient.Proofs.Except
import LightClient.Proofs.Json.Document
import LightClient.Proofs.Json.Forms
import LightClient.Proofs.Json.Reader
import LightClient.Proofs.Json.Token
import LightClient.Proofs.Json.Transport
import LightClient.Proofs.Merkle.Acceptance
import LightClient.Proofs.Merkle.Alike
import LightClient.Proofs.Merkle.Binding
import LightClient.Proofs.Merkle.Commitment
import LightClient.Proofs.Merkle.Depth
import LightClient.Proofs.Merkle.Detection
import LightClient.Proofs.Merkle.Growth
import LightClient.Proofs.Merkle.Hashed
import LightClient.Proofs.Merkle.Inclusion
import LightClient.Proofs.Merkle.LayerNodes
import LightClient.Proofs.Merkle.Layers
import LightClient.Proofs.Merkle.Obtainable
import LightClient.Proofs.Merkle.Pair
import LightClient.Proofs.Merkle.Paths
import LightClient.Proofs.Merkle.Reloads
import LightClient.Proofs.Merkle.Rounds
import LightClient.Proofs.Merkle.Validity
import LightClient.Proofs.Merkle.Walk
import LightClient.Proofs.Packed.Accepts
import LightClient.Proofs.Packed.Exact
import LightClient.Proofs.Packed.LittleEndian
import LightClient.Proofs.Packed.Reads
import LightClient.Proofs.Packed.RoundTrip
import LightClient.Proofs.Packed.Script
import LightClient.Proofs.Packed.Shortest
import LightClient.Proofs.Packed.Spelling
import LightClient.Proofs.Packed.Stable
import LightClient.Proofs.Packed.Unchecked
import LightClient.Proofs.Packed.Varuint
import LightClient.Proofs.Relay.Anchors
import LightClient.Proofs.Relay.Emission
import LightClient.Proofs.Relay.Mirror
import LightClient.Proofs.Relay.Provable
import LightClient.Proofs.Relay.Restored
import LightClient.Proofs.Relay.Session
import LightClient.Proofs.Relay.Shelves
import LightClient.Proofs.Relay.Soundness
import LightClient.Proofs.Relay.Table
import LightClient.Proofs.Relay.TableSession
import LightClient.Proofs.Relay.TableStore
import LightClient.Proofs.Relay.Tampering
import LightClient.Proofs.Relay.Tracked
import LightClient.Proofs.Relay.Tracker
import LightClient.Proofs.Relay.Trackers
import LightClient.Proofs.Text.Basic
import LightClient.Proofs.Text.Hex
import LightClient.Proofs.Text.HexDigits
import LightClient.Proofs.Text.Order
import LightClient.Relay.Error
import LightClient.Relay.FaultyStore
import LightClient.Relay.Image
import LightClient.Relay.MemoryStore
import LightClient.Relay.Prover
import LightClient.Relay.Record
import LightClient.Relay.Store
import LightClient.Relay.Table
import LightClient.Relay.TableStore
import LightClient.Relay.Tracker
import LightClient.Relay.Trackers
import LightClient.Sha256
import LightClient.Text.Basic
import LightClient.Text.Hex
import LightClient.Text.Quoted
