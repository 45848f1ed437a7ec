import LightClient.Evidence.WireType
import LightClient.Proofs.Evidence.Receipts
import LightClient.Proofs.Json.Forms
import LightClient.Proofs.Packed.Exact

/-!
Values that travel as JSON text. Main statement: a value is read back from its JSON text as it is
from its packed bytes, and so a proof is judged alike on either way.
-/

namespace LightClient

open Json (decodeText)

/-- The texts of a JSON value: without spaces, and with one item or member a line. -/
def Json.texts (j : Json) : List String :=
  [j.compact, j.pretty]

theorem LawfulJson.decodeText_of_mem {α : Type} [JsonForm α] [LawfulJson α] {a : α} {text : String}
    (h : text ∈ (toJson a).texts) : decodeText text = .ok a := by
  cases h with
  | head => exact decodeText_compact a
  | tail _ h => exact List.mem_singleton.mp h ▸ decodeText_pretty a

namespace WireType

/-- No optional value stands directly inside another, where null would have two meanings. -/
def NullFree : WireType → Prop
  | .list item => item.NullFree
  | .option (.option _) => False
  | .option item => item.NullFree
  | _ => True

/-- Only an optional value is ever written as null. -/
theorem neverNull {t : WireType} (h : ∀ item, t ≠ .option item) : NeverNull t.Value := by
  cases t with
  | option item => exact absurd rfl (h item)
  | _ => exact ⟨fun _ => nofun⟩

theorem lawfulJson (t : WireType) (h : t.NullFree) : LawfulJson t.Value := by
  induction t with
  | list item ih =>
    have := ih h
    exact inferInstanceAs (LawfulJson (List item.Value))
  | option item ih =>
    have hitem : ∀ inner, item ≠ .option inner := by
      rintro inner rfl
      exact h
    have hfree : item.NullFree := by
      cases item with
      | option inner => exact absurd rfl (hitem inner)
      | _ => exact h
    have := ih hfree
    have := neverNull hitem
    exact inferInstanceAs (LawfulJson (Option item.Value))
  | _ => exact inferInstance

/-- **JSON text and packed bytes bring over the same values.** A value of any wire type, unless it
has an optional value directly inside another, is read back from both of its JSON texts. If its
lists can be packed, its packed bytes give the same value, with the same packed bytes again. What a
verifier reports, its limits, and what a store keeps have the same two texts. A proof that came as
JSON text is judged as one that came packed, against every root and within all limits. -/
theorem json_agrees_with_packed :
    (∀ (t : WireType) (v : t.Value), t.NullFree → ∀ text ∈ (toJson v).texts,
      decodeText text = .ok v ∧
      (Fits v → ∃ w : t.Value, decodeText text = .ok w ∧ fromPacked (pack v) = .ok w ∧
        pack w = pack v)) ∧
    (∀ (v : Verified), ∀ text ∈ (toJson v).texts, decodeText text = .ok v) ∧
    (∀ (l : Limits), ∀ text ∈ (toJson l).texts, decodeText text = .ok l) ∧
    (∀ (s : Snapshot), ∀ text ∈ (toJson s).texts, decodeText text = .ok s) ∧
    (∀ (r : BlockRecord), ∀ text ∈ (toJson r).texts, decodeText text = .ok r) ∧
    ∀ (p : CrossChainProof), Fits p → ∀ text ∈ (toJson p).texts,
      ∃ q q' : CrossChainProof, decodeText text = .ok q ∧ CrossChainProof.decode p.encode = .ok q' ∧
        ∀ root limits, q.verify root limits = q'.verify root limits := by
  refine ⟨?_, fun _ _ => LawfulJson.decodeText_of_mem, fun _ _ => LawfulJson.decodeText_of_mem,
    fun _ _ => LawfulJson.decodeText_of_mem, fun _ _ => LawfulJson.decodeText_of_mem, ?_⟩
  · intro t v hfree text htext
    have := lawfulJson t hfree
    have hread : decodeText text = .ok v := LawfulJson.decodeText_of_mem htext
    exact ⟨hread, fun hfits => ⟨v, hread, fromPacked_pack hfits, rfl⟩⟩
  · intro p hfits text htext
    exact ⟨p, p, LawfulJson.decodeText_of_mem htext, CrossChainProof.decode_encode hfits,
      fun _ _ => rfl⟩

/-- A header in the last slot, with a schedule and an extension, on either way; and a proof. -/
theorem json_agrees_with_packed_last_slot :
    let key : PublicKey := ⟨.r1, List.replicate 33 0xff, List.length_replicate⟩
    let header : Header := { Session.plainHeader .zero .zero with
      timestamp := ⟨0xffffffff⟩
      newProducers := some ⟨7, [⟨⟨0xffffffffffffffff⟩, key⟩]⟩
      extensions := [⟨9, [1, 2]⟩] }
    let p := CrossChainProof.ofPair (.hash [1]) (.hash [2])
    (∃ w : Header, decodeText (toJson header).pretty = .ok w ∧
      fromPacked (pack header) = .ok w) ∧
    ∃ q q' : CrossChainProof, decodeText (toJson p).compact = .ok q ∧
      CrossChainProof.decode p.encode = .ok q' ∧
        q.verify p.block.header.id .standard = q'.verify p.block.header.id .standard := by
  intro key header p
  have hheader : Fits header := by
    refine ⟨fun s hs => ?_, by decide, ?_⟩
    · obtain rfl := Option.some.inj hs
      exact ⟨by decide, fun _ _ => trivial⟩
    · intro e he
      obtain rfl := List.mem_singleton.mp he
      exact show 2 < UInt32.size by decide
  have hp : Fits p :=
    ⟨⟨Merkle.Path.fits_of_length_le (by decide), Session.fits_plainHeader ..⟩,
      Session.fits_plainHeader .., Merkle.Path.fits_of_length_le (by decide)⟩
  obtain ⟨hwire, -, -, -, -, hproof⟩ := json_agrees_with_packed
  have hpretty : (toJson header).pretty ∈ (toJson header).texts :=
    List.mem_cons_of_mem _ List.mem_cons_self
  obtain ⟨w, hw, hw', -⟩ := (hwire .header header trivial _ hpretty).2 hheader
  obtain ⟨q, q', hq, hq', hverify⟩ := hproof p hp _ List.mem_cons_self
  exact ⟨⟨w, hw, hw'⟩, q, q', hq, hq', hverify _ _⟩

end WireType

end LightClient
