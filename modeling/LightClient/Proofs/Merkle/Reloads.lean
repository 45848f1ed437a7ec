import LightClient.Proofs.Json.Reader
import LightClient.Proofs.Merkle.Obtainable
import LightClient.Proofs.Packed.Shortest

/-!
Accumulators that are stored and read back. Main statement: it makes no difference to any append,
wherever it happens and in whichever form; and the packed form that is written is the shortest.
-/

namespace LightClient.Merkle.Accumulator

open Json (Document)

/-- A form in which an accumulator is stored. -/
inductive StoredForm where
  | packed
  /-- JSON text without spaces. -/
  | compact
  /-- JSON text with one item or member a line. -/
  | pretty
  /-- A JSON value that is kept as a whole. -/
  | value

/-- Stores the accumulator and reads it back; none if it is refused. -/
def reload (acc : Accumulator) : StoredForm → Option Accumulator
  | .packed => (decode acc.encode).toOption
  | .compact => (Json.decodeText (toJson acc).compact).toOption
  | .pretty => (Json.decodeText (toJson acc).pretty).toOption
  | .value => (Json.decode (toJson acc)).toOption

/-- What happens to an accumulator. -/
inductive Event where
  | append (leaf : Digest)
  | reload (form : StoredForm)

def Event.leaf? : Event → Option Digest
  | .append leaf => some leaf
  | .reload _ => none

/-- The result of an append and the accumulator after it, which a refused leaf leaves as it was. -/
def answer (acc : Accumulator) (leaf : Digest) : Except Error Digest × Accumulator :=
  match acc.push leaf with
  | .ok (root, after) => (.ok root, after)
  | .error e => (.error e, acc)

/-- The results of appends one after the other, each with the accumulator after it. -/
def history (acc : Accumulator) : List Digest → List (Except Error Digest × Accumulator)
  | [] => []
  | leaf :: leaves => acc.answer leaf :: (acc.answer leaf).2.history leaves

/-- The appends among the events, as in `history`, and the accumulator in the end; none if a reload
is refused. -/
def run (acc : Accumulator) :
    List Event → Option (List (Except Error Digest × Accumulator) × Accumulator)
  | [] => some ([], acc)
  | .append leaf :: events => do
    let (later, last) ← (acc.answer leaf).2.run events
    return (acc.answer leaf :: later, last)
  | .reload form :: events => do
    let acc ← acc.reload form
    acc.run events

variable {acc after : Accumulator} {leaf : Digest} {bytes : List UInt8}

/-! ## One reload -/

theorem plain_toJson (acc : Accumulator) : (toJson acc).Plain :=
  ⟨rfl, LawfulJson.plain acc.nodes, LawfulJson.plain acc.leafCount, trivial⟩

/-- An accumulator that passes its check is read back from its JSON, however it arrives. -/
theorem ofJson_toJson (hv : acc.validate = .ok ()) (arrival : Json.Arrival) :
    ofJson arrival (toJson acc) = .ok acc := by
  have hread : fields.read arrival (toJson acc) = .ok (acc.nodes, acc.leafCount) :=
    Json.Fields.Reads.read_object (.seq (.map _ (.field rfl)) (.field rfl)) rfl (by decide) arrival
  exact ofJson_eq_ok.mpr ⟨hread, hv⟩

theorem decodeText_compact (hv : acc.validate = .ok ()) :
    Json.decodeText (toJson acc).compact = .ok acc :=
  Json.decodeText_of_document (Document.ofText_compact (plain_toJson acc)) (ofJson_toJson hv _)

theorem decodeText_pretty (hv : acc.validate = .ok ()) :
    Json.decodeText (toJson acc).pretty = .ok acc :=
  Json.decodeText_of_document (Document.ofText_pretty (plain_toJson acc)) (ofJson_toJson hv _)

theorem sortedItems_toJson (nodes : List Digest) :
    Json.sortedItems (nodes.map toJson) = nodes.map toJson := by
  induction nodes with
  | nil => rfl
  | cons node nodes ih =>
    rw [List.map_cons, Json.sortedItems, ih]
    rfl

/-- The members of the JSON of an accumulator stand in the order of their names. -/
theorem sorted_toJson (acc : Accumulator) : (toJson acc).sorted = toJson acc := by
  change (Json.object [("active_nodes", .array (acc.nodes.map toJson)),
    ("leaf_count", .integer acc.leafCount.toNat)]).sorted = _
  simp only [Json.sorted, Json.sortedMembers, sortedItems_toJson, Json.insertMember]
  rfl

theorem decode_toJson (hv : acc.validate = .ok ()) : Json.decode (toJson acc) = .ok acc := by
  rw [Json.decode, sorted_toJson, ofJson_toJson hv]

/-- **A reload gives the accumulator back.** -/
theorem reload_eq (hv : acc.validate = .ok ()) (form : StoredForm) :
    acc.reload form = some acc := by
  cases form with
  | packed => rw [reload, decode_encode hv]; rfl
  | compact => rw [reload, decodeText_compact hv]; rfl
  | pretty => rw [reload, decodeText_pretty hv]; rfl
  | value => rw [reload, decode_toJson hv]; rfl

/-! ## Appends -/

theorem answer_of_push {root : Digest} (h : acc.push leaf = .ok (root, after)) :
    acc.answer leaf = (.ok root, after) := by
  rw [answer, h]

theorem answer_of_full (h : acc.leafCount.toNat = 2 ^ 63) (leaf : Digest) :
    acc.answer leaf = (.error (.misuse (.full (2 ^ 63))), acc) := by
  rw [answer, push_of_full h]

/-- A full accumulator stays as it is. -/
theorem appendAll_of_full (h : acc.leafCount.toNat = 2 ^ 63) (leaves : List Digest) :
    (acc.appendAll leaves).1 = acc := by
  cases leaves with
  | nil => rfl
  | cons leaf leaves =>
    rw [appendAll, append, push_of_full h]
    rfl

theorem validate_answer (hv : acc.validate = .ok ()) (leaf : Digest) :
    (acc.answer leaf).2.validate = .ok () := by
  rcases exists_push_or_full hv leaf with ⟨root, after, hp⟩ | hfull
  · rw [answer_of_push hp]
    exact validate_push hp
  · rwa [answer_of_full hfull]

/-- Appending goes on from the accumulator after the first leaf, whether or not it was taken. -/
theorem appendAll_answer (hv : acc.validate = .ok ()) (leaf : Digest) (leaves : List Digest) :
    (acc.appendAll (leaf :: leaves)).1 = ((acc.answer leaf).2.appendAll leaves).1 := by
  rcases exists_push_or_full hv leaf with ⟨root, after, hp⟩ | hfull
  · rw [appendAll, append_eq_ok.mpr ⟨root, hp⟩, answer_of_push hp]
  · rw [answer_of_full hfull, appendAll_of_full hfull, appendAll_of_full hfull]

/-- Leaves appended in two parts: the first error counts. -/
theorem appendAll_append (hv : acc.validate = .ok ()) (xs ys : List Digest) :
    acc.appendAll (xs ++ ys) = (((acc.appendAll xs).1.appendAll ys).1,
      do (acc.appendAll xs).2; ((acc.appendAll xs).1.appendAll ys).2) := by
  induction xs generalizing acc with
  | nil => rfl
  | cons leaf xs ih =>
    rw [List.cons_append, appendAll, appendAll]
    rcases exists_push_or_full hv leaf with ⟨root, after, hp⟩ | hfull
    · rw [append_eq_ok.mpr ⟨root, hp⟩]
      exact ih (validate_push hp)
    · rw [append, push_of_full hfull]
      exact Prod.ext (appendAll_of_full hfull ys).symm rfl

/-- **Reloads between appends change nothing.** -/
theorem run_eq_history (hv : acc.validate = .ok ()) (events : List Event) :
    acc.run events = some (acc.history (events.filterMap Event.leaf?),
      (acc.appendAll (events.filterMap Event.leaf?)).1) := by
  induction events generalizing acc with
  | nil => rfl
  | cons event events ih =>
    cases event with
    | append leaf =>
      have hleaves : (Event.append leaf :: events).filterMap Event.leaf? =
          leaf :: events.filterMap Event.leaf? := rfl
      rw [run, ih (validate_answer hv leaf), hleaves, history, appendAll_answer hv]
      rfl
    | reload form =>
      rw [run, reload_eq hv]
      exact ih hv

/-! ## The packed form -/

theorem accepts_parts : parts.Accepts (Fits ·.1)
    fun p => SpelledLayout.parts p.1 ++ SpelledLayout.parts p.2 := by
  refine .field accepts_unpack (fun _ hp => hp) fun nodes hnodes => ?_
  refine (Decoder.Accepts.u64 _).map (fun p => ?_) fun _ _ => rfl
  constructor
  · rintro ⟨-, rfl⟩
    exact ⟨p.2, trivial, rfl⟩
  · rintro ⟨leafCount, -, rfl⟩
    exact ⟨hnodes, rfl⟩

/-- Of all bytes that are read as the accumulator, those that it is written as are the shortest. -/
theorem eq_encode_or_lt (h : decode bytes = .ok acc) :
    bytes = acc.encode ∨ acc.encode.length < bytes.length := by
  have hspelled := (accepts_parts.whole_eq_ok_iff.mp (decode_eq_ok.mp h).1).2
  have hcases := hspelled.cases
  rwa [List.flatMap_append, packed_parts, packed_parts] at hcases

/-- **Storing an accumulator and reading it back goes unnoticed.** An accumulator that passes its
check is read back from its packed bytes, from both of its JSON texts and from its JSON value. So
whichever reloads stand among appends, none is refused, and each append has the result and leaves
the accumulator that it has and leaves without them; and leaves appended in two parts with a reload
between them end in the same accumulator with the same result as all at once. Bytes that are read as
an accumulator are those that it is written as, or longer. -/
theorem reloads_invisible (acc : Accumulator) :
    (acc.validate = .ok () →
      decode acc.encode = .ok acc ∧
      Json.decodeText (toJson acc).compact = .ok acc ∧
      Json.decodeText (toJson acc).pretty = .ok acc ∧
      Json.decode (toJson acc) = .ok acc ∧
      (∀ events, acc.run events = some (acc.history (events.filterMap Event.leaf?),
        (acc.appendAll (events.filterMap Event.leaf?)).1)) ∧
      ∀ xs ys form, ∃ stored, (acc.appendAll xs).1.reload form = some stored ∧
        acc.appendAll (xs ++ ys) =
          ((stored.appendAll ys).1, do (acc.appendAll xs).2; (stored.appendAll ys).2)) ∧
    ∀ bytes, decode bytes = .ok acc →
      bytes = acc.encode ∨ acc.encode.length < bytes.length := by
  refine ⟨fun hv => ?_, fun _ => eq_encode_or_lt⟩
  refine ⟨decode_encode hv, decodeText_compact hv, decodeText_pretty hv, decode_toJson hv,
    run_eq_history hv, fun xs ys form => ?_⟩
  exact ⟨(acc.appendAll xs).1, reload_eq (validate_appendAll hv xs) form, appendAll_append hv xs ys⟩

/-- A root of four leaves that are not known, reloaded before, between and after two appends, and
read from bytes whose length of the nodes is padded. -/
theorem reloads_invisible_four :
    let acc : Accumulator := ⟨[.zero], 4⟩
    let padded : List UInt8 := [129, 0] ++ List.replicate 32 0 ++ [4, 0, 0, 0, 0, 0, 0, 0]
    acc.validate = .ok () ∧
    acc.run [.reload .packed, .append .zero, .reload .compact, .reload .value, .append (.hash [1]),
        .reload .pretty] =
      some (acc.history [.zero, .hash [1]], (acc.appendAll [.zero, .hash [1]]).1) ∧
    decode padded = .ok acc ∧ acc.encode.length < padded.length := by
  intro acc padded
  have hv : acc.validate = .ok () := by decide
  have hpadded : decode padded = .ok acc := by decide +kernel
  obtain ⟨hvalid, hbytes⟩ := reloads_invisible acc
  obtain ⟨-, -, -, -, hrun, -⟩ := hvalid hv
  refine ⟨hv, hrun _, hpadded, ?_⟩
  rcases hbytes padded hpadded with heq | hlt
  · exact absurd heq (by decide +kernel)
  · exact hlt

end LightClient.Merkle.Accumulator
