import LightClient.Packed.Script
import LightClient.Proofs.Packed.Unchecked
import LightClient.Proofs.Packed.Varuint

/-!
Scripts of reads, which go on after a read that failed. Main statement: no read moves a cursor back
or off its input, each that fails stops at a place that is known, and what a script of writes has
written the matching script of reads gives back.
-/

namespace LightClient

/-! ## Places of one input -/

/-- The second place is in the same input, at the first or behind it. -/
def Cursor.Leads (c c' : Cursor) : Prop :=
  ∃ s, c.Takes s c'

namespace Cursor

variable {c c' c'' : Cursor} {bytes : List UInt8} {n : Nat}

theorem Leads.refl (c : Cursor) : c.Leads c :=
  ⟨[], takes_nil.mpr rfl⟩

theorem Leads.trans : c.Leads c' → c'.Leads c'' → c.Leads c''
  | ⟨s, hs⟩, ⟨t, ht⟩ => ⟨s ++ t, takes_append.mpr ⟨c', hs, ht⟩⟩

theorem Leads.position_le : c.Leads c' → c.position ≤ c'.position
  | ⟨_, _, hposition⟩ => hposition ▸ Nat.le_add_right ..

theorem Leads.of_eq {α : Type} {result result' : α} (h : (result, c) = (result', c')) :
    c.Leads c' :=
  (Prod.mk.inj h).2 ▸ .refl c

theorem leads_advance (h : n ≤ c.remaining) : c.Leads (c.advance n) := by
  refine ⟨c.rest.take n, (List.take_append_drop ..).symm, ?_⟩
  rw [List.length_take_of_le h]
  rfl

/-- What is left at a place are the bytes of the input from its position on. -/
theorem Leads.of_start (h : (start bytes).Leads c) :
    c.position + c.remaining = bytes.length ∧ c.rest = bytes.drop c.position := by
  obtain ⟨s, hrest, hposition⟩ := h
  have hbytes : bytes = s ++ c.rest := hrest
  have hs : c.position = s.length := by rw [hposition, start, Nat.zero_add]
  rw [hs, hbytes, List.length_append, List.drop_left]
  exact ⟨rfl, rfl⟩

end Cursor

namespace Decoder

variable {α β : Type} {d : Decoder α} {f : α → Decoder β} {field : String} {n : Nat}
  {c c' c'' : Cursor} {e : DecodeError}

/-! ## No read goes back -/

/-- The decoder moves only forwards and in its input, also where it fails. -/
def GoesForward (d : Decoder α) : Prop :=
  ∀ ⦃c c' : Cursor⦄ ⦃result : Except DecodeError α⦄, d.run c = (result, c') → c.Leads c'

namespace GoesForward

theorem pure (a : α) : GoesForward (pure a : Decoder α) :=
  fun _ _ _ h => .of_eq h

theorem throw (e : DecodeError) : GoesForward (throw e : Decoder α) :=
  fun _ _ _ h => .of_eq h

theorem bind (hd : GoesForward d) (hf : ∀ a, GoesForward (f a)) : GoesForward (d >>= f) := by
  intro c c'' result h
  cases result with
  | error e =>
    rcases run_bind_eq_error_iff.mp h with h | ⟨a, c', ha, hb⟩
    · exact hd h
    · exact (hd ha).trans (hf a hb)
  | ok b =>
    obtain ⟨a, c', ha, hb⟩ := run_bind_eq_ok h
    exact (hd ha).trans (hf a hb)

theorem map (hd : GoesForward d) (g : α → β) : GoesForward (g <$> d) :=
  hd.bind fun a => .pure (g a)

theorem sized (n : Nat) (field : String) : GoesForward (sized n field) := by
  intro c c' result h
  change Decoder.sized n field c = _ at h
  rw [Decoder.sized] at h
  split at h
  · next hlength =>
    obtain ⟨-, rfl⟩ := Prod.mk.inj h
    exact Cursor.leads_advance (hlength ▸ List.length_take_le' ..)
  · exact .of_eq h

theorem exact (n : Nat) (field : String) : GoesForward (exact n field) :=
  (sized n field).map Subtype.val

theorem fixed (width : Nat) (field : String) : GoesForward (fixed width field) :=
  (exact width field).map ofLittleEndian

theorem varuintFrom (field : String) (groups weight value : Nat) :
    GoesForward (varuintFrom field groups weight value) := by
  induction groups generalizing weight value with
  | zero => exact .throw _
  | succ groups ih =>
    refine (fixed 1 field).bind fun byte => ?_
    simp only
    split
    · split
      · exact .pure _
      · exact .throw _
    · exact ih ..

theorem length (field : String) (minSize : Nat) : GoesForward (length field minSize) := by
  refine (varuintFrom field 5 1 0).bind fun n => ?_
  intro c c' result h
  rw [run_get_bind] at h
  split at h
  · exact throw _ h
  · exact pure _ h

theorem bytes (field : String) : GoesForward (bytes field) :=
  (length field 1).bind fun n => exact n field

theorem finish (record : String) : GoesForward (finish record) := by
  intro c c' result h
  change Decoder.finish record c = _ at h
  rw [Decoder.finish] at h
  split at h
  · exact .of_eq h
  · exact .of_eq h

end GoesForward

/-! ## Where reads stop -/

theorem run_exact_of_le (h : n ≤ c.remaining) :
    (exact n field).run c = (.ok (c.rest.take n), c.advance n) := by
  have hsized : (sized n field).run c =
      (.ok ⟨c.rest.take n, List.length_take_of_le h⟩, c.advance n) :=
    dif_pos (List.length_take_of_le h)
  exact run_bind_ok hsized

theorem run_exact_of_lt (h : c.remaining < n) :
    (exact n field).run c = (.error (.unexpectedEnd field), c) := by
  have hshort : ¬ (c.rest.take n).length = n := by
    rw [List.length_take, Cursor.remaining] at *
    omega
  have hsized : (sized n field).run c = (.error (.unexpectedEnd field), c) := dif_neg hshort
  exact run_bind_error hsized

/-- No varuint takes more than five bytes, nor what is refused as one. -/
theorem position_varuint32_le (field : String) (c : Cursor) :
    ((varuint32 field).run c).2.position ≤ c.position + 5 := by
  by_cases hcut : CutShort c.rest
  · rw [run_varuint32_of_cutShort hcut]
    exact Nat.add_le_add_left (Nat.le_of_lt hcut.length_lt) _
  by_cases hsome : ∃ s n, s <+: c.rest ∧ IsVaruint s n
  · obtain ⟨s, n, hprefix, hs⟩ := hsome
    rw [run_varuint32_eq_ok_iff.mpr ⟨s, hprefix, hs, rfl⟩]
    exact Nat.add_le_add_left hs.length_le _
  · rw [(run_varuint32_refused hcut hsome).2]
    exact Nat.le_refl _

/-- A length that is refused is none, or more than the bytes left can hold. -/
theorem run_length_eq_error_iff {minSize : Nat} :
    (length field minSize).run c = (.error e, c') ↔ (varuint32 field).run c = (.error e, c') ∨
      ∃ k, (varuint32 field).run c = (.ok k, c') ∧ c'.remaining < k.toNat * minSize ∧
        e = .invalidLength field k.toNat c'.remaining := by
  rw [length, run_bind_eq_error_iff]
  refine or_congr_right ?_
  constructor
  · rintro ⟨k, m, hk, h⟩
    rw [run_get_bind] at h
    split at h
    · next hroom =>
      obtain ⟨he, rfl⟩ := Prod.mk.inj h
      exact ⟨k, hk, hroom, (Except.error.inj he).symm⟩
    · cases h
  · rintro ⟨k, hk, hroom, rfl⟩
    refine ⟨k, c', hk, ?_⟩
    rw [run_get_bind, if_pos hroom]
    rfl

/-- A length that is refused was passed. -/
theorem snd_run_varuint32 {minSize : Nat} (h : (length field minSize).run c = (.error e, c')) :
    ((varuint32 field).run c).2 = c' := by
  rcases run_length_eq_error_iff.mp h with h | ⟨k, h, -, -⟩
  · rw [h]
  · rw [h]

/-- Bytes whose length was accepted are there. -/
theorem run_bytes_of_length (h : (length field 1).run c = (.ok n, c')) : n ≤ c'.remaining ∧
    (bytes field).run c = (.ok (c'.rest.take n), c'.advance n) := by
  obtain ⟨k, rfl, -, hroom⟩ := run_length_iff_room.mp h
  rw [Nat.mul_one] at hroom
  rw [bytes, run_bind_ok h]
  exact ⟨hroom, run_exact_of_le hroom⟩

theorem run_bytes_eq_error_iff : (bytes field).run c = (.error e, c') ↔
    (length field 1).run c = (.error e, c') := by
  rw [bytes, run_bind_eq_error_iff]
  refine or_iff_left ?_
  rintro ⟨n, m, hlength, h⟩
  have hbytes := (run_bytes_of_length hlength).2
  rw [bytes, run_bind_ok hlength, h] at hbytes
  cases hbytes

end Decoder

open Decoder

/-! ## Scripts of reads -/

namespace ReadStep

/-- The field or the record that a read is about. -/
def field : ReadStep → String
  | .u8 field | .u16 field | .u32 field | .u64 field | .varuint field | .exact _ field
  | .length field _ | .bytes field | .finish field => field

/-- The number of bytes that a read takes, if it is known before. -/
def width? : ReadStep → Option Nat
  | .u8 _ => some 1
  | .u16 _ => some 2
  | .u32 _ => some 4
  | .u64 _ => some 8
  | .exact n _ => some n
  | .varuint _ | .length .. | .bytes _ | .finish _ => none

theorem goesForward_decoder (step : ReadStep) : GoesForward step.decoder := by
  cases step with
  | u8 field | u16 field | u32 field | u64 field => exact ((GoesForward.fixed ..).map _).map _
  | varuint field => exact (GoesForward.varuintFrom ..).map _
  | exact n field => exact (GoesForward.exact ..).map _
  | length field minSize => exact (GoesForward.length ..).map _
  | bytes field => exact (GoesForward.bytes ..).map _
  | finish record => exact (GoesForward.finish ..).map _

/-- Reads of a known width differ in what they make of the bytes. -/
theorem exists_decoder_eq_map {step : ReadStep} {n : Nat} (h : step.width? = some n) :
    ∃ g, step.decoder = g <$> Decoder.exact n step.field := by
  cases step with
  | u8 field | u16 field | u32 field | u64 field =>
    cases h
    simp only [decoder, Decoder.u8, Decoder.u16, Decoder.u32, Decoder.u64, fixed,
      Functor.map_map]
    exact ⟨_, rfl⟩
  | exact n field =>
    cases h
    exact ⟨_, rfl⟩
  | varuint | length | bytes | finish => exact nomatch h

/-- The places before, between and after the reads of a script. -/
def places (c : Cursor) (steps : List ReadStep) : List Cursor :=
  c :: (trace c steps).map Prod.snd

/-- Every place of a script is at or behind those before it. -/
theorem pairwise_places (c : Cursor) (steps : List ReadStep) :
    (places c steps).Pairwise Cursor.Leads := by
  induction steps generalizing c with
  | nil => exact List.pairwise_singleton ..
  | cons step steps ih =>
    have hstep : c.Leads (step.decoder.run c).2 := step.goesForward_decoder rfl
    have hrest := ih (step.decoder.run c).2
    refine List.pairwise_cons.mpr ⟨?_, hrest⟩
    change ∀ c' ∈ places (step.decoder.run c).2 steps, c.Leads c'
    obtain ⟨hbehind, -⟩ := List.pairwise_cons.mp hrest
    exact List.forall_mem_cons.mpr ⟨hstep, fun c' hc' => hstep.trans (hbehind c' hc')⟩

theorem leads_of_mem_places {c c' : Cursor} {steps : List ReadStep} (h : c' ∈ places c steps) :
    c.Leads c' := by
  rcases List.mem_cons.mp h with rfl | h
  · exact .refl c'
  · exact (List.pairwise_cons.mp (pairwise_places c steps)).1 c' h

end ReadStep

/-! ## Scripts of writes -/

namespace WriteStep

/-- A length is written that is that of the bytes. -/
def Fits : WriteStep → Prop
  | .bytes data => data.length < UInt32.size
  | .u8 _ | .u16 _ | .u32 _ | .u64 _ | .varuint _ | .raw _ => True

/-- The read that takes back what was written. -/
def reader (field : String) : WriteStep → ReadStep
  | .u8 _ => .u8 field
  | .u16 _ => .u16 field
  | .u32 _ => .u32 field
  | .u64 _ => .u64 field
  | .varuint _ => .varuint field
  | .raw data => .exact data.length field
  | .bytes _ => .bytes field

/-- What was written, as a read gives it. -/
def value : WriteStep → ReadValue
  | .u8 n => .number n.toNat
  | .u16 n => .number n.toNat
  | .u32 n => .number n.toNat
  | .u64 n => .number n.toNat
  | .varuint n => .number n.toNat
  | .raw data | .bytes data => .bytes data

theorem reads_written {step : WriteStep} (h : step.Fits) (field : String) :
    Reads (step.reader field).decoder step.written step.value := by
  cases step with
  | u8 n => exact (reads_u8 field n).map _
  | u16 n => exact (reads_u16 field n).map _
  | u32 n => exact (reads_u32 field n).map _
  | u64 n => exact (reads_u64 field n).map _
  | varuint n => exact (reads_varuint32 field n).map _
  | raw data => exact (reads_exact field data).map _
  | bytes data => exact (reads_bytes field data h).map _

end WriteStep

open WriteStep (writeAll)

/-- Matching reads give back what was written, and the reads after them start behind it. -/
theorem ReadStep.trace_writeAll (steps : List (String × WriteStep))
    (h : ∀ step ∈ steps, step.2.Fits) (position : Nat) (rest : List UInt8)
    (more : List ReadStep) :
    let written := writeAll (steps.map Prod.snd)
    (trace ⟨position, written ++ rest⟩ (steps.map (fun step => step.2.reader step.1) ++ more)).map
      Prod.fst = steps.map (fun step => .ok step.2.value) ++
        (trace ⟨position + written.length, rest⟩ more).map Prod.fst := by
  induction steps generalizing position with
  | nil => rfl
  | cons step steps ih =>
    obtain ⟨hstep, hsteps⟩ := List.forall_mem_cons.mp h
    have hrun := WriteStep.reads_written hstep step.1 position
      (writeAll (steps.map Prod.snd) ++ rest)
    have hih := ih hsteps (position + step.2.written.length)
    simp only [writeAll] at hrun hih ⊢
    simp only [List.map_cons, List.flatMap_cons, List.append_assoc, List.cons_append, trace, hrun,
      hih, List.length_append, Nat.add_assoc]

/-- **A cursor is safe under every script.** Whatever is read from a byte string, also after reads
that failed, no read moves the cursor back, and what is left at each place are the bytes of the
input from its position on. From any place a read of a known width takes as much or, where that is
not left, nothing. A varuint is read just if the bytes left start with one, and it is taken; bytes
that end too early are taken to their end, and of all others five. Bytes whose length was accepted
are there, and where they are not read the cursor has passed their length at most. What any list of
writes has written, the matching reads give back, and they leave nothing. -/
theorem Cursor.safe_under_scripts :
    (∀ bytes steps,
      (ReadStep.places (.start bytes) steps).Pairwise (fun c c' => c.position ≤ c'.position) ∧
      ∀ c ∈ ReadStep.places (.start bytes) steps,
        c.position + c.remaining = bytes.length ∧ c.rest = bytes.drop c.position) ∧
    (∀ (step : ReadStep) (n : Nat), step.width? = some n → ∀ c,
      (n ≤ c.remaining → ∃ v, step.decoder.run c = (.ok v, c.advance n)) ∧
      (c.remaining < n → step.decoder.run c = (.error (.unexpectedEnd step.field), c))) ∧
    (∀ field c,
      (∀ n c', (varuint32 field).run c = (.ok n, c') ↔
        ∃ s, s <+: c.rest ∧ IsVaruint s n ∧ c' = c.advance s.length) ∧
      (CutShort c.rest →
        (varuint32 field).run c = (.error (.unexpectedEnd field), c.advance c.remaining)) ∧
      (¬ CutShort c.rest → (¬ ∃ s n, s <+: c.rest ∧ IsVaruint s n) → 5 ≤ c.remaining ∧
        (varuint32 field).run c = (.error (.invalidVaruint field), c.advance 5))) ∧
    (∀ field c c',
      (∀ n, (length field 1).run c = (.ok n, c') → n ≤ c'.remaining ∧
        (bytes field).run c = (.ok (c'.rest.take n), c'.advance n)) ∧
      ∀ e, (bytes field).run c = (.error e, c') → (length field 1).run c = (.error e, c') ∧
        ((varuint32 field).run c).2 = c' ∧ c'.position ≤ c.position + 5) ∧
    ∀ steps : List (String × WriteStep), (∀ step ∈ steps, step.2.Fits) → ∀ record,
      (ReadStep.trace (.start (writeAll (steps.map Prod.snd)))
        (steps.map (fun step => step.2.reader step.1) ++ [.finish record])).map Prod.fst =
      steps.map (fun step => .ok step.2.value) ++ [.ok .done] := by
  refine ⟨fun bytes steps => ⟨?_, fun c hc => (ReadStep.leads_of_mem_places hc).of_start⟩,
    fun step n hwidth c => ?_, fun field c => ⟨fun n c' => run_varuint32_eq_ok_iff,
      run_varuint32_of_cutShort, run_varuint32_refused⟩,
    fun field c c' => ⟨fun n => run_bytes_of_length, fun e h => ?_⟩, fun steps h record => ?_⟩
  · exact (ReadStep.pairwise_places _ steps).imp Cursor.Leads.position_le
  · obtain ⟨g, hdecoder⟩ := ReadStep.exists_decoder_eq_map hwidth
    rw [hdecoder]
    exact ⟨fun hle => ⟨_, run_bind_ok (run_exact_of_le hle)⟩,
      fun hlt => run_bind_error (run_exact_of_lt hlt)⟩
  · have hlength := run_bytes_eq_error_iff.mp h
    have hprefix := snd_run_varuint32 hlength
    exact ⟨hlength, hprefix, hprefix ▸ position_varuint32_le field c⟩
  · have hrun := ReadStep.trace_writeAll steps h 0 [] [.finish record]
    simp only [List.append_nil] at hrun
    exact hrun

/-- Five bytes that go on, a length without its bytes, a number of four bytes where three are left,
one of two, and a varuint that is cut short; then a padded varuint, and what was written. -/
theorem Cursor.safe_under_scripts_failing :
    let input : List UInt8 := [128, 128, 128, 128, 128, 9, 170, 187, 255]
    let script : List ReadStep := [.varuint "a", .bytes "b", .u32 "c", .u16 "d", .varuint "e"]
    let written : List (String × WriteStep) :=
      [("f", .varuint 300), ("g", .bytes [1, 2]), ("h", .raw [3]), ("i", .u16 515)]
    (∀ c ∈ ReadStep.places (.start input) script, c.position + c.remaining = 9) ∧
      (varuint32 "a").run (.start input) =
        (.error (.invalidVaruint "a"), ⟨5, [9, 170, 187, 255]⟩) ∧
      (bytes "b").run ⟨5, [9, 170, 187, 255]⟩ =
        (.error (.invalidLength "b" 9 3), ⟨6, [170, 187, 255]⟩) ∧
      ((varuint32 "b").run ⟨5, [9, 170, 187, 255]⟩).2 = ⟨6, [170, 187, 255]⟩ ∧
      (ReadStep.u32 "c").decoder.run ⟨6, [170, 187, 255]⟩ =
        (.error (.unexpectedEnd "c"), ⟨6, [170, 187, 255]⟩) ∧
      (∃ v, (ReadStep.u16 "d").decoder.run ⟨6, [170, 187, 255]⟩ = (.ok v, ⟨8, [255]⟩)) ∧
      CutShort [255] ∧
      (varuint32 "e").run ⟨8, [255]⟩ = (.error (.unexpectedEnd "e"), ⟨9, []⟩) ∧
      IsVaruint [133, 128, 0] 5 ∧
      (varuint32 "e").run ⟨0, [133, 128, 0, 7]⟩ = (.ok 5, ⟨3, [7]⟩) ∧
      (bytes "e").run ⟨0, [130, 0, 6, 7, 8]⟩ = (.ok [6, 7], ⟨4, [8]⟩) ∧
      (ReadStep.trace (.start [172, 2, 2, 1, 2, 3, 3, 2])
        [.varuint "f", .bytes "g", .exact 1 "h", .u16 "i", .finish "j"]).map Prod.fst =
        written.map (fun step => .ok step.2.value) ++ [.ok .done] := by
  intro input script written
  obtain ⟨hplaces, hfixed, hvaruint, hbytes, hwritten⟩ := Cursor.safe_under_scripts
  have hcut : ¬ CutShort (Cursor.start input).rest := fun h =>
    absurd h.length_lt (by decide)
  have hnone : ¬ ∃ s n, s <+: (Cursor.start input).rest ∧ IsVaruint s n := by
    rintro ⟨s, n, hprefix, hs⟩
    have hread := ((hvaruint "a" (.start input)).1 n _).mpr ⟨s, hprefix, hs, rfl⟩
    have hfront : GoOn [128, 128, 128, 128, 128] := by simp [GoOn]
    have hrun : (varuint32 "a").run ⟨0, [128, 128, 128, 128, 128] ++ [9, 170, 187, 255]⟩ =
        (.error (.invalidVaruint "a"), ⟨5, [9, 170, 187, 255]⟩) := run_varuint32_long rfl hfront
    exact nomatch congrArg Prod.fst (hrun.symm.trans hread)
  have hshort : CutShort [255] := ⟨by decide, by simp [GoOn]⟩
  have hpadded : IsVaruint [133, 128, 0] 5 :=
    ⟨by decide, by simp [GoOn], ⟨0, rfl, by decide⟩, by decide⟩
  have hrefused : (bytes "b").run ⟨5, [9, 170, 187, 255]⟩ =
      (.error (.invalidLength "b" 9 3), ⟨6, [170, 187, 255]⟩) := rfl
  have haccepted : (length "e" 1).run ⟨0, [130, 0, 6, 7, 8]⟩ = (.ok 2, ⟨2, [6, 7, 8]⟩) := rfl
  have hpacked : writeAll (written.map Prod.snd) = [172, 2, 2, 1, 2, 3, 3, 2] := by decide
  have hfits : ∀ step ∈ written, step.2.Fits := by
    simp [written, WriteStep.Fits, UInt32.size]
  refine ⟨fun c hc => ((hplaces input script).2 c hc).1,
    ((hvaruint "a" (.start input)).2.2 hcut hnone).2, hrefused,
    ((hbytes ..).2 _ hrefused).2.1, (hfixed (.u32 "c") 4 rfl _).2 (by decide),
    (hfixed (.u16 "d") 2 rfl _).1 (by decide), hshort, (hvaruint "e" ⟨8, [255]⟩).2.1 hshort,
    hpadded, ((hvaruint "e" _).1 5 _).mpr ⟨[133, 128, 0], ⟨[7], rfl⟩, hpadded, rfl⟩,
    ((hbytes "e" _ _).1 2 haccepted).2, ?_⟩
  rw [← hpacked]
  exact hwritten written hfits "j"

end LightClient
