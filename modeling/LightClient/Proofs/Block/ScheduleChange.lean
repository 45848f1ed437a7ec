import LightClient.Proofs.Except
import LightClient.Proofs.Packed.Exact

/-!
Schedules that headers announce. Main statement: under a number a header announces what is packed in
the first extension with that number, and just that; a packed schedule that is cut short or goes on
is none. The plain form of a schedule keeps all but the keys behind the first of each producer, and
is lacking only if a producer has no key.
-/

namespace LightClient

/-! ## Plain forms -/

namespace ProducerAuthority

/-- The producer under its name with the first of its keys. -/
def PlainForm (p : ProducerAuthority) (k : ProducerKey) : Prop :=
  ∃ first rest, p.authority.keys = first :: rest ∧ k = ⟨p.producer, first.key⟩

variable {p : ProducerAuthority}

theorem downgrade_of_nil (h : p.authority.keys = []) :
    p.downgrade = .error (.noKeys p.producer) := by
  rw [downgrade, SigningAuthority.primaryKey, h]
  rfl

theorem downgrade_of_cons {first : KeyWeight} {rest : List KeyWeight}
    (h : p.authority.keys = first :: rest) : p.downgrade = .ok ⟨p.producer, first.key⟩ := by
  rw [downgrade, SigningAuthority.primaryKey, h]
  rfl

theorem downgrade_eq_ok_iff {k : ProducerKey} : p.downgrade = .ok k ↔ p.PlainForm k := by
  constructor
  · intro h
    cases hkeys : p.authority.keys with
    | nil => cases (downgrade_of_nil hkeys).symm.trans h
    | cons first rest =>
      rw [downgrade_of_cons hkeys] at h
      exact ⟨first, rest, hkeys, (Except.ok.inj h).symm⟩
  · rintro ⟨first, rest, hkeys, rfl⟩
    exact downgrade_of_cons hkeys

theorem downgrade_eq_error_iff {e : ScheduleError} :
    p.downgrade = .error e ↔ p.authority.keys = [] ∧ e = .noKeys p.producer := by
  constructor
  · intro h
    cases hkeys : p.authority.keys with
    | nil =>
      rw [downgrade_of_nil hkeys] at h
      exact ⟨rfl, (Except.error.inj h).symm⟩
    | cons first rest => cases (downgrade_of_cons hkeys).symm.trans h
  · rintro ⟨hkeys, rfl⟩
    exact downgrade_of_nil hkeys

theorem PlainForm.keys_ne_nil {k : ProducerKey} (h : p.PlainForm k) : p.authority.keys ≠ [] := by
  obtain ⟨first, rest, hkeys, -⟩ := h
  exact hkeys ▸ List.cons_ne_nil first rest

theorem exists_downgrade_iff : (∃ k, p.downgrade = .ok k) ↔ p.authority.keys ≠ [] := by
  simp only [downgrade_eq_ok_iff]
  constructor
  · rintro ⟨k, hk⟩
    exact hk.keys_ne_nil
  · intro hne
    obtain ⟨first, rest, hkeys⟩ := List.exists_cons_of_ne_nil hne
    exact ⟨_, first, rest, hkeys, rfl⟩

end ProducerAuthority

namespace AuthoritySchedule

/-- The schedule with the same version and the same producers in the same order, each with the
first of its keys. -/
structure PlainForm (s : AuthoritySchedule) (plain : ProducerSchedule) : Prop where
  version : plain.version = s.version
  producers : List.Forall₂ ProducerAuthority.PlainForm s.producers plain.producers

/-- The first producer without keys is this one. -/
def FirstKeyless (s : AuthoritySchedule) (p : ProducerAuthority) : Prop :=
  ∃ before after, s.producers = before ++ p :: after ∧
    (∀ q ∈ before, q.authority.keys ≠ []) ∧ p.authority.keys = []

variable {s : AuthoritySchedule}

theorem downgrade_eq_ok_iff {plain : ProducerSchedule} :
    s.downgrade = .ok plain ↔ s.PlainForm plain := by
  rw [downgrade, bind_eq_ok]
  simp only [mapM_eq_ok_iff, ProducerAuthority.downgrade_eq_ok_iff]
  constructor
  · rintro ⟨producers, hproducers, h⟩
    obtain rfl := Except.ok.inj h
    exact ⟨rfl, hproducers⟩
  · rintro ⟨hversion, hproducers⟩
    exact ⟨plain.producers, hproducers, by rw [← hversion]; rfl⟩

theorem downgrade_eq_error_iff {e : ScheduleError} :
    s.downgrade = .error e ↔ ∃ p, s.FirstKeyless p ∧ e = .noKeys p.producer := by
  rw [downgrade, bind_eq_error]
  simp only [mapM_eq_error_iff, ProducerAuthority.downgrade_eq_error_iff,
    ProducerAuthority.exists_downgrade_iff]
  constructor
  · rintro (⟨before, p, after, hs, hbefore, hkeys, he⟩ | ⟨_, -, h⟩)
    · exact ⟨p, ⟨before, after, hs, hbefore, hkeys⟩, he⟩
    · cases h
  · rintro ⟨p, ⟨before, after, hs, hbefore, hkeys⟩, he⟩
    exact .inl ⟨before, p, after, hs, hbefore, hkeys, he⟩

/-- There is a plain form just if no producer stands in the way. -/
theorem exists_downgrade_iff :
    (∃ plain, s.downgrade = .ok plain) ↔ ∀ p ∈ s.producers, p.authority.keys ≠ [] := by
  constructor
  · rintro ⟨plain, h⟩
    have hproducers := (downgrade_eq_ok_iff.mp h).producers
    -- Beside every producer stands its plain form, which is made from a key.
    have hkeys := hproducers.imp fun _ _ hk => And.intro hk.keys_ne_nil hk
    exact ((List.forall₂_and_left _ _).mp hkeys).1
  · intro hkeys
    cases h : s.downgrade with
    | ok plain => exact ⟨plain, rfl⟩
    | error e =>
      obtain ⟨p, ⟨before, after, hs, -, hnil⟩, -⟩ := downgrade_eq_error_iff.mp h
      exact absurd hnil (hkeys p (hs ▸ List.mem_append_cons_self))

end AuthoritySchedule

/-! ## Announced schedules -/

namespace Header

variable {h : Header} {id : UInt16} {data : List UInt8}

/-- The first extension with the number holds the data. -/
def Carries (h : Header) (id : UInt16) (data : List UInt8) : Prop :=
  ∃ before after, h.extensions = before ++ ⟨id, data⟩ :: after ∧ ∀ x ∈ before, x.id ≠ id

theorem extension_eq_none_iff : h.extension id = none ↔ ∀ x ∈ h.extensions, x.id ≠ id := by
  simp [extension]

theorem extension_eq_some_iff : h.extension id = some data ↔ h.Carries id data := by
  rw [extension, Option.map_eq_some_iff]
  simp only [List.find?_eq_some_iff_append, decide_eq_true_eq]
  constructor
  · rintro ⟨⟨_, _⟩, ⟨rfl, before, after, hx, hbefore⟩, rfl⟩
    exact ⟨before, after, hx, by simpa using hbefore⟩
  · rintro ⟨before, after, hx, hbefore⟩
    exact ⟨⟨id, data⟩, ⟨rfl, before, after, hx, by simpa using hbefore⟩, rfl⟩

theorem exists_carries_iff : (∃ data, h.Carries id data) ↔ ∃ x ∈ h.extensions, x.id = id := by
  simp only [← extension_eq_some_iff, ← Option.ne_none_iff_exists', ne_eq, extension_eq_none_iff,
    not_forall, not_not, exists_prop]

/-- The schedule that is packed in the data of an extension, in its plain form. -/
def announced (id : UInt16) (data : List UInt8) :
    Except ScheduleError (Option ProducerSchedule) := do
  let schedule : AuthoritySchedule ← (fromPacked data).mapError (.notSchedule id)
  some <$> schedule.downgrade

theorem scheduleChange_of_carries (hc : h.Carries id data) :
    h.scheduleChange id = announced id data := by
  rw [scheduleChange, extension_eq_some_iff.mpr hc]
  rfl

theorem announced_ne_none : announced id data ≠ .ok none := by
  intro hnone
  obtain ⟨s, -, hs⟩ := bind_eq_ok.mp hnone
  obtain ⟨plain, -, hplain⟩ := map_eq_ok.mp hs
  cases hplain

theorem scheduleChange_eq_none_iff :
    h.scheduleChange id = .ok none ↔ ∀ x ∈ h.extensions, x.id ≠ id := by
  rw [← extension_eq_none_iff]
  constructor
  · intro hnone
    cases hx : h.extension id with
    | none => rfl
    | some data =>
      rw [scheduleChange_of_carries (extension_eq_some_iff.mp hx)] at hnone
      exact absurd hnone announced_ne_none
  · intro hx
    rw [scheduleChange, hx]

theorem announced_of_error {e : DecodeError}
    (he : (fromPacked data : Except DecodeError AuthoritySchedule) = .error e) :
    announced id data = .error (.notSchedule id e) := by
  rw [announced, he]
  rfl

section Packed

variable {s : AuthoritySchedule} (id : UInt16)

theorem announced_pack (hs : Fits s) : announced id (pack s) = some <$> s.downgrade := by
  rw [announced, fromPacked_pack hs]
  rfl

theorem announced_cut (hs : Fits s) (hcut : data <+: pack s) (hne : data ≠ pack s) :
    ∃ e, announced id data = .error (.notSchedule id e) := by
  obtain ⟨e, he⟩ := (decodesExactly_fromPacked hs).decode_cut data hcut hne
  exact ⟨e, announced_of_error he⟩

theorem announced_append (hs : Fits s) {suffix : List UInt8} (hne : suffix ≠ []) :
    announced id (pack s ++ suffix) = .error (.notSchedule id
      (.trailingBytes (Layout.record AuthoritySchedule) suffix.length)) :=
  announced_of_error ((decodesExactly_fromPacked hs).decode_append suffix hne)

end Packed

theorem decode_encode {h : Header} (hf : Fits h) : Header.decode h.encode = .ok h :=
  (reads_pack h hf).whole _

/-- **Schedule changes are read as they were announced.** A header announces no schedule under a
number just if none of its extensions has the number. Otherwise the first of those that have it
decides, by its data alone: a packed schedule gives the plain form of it, or the reason that there
is none; if it is cut short or goes on, it is no schedule. A schedule has a plain form just if every
producer has a key; the plain form keeps the version and all producers in their order, each with
the first of its keys, and if there is none, the reason is the first producer without keys. A header
that was packed and read back announces the same. -/
theorem scheduleChange_faithful :
    (∀ (h : Header) (id : UInt16),
      (h.scheduleChange id = .ok none ↔ ∀ x ∈ h.extensions, x.id ≠ id) ∧
      ((∃ x ∈ h.extensions, x.id = id) → ∃ data, h.Carries id data) ∧
      ∀ data, h.Carries id data →
        (∀ h' : Header, h'.Carries id data → h'.scheduleChange id = h.scheduleChange id) ∧
        ∀ s : AuthoritySchedule, Fits s →
          (data = pack s → h.scheduleChange id = some <$> s.downgrade) ∧
          (data <+: pack s → data ≠ pack s →
            ∃ e, h.scheduleChange id = .error (.notSchedule id e)) ∧
          ∀ suffix ≠ [], data = pack s ++ suffix → h.scheduleChange id = .error (.notSchedule id
            (.trailingBytes (Layout.record AuthoritySchedule) suffix.length))) ∧
    (∀ s : AuthoritySchedule,
      ((∃ plain, s.downgrade = .ok plain) ↔ ∀ p ∈ s.producers, p.authority.keys ≠ []) ∧
      (∀ plain, s.downgrade = .ok plain ↔ s.PlainForm plain) ∧
      ∀ e, s.downgrade = .error e ↔ ∃ p, s.FirstKeyless p ∧ e = .noKeys p.producer) ∧
    ∀ h : Header, Fits h → ∃ back, Header.decode h.encode = .ok back ∧
      ∀ id, back.scheduleChange id = h.scheduleChange id := by
  refine ⟨fun h id => ⟨scheduleChange_eq_none_iff, exists_carries_iff.mpr, fun data hdata => ?_⟩,
    fun s => ⟨s.exists_downgrade_iff, fun _ => s.downgrade_eq_ok_iff,
      fun _ => s.downgrade_eq_error_iff⟩,
    fun h hf => ⟨h, decode_encode hf, fun _ => rfl⟩⟩
  rw [scheduleChange_of_carries hdata]
  refine ⟨fun h' hdata' => scheduleChange_of_carries hdata', fun s hs => ⟨?_, ?_, ?_⟩⟩
  · rintro rfl
    exact announced_pack id hs
  · exact announced_cut id hs
  · rintro suffix hne rfl
    exact announced_append id hs hne

/-- Two extensions of one number behind one of another; the schedule cut short, with a byte behind
it, and with a producer whose keys are gone. -/
theorem scheduleChange_faithful_twice :
    let key (b : UInt8) : PublicKey := ⟨.k1, List.replicate 33 b, by simp⟩
    let first : ProducerAuthority := ⟨⟨5⟩, 1, [⟨key 2, 1⟩, ⟨key 3, 1⟩]⟩
    let s : AuthoritySchedule := ⟨4, [first]⟩
    let header (extensions : List Extension) : Header :=
      ⟨⟨9⟩, ⟨5⟩, 0, .zero, .zero, .zero, 3, none, extensions⟩
    let h := header [⟨2, [0xaa]⟩, ⟨1, pack s⟩, ⟨1, [0xbb]⟩]
    Fits s ∧ Fits h ∧ h.Carries 1 (pack s) ∧
      h.scheduleChange 1 = .ok (some ⟨4, [⟨⟨5⟩, key 2⟩]⟩) ∧ h.scheduleChange 3 = .ok none ∧
      (∃ e, (header [⟨1, [4, 0, 0, 0, 1]⟩]).scheduleChange 1 = .error (.notSchedule 1 e)) ∧
      (header [⟨1, pack s ++ [7]⟩]).scheduleChange 1 = .error (.notSchedule 1
        (.trailingBytes "ibc_block::schedule::ProducerAuthoritySchedule" 1)) ∧
      (⟨4, [first, ⟨⟨6⟩, 1, []⟩, ⟨⟨7⟩, 1, []⟩]⟩ : AuthoritySchedule).downgrade =
        .error (.noKeys ⟨6⟩) ∧
      ∃ back, Header.decode h.encode = .ok back ∧
        back.scheduleChange 1 = .ok (some ⟨4, [⟨⟨5⟩, key 2⟩]⟩) := by
  intro key first s header h
  have hs : Fits s :=
    ⟨by decide, List.forall_mem_singleton.mpr ⟨by decide, fun _ _ => trivial⟩⟩
  have hdata : ∀ x ∈ h.extensions, x.data.length < UInt32.size := by decide
  have hh : Fits h := ⟨fun _ hnew => (nomatch hnew), by decide, hdata⟩
  have hcarries : h.Carries 1 (pack s) := ⟨[⟨2, [0xaa]⟩], [⟨1, [0xbb]⟩], rfl, by decide⟩
  have halone (data : List UInt8) : (header [⟨1, data⟩]).Carries 1 data :=
    ⟨[], [], rfl, List.forall_mem_nil _⟩
  obtain ⟨hheader, hschedule, hback⟩ := scheduleChange_faithful
  have hplain : s.downgrade = .ok ⟨4, [⟨⟨5⟩, key 2⟩]⟩ :=
    ((hschedule s).2.1 _).mpr ⟨rfl, .cons ⟨_, _, rfl, rfl⟩ .nil⟩
  have hchange : h.scheduleChange 1 = .ok (some ⟨4, [⟨⟨5⟩, key 2⟩]⟩) := by
    rw [(((hheader h 1).2.2 _ hcarries).2 s hs).1 rfl, hplain]
    rfl
  obtain ⟨back, hread, hsame⟩ := hback h hh
  refine ⟨hs, hh, hcarries, hchange, (hheader h 3).1.mpr (by decide), ?_, ?_, ?_, back, hread,
    (hsame 1).trans hchange⟩
  · exact (((hheader _ 1).2.2 _ (halone _)).2 s hs).2.1 (by decide) (by decide)
  · exact (((hheader _ 1).2.2 _ (halone _)).2 s hs).2.2 [7] (by decide) rfl
  · exact ((hschedule _).2.2 _).mpr
      ⟨_, ⟨[first], [⟨⟨7⟩, 1, []⟩], rfl, by decide, rfl⟩, rfl⟩

end Header

end LightClient
