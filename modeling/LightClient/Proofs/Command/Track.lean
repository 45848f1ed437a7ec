import LightClient.Command.Run
import LightClient.Proofs.Relay.Restored
import LightClient.Proofs.Relay.Session

/-!
Tracking headers in several runs of the command. Main statement: a run that succeeded can be
repeated, with nothing left to take, and headers in two runs are taken as they are in one.
-/

namespace LightClient

/-! ## Blocks at or below the head -/

namespace Tracker

/-- The block is not above the head. -/
def Covers (t : Tracker) (num : UInt32) : Prop :=
  t.head?.any (num ≤ ·) = true

variable {σ : Type} [ChainStore σ] [ShelvedStore σ] {t : Tracker} {store : σ} {h : Header}
  {root : Digest} {num : UInt32}

/-- A header that was taken is the head. -/
theorem Counted.covers_update (hc : t.Counted) (hu : (t.update store h).result = .ok root) :
    (t.update store h).tracker.Covers h.blockNum := by
  obtain ⟨acc, -, -, heq⟩ := hc.update_ok_cases hu
  rw [heq]
  exact decide_eq_true (UInt32.le_refl h.blockNum)

/-- The head only moves up. -/
theorem Counted.covers_mono (hc : t.Counted) (hu : (t.update store h).result = .ok root)
    (hnum : t.Covers num) : (t.update store h).tracker.Covers num := by
  obtain ⟨acc, ha, -, heq⟩ := hc.update_ok_cases hu
  rw [heq]
  cases hspan : t.span with
  | none =>
    rw [Covers, head?, hspan] at hnum
    exact nomatch hnum
  | some span =>
    rw [Covers, head?, hspan] at hnum
    have hle : num ≤ span.head := of_decide_eq_true hnum
    have hnext := (accepts_eq_ok.mp ha span hspan).1
    rw [UInt32.le_iff_toNat_le] at hle
    refine decide_eq_true (UInt32.le_iff_toNat_le.mpr ?_)
    change num.toNat ≤ h.blockNum.toNat
    omega

end Tracker

namespace Command

/-! ## Taking headers in parts -/

section Ingest

variable {σ : Type} [ChainStore σ] {t t' : Tracker} {store store' : σ} {count count' : Nat}
  {xs : List Header}

theorem ingest_append (t : Tracker) (store : σ) (count : Nat) (xs ys : List Header) :
    ingest t store count (xs ++ ys) =
      match ingest t store count xs with
      | (.ok (t, count), store) => ingest t store count ys
      | (.error e, store) => (.error e, store) := by
  induction xs generalizing t store count with
  | nil => rfl
  | cons h xs ih =>
    rw [List.cons_append, ingest, ingest]
    split
    · exact ih t store count
    · cases hu : (t.update store h).result with
      | error e => simp only [hu]
      | ok root =>
        simp only [hu]
        exact ih _ _ _

/-- What was counted before is added to the count, and changes nothing else. -/
theorem ingest_add (t : Tracker) (store : σ) (before count : Nat) (xs : List Header) :
    ingest t store (before + count) xs =
      ((ingest t store count xs).1.map fun r => (r.1, before + r.2),
        (ingest t store count xs).2) := by
  induction xs generalizing t store count with
  | nil => rfl
  | cons h xs ih =>
    rw [ingest, ingest]
    split
    · exact ih t store count
    · cases hu : (t.update store h).result with
      | error e =>
        simp only [hu]
        rfl
      | ok root =>
        simp only [hu]
        exact ih _ _ (count + 1)

/-- Headers at or below the head are all skipped. -/
theorem ingest_of_covers (hall : ∀ h ∈ xs, t.Covers h.blockNum) :
    ingest t store count xs = (.ok (t, count), store) := by
  induction xs with
  | nil => rfl
  | cons h xs ih =>
    rw [List.forall_mem_cons] at hall
    have hskip : t.head?.any (h.blockNum ≤ ·) = true := hall.1
    rw [ingest, if_pos hskip]
    exact ih hall.2

variable [ShelvedStore σ] [DurableStore σ]

/-- What headers that were taken leave: the store restores the tracker, and the head is not below
any of them, nor below where it was. -/
structure Ingested (chain : AccountName) (xs : List Header) (t t' : Tracker) (store' : σ) :
    Prop where
  restore_eq : Tracker.restore store' chain = .ok t'
  covers_mono : ∀ num, t.Covers num → t'.Covers num
  covers_all : ∀ h ∈ xs, t'.Covers h.blockNum

theorem ingested {chain : AccountName} (hr : Tracker.restore store chain = .ok t)
    (hfits : ∀ h ∈ xs, Fits h)
    (hi : ingest t store count xs = (.ok (t', count'), store')) :
    Ingested chain xs t t' store' := by
  induction xs generalizing t store count with
  | nil =>
    obtain ⟨htracker, rfl⟩ := Prod.mk.inj hi
    obtain ⟨rfl, -⟩ := Prod.mk.inj (Except.ok.inj htracker)
    exact ⟨hr, fun _ h => h, fun _ h => absurd h List.not_mem_nil⟩
  | cons h xs ih =>
    rw [List.forall_mem_cons] at hfits
    rw [ingest] at hi
    split at hi
    · next hskip =>
      have hrest := ih hr hfits.2 hi
      refine ⟨hrest.restore_eq, hrest.covers_mono, ?_⟩
      exact List.forall_mem_cons.mpr ⟨hrest.covers_mono _ hskip, hrest.covers_all⟩
    · cases hu : (t.update store h).result with
      | error e =>
        simp only [hu] at hi
        exact nomatch (Prod.mk.inj hi).1
      | ok root =>
        simp only [hu] at hi
        have hc := Tracker.counted_restore hr
        have hrest := ih (Tracker.restore_update hr hfits.1 hu) hfits.2 hi
        refine ⟨hrest.restore_eq, fun num hnum => ?_, ?_⟩
        · exact hrest.covers_mono num (hc.covers_mono hu hnum)
        · exact List.forall_mem_cons.mpr
            ⟨hrest.covers_mono _ (hc.covers_update hu), hrest.covers_all⟩

end Ingest

/-! ## The command -/

/-- What the command says once all headers are seen. -/
def report (chain : AccountName) :
    Except RelayError (Tracker × Nat) → Except Error Summary
  | .error e => .error (.relay e)
  | .ok (t, count) =>
    match t.span with
    | none => .error (.nothingTracked chain)
    | some span => .ok ⟨chain, span.head, span.headId, t.root, count⟩

/-- A summary that counts the headers of an earlier run too. -/
def Summary.after (s : Summary) (before : Nat) : Summary :=
  { s with ingested := before + s.ingested }

/-- The count is reported as it is, whatever else is. -/
theorem report_recount {chain : AccountName} {t : Tracker} {count : Nat} {s : Summary}
    (h : report chain (.ok (t, count)) = .ok s) (count' : Nat) :
    s.ingested = count ∧
      report chain (.ok (t, count')) = .ok { s with ingested := count' } := by
  simp only [report] at h ⊢
  cases hspan : t.span with
  | none =>
    rw [hspan] at h
    exact nomatch h
  | some span =>
    rw [hspan] at h
    obtain rfl := Except.ok.inj h
    exact ⟨rfl, rfl⟩

theorem report_add (chain : AccountName) (r : Except RelayError (Tracker × Nat))
    (before : Nat) : report chain (r.map fun r => (r.1, before + r.2)) =
      (report chain r).map (·.after before) := by
  cases r with
  | error e => rfl
  | ok r =>
    simp only [Except.map, report]
    cases r.1.span <;> rfl

section Track

variable {σ : Type} [ChainStore σ] {chain : AccountName} {store store' : σ} {xs : List Header}
  {first : Summary} {t : Tracker}

theorem trackHeaders_of_restore (hr : Tracker.restore store chain = .ok t) (xs : List Header) :
    trackHeaders store chain xs =
      (report chain (ingest t store 0 xs).1, (ingest t store 0 xs).2) := by
  rw [trackHeaders, hr]
  rcases hi : ingest t store 0 xs with ⟨e | ⟨t', count⟩, store'⟩
  · simp only [hi, report]
  · simp only [hi, report]
    cases t'.span <;> rfl

/-- The command succeeds where a tracker is restored, takes the headers and has a head. -/
theorem trackHeaders_eq_ok (h : trackHeaders store chain xs = (.ok first, store')) :
    ∃ t t', Tracker.restore store chain = .ok t ∧
      ingest t store 0 xs = (.ok (t', first.ingested), store') ∧
      report chain (.ok (t', first.ingested)) = .ok first := by
  cases hr : Tracker.restore store chain with
  | error e =>
    rw [trackHeaders, hr] at h
    exact nomatch (Prod.mk.inj h).1
  | ok t =>
    rw [trackHeaders_of_restore hr] at h
    obtain ⟨hreport, hstore⟩ := Prod.mk.inj h
    cases hi : ingest t store 0 xs with
    | mk result after =>
      rw [hi] at hreport hstore
      obtain rfl : after = store' := hstore
      cases result with
      | error e => exact nomatch hreport
      | ok r =>
        obtain ⟨t', count⟩ := r
        obtain rfl : first.ingested = count := (report_recount hreport 0).1
        exact ⟨t, t', rfl, hi, hreport⟩

end Track

/-- **Tracking headers can be repeated and resumed.** Let a run of the command succeed, over any
database and for any headers. To run it again with these headers takes none, gives the same head and
root and leaves the database as it is. To run it with more headers, alone or behind the first ones,
does what one run with all of them does to the database that was there at first: it fails for the
same reason, or gives the same head and root, and the headers of both runs add up. -/
theorem trackHeaders_resumes {store store' : TableStore} {chain : AccountName}
    {xs : List Header} {first : Summary} (hfits : ∀ h ∈ xs, Fits h)
    (h : trackHeaders store chain xs = (.ok first, store')) :
    trackHeaders store' chain xs = (.ok { first with ingested := 0 }, store') ∧
    ∀ ys,
      let second := trackHeaders store' chain ys
      trackHeaders store' chain (xs ++ ys) = second ∧
      trackHeaders store chain (xs ++ ys) =
        (second.1.map (·.after first.ingested), second.2) := by
  obtain ⟨t, t', hr, hi, hreport⟩ := trackHeaders_eq_ok h
  have hdone := ingested hr hfits hi
  have hagain (ys : List Header) :
      ingest t' store' 0 (xs ++ ys) = ingest t' store' 0 ys := by
    rw [ingest_append, ingest_of_covers hdone.covers_all]
  refine ⟨?_, fun ys => ⟨?_, ?_⟩⟩
  · rw [trackHeaders_of_restore hdone.restore_eq, ingest_of_covers hdone.covers_all,
      (report_recount hreport 0).2]
  · rw [trackHeaders_of_restore hdone.restore_eq, trackHeaders_of_restore hdone.restore_eq,
      hagain]
  · have hsum := ingest_add t' store' first.ingested 0 ys
    rw [Nat.add_zero] at hsum
    rw [trackHeaders_of_restore hr, trackHeaders_of_restore hdone.restore_eq, ingest_append, hi]
    simp only [hsum, report_add]

/-- Two blocks with a repeat and a fork between them, and then a third block. -/
theorem trackHeaders_resumes_third :
    let one := Session.plainHeader .zero .zero
    let two := Session.plainHeader one.id .zero
    let fork := Session.plainHeader one.id (.hash [1])
    let three := Session.plainHeader two.id .zero
    let xs := [one, two, one, fork]
    (∀ h ∈ xs, Fits h) ∧ ∃ first store' second,
      trackHeaders TableStore.empty ⟨1⟩ xs = (.ok first, store') ∧ first.ingested = 2 ∧
      trackHeaders store' ⟨1⟩ xs = (.ok { first with ingested := 0 }, store') ∧
      (trackHeaders store' ⟨1⟩ [three]).1 = .ok second ∧ second.ingested = 1 ∧
      (trackHeaders TableStore.empty ⟨1⟩ (xs ++ [three])).1 = .ok { second with ingested := 3 } := by
  intro one two fork three xs
  have hfits : ∀ h ∈ xs, Fits h := by
    simp only [xs, List.forall_mem_cons]
    exact ⟨Session.fits_plainHeader .., Session.fits_plainHeader .., Session.fits_plainHeader ..,
      Session.fits_plainHeader .., fun _ h => absurd h List.not_mem_nil⟩
  have htwo : (trackHeaders TableStore.empty ⟨1⟩ xs).1.map (·.ingested) = .ok 2 := by
    decide +kernel
  have hthree : (trackHeaders TableStore.empty ⟨1⟩ (xs ++ [three])).1.map (·.ingested) =
      .ok 3 := by
    decide +kernel
  obtain ⟨first, hfirst, hcount⟩ := map_eq_ok.mp htwo
  obtain ⟨all, hall, hsum⟩ := map_eq_ok.mp hthree
  have hrun : trackHeaders TableStore.empty ⟨1⟩ xs =
      (.ok first, (trackHeaders TableStore.empty ⟨1⟩ xs).2) := Prod.ext hfirst rfl
  obtain ⟨hagain, hmore⟩ := trackHeaders_resumes hfits hrun
  obtain ⟨-, hwhole⟩ := hmore [three]
  rw [hwhole] at hall
  obtain ⟨second, hsecond, rfl⟩ := map_eq_ok.mp hall
  change first.ingested + second.ingested = 3 at hsum
  refine ⟨hfits, first, _, second, hrun, hcount, hagain, hsecond, by omega, ?_⟩
  rw [hwhole, hsecond, ← hsum]
  rfl

end Command

end LightClient
