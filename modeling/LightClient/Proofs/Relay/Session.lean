import LightClient.Proofs.Block.Id
import LightClient.Proofs.Except
import LightClient.Proofs.Merkle.Validity
import LightClient.Proofs.Relay.Shelves
import Mathlib.Data.List.Chain

/-!
Sessions: a tracker and the store behind it, through updates, refused updates and restarts. Main
statement: whatever happens, the store holds exactly the headers that were taken, and what it holds
restores the tracker.
-/

namespace LightClient

open Merkle (Accumulator)

/-- A tracker and the store behind it. -/
structure Session (σ : Type) where
  tracker : Tracker
  store : σ

namespace Session

/-- The tracker of a chain over a store of values that holds nothing. -/
def start (chain : AccountName) : Session MemoryStore :=
  ⟨.start chain, .empty⟩

/-- What can happen to a tracker. -/
inductive Step where
  | update (h : Header)
  /-- An update during which the store refuses the block for this reason. -/
  | refused (h : Header) (reason : String)
  /-- The tracker is dropped and restored from the store. -/
  | restart

def Step.header? : Step → Option Header
  | .update h | .refused h _ => some h
  | .restart => none

section Run

variable {σ : Type} [ChainStore σ]

/-- What a step answers, and the session after it. -/
def step (s : Session σ) : Step → Except RelayError Digest × Session σ
  | .update h =>
    let outcome := s.tracker.update s.store h
    (outcome.result, ⟨outcome.tracker, outcome.store⟩)
  | .refused h reason =>
    let outcome := s.tracker.update (FaultyStore.mk s.store (some reason)) h
    (outcome.result, ⟨outcome.tracker, outcome.store.store⟩)
  | .restart =>
    match Tracker.restore s.store s.tracker.chain with
    | .ok tracker => (.ok tracker.root, ⟨tracker, s.store⟩)
    | .error e => (.error e, s)

/-- The session after all steps. -/
def run (s : Session σ) : List Step → Session σ
  | [] => s
  | x :: steps => (s.step x).2.run steps

/-- What the steps answer, one by one. -/
def answers (s : Session σ) : List Step → List (Except RelayError Digest)
  | [] => []
  | x :: steps => (s.step x).1 :: (s.step x).2.answers steps

/-- The header that a step brings, if the step succeeds. -/
def taken (s : Session σ) (x : Step) : List Header :=
  match (s.step x).1 with
  | .ok _ => x.header?.toList
  | .error _ => []

/-- The headers that were taken, in their order. -/
def accepted (s : Session σ) : List Step → List Header
  | [] => []
  | x :: steps => s.taken x ++ (s.step x).2.accepted steps

theorem answers_append (s : Session σ) (before later : List Step) :
    s.answers (before ++ later) = s.answers before ++ (s.run before).answers later := by
  induction before generalizing s with
  | nil => rfl
  | cons x before ih => exact congrArg _ (ih (s.step x).2)

theorem run_append (s : Session σ) (before later : List Step) :
    s.run (before ++ later) = (s.run before).run later := by
  induction before generalizing s with
  | nil => rfl
  | cons x before ih => exact ih (s.step x).2

/-- A session whose store restores its tracker is not changed by a restart. -/
theorem step_restart_of_restore {s : Session σ}
    (hr : Tracker.restore s.store s.tracker.chain = .ok s.tracker) :
    s.step .restart = (.ok s.tracker.root, s) := by
  simp only [step, hr]

/-- What a restart does not change, it does not change later on. -/
theorem restart_unseen (s : Session σ) {steps : List Step} {root : Digest}
    (hr : (s.run steps).step .restart = (.ok root, s.run steps)) (later : List Step) :
    s.answers (steps ++ .restart :: later) =
        s.answers steps ++ .ok root :: (s.run steps).answers later ∧
      s.run (steps ++ .restart :: later) = s.run (steps ++ later) := by
  constructor
  · rw [answers_append, answers, hr]
  · rw [run_append, run_append, run, hr]

/-- Where no block is refused but by a step that says so, a step fails and changes nothing, restores
the tracker, or takes a header. -/
theorem step_cases [ShelvedStore σ] (s : Session σ) (x : Step) :
    (∃ e, s.step x = (.error e, s) ∧ s.taken x = []) ∨
    (∃ tracker, x = .restart ∧ Tracker.restore s.store s.tracker.chain = .ok tracker ∧
      s.step x = (.ok tracker.root, ⟨tracker, s.store⟩) ∧ s.taken x = []) ∨
    ∃ h accumulator, s.tracker.accepts h = .ok () ∧
      s.tracker.accumulator.append h.id = .ok accumulator ∧ s.taken x = [h] ∧
      s.step x = (.ok accumulator.root,
        ⟨⟨s.tracker.chain, accumulator, some (s.tracker.extendSpan h)⟩,
          (appendBlock s.store
            (Tracker.snapshot s.tracker.chain accumulator (s.tracker.extendSpan h))
            ⟨h.blockNum, h.id, accumulator.root, h⟩).2⟩) := by
  cases x with
  | update h =>
    rcases s.tracker.update_cases s.store h with ⟨e, hu⟩ | ⟨accumulator, ha, hp, hu⟩
    · exact .inl ⟨e, by simp [step, hu], by simp [taken, step, hu]⟩
    · exact .inr (.inr ⟨h, accumulator, ha, hp, by simp [taken, step, hu, Step.header?],
        by simp [step, hu]⟩)
  | refused h reason =>
    obtain ⟨e, refusal, hu⟩ := s.tracker.update_refused s.store reason h
    exact .inl ⟨e, by simp [step, hu], by simp [taken, step, hu]⟩
  | restart =>
    cases hr : Tracker.restore s.store s.tracker.chain with
    | error e => exact .inl ⟨e, by simp [step, hr], by simp [taken, step, hr]⟩
    | ok tracker =>
      exact .inr (.inl ⟨tracker, rfl, rfl, by simp [step, hr],
        by simp [taken, step, hr, Step.header?]⟩)

theorem step_error [ShelvedStore σ] {s : Session σ} {x : Step} {e : RelayError}
    (h : (s.step x).1 = .error e) : (s.step x).2 = s := by
  rcases s.step_cases x with ⟨e', hs, -⟩ | ⟨tracker, -, -, hs, -⟩ | ⟨hd, acc, -, -, -, hs⟩
  · rw [hs]
  · rw [hs] at h; exact nomatch h
  · rw [hs] at h; exact nomatch h

end Run

/-! ## Headers and what is stored of them -/

def ids (headers : List Header) : List Digest :=
  headers.map Header.id

/-- The blocks from the first of these headers to the last. -/
def spanOf (headers : List Header) : Option Span :=
  match headers.head?, headers.getLast? with
  | some first, some last => some ⟨first.blockNum, last.blockNum, last.id⟩
  | _, _ => none

/-- A record for each header, with the root over the ids up to its own. -/
def records (headers : List Header) : List BlockRecord :=
  headers.mapIdx fun i h => ⟨h.blockNum, h.id, Merkle.root (ids (headers.take (i + 1))), h⟩

def entries (headers : List Header) : List (UInt32 × BlockRecord) :=
  (records headers).map fun r => (r.blockNum, r)

theorem ids_concat (headers : List Header) (h : Header) :
    ids (headers ++ [h]) = ids headers ++ [h.id] :=
  List.map_append

@[simp] theorem length_ids (headers : List Header) : (ids headers).length = headers.length :=
  List.length_map ..

@[simp] theorem length_records (headers : List Header) :
    (records headers).length = headers.length :=
  List.length_mapIdx

theorem records_concat (headers : List Header) (h : Header) :
    records (headers ++ [h]) =
      records headers ++ [⟨h.blockNum, h.id, Merkle.root (ids (headers ++ [h])), h⟩] := by
  have hinit : (headers ++ [h]).take (headers.length + 1) = headers ++ [h] :=
    List.take_of_length_le (by simp)
  rw [records, List.mapIdx_concat, hinit, records]
  congr 1
  refine List.mapIdx_eq_mapIdx_iff.mpr fun i hi => ?_
  rw [List.take_append_of_le_length (by omega)]

theorem entries_concat (headers : List Header) (h : Header) :
    entries (headers ++ [h]) = entries headers ++
      [(h.blockNum, ⟨h.blockNum, h.id, Merkle.root (ids (headers ++ [h])), h⟩)] := by
  rw [entries, records_concat, List.map_append]
  rfl

theorem spanOf_eq {headers : List Header} (h0 : 0 < headers.length) :
    spanOf headers = some ⟨headers[0].blockNum, headers[headers.length - 1].blockNum,
      headers[headers.length - 1].id⟩ := by
  rw [spanOf, List.head?_eq_getElem?, List.getLast?_eq_getElem?, List.getElem?_eq_getElem h0,
    List.getElem?_eq_getElem (by omega)]

/-- Where a chain stands once one more header is taken. -/
theorem spanOf_concat {t : Tracker} {headers : List Header} (hs : t.span = spanOf headers)
    (h : Header) : spanOf (headers ++ [h]) = some (t.extendSpan h) := by
  rw [Tracker.extendSpan, hs, spanOf, List.getLast?_concat]
  cases headers with
  | nil => rfl
  | cons first rest =>
    rw [spanOf, List.getLast?_cons]
    rfl

/-- What a tracker accepts that stands at the last of these headers. -/
theorem accepts_iff_of_span {t : Tracker} {headers : List Header} (hs : t.span = spanOf headers)
    {h : Header} : t.accepts h = .ok () ↔ ∀ last ∈ headers.getLast?, h.Follows last := by
  rw [Tracker.accepts_eq_ok, hs, spanOf]
  cases headers with
  | nil => simp
  | cons first rest => simp [List.getLast?_cons, Header.Follows]

/-! ## Consistent sessions -/

/-- **The session invariant**: after these headers were taken, and no others, the tracker is the
one over their ids, the store holds one record for each of them and the snapshot of the tracker, and
every header follows the one before. -/
structure Consistent (chain : AccountName) (headers : List Header) (s : Session MemoryStore) :
    Prop where
  chain_eq : s.tracker.chain = chain
  accumulator_eq : Accumulator.ofLeaves (ids headers) = .ok s.tracker.accumulator
  span_eq : s.tracker.span = spanOf headers
  snapshot_eq : s.store.chains.find? chain =
    s.tracker.span.map (Tracker.snapshot chain s.tracker.accumulator)
  entries_eq : (s.store.blocksOf chain).entries = entries headers
  follows : headers.IsChain fun last h => h.Follows last

theorem consistent_start (chain : AccountName) : Consistent chain [] (start chain) where
  chain_eq := rfl
  accumulator_eq := rfl
  span_eq := rfl
  snapshot_eq := rfl
  entries_eq := rfl
  follows := .nil

namespace Consistent

variable {chain : AccountName} {headers : List Header} {s : Session MemoryStore}

/-- Block numbers count up from the first. -/
theorem numbers (hc : Consistent chain headers s) {i : Nat} (hi : i < headers.length) :
    headers[i].blockNum.toNat = headers[0].blockNum.toNat + i := by
  induction i with
  | zero => rfl
  | succ i ih =>
    have hnext := (List.isChain_iff_getElem.mp hc.follows i hi).1
    rw [hnext, ih (by omega), Nat.add_assoc]

/-- Block numbers do not repeat, so there are no more headers than numbers. -/
theorem length_le (hc : Consistent chain headers s) : headers.length ≤ 2 ^ 32 := by
  by_contra hlen
  have hnum := hc.numbers (i := 2 ^ 32) (by omega)
  have hlt := (headers[2 ^ 32]).blockNum.toNat_lt
  omega

theorem length_ids_le (hc : Consistent chain headers s) :
    (ids headers).length ≤ Merkle.maxLeafCount.toNat := by
  rw [length_ids]
  exact Nat.le_trans hc.length_le (by decide)

theorem length_ids_lt (hc : Consistent chain headers s) : (ids headers).length < UInt64.size :=
  Nat.lt_of_le_of_lt hc.length_ids_le Merkle.maxLeafCount.toNat_lt

/-- The accumulator of the tracker is the one over the ids. -/
theorem accumulator_holding (hc : Consistent chain headers s) :
    s.tracker.accumulator = .holding (ids headers) := by
  have h := hc.accumulator_eq
  rw [Accumulator.ofLeaves_eq hc.length_ids_le] at h
  exact (Except.ok.inj h).symm

/-- The accumulator of the tracker has room for another header. -/
theorem append_accumulator (hc : Consistent chain headers s) (h : Header) :
    s.tracker.accumulator.append h.id = .ok (.holding (ids (headers ++ [h]))) := by
  have hlen := hc.length_le
  rw [hc.accumulator_holding, ids_concat]
  refine Accumulator.append_holding ?_ h.id
  rw [length_ids, Merkle.toNat_maxLeafCount]
  omega

/-- No two records stand under one number. -/
theorem nodup_keys (hc : Consistent chain headers s) :
    ((entries headers).map (·.1)).Nodup := by
  refine List.pairwise_iff_getElem.mpr fun i j hi hj hij => ?_
  simp only [entries, List.length_map, length_records] at hi hj
  simp only [entries, records, List.getElem_map, List.getElem_mapIdx]
  intro heq
  have hnum := congrArg UInt32.toNat heq
  rw [hc.numbers hi, hc.numbers hj] at hnum
  omega

/-- The store finds the record of a header under its number. -/
theorem find?_blocksOf (hc : Consistent chain headers s) {i : Nat} (hi : i < headers.length) :
    (s.store.blocksOf chain).find? headers[i].blockNum =
      some ⟨headers[i].blockNum, headers[i].id, Merkle.root (ids (headers.take (i + 1))),
        headers[i]⟩ := by
  rw [Table.find?, hc.entries_eq]
  exact Table.findIn_eq_some hc.nodup_keys
    (List.mem_map.mpr ⟨_, List.mem_mapIdx.mpr ⟨i, hi, rfl⟩, rfl⟩)

/-- The root of the last record is that of the tracker. -/
theorem find?_last (hc : Consistent chain headers s) (h0 : 0 < headers.length) :
    (s.store.blocksOf chain).find? headers[headers.length - 1].blockNum =
      some ⟨headers[headers.length - 1].blockNum, headers[headers.length - 1].id,
        s.tracker.accumulator.root, headers[headers.length - 1]⟩ := by
  have hfind := hc.find?_blocksOf (i := headers.length - 1) (by omega)
  have htake : headers.take (headers.length - 1 + 1) = headers :=
    List.take_of_length_le (by omega)
  rwa [htake, ← Accumulator.root_holding hc.length_ids_lt, ← hc.accumulator_holding] at hfind

/-- There are as many leaves as blocks from the first to the last. -/
theorem countFits (hc : Consistent chain headers s) (h0 : 0 < headers.length) :
    Tracker.countFits headers[0].blockNum headers[headers.length - 1].blockNum
      s.tracker.accumulator.leafCount = true := by
  have hnum := hc.numbers (i := headers.length - 1) (by omega)
  rw [Tracker.countFits, hc.accumulator_holding, Accumulator.leafCount_holding hc.length_ids_lt,
    length_ids, Bool.and_eq_true, decide_eq_true_eq, decide_eq_true_eq, UInt32.le_iff_toNat_le]
  omega

theorem decode_encode (hc : Consistent chain headers s) :
    Accumulator.decode s.tracker.accumulator.encode = .ok s.tracker.accumulator := by
  rw [hc.accumulator_holding]
  exact Accumulator.decode_encode (Accumulator.validate_holding hc.length_ids_le)

/-- What is stored restores the tracker. -/
theorem restore (hc : Consistent chain headers s) :
    Tracker.restore s.store chain = .ok s.tracker := by
  obtain ⟨⟨chain', accumulator, span⟩, store⟩ := s
  obtain rfl := hc.chain_eq
  have hsnapshot := hc.snapshot_eq
  have hspan := hc.span_eq
  simp only at hsnapshot hspan
  rw [Tracker.restore]
  simp only [loadChain, hsnapshot, mapError_ok]
  cases Nat.eq_zero_or_pos headers.length with
  | inl h0 =>
    have hholds := hc.accumulator_holding
    simp only [List.length_eq_zero_iff.mp h0] at hholds hspan
    rw [hspan, hholds]
    rfl
  | inr hpos =>
    -- Each check of a restore compares two of the parts that the invariant ties together.
    have hdecode := hc.decode_encode
    have hcount := hc.countFits hpos
    have hfind := hc.find?_last hpos
    simp only at hdecode hcount hfind
    rw [hspan, spanOf_eq hpos]
    simp [Tracker.snapshot, hdecode, bind, Except.bind, hcount, getBlock, hfind,
      pure, Except.pure]

/-- A header is accepted if it follows the last one. -/
theorem accepts_iff_follows (hc : Consistent chain headers s) {h : Header} :
    s.tracker.accepts h = .ok () ↔ ∀ last ∈ headers.getLast?, h.Follows last :=
  accepts_iff_of_span hc.span_eq

/-- A header that follows the last one has a number above all others. -/
theorem blockNum_lt (hc : Consistent chain headers s) {h : Header}
    (hnext : ∀ last ∈ headers.getLast?, h.Follows last) {i : Nat} (hi : i < headers.length) :
    headers[i].blockNum.toNat < h.blockNum.toNat := by
  have hlast := hnext headers[headers.length - 1] (by
    rw [List.getLast?_eq_getElem?]
    exact List.getElem?_eq_getElem _)
  have hnum := hc.numbers (i := headers.length - 1) (by omega)
  rw [hlast.1, hc.numbers hi]
  omega

/-- Taking the next header keeps the invariant. -/
theorem take {h : Header} {accumulator : Accumulator} (hc : Consistent chain headers s)
    (ha : s.tracker.accepts h = .ok ())
    (hp : s.tracker.accumulator.append h.id = .ok accumulator) :
    Consistent chain (headers ++ [h])
      ⟨⟨s.tracker.chain, accumulator, some (s.tracker.extendSpan h)⟩,
        s.store.record
          (Tracker.snapshot s.tracker.chain accumulator (s.tracker.extendSpan h))
          ⟨h.blockNum, h.id, accumulator.root, h⟩⟩ := by
  have hnext := hc.accepts_iff_follows.mp ha
  have hlen : (ids (headers ++ [h])).length ≤ 2 ^ 32 + 1 := by
    rw [length_ids, List.length_append]
    exact Nat.succ_le_succ hc.length_le
  have hholds : accumulator = .holding (ids (headers ++ [h])) :=
    Except.ok.inj (hp.symm.trans (hc.append_accumulator h))
  have hroot : accumulator.root = Merkle.root (ids (headers ++ [h])) := by
    rw [hholds, Accumulator.root_holding (Nat.lt_of_le_of_lt hlen (by decide))]
  obtain rfl := hc.chain_eq
  constructor
  case chain_eq => rfl
  case accumulator_eq =>
    rw [hholds]
    exact Accumulator.ofLeaves_eq (Nat.le_trans hlen (by decide))
  case span_eq => exact (spanOf_concat hc.span_eq h).symm
  case snapshot_eq => exact Table.find?_insert ..
  case entries_eq =>
    rw [MemoryStore.blocksOf_record (Tracker.chain_snapshot ..), Table.insert, hc.entries_eq,
      hroot, entries_concat]
    refine Table.insertIn_eq_concat fun e he => ?_
    obtain ⟨i, hi, rfl⟩ := List.getElem_of_mem he
    have hi' : i < headers.length := by simpa [entries] using hi
    have hlt := hc.blockNum_lt hnext hi'
    simp only [entries, records, List.getElem_map, List.getElem_mapIdx, ne_eq,
      ← UInt32.toNat_inj, UInt32.lt_iff_toNat_lt]
    omega
  case follows => exact Header.follows_concat hc.follows hnext

/-- Every step keeps the invariant. -/
theorem step (hc : Consistent chain headers s) (x : Step) :
    Consistent chain (headers ++ s.taken x) (s.step x).2 := by
  rcases s.step_cases x with ⟨e, hs, ht⟩ | ⟨tracker, -, hr, hs, ht⟩ | ⟨h, acc, ha, hp, ht, hs⟩
  · rw [hs, ht, List.append_nil]
    exact hc
  · rw [hc.chain_eq, hc.restore] at hr
    obtain rfl := Except.ok.inj hr
    rw [hs, ht, List.append_nil]
    exact hc
  · rw [hs, ht]
    exact hc.take ha hp

/-- Every run keeps the invariant. -/
theorem run (hc : Consistent chain headers s) (steps : List Step) :
    Consistent chain (headers ++ s.accepted steps) (s.run steps) := by
  induction steps generalizing headers s with
  | nil => rwa [accepted, List.append_nil]
  | cons x steps ih =>
    rw [accepted, ← List.append_assoc]
    exact ih (hc.step x)

/-- A restart gives back the same session. -/
theorem step_restart (hc : Consistent chain headers s) :
    s.step .restart = (.ok s.tracker.root, s) :=
  step_restart_of_restore (hc.chain_eq ▸ hc.restore)

/-- A header that follows the last one is taken. -/
theorem taken_update {h : Header} (hc : Consistent chain headers s)
    (hnext : ∀ last ∈ headers.getLast?, h.Follows last) : s.taken (.update h) = [h] := by
  have hn : s.tracker.next h =
      .ok (.holding (ids (headers ++ [h])), s.tracker.extendSpan h) := by
    rw [Tracker.next, hc.accepts_iff_follows.mpr hnext, hc.append_accumulator]
    rfl
  simp only [taken, Session.step, Tracker.update, hn, appendBlock]
  rfl

/-- Headers that follow one another are all taken. -/
theorem accepted_updates {more : List Header} (hc : Consistent chain headers s)
    (hnext : (headers ++ more).IsChain fun last h => h.Follows last) :
    s.accepted (more.map .update) = more := by
  induction more generalizing headers s with
  | nil => rfl
  | cons h more ih =>
    have htaken := hc.taken_update fun last hlast =>
      (List.isChain_append.mp hnext).2.2 last hlast h rfl
    have hrest := ih (htaken ▸ hc.step (.update h)) (by rwa [List.append_assoc])
    rw [List.map_cons, accepted, htaken, hrest]
    rfl

end Consistent

theorem run_start (chain : AccountName) (steps : List Step) :
    Consistent chain ((start chain).accepted steps) ((start chain).run steps) :=
  (consistent_start chain).run steps

/-! ## Plain headers -/

/-- A header that names its parent and the root of its receipts, and nothing else. -/
def plainHeader (previous transactionRoot : Digest) : Header :=
  ⟨⟨0⟩, ⟨0⟩, 0, previous, transactionRoot, .zero, 0, none, []⟩

theorem fits_plainHeader (previous transactionRoot : Digest) :
    Fits (plainHeader previous transactionRoot) :=
  ⟨fun _ h => (nomatch h), Nat.zero_lt_succ _, fun _ h => (nomatch h)⟩

theorem fits_plainHeaders (previous previous' transactionRoot transactionRoot' : Digest) :
    ∀ h ∈ [plainHeader previous transactionRoot, plainHeader previous' transactionRoot'],
      Fits h := by
  simp only [List.forall_mem_cons]
  exact ⟨fits_plainHeader .., fits_plainHeader .., fun _ h => (nomatch h)⟩

/-- A plain header over the id of another follows it. -/
theorem plainHeader_follows {h : Header} (hlt : h.blockNum.toNat + 1 < 2 ^ 32)
    (transactionRoot : Digest) : (plainHeader h.id transactionRoot).Follows h := by
  refine ⟨?_, rfl⟩
  rw [Header.blockNum, plainHeader, Header.number_id, UInt32.toNat_add]
  exact Nat.mod_eq_of_lt (by rw [UInt32.toNat_one]; omega)

/-- A header and a plain one over its id are taken, one after the other. -/
theorem accepted_pair (chain : AccountName) {h : Header} (hlt : h.blockNum.toNat + 1 < 2 ^ 32)
    (transactionRoot : Digest) :
    (start chain).accepted [.update h, .update (plainHeader h.id transactionRoot)] =
      [h, plainHeader h.id transactionRoot] :=
  (consistent_start chain).accepted_updates
    (List.isChain_pair.mpr (plainHeader_follows hlt transactionRoot))

/-- **Tracker and store stay consistent.** After any steps from an empty store the invariant holds
of the headers taken so far; what is stored restores the tracker as it is, so that a restart at
that point changes neither later answers nor later sessions; and a step that fails changes
nothing. -/
theorem run_keeps_consistent (chain : AccountName) (steps : List Step) :
    let s := (start chain).run steps
    Consistent chain ((start chain).accepted steps) s ∧
      Tracker.restore s.store chain = .ok s.tracker ∧
      (∀ later, (start chain).answers (steps ++ .restart :: later) =
          (start chain).answers steps ++ .ok s.tracker.root :: s.answers later ∧
        (start chain).run (steps ++ .restart :: later) = (start chain).run (steps ++ later)) ∧
      ∀ x e, (s.step x).1 = .error e → (s.step x).2 = s := by
  intro s
  have hc := run_start chain steps
  exact ⟨hc, hc.restore, restart_unseen _ hc.step_restart, fun x e => step_error⟩

end Session

end LightClient
