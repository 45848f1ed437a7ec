import LightClient.Proofs.Relay.Shelves
import LightClient.Relay.Trackers

/-!
Trackers of many chains over one store. Main statement: however the headers of several chains are
mixed, every chain fares as if it were alone, and the store lists the chains that took a header.
-/

namespace LightClient

open ShelvedStore

/-! ## One tracker -/

namespace Tracker

variable {σ : Type} [ChainStore σ] [ShelvedStore σ] {s s' : σ} {chain : AccountName} (t : Tracker)
  (h : Header)

theorem chain_update (store : σ) : (t.update store h).tracker.chain = t.chain := by
  rw [update_of_shelved]
  split <;> rfl

theorem update_congr (hs : shelf s t.chain = shelf s' t.chain) :
    (t.update s h).result = (t.update s' h).result ∧
      (t.update s h).tracker = (t.update s' h).tracker ∧
      shelf (t.update s h).store t.chain = shelf (t.update s' h).store t.chain := by
  rw [update_of_shelved, update_of_shelved]
  split
  · exact ⟨rfl, rfl, hs⟩
  · exact ⟨rfl, rfl, shelf_appendBlock _ _ hs⟩

theorem shelf_update_ne (hne : chain ≠ t.chain) :
    shelf (t.update s h).store chain = shelf s chain := by
  rw [update_of_shelved]
  split
  · rfl
  · exact shelf_appendBlock_ne _ _ hne

theorem valid_update (hs : Valid s) : Valid (t.update s h).store := by
  rw [update_of_shelved]
  split
  · exact hs
  · exact valid_appendBlock _ _ hs

/-- A chain has a snapshot once its tracker took a header. -/
theorem loadChain_update : loadChain (t.update s h).store t.chain ≠ .ok none ↔
    loadChain s t.chain ≠ .ok none ∨ ∃ root, (t.update s h).result = .ok root := by
  rw [update_of_shelved]
  split
  · next e _ =>
    refine (or_iff_left ?_).symm
    rintro ⟨root, hroot⟩
    exact nomatch hroot
  · next accumulator span _ =>
    exact iff_of_true (loadChain_appendBlock s _ _) (.inr ⟨accumulator.root, rfl⟩)

end Tracker

/-! ## Many trackers -/

/-- Trackers of many chains, and the store behind them. -/
structure Relay (σ : Type) where
  trackers : Trackers
  store : σ

/-- A header that comes in for a chain. -/
structure Delivery where
  chain : AccountName
  header : Header

/-- The deliveries for one chain, in their order. -/
def Delivery.only (chain : AccountName) (xs : List Delivery) : List Delivery :=
  xs.filter (·.chain = chain)

namespace Relay

/-- No chain is used yet. -/
def start {σ : Type} (store : σ) : Relay σ :=
  ⟨.empty, store⟩

/-- Every tracker that is kept tracks the chain it is kept for. -/
def Own {σ : Type} (r : Relay σ) : Prop :=
  ∀ chain t, r.trackers.live.find? chain = some t → t.chain = chain

variable {σ : Type} [ChainStore σ]

/-- The tracker of a chain. It is restored if it is not kept already. -/
def tracker (r : Relay σ) (chain : AccountName) : Except RelayError Tracker :=
  (r.trackers.tracker r.store chain).map (·.1)

/-- What a delivery answers, and the relay after it. -/
def deliver (r : Relay σ) (x : Delivery) : Except RelayError Digest × Relay σ :=
  let (result, trackers, store) := r.trackers.update r.store x.chain x.header
  (result, ⟨trackers, store⟩)

/-- The relay after all deliveries. -/
def run (r : Relay σ) : List Delivery → Relay σ
  | [] => r
  | x :: xs => (r.deliver x).2.run xs

/-- What the deliveries answer, each with its chain. -/
def answers (r : Relay σ) : List Delivery → List (AccountName × Except RelayError Digest)
  | [] => []
  | x :: xs => (x.chain, (r.deliver x).1) :: (r.deliver x).2.answers xs

variable {r r' : Relay σ} {x : Delivery} {chain : AccountName} {t : Tracker}

theorem tracker_of_some (h : r.trackers.live.find? chain = some t) : r.tracker chain = .ok t := by
  rw [tracker, Trackers.tracker, h]
  rfl

theorem tracker_of_none (h : r.trackers.live.find? chain = none) :
    r.tracker chain = Tracker.restore r.store chain := by
  rw [tracker, Trackers.tracker, h]
  cases Tracker.restore r.store chain <;> rfl

theorem Own.chain_tracker (hown : r.Own) (h : r.tracker chain = .ok t) : t.chain = chain := by
  cases hlive : r.trackers.live.find? chain with
  | some t' =>
    rw [tracker_of_some hlive] at h
    exact Except.ok.inj h ▸ hown chain t' hlive
  | none =>
    rw [tracker_of_none hlive] at h
    exact Tracker.chain_restore h

/-! ## One delivery -/

theorem deliver_of_error {e : RelayError} (h : r.tracker x.chain = .error e) :
    r.deliver x = (.error e, r) := by
  rw [tracker] at h
  rw [deliver, Trackers.update]
  cases ht : r.trackers.tracker r.store x.chain with
  | error e' =>
    rw [ht] at h
    obtain rfl : e' = e := Except.error.inj h
    rfl
  | ok found => rw [ht] at h; exact nomatch h

/-- The relay after a tracker was given a header for its chain. -/
structure Delivered (r : Relay σ) (x : Delivery) (t : Tracker) : Prop where
  result_eq : (r.deliver x).1 = (t.update r.store x.header).result
  store_eq : (r.deliver x).2.store = (t.update r.store x.header).store
  live_eq : (r.deliver x).2.trackers.live.find? x.chain =
    some (t.update r.store x.header).tracker
  live_ne : ∀ chain, chain ≠ x.chain →
    (r.deliver x).2.trackers.live.find? chain = r.trackers.live.find? chain

/-- A delivery gives the header to the chain's tracker, and keeps the tracker from then on. -/
theorem deliver_of_ok (h : r.tracker x.chain = .ok t) : Delivered r x t := by
  cases hlive : r.trackers.live.find? x.chain with
  | some t' =>
    rw [tracker_of_some hlive] at h
    obtain rfl : t' = t := Except.ok.inj h
    have hdeliver : r.deliver x = ((t'.update r.store x.header).result,
        ⟨⟨r.trackers.live.insert x.chain (t'.update r.store x.header).tracker⟩,
          (t'.update r.store x.header).store⟩) := by
      rw [deliver, Trackers.update, Trackers.tracker, hlive]
    exact {
      result_eq := by rw [hdeliver]
      store_eq := by rw [hdeliver]
      live_eq := by rw [hdeliver, Table.find?_insert]
      live_ne := fun chain hne => by rw [hdeliver, Table.find?_insert_ne _ hne] }
  | none =>
    rw [tracker_of_none hlive] at h
    have hdeliver : r.deliver x = ((t.update r.store x.header).result,
        ⟨⟨(r.trackers.live.insert x.chain t).insert x.chain (t.update r.store x.header).tracker⟩,
          (t.update r.store x.header).store⟩) := by
      rw [deliver, Trackers.update, Trackers.tracker, hlive, h]
      rfl
    exact {
      result_eq := by rw [hdeliver]
      store_eq := by rw [hdeliver]
      live_eq := by rw [hdeliver, Table.find?_insert]
      live_ne := fun chain hne => by
        rw [hdeliver, Table.find?_insert_ne _ hne, Table.find?_insert_ne _ hne] }

section

variable [ShelvedStore σ]

/-- Nothing that concerns this chain is different in the two relays. -/
structure SameFor (chain : AccountName) (r r' : Relay σ) : Prop where
  live_eq : r.trackers.live.find? chain = r'.trackers.live.find? chain
  shelf_eq : shelf r.store chain = shelf r'.store chain

theorem SameFor.tracker_eq (h : SameFor chain r r') : r.tracker chain = r'.tracker chain := by
  cases hlive : r.trackers.live.find? chain with
  | some t => rw [tracker_of_some hlive, tracker_of_some (h.live_eq.symm.trans hlive)]
  | none =>
    rw [tracker_of_none hlive, tracker_of_none (h.live_eq.symm.trans hlive),
      (readsAlike_of_shelf h.shelf_eq).restore_eq]

/-- A delivery does not touch other chains. -/
theorem Own.deliver_ne (hown : r.Own) (hne : chain ≠ x.chain) :
    SameFor chain (r.deliver x).2 r := by
  cases ht : r.tracker x.chain with
  | error e =>
    rw [deliver_of_error ht]
    exact ⟨rfl, rfl⟩
  | ok t =>
    have hd := deliver_of_ok ht
    refine ⟨hd.live_ne chain hne, ?_⟩
    rw [hd.store_eq]
    exact t.shelf_update_ne x.header (hown.chain_tracker ht ▸ hne)

/-- What a delivery does for its own chain depends on that chain only. -/
theorem SameFor.deliver (h : SameFor x.chain r r') (hown : r.Own) :
    (r.deliver x).1 = (r'.deliver x).1 ∧ SameFor x.chain (r.deliver x).2 (r'.deliver x).2 := by
  cases ht : r.tracker x.chain with
  | error e =>
    rw [deliver_of_error ht, deliver_of_error (h.tracker_eq.symm.trans ht)]
    exact ⟨rfl, h⟩
  | ok t =>
    have hchain : t.chain = x.chain := hown.chain_tracker ht
    have hd := deliver_of_ok ht
    have hd' := deliver_of_ok (h.tracker_eq.symm.trans ht)
    obtain ⟨hresult, htracker, hshelf⟩ := t.update_congr x.header (hchain ▸ h.shelf_eq)
    refine ⟨?_, ?_, ?_⟩
    · rw [hd.result_eq, hd'.result_eq, hresult]
    · rw [hd.live_eq, hd'.live_eq, htracker]
    · rw [hd.store_eq, hd'.store_eq, ← hchain, hshelf]

theorem Own.deliver (hown : r.Own) (x : Delivery) : (r.deliver x).2.Own := by
  cases ht : r.tracker x.chain with
  | error e => rwa [deliver_of_error ht]
  | ok t =>
    have hd := deliver_of_ok ht
    intro chain t' ht'
    by_cases hchain : chain = x.chain
    · rw [hchain, hd.live_eq] at ht'
      rw [← Option.some.inj ht', t.chain_update, hown.chain_tracker ht, hchain]
    · rw [hd.live_ne chain hchain] at ht'
      exact hown chain t' ht'

theorem valid_deliver (h : Valid r.store) (x : Delivery) : Valid (r.deliver x).2.store := by
  cases ht : r.tracker x.chain with
  | error e => rwa [deliver_of_error ht]
  | ok t =>
    rw [(deliver_of_ok ht).store_eq]
    exact t.valid_update x.header h

/-- A chain has a snapshot once a header of it was taken. -/
theorem Own.loadChain_deliver (hown : r.Own) (x : Delivery) (chain : AccountName) :
    loadChain (r.deliver x).2.store chain ≠ .ok none ↔
      loadChain r.store chain ≠ .ok none ∨
        ∃ root, (chain, Except.ok root) = (x.chain, (r.deliver x).1) := by
  by_cases hchain : chain = x.chain
  · subst hchain
    cases ht : r.tracker x.chain with
    | error e =>
      rw [deliver_of_error ht]
      refine (or_iff_left ?_).symm
      rintro ⟨root, hroot⟩
      exact nomatch (Prod.mk.inj hroot).2
    | ok t =>
      have hd := deliver_of_ok ht
      rw [hd.store_eq, hd.result_eq, ← hown.chain_tracker ht, t.loadChain_update]
      simp only [Prod.mk.injEq, true_and, eq_comm]
  · rw [loadChain_congr (hown.deliver_ne hchain).shelf_eq]
    refine (or_iff_left ?_).symm
    rintro ⟨root, hroot⟩
    exact hchain (Prod.mk.inj hroot).1

/-! ## All deliveries -/

/-- A chain sees of all deliveries only its own. -/
theorem SameFor.run (h : SameFor chain r r') (hown : r.Own) (hown' : r'.Own)
    (xs : List Delivery) :
    (r.answers xs).filter (·.1 = chain) = r'.answers (Delivery.only chain xs) ∧
      SameFor chain (r.run xs) (r'.run (Delivery.only chain xs)) := by
  induction xs generalizing r r' with
  | nil => exact ⟨rfl, h⟩
  | cons x xs ih =>
    by_cases hchain : x.chain = chain
    · subst hchain
      obtain ⟨hanswer, hnext⟩ := h.deliver hown
      obtain ⟨hanswers, hrun⟩ := ih hnext (hown.deliver x) (hown'.deliver x)
      have honly : Delivery.only x.chain (x :: xs) = x :: Delivery.only x.chain xs :=
        List.filter_cons_of_pos (decide_eq_true rfl)
      rw [honly]
      refine ⟨?_, hrun⟩
      rw [answers, answers, List.filter_cons_of_pos (by simp), hanswers, hanswer]
    · have honly : Delivery.only chain (x :: xs) = Delivery.only chain xs :=
        List.filter_cons_of_neg (by simpa using hchain)
      have hframe := hown.deliver_ne (x := x) (Ne.symm hchain)
      have hsame : SameFor chain (r.deliver x).2 r' :=
        ⟨hframe.live_eq.trans h.live_eq, hframe.shelf_eq.trans h.shelf_eq⟩
      obtain ⟨hanswers, hrun⟩ := ih hsame (hown.deliver x) hown'
      rw [honly]
      refine ⟨?_, hrun⟩
      rw [answers, List.filter_cons_of_neg (by simpa using hchain), hanswers]

theorem valid_run (h : Valid r.store) (xs : List Delivery) : Valid (r.run xs).store := by
  induction xs generalizing r with
  | nil => exact h
  | cons x xs ih => exact ih (valid_deliver h x)

theorem Own.loadChain_run (hown : r.Own) (xs : List Delivery) (chain : AccountName) :
    loadChain (r.run xs).store chain ≠ .ok none ↔
      loadChain r.store chain ≠ .ok none ∨ ∃ root, (chain, .ok root) ∈ r.answers xs := by
  induction xs generalizing r with
  | nil => exact (or_iff_left fun ⟨_, h⟩ => absurd h List.not_mem_nil).symm
  | cons x xs ih =>
    rw [run, ih (hown.deliver x), hown.loadChain_deliver x chain, or_assoc, answers]
    simp only [List.mem_cons, exists_or]

/-- Every chain fares as if the other chains were not there, and the chains that took a header are
listed. -/
structure ChainsApart (store : σ) (xs : List Delivery) : Prop where
  answers_eq (chain : AccountName) : ((start store).answers xs).filter (·.1 = chain) =
    (start store).answers (Delivery.only chain xs)
  tracker_eq (chain : AccountName) : ((start store).run xs).tracker chain =
    ((start store).run (Delivery.only chain xs)).tracker chain
  loadChain_eq (chain : AccountName) : loadChain ((start store).run xs).store chain =
    loadChain ((start store).run (Delivery.only chain xs)).store chain
  getBlock_eq (chain : AccountName) (num : UInt32) :
    getBlock ((start store).run xs).store chain num =
      getBlock ((start store).run (Delivery.only chain xs)).store chain num
  blockIds_eq (chain : AccountName) (low high : UInt32) :
    blockIds ((start store).run xs).store chain low high =
      blockIds ((start store).run (Delivery.only chain xs)).store chain low high
  anchorRoot_eq (chain : AccountName) (anchor : UInt32) :
    Prover.anchorRoot ((start store).run xs).store chain anchor =
      Prover.anchorRoot ((start store).run (Delivery.only chain xs)).store chain anchor
  proveBlock_eq (chain : AccountName) (num anchor : UInt32) :
    Prover.proveBlock ((start store).run xs).store chain num anchor =
      Prover.proveBlock ((start store).run (Delivery.only chain xs)).store chain num anchor
  listChains_eq : ∃ names, listChains ((start store).run xs).store = .ok names ∧
    names.Pairwise (fun a b => a.text < b.text) ∧
    ∀ chain, chain ∈ names ↔ ∃ root, (chain, .ok root) ∈ (start store).answers xs

theorem chainsApart {store : σ} (hvalid : Valid store)
    (hempty : ∀ chain, loadChain store chain = .ok none) (xs : List Delivery) :
    ChainsApart store xs := by
  have hown : (start store).Own := fun _ _ h => nomatch h
  have hrun (chain : AccountName) :=
    SameFor.run (⟨rfl, rfl⟩ : SameFor chain (start store) (start store)) hown hown xs
  have halike (chain : AccountName) := readsAlike_of_shelf (hrun chain).2.shelf_eq
  exact {
    answers_eq := fun chain => (hrun chain).1
    tracker_eq := fun chain => (hrun chain).2.tracker_eq
    loadChain_eq := fun chain => (halike chain).loadChain_eq
    getBlock_eq := fun chain => (halike chain).getBlock_eq
    blockIds_eq := fun chain => (halike chain).blockIds_eq
    anchorRoot_eq := fun chain => (halike chain).anchorRoot_eq
    proveBlock_eq := fun chain => (halike chain).proveBlock_eq
    listChains_eq := by
      obtain ⟨names, hlist, horder, hmem⟩ := ShelvedStore.listChains_eq
        (valid_run (r := start store) hvalid xs)
      refine ⟨names, hlist, horder, fun chain => ?_⟩
      rw [hmem, hown.loadChain_run xs chain]
      exact or_iff_right (fun h => h (hempty chain)) }

end

/-- **Trackers of different chains do not interfere.** In both stores, from empty on, what is
answered and kept for a chain is what its own headers alone would lead to, whatever headers of other
chains come in between; and exactly the chains that took a header are listed. -/
theorem chainsApart_empty (xs : List Delivery) :
    ChainsApart MemoryStore.empty xs ∧ ChainsApart TableStore.empty xs := by
  have hmemory : Valid MemoryStore.empty := List.Pairwise.nil
  have htable : Valid TableStore.empty :=
    ⟨List.Pairwise.nil, fun _ h => absurd h List.not_mem_nil⟩
  exact ⟨chainsApart hmemory (fun _ => rfl) xs, chainsApart htable (fun _ => rfl) xs⟩

end Relay

end LightClient
