import LightClient.Proofs.Merkle.Detection
import Mathlib.Data.List.ReduceOption

/-!
The walk of the frontier check, level by level. Main statement: as soon as a frontier has the length
that its number of leaves asks for, the walk takes every node below the root, one at each level
whose bit is set in that number, and derives a root, so only the stored root can be wrong.
-/

namespace LightClient.Merkle.Frontier

/-! ## Walks -/

/-- A walk up from a level of so many nodes, what stands at the level and at its end, and for each
level the node of the frontier that it takes, if any. -/
inductive Walk : Nat → Option Digest → List (Option Digest) → Option Digest → Prop
  /-- The walk is over. -/
  | stop {width : Nat} {top : Option Digest} : Walk width top [] top
  /-- The root so far has no neighbour. -/
  | alone {width : Nat} {d : Digest} {taken : List (Option Digest)} {root : Option Digest}
    (h : width % 2 = 1) (above : Walk ((width + 1) / 2) (some (d.pair d)) taken root) :
    Walk width (some d) (none :: taken) root
  /-- A full subtree has no neighbour. -/
  | start {width : Nat} {left : Digest} {taken : List (Option Digest)} {root : Option Digest}
    (h : width % 2 = 1) (above : Walk ((width + 1) / 2) (some (left.pair left)) taken root) :
    Walk width none (some left :: taken) root
  /-- The root so far has a full subtree to its left. -/
  | join {width : Nat} {left d : Digest} {taken : List (Option Digest)} {root : Option Digest}
    (h : width % 2 = 0) (above : Walk ((width + 1) / 2) (some (left.pair d)) taken root) :
    Walk width (some d) (some left :: taken) root
  /-- All subtrees are full and have a neighbour. -/
  | full {width : Nat} {taken : List (Option Digest)} {root : Option Digest}
    (h : width % 2 = 0) (above : Walk ((width + 1) / 2) none taken root) :
    Walk width none (none :: taken) root

variable {levels width count : Nat} {top root : Option Digest} {nodes rest : List Digest}
  {taken : List (Option Digest)}

theorem Walk.climb_eq (h : Walk width top taken root) (rest : List Digest) :
    climb taken.length width top (taken.reduceOption ++ rest) = .ok (rest, root) := by
  induction h with
  | stop => rfl
  | alone h _ ih => rw [List.length_cons, climb_odd_some h, List.reduceOption_cons_of_none, ih]
  | start h _ ih =>
    rw [List.length_cons, List.reduceOption_cons_of_some, List.cons_append, climb_odd_none h, ih]
  | join h _ ih =>
    rw [List.length_cons, List.reduceOption_cons_of_some, List.cons_append, climb_even_some h, ih]
  | full h _ ih => rw [List.length_cons, climb_even_none h, List.reduceOption_cons_of_none, ih]

theorem exists_walk_of_climb (h : climb levels width top nodes = .ok (rest, root)) :
    ∃ taken, taken.length = levels ∧ nodes = taken.reduceOption ++ rest ∧
      Walk width top taken root := by
  induction levels generalizing width top nodes with
  | zero =>
    obtain ⟨rfl, rfl⟩ := Prod.mk.inj (Except.ok.inj h)
    exact ⟨[], rfl, rfl, .stop⟩
  | succ levels ih =>
    cases Nat.mod_two_eq_zero_or_one width with
    | inl heven =>
      match top with
      | none =>
        rw [climb_even_none heven] at h
        obtain ⟨taken, rfl, rfl, hwalk⟩ := ih h
        exact ⟨none :: taken, rfl, by rw [List.reduceOption_cons_of_none], .full heven hwalk⟩
      | some d =>
        obtain ⟨left, nodes, rfl⟩ := exists_cons_of_climb_even heven h
        rw [climb_even_some heven] at h
        obtain ⟨taken, rfl, rfl, hwalk⟩ := ih h
        exact ⟨some left :: taken, rfl, by rw [List.reduceOption_cons_of_some]; rfl,
          .join heven hwalk⟩
    | inr hodd =>
      match top with
      | none =>
        obtain ⟨left, nodes, rfl⟩ := exists_cons_of_climb_odd hodd h
        rw [climb_odd_none hodd] at h
        obtain ⟨taken, rfl, rfl, hwalk⟩ := ih h
        exact ⟨some left :: taken, rfl, by rw [List.reduceOption_cons_of_some]; rfl,
          .start hodd hwalk⟩
      | some d =>
        rw [climb_odd_some hodd] at h
        obtain ⟨taken, rfl, rfl, hwalk⟩ := ih h
        exact ⟨none :: taken, rfl, by rw [List.reduceOption_cons_of_none], .alone hodd hwalk⟩

/-- The check walks just as a walk says. -/
theorem climb_eq_ok_iff : climb levels width top nodes = .ok (rest, root) ↔
    ∃ taken, taken.length = levels ∧ nodes = taken.reduceOption ++ rest ∧
      Walk width top taken root := by
  refine ⟨exists_walk_of_climb, ?_⟩
  rintro ⟨taken, rfl, rfl, h⟩
  exact h.climb_eq rest

/-! ## The levels that take a node -/

/-- The lowest bits of a number, lowest first. -/
def lowBits (levels n : Nat) : List Bool :=
  (List.range levels).map n.testBit

theorem lowBits_succ (levels n : Nat) :
    lowBits (levels + 1) n = n.testBit 0 :: lowBits levels (n / 2) := by
  simp [lowBits, List.range_succ_eq_map, Function.comp_def, Nat.testBit_succ]

theorem lowBits_of_even (h : count % 2 = 0) :
    lowBits (levels + 1) count = false :: lowBits levels (count / 2) := by
  rw [lowBits_succ, Nat.testBit_zero, h]
  rfl

theorem lowBits_of_odd (h : count % 2 = 1) :
    lowBits (levels + 1) count = true :: lowBits levels (count / 2) := by
  rw [lowBits_succ, Nat.testBit_zero, h]
  rfl

theorem length_bitIndices_of_even (h : count % 2 = 0) :
    count.bitIndices.length = (count / 2).bitIndices.length := by
  conv => lhs; rw [show count = 2 * (count / 2) by omega]
  rw [Nat.bitIndices_two_mul, List.length_map]

theorem length_bitIndices_of_odd (h : count % 2 = 1) :
    count.bitIndices.length = (count / 2).bitIndices.length + 1 := by
  conv => lhs; rw [show count = 2 * (count / 2) + 1 by omega]
  rw [Nat.bitIndices_two_mul_add_one, List.length_cons, List.length_map]

/-- The walk takes all these nodes, one after the other, at the levels whose bits are set in the
number, and ends at a root. -/
def TakesAll (levels count width : Nat) (top : Option Digest) (nodes : List Digest) : Prop :=
  ∃ taken derived, taken.map Option.isSome = lowBits levels count ∧
    taken.reduceOption = nodes ∧ Walk width top taken (some derived)

/-- A level whose bit is clear takes no node. -/
theorem TakesAll.skip {width' : Nat} {top' : Option Digest} (heven : count % 2 = 0)
    (h : TakesAll levels (count / 2) width' top' nodes)
    (hlevel : ∀ {taken root}, Walk width' top' taken root → Walk width top (none :: taken) root) :
    TakesAll (levels + 1) count width top nodes := by
  obtain ⟨taken, derived, hbits, hnodes, hwalk⟩ := h
  refine ⟨none :: taken, derived, ?_, ?_, hlevel hwalk⟩
  · rw [List.map_cons, hbits, lowBits_of_even heven]
    rfl
  · rw [List.reduceOption_cons_of_none, hnodes]

/-- A level whose bit is set takes the next node. -/
theorem TakesAll.take {width' : Nat} {top' : Option Digest} {left : Digest} (hodd : count % 2 = 1)
    (h : TakesAll levels (count / 2) width' top' nodes)
    (hlevel : ∀ {taken root}, Walk width' top' taken root →
      Walk width top (some left :: taken) root) :
    TakesAll (levels + 1) count width top (left :: nodes) := by
  obtain ⟨taken, derived, hbits, hnodes, hwalk⟩ := h
  refine ⟨some left :: taken, derived, ?_, ?_, hlevel hwalk⟩
  · rw [List.map_cons, hbits, lowBits_of_odd hodd]
    rfl
  · rw [List.reduceOption_cons_of_some, hnodes]

/-- Above a subtree that is not full a level has one node more than full subtrees: it is of even
width, and takes a node, just where the bit of the level is set. -/
theorem takesAll_partly (h : count < 2 ^ levels) (hlen : nodes.length = count.bitIndices.length)
    (d : Digest) : TakesAll levels count (count + 1) (some d) nodes := by
  induction levels generalizing count nodes d with
  | zero =>
    obtain rfl : count = 0 := by simpa using h
    obtain rfl := List.length_eq_zero_iff.mp (hlen.trans (by simp))
    exact ⟨[], d, rfl, rfl, .stop⟩
  | succ levels ih =>
    have hhalf : (count + 1 + 1) / 2 = count / 2 + 1 := by omega
    have hlt : count / 2 < 2 ^ levels := by
      rw [Nat.pow_succ] at h
      omega
    cases Nat.mod_two_eq_zero_or_one count with
    | inl heven =>
      rw [length_bitIndices_of_even heven] at hlen
      have habove := ih hlt hlen (d.pair d)
      rw [← hhalf] at habove
      exact habove.skip heven (.alone (by omega))
    | inr hodd =>
      rw [length_bitIndices_of_odd hodd] at hlen
      obtain ⟨left, nodes, rfl⟩ := List.exists_cons_of_length_eq_add_one hlen
      have habove := ih hlt (Nat.succ.inj hlen) (left.pair d)
      rw [← hhalf] at habove
      exact habove.take hodd (.join (by omega))

/-- Below its lowest one bit a number has no node to take, for all subtrees are full there; the
level of that bit takes the first node, and no subtree above it is full. -/
theorem takesAll_full (h0 : count ≠ 0) (h2 : ¬ ∃ d, count = 2 ^ d)
    (hlevels : Nat.clog 2 count = levels) (hlen : nodes.length = count.bitIndices.length) :
    TakesAll levels count count none nodes := by
  induction levels generalizing count nodes with
  | zero =>
    have hle := le_one_of_clog_eq_zero hlevels
    exact absurd ⟨0, show count = 1 by omega⟩ h2
  | succ levels ih =>
    obtain ⟨htwo, hle⟩ := bounds_of_clog_eq_succ hlevels
    rw [clog_halve htwo] at hlevels
    cases Nat.mod_two_eq_zero_or_one count with
    | inl heven =>
      have hhalf : (count + 1) / 2 = count / 2 := by omega
      have hpower : ¬ ∃ d, count / 2 = 2 ^ d := by
        rintro ⟨d, hd⟩
        exact h2 ⟨d + 1, by rw [Nat.pow_succ, ← hd]; omega⟩
      rw [length_bitIndices_of_even heven] at hlen
      rw [hhalf] at hlevels
      have habove := ih (by omega) hpower (Nat.succ.inj hlevels) hlen
      exact habove.skip heven fun hwalk => .full heven (hhalf ▸ hwalk)
    | inr hodd =>
      have hhalf : (count + 1) / 2 = count / 2 + 1 := by omega
      rw [length_bitIndices_of_odd hodd] at hlen
      obtain ⟨left, nodes, rfl⟩ := List.exists_cons_of_length_eq_add_one hlen
      have hlt : count / 2 < 2 ^ levels := by omega
      have habove := takesAll_partly hlt (Nat.succ.inj hlen) (left.pair left)
      rw [← hhalf] at habove
      exact habove.take hodd (.start hodd)

/-! ## The check -/

variable {n : UInt64} {below : List Digest}

theorem validate_of_gt (h : 2 ^ 63 < n.toNat) (nodes : List Digest) :
    validate nodes n = .error (.tooManyLeaves n.toNat) := by
  rw [validate, if_pos (show maxLeafCount < n from UInt64.lt_iff_toNat_lt.mpr h)]

theorem not_gt_maxLeafCount (hle : n.toNat ≤ 2 ^ 63) : ¬ n > maxLeafCount :=
  UInt64.not_lt.mpr (UInt64.le_iff_toNat_le.mpr hle)

theorem validate_of_length_ne (hle : n.toNat ≤ 2 ^ 63) (hlen : nodes.length ≠ frontierLength n) :
    validate nodes n = .error (.wrongNodeCount n.toNat (frontierLength n) nodes.length) := by
  rw [validate, if_neg (not_gt_maxLeafCount hle), if_pos hlen]

/-- With the nodes below the root used up by the walk, the root decides. -/
theorem validate_of_climb (hle : n.toNat ≤ 2 ^ 63) (hne : below ≠ [])
    (hlen : below.length + 1 = frontierLength n) {derived : Digest}
    (hclimb : climb (maxDepth n - 1) n.toNat none below = .ok ([], some derived)) (root : Digest) :
    validate (below ++ [root]) n =
      if derived = root then .ok () else .error (.wrongRoot root derived) := by
  have hcount : (below ++ [root]).length = below.length + 1 := by
    rw [List.length_append, List.length_singleton]
  have hpos := List.length_pos_iff.mpr hne
  rw [validate, if_neg (not_gt_maxLeafCount hle), hcount, if_neg (not_not_intro hlen),
    if_neg (by omega), List.dropLast_concat, List.getLastD_concat, hclimb]
  rfl

/-- A frontier of a number of leaves that is no power of two has a node below its root for each one
bit. -/
theorem exists_below (h0 : n ≠ 0) (h2 : ¬ ∃ d, n.toNat = 2 ^ d)
    (hlen : nodes.length = frontierLength n) :
    ∃ below root, nodes = below ++ [root] ∧ below ≠ [] ∧
      below.length = n.toNat.bitIndices.length := by
  have hmany := one_lt_frontierLength h0 h2
  have hbits := frontierLength_eq h0
  rw [if_neg fun heq => h2 ⟨_, heq⟩] at hbits
  rcases List.eq_nil_or_concat' nodes with rfl | ⟨below, root, rfl⟩
  · rw [List.length_nil] at hlen
    omega
  · rw [List.length_append, List.length_singleton] at hlen
    exact ⟨below, root, rfl, List.length_pos_iff.mp (by omega), by omega⟩

/-- **Once its length fits, only the root of a frontier can be wrong.** For a number of leaves
within the capacity and nodes as many as it asks for, the check accepts if the number is a power of
two. Otherwise its walk over the levels below the root takes each other node once and in order, at
the levels whose bits are set in the number, has none left and derives a root: the one root that is
accepted after these nodes. Nodes of another number are refused, and so is every frontier beyond the
capacity. -/
theorem only_root_can_be_wrong (n : UInt64) (nodes : List Digest) :
    (2 ^ 63 < n.toNat → validate nodes n = .error (.tooManyLeaves n.toNat)) ∧
    (n.toNat ≤ 2 ^ 63 → nodes.length ≠ frontierLength n →
      validate nodes n = .error (.wrongNodeCount n.toNat (frontierLength n) nodes.length)) ∧
    (1 ≤ n.toNat → n.toNat ≤ 2 ^ 63 → nodes.length = frontierLength n →
      ((∃ d, n.toNat = 2 ^ d) → validate nodes n = .ok ()) ∧
      ((¬ ∃ d, n.toNat = 2 ^ d) → ∃ below root taken derived, nodes = below ++ [root] ∧
        taken.map Option.isSome = (List.range (maxDepth n - 1)).map n.toNat.testBit ∧
        taken.reduceOption = below ∧ Walk n.toNat none taken (some derived) ∧
        climb (maxDepth n - 1) n.toNat none below = .ok ([], some derived) ∧
        ∀ last, (validate (below ++ [last]) n = .ok () ↔ last = derived) ∧
          (last ≠ derived → validate (below ++ [last]) n = .error (.wrongRoot last derived)))) := by
  refine ⟨fun h => validate_of_gt h nodes, validate_of_length_ne, fun h0 hle hlen => ?_⟩
  have hne : n ≠ 0 := by
    rintro rfl
    exact Nat.not_lt_zero 0 h0
  refine ⟨?_, fun h2 => ?_⟩
  · rintro ⟨d, hd⟩
    have hone : frontierLength n = 1 := by
      rw [frontierLength_eq hne, hd, Nat.clog_pow 2 d Nat.one_lt_two, if_pos rfl]
    rw [validate, if_neg (not_gt_maxLeafCount hle), if_neg (not_not_intro hlen),
      if_pos (Nat.le_of_eq (hlen.trans hone))]
  · have hdepth : maxDepth n - 1 = Nat.clog 2 n.toNat := by
      rw [maxDepth_eq hne, Nat.add_sub_cancel]
    obtain ⟨below, root, rfl, hbelow, hbits⟩ := exists_below hne h2 hlen
    obtain ⟨taken, derived, hlevels, hnodes, hwalk⟩ :=
      takesAll_full (Nat.ne_of_gt h0) h2 rfl hbits
    have hlength : taken.length = maxDepth n - 1 := by
      simpa [lowBits, hdepth] using congrArg List.length hlevels
    have hclimb := hwalk.climb_eq []
    rw [List.append_nil, hnodes, hlength] at hclimb
    rw [List.length_append, List.length_singleton] at hlen
    rw [← hdepth] at hlevels
    refine ⟨below, root, taken, derived, rfl, hlevels, hnodes, hwalk, hclimb, fun last => ?_⟩
    rw [validate_of_climb hle hbelow hlen hclimb]
    by_cases heq : derived = last
    · rw [if_pos heq]
      exact ⟨⟨fun _ => heq.symm, fun _ => rfl⟩, fun hne => absurd heq.symm hne⟩
    · rw [if_neg heq]
      refine ⟨⟨fun herror => ?_, fun hlast => absurd hlast.symm heq⟩, fun _ => rfl⟩
      cases herror

/-- Of the four levels over eleven leaves the two lowest and the highest take a node. -/
theorem only_root_can_be_wrong_eleven :
    let nodes : List Digest := [.hash [1], .hash [2], .hash [3], .zero]
    1 ≤ (11 : UInt64).toNat ∧ (11 : UInt64).toNat ≤ 2 ^ 63 ∧
      nodes.length = frontierLength 11 ∧ (¬ ∃ d, (11 : UInt64).toNat = 2 ^ d) ∧
      (∃ taken derived, taken.map Option.isSome = [true, true, false, true] ∧
        taken.reduceOption = [.hash [1], .hash [2], .hash [3]] ∧
        Walk 11 none taken (some derived) ∧
        validate [.hash [1], .hash [2], .hash [3], derived] 11 = .ok ()) ∧
      validate [.zero] 8 = .ok () ∧
      validate nodes 12 = .error (.wrongNodeCount 12 3 4) ∧
      validate nodes 0x8000000000000001 = .error (.tooManyLeaves 0x8000000000000001) := by
  intro nodes
  have hlen : nodes.length = frontierLength 11 := by decide
  have h2 : ¬ ∃ d, (11 : UInt64).toNat = 2 ^ d := by
    rintro ⟨d, hd⟩
    match d with
    | 0 => cases hd
    | d + 1 =>
      rw [Nat.pow_succ, show (11 : UInt64).toNat = 11 from rfl] at hd
      omega
  refine ⟨by decide, by decide, hlen, h2, ?_, ?_, ?_, ?_⟩
  · obtain ⟨below, root, taken, derived, hnodes, hlevels, htaken, hwalk, -, hlast⟩ :=
      ((only_root_can_be_wrong 11 nodes).2.2 (by decide) (by decide) hlen).2 h2
    have hbelow : nodes.dropLast = below := by rw [hnodes, List.dropLast_concat]
    subst hbelow
    exact ⟨taken, derived, hlevels, htaken, hwalk, (hlast derived).1.mpr rfl⟩
  · exact ((only_root_can_be_wrong 8 [.zero]).2.2 (by decide) (by decide) (by decide)).1 ⟨3, rfl⟩
  · exact (only_root_can_be_wrong 12 nodes).2.1 (by decide) (by decide)
  · exact (only_root_can_be_wrong 0x8000000000000001 nodes).1 (by decide)

end LightClient.Merkle.Frontier
