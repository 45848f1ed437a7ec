import LightClient.Json.Document
import LightClient.Proofs.Json.Token

/-!
Written JSON is read back as the value that was written. Main statements: `Document.ofText_compact`
and `Document.ofText_pretty`.
-/

namespace LightClient.Json

mutual

/-- The value has a text that says all of it: it is complete, and holds no literal that is read
otherwise than it stands. -/
def Plain : Json → Prop
  | .decimal _ | .halfString => False
  | .array items closed => closed = true ∧ PlainItems items
  | .object members closed => closed = true ∧ PlainMembers members
  | _ => True

def PlainItems : List Json → Prop
  | [] => True
  | j :: rest => j.Plain ∧ PlainItems rest

def PlainMembers : List (String × Json) → Prop
  | [] => True
  | (_, v) :: rest => v.Plain ∧ PlainMembers rest

end

mutual

/-- The tokens of a plain value. -/
def tokens : Json → List Token
  | .bool b => [.bool b]
  | .integer n => [.integer n]
  | .string text => [.string text]
  | .array items _ => .openBracket :: itemTokens items ++ [.closeBracket]
  | .object members _ => .openBrace :: memberTokens members ++ [.closeBrace]
  | _ => [.null]

def itemTokens : List Json → List Token
  | [] => []
  | [j] => tokens j
  | j :: rest => tokens j ++ .comma :: itemTokens rest

def memberTokens : List (String × Json) → List Token
  | [] => []
  | [(k, v)] => .string k :: .colon :: tokens v
  | (k, v) :: rest => .string k :: .colon :: tokens v ++ .comma :: memberTokens rest

end

/-! ## From characters to tokens -/

/-- The characters are read as these tokens, no matter what follows them. -/
structure Scans (cs : List Char) (ts : List Token) : Prop where
  length_le : ts.length ≤ cs.length
  scan_append : ∀ rest, Stops rest → ∀ limit,
    Token.scan (ts.length + limit) (cs ++ rest) = ts ++ Token.scan limit rest

namespace Scans

variable {cs cs' : List Char} {ts ts' : List Token} {c : Char} {t : Token}

theorem nil : Scans [] [] :=
  ⟨Nat.le_refl 0, fun rest _ limit => by rw [List.length_nil, Nat.zero_add]; rfl⟩

theorem single (h : ∀ rest, Stops rest → Token.Reads cs t rest) : Scans cs [t] := by
  refine ⟨?_, fun rest hrest limit => ?_⟩
  · obtain ⟨c, more, rfl, -, -⟩ := h [] stops_nil
    exact Nat.succ_le_succ (Nat.zero_le _)
  · rw [List.length_singleton, Nat.add_comm, Token.scan_reads (h rest hrest)]
    rfl

/-- Characters that start with a mark may follow any others. -/
theorem append_mark (h : Scans cs ts) (h' : Scans cs' ts') (hc : Token.ofPunctuation? c = some t) :
    Scans (cs ++ c :: cs') (ts ++ t :: ts') := by
  have hlength := h.length_le
  have hlength' := h'.length_le
  refine ⟨by simp only [List.length_append, List.length_cons]; omega, fun rest hrest limit => ?_⟩
  have hcount : (ts ++ t :: ts').length + limit = ts.length + (ts'.length + limit + 1) := by
    simp only [List.length_append, List.length_cons]
    omega
  calc Token.scan ((ts ++ t :: ts').length + limit) (cs ++ c :: cs' ++ rest)
      = Token.scan (ts.length + (ts'.length + limit + 1)) (cs ++ ([c] ++ (cs' ++ rest))) := by
        rw [hcount, List.append_assoc]
        rfl
    _ = ts ++ Token.scan (ts'.length + limit + 1) ([c] ++ (cs' ++ rest)) :=
        h.scan_append _ (Token.stops_mark hc _) _
    _ = ts ++ t :: (ts' ++ Token.scan limit rest) := by
        rw [Token.scan_reads (Token.reads_mark hc), h'.scan_append rest hrest]
    _ = ts ++ t :: ts' ++ Token.scan limit rest := by
        rw [List.append_assoc]
        rfl

/-- Spaces may stand in front. -/
theorem spaces_before {spaces : List Char} (h : Scans cs ts)
    (hspaces : ∀ c ∈ spaces, Token.isSpace c = true) : Scans (spaces ++ cs) ts := by
  refine ⟨Nat.le_trans h.length_le (List.length_append ▸ Nat.le_add_left ..), ?_⟩
  intro rest hrest limit
  rw [List.append_assoc, Token.scan_spaces hspaces, h.scan_append rest hrest]

/-- Spaces may follow. -/
theorem spaces_after {spaces : List Char} (h : Scans cs ts)
    (hspaces : ∀ c ∈ spaces, Token.isSpace c = true) : Scans (cs ++ spaces) ts := by
  refine ⟨Nat.le_trans h.length_le (List.length_append ▸ Nat.le_add_right ..), ?_⟩
  intro rest hrest limit
  rw [List.append_assoc, h.scan_append _ (Token.stops_spaces hspaces hrest),
    Token.scan_spaces hspaces]

theorem enclosed {c' : Char} {t' : Token} (h : Scans cs ts) (hc : Token.ofPunctuation? c = some t)
    (hc' : Token.ofPunctuation? c' = some t') : Scans (c :: cs ++ [c']) (t :: ts ++ [t']) :=
  (nil.append_mark h hc).append_mark nil hc'

theorem ofText_eq (h : Scans cs ts) : Token.ofText (String.ofList cs) = ts := by
  have hcount : cs.length + 1 = ts.length + (cs.length + 1 - ts.length) := by
    have := h.length_le
    omega
  have hend : ∀ limit, Token.scan limit [] = []
    | 0 => rfl
    | _ + 1 => rfl
  rw [Token.ofText, String.toList_ofList]
  have hscan := h.scan_append [] stops_nil (cs.length + 1 - ts.length)
  rwa [← hcount, List.append_nil, hend, List.append_nil] at hscan

end Scans

mutual

theorem scans_compactChars : ∀ {j : Json}, j.Plain → Scans (compactChars j) (tokens j)
  | .null, _ => .single fun _ h => Token.reads_null h
  | .bool true, _ => .single fun _ h => Token.reads_true h
  | .bool false, _ => .single fun _ h => Token.reads_false h
  | .integer n, _ => .single fun _ h => Token.reads_integer n h
  | .string text, _ => .single fun _ _ => Token.reads_string text
  | .array _ _, h => (scans_compactItems h.2).enclosed rfl rfl
  | .object _ _, h => (scans_compactMembers h.2).enclosed rfl rfl

theorem scans_compactItems :
    ∀ {items : List Json}, PlainItems items → Scans (compactItems items) (itemTokens items)
  | [], _ => .nil
  | [_], h => scans_compactChars h.1
  | _ :: _ :: _, h => (scans_compactChars h.1).append_mark (scans_compactItems h.2) rfl

theorem scans_compactMembers : ∀ {members : List (String × Json)},
    PlainMembers members → Scans (compactMembers members) (memberTokens members)
  | [], _ => .nil
  | [(k, _)], h =>
    (Scans.single fun _ _ => Token.reads_string k).append_mark (scans_compactChars h.1) rfl
  | (k, _) :: m :: rest, h => by
    have hvalue := (Scans.single fun _ _ => Token.reads_string k).append_mark
      (scans_compactChars h.1) (c := ':') rfl
    exact hvalue.append_mark (scans_compactMembers h.2) rfl

end

theorem isSpace_of_mem_newline {level : Nat} {c : Char} (h : c ∈ newline level) :
    Token.isSpace c = true := by
  cases List.mem_cons.mp h with
  | inl hbreak => exact hbreak ▸ rfl
  | inr hindent => exact List.eq_of_mem_replicate hindent ▸ rfl

/-- What stands between brackets has a line break on either side. -/
theorem Scans.enclosed_lines {cs : List Char} {ts : List Token} {c c' : Char} {t t' : Token}
    (h : Scans cs ts) (inner outer : Nat) (hc : Token.ofPunctuation? c = some t)
    (hc' : Token.ofPunctuation? c' = some t') :
    Scans (c :: newline inner ++ cs ++ newline outer ++ [c']) (t :: ts ++ [t']) := by
  have hinner : Scans (newline inner ++ cs) ts := h.spaces_before fun _ => isSpace_of_mem_newline
  have houter : Scans (newline inner ++ cs ++ newline outer) ts :=
    hinner.spaces_after fun _ => isSpace_of_mem_newline
  exact houter.enclosed hc hc'

/-- What follows a comma stands on a line of its own. -/
theorem Scans.next_line {cs cs' : List Char} {ts ts' : List Token} (h : Scans cs ts)
    (h' : Scans cs' ts') (level : Nat) :
    Scans (cs ++ ',' :: newline level ++ cs') (ts ++ .comma :: ts') := by
  rw [List.append_assoc]
  exact h.append_mark (h'.spaces_before fun _ => isSpace_of_mem_newline) rfl

theorem Scans.named (k : String) {cs : List Char} {ts : List Token} (h : Scans cs ts) :
    Scans (quoteChars k ++ ':' :: ' ' :: cs) (.string k :: .colon :: ts) := by
  have hspace : Scans ([' '] ++ cs) ts :=
    h.spaces_before fun _ hc => List.mem_singleton.mp hc ▸ rfl
  exact (Scans.single fun _ _ => Token.reads_string k).append_mark hspace rfl

mutual

theorem scans_prettyChars :
    ∀ {j : Json} (level : Nat), j.Plain → Scans (prettyChars level j) (tokens j)
  | .null, _, _ => .single fun _ h => Token.reads_null h
  | .bool true, _, _ => .single fun _ h => Token.reads_true h
  | .bool false, _, _ => .single fun _ h => Token.reads_false h
  | .integer n, _, _ => .single fun _ h => Token.reads_integer n h
  | .string text, _, _ => .single fun _ _ => Token.reads_string text
  | .array [] _, _, _ => Scans.nil.enclosed rfl rfl
  | .array (_ :: _) _, level, h =>
    (scans_prettyItems (level + 1) h.2).enclosed_lines (level + 1) level rfl rfl
  | .object [] _, _, _ => Scans.nil.enclosed rfl rfl
  | .object (_ :: _) _, level, h =>
    (scans_prettyMembers (level + 1) h.2).enclosed_lines (level + 1) level rfl rfl

theorem scans_prettyItems : ∀ {items : List Json} (level : Nat),
    PlainItems items → Scans (prettyItems level items) (itemTokens items)
  | [], _, _ => .nil
  | [_], level, h => scans_prettyChars level h.1
  | _ :: _ :: _, level, h =>
    (scans_prettyChars level h.1).next_line (scans_prettyItems level h.2) level

theorem scans_prettyMembers : ∀ {members : List (String × Json)} (level : Nat),
    PlainMembers members → Scans (prettyMembers level members) (memberTokens members)
  | [], _, _ => .nil
  | [(k, _)], level, h => (scans_prettyChars level h.1).named k
  | (k, _) :: _ :: _, level, h =>
    ((scans_prettyChars level h.1).named k).next_line (scans_prettyMembers level h.2) level

end

/-! ## From tokens to values -/

open Progress

/-- A name, a colon and a value put a member into the object. -/
theorem foldl_member {k : String} {v : Json} {want : Want} {done : List (String × Json)}
    {stack : List Frame} (hw : want = .firstName ∨ want = .name)
    (hv : (tokens v).foldl step (.reading (.member done k :: stack) .value) =
      put v (.member done k :: stack)) :
    (.string k :: .colon :: tokens v).foldl step (.reading (.members done :: stack) want) =
      .reading (.members ((k, v) :: done) :: stack) .separator := by
  have hname : step (.reading (.members done :: stack) want) (.string k) =
      .reading (.member done k :: stack) .colon := by
    rcases hw with rfl | rfl
    · rfl
    · rfl
  rw [List.foldl_cons, hname]
  exact hv

mutual

/-- The tokens of a value put it where a value may start. -/
theorem foldl_tokens : ∀ {j : Json} {want : Want} (stack : List Frame), j.Plain →
    want = .value ∨ want = .firstItem →
    (tokens j).foldl step (.reading stack want) = put j stack
  | .null, _, stack, _, hw => by
    rcases hw with rfl | rfl <;> rfl
  | .bool b, _, stack, _, hw => by
    rcases hw with rfl | rfl <;> rfl
  | .integer n, _, stack, _, hw => by
    rcases hw with rfl | rfl <;> rfl
  | .string text, _, stack, _, hw => by
    rcases hw with rfl | rfl <;> rfl
  | .array [] closed, _, stack, h, hw => by
    obtain rfl : closed = true := h.1
    rcases hw with rfl | rfl <;> rfl
  | .array (j :: rest) closed, want, stack, h, hw => by
    obtain rfl : closed = true := h.1
    have hopen : step (.reading stack want) .openBracket =
        .reading (.items [] :: stack) .firstItem := by
      rcases hw with rfl | rfl <;> rfl
    rw [tokens, List.foldl_concat, List.foldl_cons, hopen,
      foldl_itemTokens [] stack (List.cons_ne_nil j rest) h.2 (.inr rfl), List.append_nil]
    exact congrArg (fun items => put (.array items) stack) (List.reverse_reverse _)
  | .object [] closed, _, stack, h, hw => by
    obtain rfl : closed = true := h.1
    rcases hw with rfl | rfl <;> rfl
  | .object (m :: rest) closed, want, stack, h, hw => by
    obtain rfl : closed = true := h.1
    have hopen : step (.reading stack want) .openBrace =
        .reading (.members [] :: stack) .firstName := by
      rcases hw with rfl | rfl <;> rfl
    rw [tokens, List.foldl_concat, List.foldl_cons, hopen,
      foldl_memberTokens [] stack (List.cons_ne_nil m rest) h.2 (.inl rfl), List.append_nil]
    exact congrArg (fun members => put (.object members) stack) (List.reverse_reverse _)

/-- The tokens of items put all of them into the array. -/
theorem foldl_itemTokens : ∀ {items : List Json} {want : Want} (done : List Json)
    (stack : List Frame), items ≠ [] → PlainItems items → want = .value ∨ want = .firstItem →
    (itemTokens items).foldl step (.reading (.items done :: stack) want) =
      .reading (.items (items.reverse ++ done) :: stack) .separator
  | [], _, _, _, hne, _, _ => absurd rfl hne
  | [_], _, done, stack, _, h, hw => foldl_tokens (.items done :: stack) h.1 hw
  | j :: j' :: rest, _, done, stack, _, h, hw => by
    rw [itemTokens, List.foldl_append, List.foldl_cons, foldl_tokens (.items done :: stack) h.1 hw]
    · have hrest := foldl_itemTokens (j :: done) stack (List.cons_ne_nil j' rest) h.2 (.inl rfl)
      rwa [List.reverse_cons, List.append_assoc]
    · exact List.cons_ne_nil j' rest

/-- The tokens of members put all of them into the object. -/
theorem foldl_memberTokens : ∀ {members : List (String × Json)} {want : Want}
    (done : List (String × Json)) (stack : List Frame), members ≠ [] → PlainMembers members →
    want = .firstName ∨ want = .name →
    (memberTokens members).foldl step (.reading (.members done :: stack) want) =
      .reading (.members (members.reverse ++ done) :: stack) .separator
  | [], _, _, _, hne, _, _ => absurd rfl hne
  | [(k, _)], _, done, stack, _, h, hw =>
    foldl_member hw (foldl_tokens (.member done k :: stack) h.1 (.inl rfl))
  | (k, v) :: m :: rest, _, done, stack, _, h, hw => by
    have hfirst := foldl_member hw (foldl_tokens (.member done k :: stack) h.1 (.inl rfl))
    have hrest := foldl_memberTokens ((k, v) :: done) stack (List.cons_ne_nil m rest) h.2 (.inr rfl)
    rw [memberTokens, List.foldl_append, hfirst]
    · rwa [List.reverse_cons, List.append_assoc]
    · exact List.cons_ne_nil m rest

end

/-- A plain value is read back from characters that have its tokens. -/
theorem Scans.document_eq {cs : List Char} {j : Json} (hs : Scans cs (tokens j)) (h : j.Plain) :
    Document.ofText (String.ofList cs) = ⟨some j, true⟩ := by
  rw [Document.ofText, hs.ofText_eq, Document.ofTokens, start, foldl_tokens [] h (.inl rfl)]
  rfl

/-- A plain value is read back from its text without spaces. -/
theorem Document.ofText_compact {j : Json} (h : j.Plain) :
    Document.ofText j.compact = ⟨some j, true⟩ :=
  (scans_compactChars h).document_eq h

/-- A plain value is read back from its text with one item or member a line. -/
theorem Document.ofText_pretty {j : Json} (h : j.Plain) :
    Document.ofText j.pretty = ⟨some j, true⟩ :=
  (scans_prettyChars 0 h).document_eq h

end LightClient.Json
