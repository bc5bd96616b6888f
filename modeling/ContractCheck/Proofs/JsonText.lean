import ContractCheck.Json.Writer
import ContractCheck.Proofs.JsonTokens

/-!
The texts of JSON values. A text of a value is a text of its tokens (`Json.IsText`), and it is read
as that value and no other (`Json.parse_of_isText`), since the tokens build the value up again. What
is written for a value is one of its texts, if all its strings are texts and all its numbers are
integers, so it stands for that value (`Json.parse_render`).
-/

namespace ContractCheck.Json

mutual

/-- The tokens of a value's text. -/
def tokens : Json → List Token
  | .null => [.null]
  | .bool b => [.bool b]
  | .int n => [.int n]
  | .decimal => [.decimal]
  | .str text => [.str text]
  | .arr items => .openArr :: (tokensOfItems items ++ [.closeArr])
  | .obj members => .openObj :: (tokensOfMembers members ++ [.closeObj])

def tokensOfItems : List Json → List Token
  | [] => []
  | [item] => item.tokens
  | item :: next :: rest => item.tokens ++ .comma :: tokensOfItems (next :: rest)

def tokensOfMembers : List (Option String × Json) → List Token
  | [] => []
  | [(key, value)] => .str key :: .colon :: value.tokens
  | (key, value) :: next :: rest =>
    .str key :: .colon :: (value.tokens ++ .comma :: tokensOfMembers (next :: rest))

end

/-- The text spells the value. -/
def IsText (j : Json) (text : String) : Prop := Token.Spaced j.tokens text.toList

/-- No value ends an array before it starts. -/
theorem tokens_eq_cons (j : Json) : ∃ t ts, j.tokens = t :: ts ∧ t ≠ .closeArr := by
  cases j with
  | null => exact ⟨_, _, rfl, by simp⟩
  | bool b => exact ⟨_, _, rfl, by simp⟩
  | int n => exact ⟨_, _, rfl, by simp⟩
  | decimal => exact ⟨_, _, rfl, by simp⟩
  | str text => exact ⟨_, _, rfl, by simp⟩
  | arr items => exact ⟨_, _, by rw [tokens], by simp⟩
  | obj members => exact ⟨_, _, by rw [tokens], by simp⟩

theorem tokensOfItems_eq_cons (item : Json) (items : List Json) :
    ∃ t ts, tokensOfItems (item :: items) = t :: ts ∧ t ≠ .closeArr := by
  obtain ⟨t, ts, htokens, ht⟩ := item.tokens_eq_cons
  cases items with
  | nil => exact ⟨t, ts, by rw [tokensOfItems, htokens], ht⟩
  | cons next rest => exact ⟨t, _, by rw [tokensOfItems, htokens, List.cons_append], ht⟩

namespace Phase

theorem run_cons {phase q : Phase} {t : Token} (h : phase.step t = some q)
    (ts : List Token) : phase.run (t :: ts) = q.run ts := by
  rw [run, h]

/-- Where an array may end it may also go on with an item. -/
theorem run_firstItem (stack : List Frame) {t : Token} (ht : t ≠ .closeArr) (ts : List Token) :
    (firstItem stack).run (t :: ts) = (value (.arr [] :: stack)).run (t :: ts) := by
  have hstep : (firstItem stack).step t = (value (.arr [] :: stack)).step t := by
    cases t <;> first | rfl | exact absurd rfl ht
  rw [run, run, hstep]

mutual

/-- The tokens of a value build it up. -/
theorem run_tokens : ∀ (j : Json) (stack : List Frame) (more : List Token),
    (value stack).run (j.tokens ++ more) = (after j stack).run more
  | .null, _, _ => by
      rw [tokens]
      rfl
  | .bool _, _, _ => by
      rw [tokens]
      rfl
  | .int _, _, _ => by
      rw [tokens]
      rfl
  | .decimal, _, _ => by
      rw [tokens]
      rfl
  | .str _, _, _ => by
      rw [tokens]
      rfl
  | .arr [], _, _ => by
      rw [tokens, tokensOfItems]
      rfl
  | .arr (item :: items), stack, more => by
      have hitems := run_tokensOfItems (item :: items) (List.cons_ne_nil _ _) [] stack more
      obtain ⟨t, ts, htokens, ht⟩ := tokensOfItems_eq_cons item items
      rw [htokens, List.cons_append] at hitems
      rw [tokens, htokens, List.cons_append, List.append_assoc, List.singleton_append,
        run_cons (q := firstItem stack) rfl, List.cons_append, run_firstItem stack ht, hitems]
      rfl
  | .obj [], _, _ => by
      rw [tokens, tokensOfMembers]
      rfl
  | .obj ((k, v) :: members), stack, more => by
      have hmembers := run_tokensOfMembers ((k, v) :: members) (List.cons_ne_nil _ _) [] stack more
      rw [tokens, List.cons_append, List.append_assoc, List.singleton_append,
        run_cons (q := firstKey stack) rfl]
      have hfirst :
          (firstKey stack).run (tokensOfMembers ((k, v) :: members) ++ .closeObj :: more) =
            (key [] stack).run (tokensOfMembers ((k, v) :: members) ++ .closeObj :: more) := by
        cases members with
        | nil =>
            rw [tokensOfMembers]
            rfl
        | cons next rest =>
            rw [tokensOfMembers]
            rfl
      rw [hfirst, hmembers]
      rfl

theorem run_tokensOfItems : ∀ (items : List Json), items ≠ [] → ∀ (done : List Json)
    (stack : List Frame) (more : List Token),
    (value (.arr done :: stack)).run (tokensOfItems items ++ .closeArr :: more) =
      (after (.arr (done.reverse ++ items)) stack).run more
  | [], h, _, _, _ => absurd rfl h
  | [item], _, done, stack, more => by
      rw [tokensOfItems, run_tokens item, run_cons (q := after (.arr (item :: done).reverse)
        stack) rfl, List.reverse_cons]
  | item :: next :: rest, _, done, stack, more => by
      have hrest := run_tokensOfItems (next :: rest) (List.cons_ne_nil _ _) (item :: done) stack
        more
      rw [tokensOfItems, List.append_assoc, run_tokens item, List.cons_append,
        run_cons (q := value (.arr (item :: done) :: stack)) rfl, hrest, List.reverse_cons,
        List.append_assoc, List.singleton_append]

theorem run_tokensOfMembers : ∀ (members : Members), members ≠ [] → ∀ (done : Members)
    (stack : List Frame) (more : List Token),
    (key done stack).run (tokensOfMembers members ++ .closeObj :: more) =
      (after (.obj (done.reverse ++ members)) stack).run more
  | [], h, _, _, _ => absurd rfl h
  | [(k, v)], _, done, stack, more => by
      rw [tokensOfMembers, List.cons_append, List.cons_append,
        run_cons (q := colon done k stack) rfl,
        run_cons (q := value (.obj done k :: stack)) rfl, run_tokens v,
        run_cons (q := after (.obj ((k, v) :: done).reverse) stack) rfl, List.reverse_cons]
  | (k, v) :: next :: rest, _, done, stack, more => by
      have hrest := run_tokensOfMembers (next :: rest) (List.cons_ne_nil _ _) ((k, v) :: done) stack
        more
      rw [tokensOfMembers, List.cons_append, List.cons_append,
        run_cons (q := colon done k stack) rfl,
        run_cons (q := value (.obj done k :: stack)) rfl, List.append_assoc, run_tokens v,
        List.cons_append, run_cons (q := key ((k, v) :: done) stack) rfl, hrest,
        List.reverse_cons, List.append_assoc, List.singleton_append]

end

end Phase

theorem ofTokens?_tokens (j : Json) : ofTokens? j.tokens = some j := by
  have hrun := Phase.run_tokens j [] []
  rw [List.append_nil] at hrun
  rw [ofTokens?, hrun]
  rfl

open Token

/-- Nothing else is said of a token that is no number. -/
theorem apart_cons {t : Token} (ht : t.isNumber = false) {ts : List Token} (h : Apart ts) :
    Apart (t :: ts) :=
  List.isChain_cons.2 ⟨fun _ _ hnumber => absurd hnumber (by rw [ht]; decide), h⟩

mutual

/-- In a value no number stands right behind another, and so where no number follows it. -/
theorem apart_tokens : ∀ (j : Json) {ts : List Token}, Apart ts →
    (∀ t ∈ ts.head?, t.isNumber = false) → Apart (j.tokens ++ ts)
  | .null, _, h, _ => by
      rw [tokens]
      exact apart_cons rfl h
  | .bool _, _, h, _ => by
      rw [tokens]
      exact apart_cons rfl h
  | .int _, _, h, hhead => by
      rw [tokens]
      exact List.isChain_cons.2 ⟨fun t ht _ => hhead t ht, h⟩
  | .decimal, _, h, hhead => by
      rw [tokens]
      exact List.isChain_cons.2 ⟨fun t ht _ => hhead t ht, h⟩
  | .str _, _, h, _ => by
      rw [tokens]
      exact apart_cons rfl h
  | .arr items, _, h, _ => by
      rw [tokens, List.cons_append, List.append_assoc]
      exact apart_cons rfl (apart_tokensOfItems items (apart_cons rfl h) (by
        rintro t ⟨⟩
        rfl))
  | .obj members, _, h, _ => by
      rw [tokens, List.cons_append, List.append_assoc]
      exact apart_cons rfl (apart_tokensOfMembers members (apart_cons rfl h) (by
        rintro t ⟨⟩
        rfl))

theorem apart_tokensOfItems : ∀ (items : List Json) {ts : List Token}, Apart ts →
    (∀ t ∈ ts.head?, t.isNumber = false) → Apart (tokensOfItems items ++ ts)
  | [], _, h, _ => by
      rw [tokensOfItems]
      exact h
  | [item], _, h, hhead => by
      rw [tokensOfItems]
      exact apart_tokens item h hhead
  | item :: next :: rest, _, h, hhead => by
      have hrest := apart_tokensOfItems (next :: rest) h hhead
      rw [tokensOfItems, List.append_assoc]
      refine apart_tokens item (apart_cons rfl hrest) ?_
      rintro t ⟨⟩
      rfl

theorem apart_tokensOfMembers : ∀ (members : Members) {ts : List Token}, Apart ts →
    (∀ t ∈ ts.head?, t.isNumber = false) → Apart (tokensOfMembers members ++ ts)
  | [], _, h, _ => by
      rw [tokensOfMembers]
      exact h
  | [(_, value)], _, h, hhead => by
      rw [tokensOfMembers]
      exact apart_cons rfl (apart_cons rfl (apart_tokens value h hhead))
  | (_, value) :: next :: rest, _, h, hhead => by
      have hrest := apart_tokensOfMembers (next :: rest) h hhead
      rw [tokensOfMembers, List.cons_append, List.cons_append, List.append_assoc]
      refine apart_cons rfl (apart_cons rfl (apart_tokens value (apart_cons rfl hrest) ?_))
      rintro t ⟨⟩
      rfl

end

/-- Every text of a value stands for that value. -/
theorem parse_of_isText {j : Json} {text : String} (h : IsText j text) : parse text = some j := by
  have hapart : Apart (j.tokens ++ []) := apart_tokens j .nil fun _ h => nomatch h
  rw [List.append_nil] at hapart
  rw [parse, h.scanAll hapart, Option.bind_some, ofTokens?_tokens]

mutual

/-- All strings are texts and all numbers are integers. -/
def IsExact : Json → Prop
  | .null | .bool _ | .int _ => True
  | .decimal => False
  | .str text => text.isSome
  | .arr items => AreExact items
  | .obj members => HasExactMembers members

def AreExact : List Json → Prop
  | [] => True
  | item :: items => item.IsExact ∧ AreExact items

def HasExactMembers : List (Option String × Json) → Prop
  | [] => True
  | (key, value) :: members => key.isSome ∧ value.IsExact ∧ HasExactMembers members

end

namespace Token

theorem hexUnit?_control : ∀ n < 0x20, hexUnit? '0' '0' (hexDigit (n / 16)) (hexDigit (n % 16)) =
    some n := by
  decide +kernel

/-- A control character is no surrogate, so its unit stands for it. -/
theorem decode_control {c : Char} (h : c.toNat < 0x20) (codes : List Code) :
    decode (.unit c.toNat :: codes) = (decode codes).map (c :: ·) := by
  have hhigh : isHighSurrogate c.toNat = false := by
    simp only [isHighSurrogate, Bool.and_eq_false_iff, decide_eq_false_iff_not]
    omega
  have hlow : isLowSurrogate c.toNat = false := by
    simp only [isLowSurrogate, Bool.and_eq_false_iff, decide_eq_false_iff_not]
    omega
  rw [decode.eq_def]
  simp [hhigh, hlow]

/-- What is written for a character stands for it. -/
theorem exists_piece (c : Char) : ∃ piece code, Piece.chars piece = escape c ∧
    piece.code? = some code ∧ ∀ codes, decode (code :: codes) = (decode codes).map (c :: ·) := by
  unfold escape
  -- the characters that are written with a letter of their own
  iterate 7
    split
    · subst c
      exact ⟨.escape _, .char _, rfl, rfl, fun _ => by rw [decode]⟩
  split
  · rename_i hcontrol
    refine ⟨.unit '0' '0' (hexDigit (c.toNat / 16)) (hexDigit (c.toNat % 16)), .unit c.toNat, rfl,
      ?_, decode_control hcontrol⟩
    rw [Piece.code?, hexUnit?_control _ hcontrol]
    rfl
  · rename_i hquote hslash _ _ _ _ _ hcontrol
    refine ⟨.plain c, .char c, rfl, ?_, fun _ => by rw [decode]⟩
    rw [Piece.code?, if_neg (by simp [hquote, hslash, hcontrol])]

theorem exists_pieces (text : List Char) : ∃ (pieces : List Piece) (codes : List Code),
    pieces.flatMap Piece.chars = text.flatMap escape ∧ pieces.mapM Piece.code? = some codes ∧
      decode codes = some text := by
  induction text with
  | nil => exact ⟨[], [], rfl, rfl, by rw [decode]⟩
  | cons c text ih =>
      obtain ⟨pieces, codes, hchars, hcodes, hdecode⟩ := ih
      obtain ⟨piece, code, hpiece, hcode, hc⟩ := exists_piece c
      refine ⟨piece :: pieces, code :: codes, ?_, ?_, ?_⟩
      · rw [List.flatMap_cons, hpiece, hchars, List.flatMap_cons]
      · rw [List.mapM_cons, hcode, hcodes]
        rfl
      · rw [hc, hdecode, Option.map_some]

theorem written_quote (text : String) : Written (.str (some text)) (quote text).toList := by
  obtain ⟨pieces, codes, hchars, hcodes, hdecode⟩ := exists_pieces text.toList
  have h := Written.str hcodes
  rw [hdecode, Option.map_some, String.ofList_toList, hchars] at h
  have hquote : (quote text).toList = '"' :: (text.toList.flatMap escape ++ ['"']) := by
    simp [quote]
  rwa [hquote]

/-- Only zero is written with a zero in front. -/
theorem head?_toDigits {n : Nat} (h : 0 < n) : (Nat.toDigits 10 n).head? ≠ some '0' := by
  induction n using Nat.strongRecOn with
  | ind n ih =>
      by_cases hsmall : n < 10
      · rw [Nat.toDigits_of_lt_base hsmall]
        have hdigit : ∀ k < 10, 0 < k → [Nat.digitChar k].head? ≠ some '0' := by decide
        exact hdigit n hsmall h
      · obtain ⟨c, digits, hdigits⟩ := List.exists_cons_of_ne_nil
          (Nat.toDigits_ne_nil (b := 10) (n := n / 10))
        have hhead := ih (n / 10) (by omega) (by omega)
        rw [hdigits] at hhead
        rwa [Nat.toDigits_of_base_le (by decide) (by omega), hdigits]

theorem isWhole_toDigits (n : Nat) : IsWhole (Nat.toDigits 10 n) := by
  refine ⟨⟨Nat.toDigits_ne_nil, fun c hc =>
    Nat.isDigit_of_mem_toDigits (by decide) (by decide) hc⟩, fun hhead => ?_⟩
  rcases Nat.eq_zero_or_pos n with rfl | hpos
  · exact Nat.toDigits_of_lt_base (by decide)
  · exact absurd hhead (head?_toDigits hpos)

theorem written_int (n : Int) : Written (.int n) (toString n).toList := by
  rw [Int.toString_eq_repr, Int.repr_eq_if]
  split
  · rename_i hn
    have h := IsNumber.natural (isWhole_toDigits n.toNat)
    rw [Nat.ofDigitChars_ten_toDigits, Int.toNat_of_nonneg hn] at h
    rw [Nat.toList_repr]
    exact .number h
  · rename_i hn
    have hvalue : -((-n).toNat : Int) = n := by omega
    have h := IsNumber.negative (isWhole_toDigits (-n).toNat) (by
      rw [Nat.ofDigitChars_ten_toDigits]
      omega)
    rw [Nat.ofDigitChars_ten_toDigits, hvalue] at h
    rw [String.toList_append, Nat.toList_repr]
    exact .number h

/-- A token with one text in front of others. -/
theorem spaced_fixed (text : String) (t : Token) (ht : (text, t) ∈ fixed) {rest : List Char}
    {ts : List Token} (h : Spaced ts rest) : Spaced (t :: ts) (text.toList ++ rest) :=
  .token (.fixed ht) h

theorem spaced_key {key : Option String} (hkey : key.isSome = true) {rest : List Char}
    {ts : List Token} (h : Spaced ts rest) :
    Spaced (.str key :: .colon :: ts) ((quote? key).toList ++ (":".toList ++ rest)) := by
  obtain ⟨text, rfl⟩ := Option.isSome_iff_exists.1 hkey
  exact .token (written_quote text) (spaced_fixed ":" .colon (by decide) h)

end Token

mutual

/-- What is written for a value is a text of its tokens. -/
theorem spaced_render : ∀ (j : Json), j.IsExact → ∀ {rest : List Char} {ts : List Token},
    Spaced ts rest → Spaced (j.tokens ++ ts) (j.render.toList ++ rest)
  | .null, _, _, _, h => by
      rw [render, tokens]
      exact .token (.fixed (by decide)) h
  | .bool b, _, _, _, h => by
      rw [render, tokens]
      cases b
      · exact .token (.fixed (by decide)) h
      · exact .token (.fixed (by decide)) h
  | .int n, _, _, _, h => by
      rw [render, tokens]
      exact .token (written_int n) h
  | .decimal, hexact, _, _, _ => by
      rw [IsExact] at hexact
      exact hexact.elim
  | .str text, hexact, _, _, h => by
      rw [IsExact] at hexact
      obtain ⟨text, rfl⟩ := Option.isSome_iff_exists.1 hexact
      rw [render, tokens]
      exact .token (written_quote text) h
  | .arr items, hexact, _, _, h => by
      rw [IsExact] at hexact
      have hitems := spaced_renderItems items hexact (spaced_fixed "]" .closeArr (by decide) h)
      rw [render, tokens]
      simp only [String.toList_append, List.append_assoc, List.cons_append]
      exact spaced_fixed "[" .openArr (by decide) hitems
  | .obj members, hexact, _, _, h => by
      rw [IsExact] at hexact
      have hmembers := spaced_renderMembers members hexact
        (spaced_fixed "\x7d" .closeObj (by decide) h)
      rw [render, tokens]
      simp only [String.toList_append, List.append_assoc, List.cons_append]
      exact spaced_fixed "\x7b" .openObj (by decide) hmembers

theorem spaced_renderItems : ∀ (items : List Json), AreExact items →
    ∀ {rest : List Char} {ts : List Token}, Spaced ts rest →
      Spaced (tokensOfItems items ++ ts) ((renderItems items).toList ++ rest)
  | [], _, _, _, h => by
      rw [renderItems, tokensOfItems]
      exact h
  | [item], hexact, _, _, h => by
      rw [AreExact] at hexact
      rw [renderItems, tokensOfItems]
      exact spaced_render item hexact.1 h
  | item :: next :: items, hexact, _, _, h => by
      rw [AreExact] at hexact
      have hrest := spaced_renderItems (next :: items) hexact.2 h
      rw [renderItems, tokensOfItems]
      simp only [String.toList_append, List.append_assoc, List.cons_append]
      exact spaced_render item hexact.1 (spaced_fixed "," .comma (by decide) hrest)

theorem spaced_renderMembers : ∀ (members : Members), HasExactMembers members →
    ∀ {rest : List Char} {ts : List Token}, Spaced ts rest →
      Spaced (tokensOfMembers members ++ ts) ((renderMembers members).toList ++ rest)
  | [], _, _, _, h => by
      rw [renderMembers, tokensOfMembers]
      exact h
  | [(key, value)], hexact, _, _, h => by
      rw [HasExactMembers] at hexact
      have hvalue := spaced_render value hexact.2.1 h
      rw [renderMembers, tokensOfMembers]
      simp only [String.toList_append, List.append_assoc, List.cons_append]
      exact spaced_key hexact.1 hvalue
  | (key, value) :: next :: members, hexact, _, _, h => by
      rw [HasExactMembers] at hexact
      have hrest := spaced_renderMembers (next :: members) hexact.2.2 h
      have hvalue := spaced_render value hexact.2.1 (spaced_fixed "," .comma (by decide) hrest)
      rw [renderMembers, tokensOfMembers]
      simp only [String.toList_append, List.append_assoc, List.cons_append]
      exact spaced_key hexact.1 hvalue

end

/-- What is written for a value whose strings are texts and whose numbers are integers is one of its
texts. -/
theorem isText_render {j : Json} (h : j.IsExact) : IsText j j.render := by
  have hspaced := spaced_render j h .nil
  rwa [List.append_nil, List.append_nil] at hspaced

/-- A value whose strings are texts and whose numbers are integers is what its text stands for. -/
theorem parse_render {j : Json} (h : j.IsExact) : parse j.render = some j :=
  parse_of_isText (isText_render h)

end ContractCheck.Json
