import WiseWay.JsonTexts

/-! # Decoding what was encoded

A document without floats and without lone high surrogates is decoded to itself, with the keys
of its objects sorted, and its encoding is printable ASCII. -/
namespace JsonRoundTrips

open TextCodecs JsonTexts

/-! ## Strings -/

/-- A code point that an escape sequence gives back whatever stands after it. -/
def PlainPoint (c : ℕ) : Prop := c < 0x110000 ∧ ¬ HighSurrogate c

def PlainText (s : Str) : Prop := ∀ c ∈ s, PlainPoint c

theorem hexValue_hexDigit : ∀ d < 16, hexValue (hexDigit d) = some d := by decide

theorem hexDigit_printable : ∀ d < 16, Printable (hexDigit d) := by decide

theorem hexUnit_hex4 {unit : ℕ} (h : unit < 0x10000) :
    hexUnit (hexDigit (unit / 4096 % 16)) (hexDigit (unit / 256 % 16))
      (hexDigit (unit / 16 % 16)) (hexDigit (unit % 16)) = some unit := by
  have hdigit : ∀ n, hexValue (hexDigit (n % 16)) = some (n % 16) :=
    fun n => hexValue_hexDigit _ (Nat.mod_lt _ (by decide))
  rw [hexUnit, hdigit, hdigit, hdigit, hdigit]
  simp only [Option.some.injEq]
  omega

theorem scanEscape_single {unit : ℕ} (h : unit < 0x10000) (hs : ¬ HighSurrogate unit)
    (rest : Str) : scanEscape (letterU :: (hex4 unit ++ rest)) = some (unit, rest) := by
  simp only [scanEscape, hex4, List.cons_append, List.nil_append, if_pos, hexUnit_hex4 h,
    if_neg hs]

theorem scanEscape_high {unit low : ℕ} (hs : HighSurrogate unit) {rest : Str}
    (h : lowEscape rest = some low) :
    scanEscape (letterU :: (hex4 unit ++ rest)) =
      some (joinSurrogates unit low, rest.drop 6) := by
  have hlt : unit < 0x10000 := lt_trans hs.2 (by decide)
  simp only [scanEscape, hex4, List.cons_append, List.nil_append, if_pos, hexUnit_hex4 hlt,
    if_pos hs, h]

theorem lowEscape_unit {low : ℕ} (h : LowSurrogate low) (rest : Str) :
    lowEscape (escapeUnit low ++ rest) = some low := by
  have hlt : low < 0x10000 := lt_trans h.2 (by decide)
  simp only [lowEscape, escapeUnit, hex4, List.cons_append, List.nil_append, and_self, if_pos,
    hexUnit_hex4 hlt, if_pos h]

theorem scanEscape_letter {c letter : ℕ} (h : shortEscape c = some letter) (rest : Str) :
    scanEscape (letter :: rest) = some (c, rest) := by
  unfold shortEscape at h
  split_ifs at h <;> cases h <;> subst_vars <;> rfl

theorem scanEscape_pair {c : ℕ} (hlow : 0x10000 ≤ c) (hhigh : c < 0x110000) (rest : Str) :
    scanEscape (letterU :: (hex4 (0xD800 + (c - 0x10000) / 0x400 % 0x400) ++
      (escapeUnit (0xDC00 + (c - 0x10000) % 0x400) ++ rest))) = some (c, rest) := by
  have hs : HighSurrogate (0xD800 + (c - 0x10000) / 0x400 % 0x400) := by
    unfold HighSurrogate
    omega
  have hl : LowSurrogate (0xDC00 + (c - 0x10000) % 0x400) := by
    unfold LowSurrogate
    omega
  have hjoin : joinSurrogates (0xD800 + (c - 0x10000) / 0x400 % 0x400)
      (0xDC00 + (c - 0x10000) % 0x400) = c := by
    unfold joinSurrogates
    omega
  rw [scanEscape_high hs (lowEscape_unit hl rest), hjoin]
  rfl

theorem scanString_escape {c : ℕ} (escaped : Str) {fuel : ℕ} {rest after : Str}
    (h : scanEscape (escaped ++ rest) = some (c, after)) :
    scanString (fuel + 1) (backslash :: (escaped ++ rest)) =
      (scanString fuel after).map fun found => (c :: found.1, found.2) := by
  rw [scanString, if_neg (by decide), if_neg (by decide), if_pos rfl, h]

theorem scanString_escapeChar {c : ℕ} (h : PlainPoint c) (fuel : ℕ) (rest : Str) :
    scanString (fuel + 1) (escapeChar c ++ rest) =
      (scanString fuel rest).map fun found => (c :: found.1, found.2) := by
  cases hshort : shortEscape c with
  | some letter =>
    rw [escapeChar, hshort]
    exact scanString_escape [letter] (scanEscape_letter hshort rest)
  | none =>
    rw [escapeChar, hshort]
    by_cases hp : Printable c
    · have hquote : c ≠ quote := by
        rintro rfl
        exact absurd hshort (by decide)
      have hslash : c ≠ backslash := by
        rintro rfl
        exact absurd hshort (by decide)
      simp only [if_pos hp]
      rw [List.singleton_append, scanString, if_neg hquote, if_neg (not_lt.mpr hp.1),
        if_neg hslash]
    · by_cases hsmall : c < 0x10000
      · simp only [if_neg hp, if_pos hsmall]
        apply scanString_escape (letterU :: hex4 c)
        exact scanEscape_single hsmall h.2 rest
      · simp only [if_neg hp, if_neg hsmall]
        rw [List.append_assoc]
        apply scanString_escape
          (letterU :: hex4 (0xD800 + (c - 0x10000) / 0x400 % 0x400))
        exact scanEscape_pair (not_lt.mp hsmall) h.1 rest

theorem escapeChar_ne_nil (c : ℕ) : escapeChar c ≠ [] := by
  unfold escapeChar
  split
  · exact List.cons_ne_nil _ _
  · split_ifs <;> simp [escapeUnit]

theorem length_le_escaped (s : Str) : s.length ≤ (s.flatMap escapeChar).length := by
  induction s with
  | nil => exact Nat.zero_le _
  | cons c s ih =>
    have hpos := List.length_pos_iff.mpr (escapeChar_ne_nil c)
    rw [List.flatMap_cons, List.length_cons, List.length_append]
    omega

theorem scanString_escaped {s : Str} (h : PlainText s) (rest : Str) {fuel : ℕ}
    (hfuel : s.length < fuel) :
    scanString fuel (s.flatMap escapeChar ++ quote :: rest) = some (s, rest) := by
  induction s generalizing fuel with
  | nil =>
    obtain ⟨fuel, rfl⟩ := Nat.exists_eq_succ_of_ne_zero (by omega : fuel ≠ 0)
    rfl
  | cons c s ih =>
    obtain ⟨fuel, rfl⟩ := Nat.exists_eq_succ_of_ne_zero (by omega : fuel ≠ 0)
    have hlen : s.length < fuel := by
      rw [List.length_cons] at hfuel
      omega
    have hrest := ih (fun x hx => h x (List.mem_cons_of_mem _ hx)) hlen
    rw [List.flatMap_cons, List.append_assoc,
      scanString_escapeChar (h c List.mem_cons_self), hrest]
    rfl

theorem scanString_encoded {s : Str} (h : PlainText s) (rest : Str) :
    scanString (s.flatMap escapeChar ++ [quote] ++ rest).length
      (s.flatMap escapeChar ++ [quote] ++ rest) = some (s, rest) := by
  rw [List.append_assoc, List.singleton_append]
  apply scanString_escaped h
  have := length_le_escaped s
  rw [List.length_append, List.length_cons]
  omega

/-! ## Numbers -/

/-- What may stand after a number: nothing that could continue it. -/
def Ends (rest : Str) : Prop := ∀ c ∈ rest.head?, ¬ Digit c ∧ c ≠ dot ∧ c ≠ 101 ∧ c ≠ 69

theorem spanDigits_append {ds rest : Str} (hds : ∀ c ∈ ds, Digit c) (h : Ends rest) :
    spanDigits (ds ++ rest) = (ds, rest) := by
  rw [spanDigits, List.span_eq_takeWhile_dropWhile]
  have hhead : rest.takeWhile (fun c => Digit c) = [] := by
    cases rest with
    | nil => rfl
    | cons c rest =>
      rw [List.takeWhile_cons, if_neg]
      simpa using (h c rfl).1
  have hdrop : rest.dropWhile (fun c => Digit c) = rest := by
    cases rest with
    | nil => rfl
    | cons c rest =>
      rw [List.dropWhile_cons, if_neg]
      simpa using (h c rfl).1
  have hall : ∀ c ∈ ds, decide (Digit c) = true := fun c hc => decide_eq_true (hds c hc)
  rw [List.takeWhile_append_of_pos hall, List.dropWhile_append_of_pos hall, hhead, hdrop,
    List.append_nil]

theorem scanFraction_ends {rest : Str} (h : Ends rest) : scanFraction rest = none := by
  cases rest with
  | nil => rfl
  | cons c rest => exact if_neg fun hc => (h c rfl).2.1 hc.1

theorem scanExponent_ends {rest : Str} (h : Ends rest) : scanExponent rest = none := by
  cases rest with
  | nil => rfl
  | cons c rest =>
    apply if_neg
    rintro ⟨hc | hc, -⟩
    · exact (h c rfl).2.2.1 hc
    · exact (h c rfl).2.2.2 hc

theorem digits_digit {n c : ℕ} (h : c ∈ digits n) : Digit c := by
  obtain ⟨d, hd, rfl⟩ := List.mem_map.mp h
  have hlt := Nat.digits_lt_base (by decide : 1 < 10) (List.mem_reverse.mp hd)
  unfold Digit
  omega

theorem encodeNat_digit {n c : ℕ} (h : c ∈ encodeNat n) : Digit c := by
  unfold encodeNat at h
  split_ifs at h
  · rw [List.mem_singleton.mp h]
    decide
  · exact digits_digit h

theorem natOfDigits_digits (n : ℕ) : natOfDigits (digits n) = n := by
  have hfold : ∀ L : List ℕ, natOfDigits (L.reverse.map (48 + ·)) = Nat.ofDigits 10 L := by
    intro L
    rw [natOfDigits, List.foldl_map, List.foldl_reverse, Nat.ofDigits_eq_foldr]
    congr 1
    funext d m
    simp only [Nat.add_sub_cancel_left, Nat.cast_id]
    omega
  rw [digits, hfold, Nat.ofDigits_digits]

theorem natOfDigits_encodeNat (n : ℕ) : natOfDigits (encodeNat n) = n := by
  unfold encodeNat
  split_ifs with h
  · rw [h]
    rfl
  · exact natOfDigits_digits n

theorem digits_head {n : ℕ} (h : n ≠ 0) :
    ∃ c ds, digits n = c :: ds ∧ c ≠ 48 ∧ Digit c ∧ ∀ d ∈ ds, Digit d := by
  have hne : Nat.digits 10 n ≠ [] := Nat.digits_ne_nil_iff_ne_zero.mpr h
  have hlast := Nat.getLast_digit_ne_zero 10 h
  have hform : digits n = (48 + (Nat.digits 10 n).getLast hne) ::
      ((Nat.digits 10 n).dropLast.reverse.map (48 + ·)) := by
    conv_lhs => rw [digits, ← List.dropLast_append_getLast hne]
    simp
  have hall : ∀ d ∈ digits n, Digit d := fun d hd => digits_digit hd
  rw [hform] at hall
  refine ⟨_, _, hform, by omega, hall _ List.mem_cons_self, ?_⟩
  intro d hd
  exact hall d (List.mem_cons_of_mem _ hd)

theorem scanWhole_encodeNat (n : ℕ) {rest : Str} (h : Ends rest) :
    scanWhole (encodeNat n ++ rest) = some (encodeNat n, rest) := by
  by_cases hn : n = 0
  · rw [encodeNat, if_pos hn]
    rfl
  · obtain ⟨c, ds, hform, hc, hdigit, hds⟩ := digits_head hn
    rw [encodeNat, if_neg hn, hform, List.cons_append, scanWhole, if_neg hc, if_pos hdigit,
      spanDigits_append hds h]

theorem length_encodeNat {n : ℕ} (h : n < 10 ^ maxDigits) : (encodeNat n).length ≤ maxDigits := by
  unfold encodeNat
  split_ifs with hn
  · exact (by decide : 1 ≤ maxDigits)
  · rw [digits, List.length_map, List.length_reverse]
    exact (Nat.digits_length_le_iff (by decide) n).mpr h

theorem scanUnsigned_encodeNat {n : ℕ} (hn : n < 10 ^ maxDigits) (negative : Bool) {rest : Str}
    (h : Ends rest) :
    scanUnsigned negative (encodeNat n ++ rest) =
      some (.int (if negative then -(n : ℤ) else n), rest) := by
  rw [scanUnsigned, scanWhole_encodeNat n h]
  simp only [scanFraction_ends h, Option.getD_none, scanExponent_ends h]
  rw [intValue, if_neg (not_lt.mpr (length_encodeNat hn)), natOfDigits_encodeNat]
  rfl

theorem encodeNat_head (n : ℕ) : ∃ c ds, encodeNat n = c :: ds ∧ Digit c := by
  cases hform : encodeNat n with
  | nil =>
    by_cases hn : n = 0
    · rw [encodeNat, if_pos hn] at hform
      cases hform
    · obtain ⟨c, ds, hdigits, -⟩ := digits_head hn
      rw [encodeNat, if_neg hn, hdigits] at hform
      cases hform
  | cons c ds =>
    exact ⟨c, ds, rfl, encodeNat_digit (hform ▸ List.mem_cons_self)⟩

/-! ## Values -/

/-- A text that the scanner reads as a value, whatever stands after it and ends a number. -/
structure Reads (text : Str) (value : Json) : Prop where
  head : ∃ c tail, text = c :: tail ∧ ¬ Space c ∧ c ≠ rbracket
  scanned : ∀ fuel rest, Ends rest → 2 * text.length + 1 ≤ fuel →
    scanOnce fuel (text ++ rest) = some (value, rest)

theorem skipSpace_head {c : ℕ} (h : ¬ Space c) (rest : Str) :
    skipSpace (c :: rest) = c :: rest := by
  rw [skipSpace, List.dropWhile_cons, if_neg]
  simpa using h

theorem Reads.skipSpace {text : Str} {value : Json} (h : Reads text value) (rest : Str) :
    skipSpace (text ++ rest) = text ++ rest := by
  obtain ⟨c, tail, rfl, hspace, -⟩ := h.head
  exact skipSpace_head hspace _

theorem reads_literal {word : Str} {value : Json} (c : ℕ) (tail : Str) (hword : word = c :: tail)
    (hspace : ¬ Space c) (hclose : c ≠ rbracket)
    (hscan : ∀ fuel rest, scanOnce (fuel + 1) (c :: rest) = literal word (c :: rest) value) :
    Reads word value := by
  refine ⟨⟨c, tail, hword, hspace, hclose⟩, ?_⟩
  intro fuel rest _ hfuel
  obtain ⟨fuel, rfl⟩ := Nat.exists_eq_succ_of_ne_zero (by omega : fuel ≠ 0)
  have hprefix : word <+: word ++ rest := List.prefix_append _ _
  rw [hword, List.cons_append, hscan, ← List.cons_append, ← hword, literal, if_pos hprefix,
    List.drop_left]

theorem reads_null : Reads (str "null") .null := by
  apply reads_literal 110 (str "ull") rfl (by decide) (by decide)
  intro fuel rest
  rfl

theorem reads_true : Reads (str "true") (.bool true) := by
  apply reads_literal 116 (str "rue") rfl (by decide) (by decide)
  intro fuel rest
  rfl

theorem reads_false : Reads (str "false") (.bool false) := by
  apply reads_literal 102 (str "alse") rfl (by decide) (by decide)
  intro fuel rest
  rfl

theorem scanOnce_number {c : ℕ} (h : Digit c ∨ c = minus) (fuel : ℕ) {rest : Str}
    (hinf : ¬ str "-Infinity" <+: c :: rest) :
    scanOnce (fuel + 1) (c :: rest) = scanNumber (c :: rest) := by
  have hcases : ∀ d, d < 45 ∨ 57 < d → c ≠ d := by
    intro d hd heq
    rcases h with h | h
    · obtain ⟨hlow, hhigh⟩ : 48 ≤ c ∧ c ≤ 57 := h
      omega
    · have hc : c = 45 := h
      omega
  rw [scanOnce, if_neg (hcases _ (by decide)), if_neg (hcases _ (by decide)),
    if_neg (hcases _ (by decide)), if_neg (hcases _ (by decide)), if_neg (hcases _ (by decide)),
    if_neg (hcases _ (by decide)), if_neg (hcases _ (by decide)), if_neg (hcases _ (by decide)),
    if_neg hinf]

theorem reads_int {i : ℤ} (h : i.natAbs < 10 ^ maxDigits) : Reads (encodeInt i) (.int i) := by
  obtain ⟨c, ds, hform, hdigit⟩ := encodeNat_head i.natAbs
  have hdigit' : 48 ≤ c ∧ c ≤ 57 := hdigit
  have hspace : ¬ Space c := by
    unfold Space
    omega
  have hclose : c ≠ rbracket := by
    rintro rfl
    exact absurd hdigit (by decide)
  by_cases hneg : i < 0
  · have htext : encodeInt i = minus :: encodeNat i.natAbs := if_pos hneg
    refine ⟨⟨minus, encodeNat i.natAbs, htext, by decide, by decide⟩, ?_⟩
    intro fuel rest hrest hfuel
    obtain ⟨fuel, rfl⟩ := Nat.exists_eq_succ_of_ne_zero (by omega : fuel ≠ 0)
    have hinf : ¬ str "-Infinity" <+: minus :: (encodeNat i.natAbs ++ rest) := by
      rw [hform]
      intro hpre
      have hhead := (List.cons_prefix_cons.mp (List.cons_prefix_cons.mp hpre).2).1
      rw [← hhead] at hdigit
      exact absurd hdigit (by decide)
    rw [htext, List.cons_append, scanOnce_number (Or.inr rfl) fuel hinf, scanNumber, if_pos rfl,
      scanUnsigned_encodeNat h true hrest]
    have hvalue : -(i.natAbs : ℤ) = i := by omega
    simp only [if_pos, hvalue]
  · have htext : encodeInt i = encodeNat i.natAbs := if_neg hneg
    refine ⟨⟨c, ds, htext.trans hform, hspace, hclose⟩, ?_⟩
    intro fuel rest hrest hfuel
    obtain ⟨fuel, rfl⟩ := Nat.exists_eq_succ_of_ne_zero (by omega : fuel ≠ 0)
    have hinf : ¬ str "-Infinity" <+: c :: (ds ++ rest) := by
      intro hpre
      have hhead := (List.cons_prefix_cons.mp hpre).1
      rw [← hhead] at hdigit
      exact absurd hdigit (by decide)
    have hminus : c ≠ minus := by
      rintro rfl
      exact absurd hdigit (by decide)
    have hscan := scanUnsigned_encodeNat h false hrest
    rw [hform] at hscan
    rw [htext, hform, List.cons_append, scanOnce_number (Or.inl hdigit) fuel hinf, scanNumber,
      if_neg hminus, ← List.cons_append, hscan]
    have hvalue : (i.natAbs : ℤ) = i := by omega
    simp [hvalue]

theorem reads_str {s : Str} (h : PlainText s) : Reads (encodeString s) (.str s) := by
  refine ⟨⟨quote, _, rfl, by decide, by decide⟩, ?_⟩
  intro fuel rest _ hfuel
  obtain ⟨fuel, rfl⟩ := Nat.exists_eq_succ_of_ne_zero (by omega : fuel ≠ 0)
  rw [encodeString, List.cons_append, scanOnce, if_pos rfl, scanString_encoded h rest]
  rfl

/-! ## Arrays and objects -/

theorem ends_of {c : ℕ} (h : c = comma ∨ c = rbracket ∨ c = rbrace) (rest : Str) :
    Ends (c :: rest) := by
  intro d hd
  have hd : c = d := by simpa using hd
  rw [← hd]
  rcases h with rfl | rfl | rfl <;> decide

theorem joined_cons (text next : Str) (texts : List Str) :
    joined (text :: next :: texts) = text ++ comma :: joined (next :: texts) := by
  rw [joined, List.intercalate_cons_cons, List.append_assoc]
  rfl

theorem joined_one (text : Str) : joined [text] = text := by
  simp [joined]

theorem scanItems_joined (items : List (Str × Json)) (h : ∀ item ∈ items, Reads item.1 item.2)
    (hne : items ≠ []) (fuel : ℕ) (rest : Str)
    (hfuel : 2 * (joined (items.map Prod.fst)).length + 2 ≤ fuel) :
    scanItems fuel (joined (items.map Prod.fst) ++ rbracket :: rest) =
      some (items.map Prod.snd, rest) := by
  induction items generalizing fuel with
  | nil => exact absurd rfl hne
  | cons item items ih =>
    obtain ⟨fuel, rfl⟩ := Nat.exists_eq_succ_of_ne_zero (by omega : fuel ≠ 0)
    have hitem := h item List.mem_cons_self
    cases items with
    | nil =>
      simp only [List.map_cons, List.map_nil, joined_one] at hfuel ⊢
      have hscan := hitem.scanned fuel (rbracket :: rest) (ends_of (by simp) rest) (by omega)
      rw [scanItems, hscan]
      simp only [skipSpace_head (by decide : ¬ Space rbracket), if_pos]
    | cons next items =>
      simp only [List.map_cons, joined_cons, List.length_append, List.length_cons] at hfuel ih ⊢
      have hrest := ih (fun x hx => h x (List.mem_cons_of_mem _ hx)) (List.cons_ne_nil _ _)
        fuel (by omega)
      have hnext : Reads next.1 next.2 := h next (by simp)
      rw [List.append_assoc, List.cons_append, scanItems,
        hitem.scanned fuel _ (ends_of (by simp) _) (by omega)]
      have hskip : skipSpace (joined (next.1 :: items.map Prod.fst) ++ rbracket :: rest) =
          joined (next.1 :: items.map Prod.fst) ++ rbracket :: rest := by
        cases items with
        | nil =>
          rw [List.map_nil, joined_one]
          exact hnext.skipSpace _
        | cons third items =>
          rw [List.map_cons, joined_cons, List.append_assoc]
          exact hnext.skipSpace _
      simp only [skipSpace_head (by decide : ¬ Space comma),
        if_neg (by decide : ¬ comma = rbracket), if_pos, hskip, hrest, Option.map_some]

/-- A member of an object with its key, the text of its value and the value. -/
abbrev Member := Str × Str × Json

def Member.text (member : Member) : Str := memberText (member.1, member.2.1)

def Member.value (member : Member) : Str × Json := (member.1, member.2.2)

theorem memberText_eq (key text : Str) :
    memberText (key, text) = quote :: (key.flatMap escapeChar ++ [quote] ++ colon :: text) := by
  simp [memberText, encodeString]

theorem scanMembers_step {key text : Str} {value : Json} (hkey : PlainText key)
    (h : Reads text value) {fuel : ℕ} {c : ℕ} {rest : Str} (hends : c = comma ∨ c = rbrace)
    (hfuel : 2 * text.length + 1 ≤ fuel) :
    scanMembers (fuel + 1) (memberText (key, text) ++ c :: rest) =
      if c = rbrace then some ([(key, value)], rest)
      else (scanMembers fuel (skipSpace rest)).map fun found => ((key, value) :: found.1, found.2)
    := by
  have hspace : ¬ Space c := by
    rcases hends with rfl | rfl <;> decide
  have hrest : Ends (c :: rest) := by
    rcases hends with rfl | rfl
    · exact ends_of (by simp) rest
    · exact ends_of (by simp) rest
  have hstring := scanString_encoded hkey (colon :: (text ++ c :: rest))
  have hform : memberText (key, text) ++ c :: rest =
      quote :: (key.flatMap escapeChar ++ [quote] ++ (colon :: (text ++ c :: rest))) := by
    simp [memberText_eq]
  rw [hform, scanMembers, if_neg (by simp), hstring]
  simp only [skipSpace_head (by decide : ¬ Space colon), ne_eq, not_true, if_false,
    h.skipSpace, h.scanned fuel _ hrest hfuel, skipSpace_head hspace]
  rcases hends with rfl | rfl
  · rw [if_neg (by decide), if_pos rfl, if_neg (by decide)]
  · rw [if_pos rfl, if_pos rfl]

theorem scanMembers_joined (members : List Member) (hkeys : ∀ m ∈ members, PlainText m.1)
    (h : ∀ m ∈ members, Reads m.2.1 m.2.2) (hne : members ≠ []) (fuel : ℕ) (rest : Str)
    (hfuel : 2 * (joined (members.map Member.text)).length + 2 ≤ fuel) :
    scanMembers fuel (joined (members.map Member.text) ++ rbrace :: rest) =
      some (members.map Member.value, rest) := by
  induction members generalizing fuel with
  | nil => exact absurd rfl hne
  | cons member members ih =>
    obtain ⟨fuel, rfl⟩ := Nat.exists_eq_succ_of_ne_zero (by omega : fuel ≠ 0)
    obtain ⟨key, text, value⟩ := member
    have hkey : PlainText key := hkeys _ List.mem_cons_self
    have hvalue : Reads text value := h _ List.mem_cons_self
    have hlength : text.length ≤ (memberText (key, text)).length := by
      rw [memberText_eq]
      simp only [List.length_cons, List.length_append]
      omega
    cases members with
    | nil =>
      have htext : joined (List.map Member.text [(key, text, value)]) = memberText (key, text) :=
        joined_one _
      rw [htext] at hfuel ⊢
      rw [scanMembers_step hkey hvalue (Or.inr rfl) (by omega), if_pos rfl]
      rfl
    | cons next members =>
      have htext : joined (List.map Member.text ((key, text, value) :: next :: members)) =
          memberText (key, text) ++ comma :: joined (List.map Member.text (next :: members)) :=
        joined_cons _ _ _
      rw [htext] at hfuel ⊢
      rw [List.length_append, List.length_cons] at hfuel
      have hrest := ih (fun m hm => hkeys m (List.mem_cons_of_mem _ hm))
        (fun m hm => h m (List.mem_cons_of_mem _ hm)) (List.cons_ne_nil _ _)
        fuel (by omega)
      have hskip : skipSpace (joined (List.map Member.text (next :: members)) ++ rbrace :: rest) =
          joined (List.map Member.text (next :: members)) ++ rbrace :: rest := by
        have hhead : ∃ tail, joined (List.map Member.text (next :: members)) = quote :: tail := by
          cases members with
          | nil => exact ⟨_, joined_one _⟩
          | cons third members => exact ⟨_, joined_cons _ _ _⟩
        obtain ⟨tail, htail⟩ := hhead
        rw [htail]
        exact skipSpace_head (by decide) _
      rw [List.append_assoc, List.cons_append,
        scanMembers_step hkey hvalue (Or.inl rfl) (by omega), if_neg (by decide), hskip, hrest]
      rfl

/-! ## Documents -/

/-- Documents that are read back: no floats, plain strings, and integers within the limit. -/
inductive Encodable : Json → Prop
  | null : Encodable .null
  | bool (b : Bool) : Encodable (.bool b)
  | int {i : ℤ} : i.natAbs < 10 ^ maxDigits → Encodable (.int i)
  | str {s : Str} : PlainText s → Encodable (.str s)
  | arr {items : List Json} : (∀ item ∈ items, Encodable item) → Encodable (.arr items)
  | obj {members : List (Str × Json)} : (∀ m ∈ members, PlainText m.1) →
      (∀ m ∈ members, Encodable m.2) → Encodable (.obj members)

mutual

/-- A document with the keys of its objects sorted. -/
def sortKeys : Json → Json
  | .arr items => .arr (sortItems items)
  | .obj members => .obj ((sortMembers members).insertionSort keyLe)
  | value => value

def sortItems : List Json → List Json
  | [] => []
  | item :: items => sortKeys item :: sortItems items

def sortMembers : List (Str × Json) → List (Str × Json)
  | [] => []
  | (key, value) :: members => (key, sortKeys value) :: sortMembers members

end

theorem encodeItems_eq (items : List Json) : encodeItems items = items.map encode := by
  induction items with
  | nil => rfl
  | cons item items ih => rw [encodeItems, ih, List.map_cons]

theorem encodeMembers_eq (members : List (Str × Json)) :
    encodeMembers members = members.map fun m => (m.1, encode m.2) := by
  induction members with
  | nil => rfl
  | cons member members ih =>
    obtain ⟨key, value⟩ := member
    rw [encodeMembers, ih, List.map_cons]

theorem sortItems_eq (items : List Json) : sortItems items = items.map sortKeys := by
  induction items with
  | nil => rfl
  | cons item items ih => rw [sortItems, ih, List.map_cons]

theorem sortMembers_eq (members : List (Str × Json)) :
    sortMembers members = members.map fun m => (m.1, sortKeys m.2) := by
  induction members with
  | nil => rfl
  | cons member members ih =>
    obtain ⟨key, value⟩ := member
    rw [sortMembers, ih, List.map_cons]

theorem sort_map {α β : Type} (f : α → β) (members : List (Str × α)) :
    (members.map fun m => (m.1, f m.2)).insertionSort keyLe =
      (members.insertionSort keyLe).map fun m => (m.1, f m.2) :=
  (List.map_insertionSort keyLe keyLe (fun m : Str × α => (m.1, f m.2)) members
    fun _ _ _ _ => Iff.rfl).symm

theorem encode_obj (members : List (Str × Json)) :
    encode (.obj members) = lbrace :: (joined ((members.insertionSort keyLe).map fun m =>
      memberText (m.1, encode m.2)) ++ [rbrace]) := by
  rw [encode, encodeMembers_eq, sort_map encode, List.map_map]
  rfl

theorem sortKeys_obj (members : List (Str × Json)) :
    sortKeys (.obj members) = .obj ((members.insertionSort keyLe).map fun m =>
      (m.1, sortKeys m.2)) := by
  rw [sortKeys, sortMembers_eq, sort_map sortKeys]

theorem reads_arr {items : List Json} (h : ∀ item ∈ items, Reads (encode item) (sortKeys item)) :
    Reads (encode (.arr items)) (sortKeys (.arr items)) := by
  have htext : encode (.arr items) =
      lbracket :: (joined (items.map encode) ++ [rbracket]) := by
    rw [encode, encodeItems_eq]
  have hvalue : sortKeys (.arr items) = .arr (items.map sortKeys) := by
    rw [sortKeys, sortItems_eq]
  rw [htext, hvalue]
  refine ⟨⟨lbracket, _, rfl, by decide, by decide⟩, ?_⟩
  intro fuel rest _ hfuel
  obtain ⟨fuel, rfl⟩ := Nat.exists_eq_succ_of_ne_zero (by omega : fuel ≠ 0)
  rw [List.cons_append, List.append_assoc, List.singleton_append, scanOnce, if_neg (by decide),
    if_neg (by decide), if_pos rfl]
  cases items with
  | nil =>
    have hclose : skipSpace (joined (List.map encode []) ++ rbracket :: rest) =
        rbracket :: rest := skipSpace_head (by decide) rest
    rw [hclose]
    rfl
  | cons item items =>
    have hscan := scanItems_joined
      ((item :: items).map fun item => (encode item, sortKeys item))
      (by
        intro pair hpair
        obtain ⟨item, hitem, rfl⟩ := List.mem_map.mp hpair
        exact h item hitem)
      (List.cons_ne_nil _ _) fuel rest (by
        rw [List.map_map]
        change 2 * (joined ((item :: items).map encode)).length + 2 ≤ fuel
        rw [List.length_cons, List.length_append] at hfuel
        omega)
    simp only [List.map_map, Function.comp_def] at hscan
    -- the first item shows that the array is not empty
    obtain ⟨c, tail, hform, hspace, hclose⟩ := (h item List.mem_cons_self).head
    obtain ⟨tail', htail⟩ : ∃ tail', joined ((item :: items).map encode) = c :: tail' := by
      cases items with
      | nil => exact ⟨tail, (joined_one _).trans hform⟩
      | cons next items =>
        refine ⟨tail ++ comma :: joined ((next :: items).map encode), ?_⟩
        rw [List.map_cons, List.map_cons, joined_cons, hform]
        rfl
    rw [htail, List.cons_append, skipSpace_head hspace]
    simp only [if_neg hclose]
    rw [← List.cons_append, ← htail, hscan]
    rfl

theorem reads_obj {members : List (Str × Json)} (hkeys : ∀ m ∈ members, PlainText m.1)
    (h : ∀ m ∈ members, Reads (encode m.2) (sortKeys m.2)) :
    Reads (encode (.obj members)) (sortKeys (.obj members)) := by
  have hmem : ∀ m, m ∈ members.insertionSort keyLe → m ∈ members :=
    fun m hm => (List.perm_insertionSort keyLe members).subset hm
  rw [encode_obj, sortKeys_obj]
  generalize members.insertionSort keyLe = sorted at hmem
  refine ⟨⟨lbrace, _, rfl, by decide, by decide⟩, ?_⟩
  intro fuel rest _ hfuel
  obtain ⟨fuel, rfl⟩ := Nat.exists_eq_succ_of_ne_zero (by omega : fuel ≠ 0)
  rw [List.cons_append, List.append_assoc, List.singleton_append, scanOnce, if_neg (by decide),
    if_pos rfl]
  cases sorted with
  | nil =>
    have hclose : skipSpace (joined (List.map (fun m : Str × Json =>
        memberText (m.1, encode m.2)) []) ++ rbrace :: rest) = rbrace :: rest :=
      skipSpace_head (by decide) rest
    rw [hclose]
    rfl
  | cons member sorted =>
    have hscan := scanMembers_joined
      ((member :: sorted).map fun m => (m.1, encode m.2, sortKeys m.2))
      (by
        intro m hm
        obtain ⟨m, hin, rfl⟩ := List.mem_map.mp hm
        exact hkeys m (hmem m hin))
      (by
        intro m hm
        obtain ⟨m, hin, rfl⟩ := List.mem_map.mp hm
        exact h m (hmem m hin))
      (List.cons_ne_nil _ _) fuel rest (by
        simp only [List.map_map, Function.comp_def, Member.text, List.length_cons,
          List.length_append] at hfuel ⊢
        omega)
    simp only [List.map_map, Function.comp_def, Member.text, Member.value] at hscan
    obtain ⟨tail, htail⟩ : ∃ tail, joined ((member :: sorted).map fun m =>
        memberText (m.1, encode m.2)) = quote :: tail := by
      cases sorted with
      | nil => exact ⟨_, joined_one _⟩
      | cons next sorted => exact ⟨_, joined_cons _ _ _⟩
    rw [htail] at hscan ⊢
    rw [List.cons_append, skipSpace_head (by decide : ¬ Space quote)]
    simp only [if_neg (by decide : ¬ quote = rbrace)]
    rw [← List.cons_append, hscan]
    rfl

theorem reads_encode {value : Json} (h : Encodable value) :
    Reads (encode value) (sortKeys value) := by
  induction h with
  | null => exact reads_null
  | bool b =>
    cases b with
    | true => exact reads_true
    | false => exact reads_false
  | int hi => exact reads_int hi
  | str hs => exact reads_str hs
  | arr _ ih => exact reads_arr ih
  | obj hkeys _ ih => exact reads_obj hkeys ih

theorem decode_encode {value : Json} (h : Encodable value) :
    decode (encode value) = some (sortKeys value) := by
  have hreads := reads_encode h
  have hskip := hreads.skipSpace []
  have hscan := hreads.scanned (2 * (encode value).length + 2) []
    (by intro c hc; cases hc) (by omega)
  rw [List.append_nil] at hskip hscan
  rw [decode, hskip, hscan]
  rfl

/-! ## Bytes -/

def PrintableText (s : Str) : Prop := ∀ c ∈ s, Printable c

theorem printable_append {s t : Str} (hs : PrintableText s) (ht : PrintableText t) :
    PrintableText (s ++ t) := by
  intro c hc
  rcases List.mem_append.mp hc with hc | hc
  · exact hs c hc
  · exact ht c hc

theorem printable_cons {c : ℕ} {s : Str} (hc : Printable c) (hs : PrintableText s) :
    PrintableText (c :: s) := by
  intro d hd
  rcases List.mem_cons.mp hd with rfl | hd
  · exact hc
  · exact hs d hd

theorem printable_nil : PrintableText [] := by
  intro c hc
  cases hc

theorem printable_one {c : ℕ} (h : Printable c) : PrintableText [c] :=
  printable_cons h printable_nil

theorem printable_unit (unit : ℕ) : PrintableText (escapeUnit unit) := by
  have hdigit : ∀ n, Printable (hexDigit (n % 16)) :=
    fun n => hexDigit_printable _ (Nat.mod_lt _ (by decide))
  apply printable_cons (by decide)
  apply printable_cons (by decide)
  exact printable_cons (hdigit _) (printable_cons (hdigit _) (printable_cons (hdigit _)
    (printable_one (hdigit _))))

theorem printable_escapeChar (c : ℕ) : PrintableText (escapeChar c) := by
  unfold escapeChar
  split
  · next letter hshort =>
    apply printable_cons (by decide)
    apply printable_one
    unfold shortEscape at hshort
    split_ifs at hshort <;> cases hshort <;> decide
  · split_ifs with hprintable hsmall
    · exact printable_one hprintable
    · exact printable_unit c
    · exact printable_append (printable_unit _) (printable_unit _)

theorem printable_string (s : Str) : PrintableText (encodeString s) := by
  apply printable_cons (by decide)
  apply printable_append _ (printable_one (by decide))
  intro c hc
  obtain ⟨d, -, hd⟩ := List.mem_flatMap.mp hc
  exact printable_escapeChar d c hd

theorem printable_nat (n : ℕ) : PrintableText (encodeNat n) := by
  intro c hc
  obtain ⟨hlow, hhigh⟩ : 48 ≤ c ∧ c ≤ 57 := encodeNat_digit hc
  unfold Printable
  omega

theorem printable_joined {texts : List Str} (h : ∀ text ∈ texts, PrintableText text) :
    PrintableText (joined texts) := by
  induction texts with
  | nil => exact printable_nil
  | cons text texts ih =>
    cases texts with
    | nil =>
      rw [joined_one]
      exact h text List.mem_cons_self
    | cons next texts =>
      rw [joined_cons]
      apply printable_append (h text List.mem_cons_self)
      apply printable_cons (by decide)
      exact ih fun t ht => h t (List.mem_cons_of_mem _ ht)

theorem printable_encode {value : Json} (h : Encodable value) : PrintableText (encode value) := by
  induction h with
  | null =>
    rw [encode]
    unfold PrintableText
    decide
  | bool b =>
    cases b <;> rw [encode] <;> unfold PrintableText <;> decide
  | @int i _ =>
    rw [encode, encodeInt]
    split_ifs
    · exact printable_cons (by decide) (printable_nat _)
    · exact printable_nat _
  | str _ => exact printable_string _
  | arr _ ih =>
    rw [encode, encodeItems_eq]
    apply printable_cons (by decide)
    apply printable_append _ (printable_one (by decide))
    apply printable_joined
    intro text ht
    obtain ⟨item, hitem, rfl⟩ := List.mem_map.mp ht
    exact ih item hitem
  | @obj members _ _ ih =>
    rw [encode_obj]
    apply printable_cons (by decide)
    apply printable_append _ (printable_one (by decide))
    apply printable_joined
    intro text ht
    obtain ⟨member, hmember, rfl⟩ := List.mem_map.mp ht
    apply printable_append (printable_string _)
    exact printable_cons (by decide)
      (ih member ((List.perm_insertionSort keyLe members).subset hmember))

theorem loads_encode {value : Json} (h : Encodable value) :
    loads (ascii (encode value)) = some (sortKeys value) := by
  rw [loads, decodeDetected_ascii (printable_encode h)]
  exact decode_encode h

end JsonRoundTrips
