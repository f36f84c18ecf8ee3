import ODataRequest.Proofs.Primitive.Inference
import ODataRequest.Proofs.Token.ByteScan
import ODataRequest.Proofs.Token.Recognized
import ODataRequest.Proofs.Token.Tiling

/-!
# ODataRequest.Proofs.Token.ByteLexer

The reader of tokens on places that are given by numbers of bytes. It jumps over a byte or over the 36
bytes of a hyphenated identifier, and cuts its tokens out of the text where a scan has stopped.

Each token but the last one ends behind the place from which it is read (`nextToken_advances`), so
reading comes to an end. The tokens are those that are read character by character, and no cut misses
(`ByteLexer.tokenize_eq`).
-/

namespace ODataRequest

namespace ByteLexer

open Lexeme

/-! ### Reading by places -/

/-- Is the text inferred to be a hyphenated identifier? -/
def infersGuid (cs : List Char) : Bool :=
  match PrimitiveValue.infer? cs with
  | some (.guid _) => true
  | _ => false

section

variable (text : List Char)

/-- The token between two places, and the place behind it. -/
def token (kind : TokenKind) (start stop : Nat) (spaced : Bool) : Scan (Token × Nat) := do
  return (⟨kind, String.ofList (← between text start stop), start, spaced⟩, stop)

/-- The token that starts with a digit, or with a minus that belongs to it. -/
def number (start : Nat) (spaced : Bool) : Scan (Token × Nat) := do
  let stop ← scanWhile text isNumberPart (start + 1)
  if (PrimitiveValue.infer? (← between text start stop)).isSome then
    token text .literal start stop spaced
  else throw .malformed

/-- The token that starts with a letter. -/
def word (start : Nat) (spaced : Bool) : Scan (Token × Nat) := do
  let stop ← wordEnd text start
  let word ← between text start stop
  let rest ← behind text stop
  if rest.head? = some '\'' then
    let stop ← stringEnd text stop
    if quotedLiteralWords.contains word then token text .literal start stop spaced
    else if word.contains '.' then token text .enumLiteral start stop spaced
    else throw .malformed
  else if literalWords.contains word then token text .literal start stop spaced
  else if byteLength word = 8 ∧ rest.head? = some '-' ∧
      ((slice? text start (start + 36)).any infersGuid) = true then
    token text .literal start (start + 36) spaced
  else token text .identifier start stop spaced

/-- The token that starts with the character `c` at a place. -/
def tokenAt (c : Char) (start : Nat) (spaced : Bool) : Scan (Token × Nat) :=
  match punctuation? c with
  | some kind => token text kind start (start + 1) spaced
  | none => do
    if c = '\'' then
      let stop ← stringEnd text start
      token text .literal start stop spaced
    else if c = '@' ∨ c = '$' then
      let stop ← scanWhile text isIdentifierPart (start + 1)
      if stop = start + 1 then throw .malformed
      else token text (if c = '@' then .parameterAlias else .dollar) start stop spaced
    else if c = '-' then
      let next ← behind text (start + 1)
      if (next.head?.any Char.isDigit) = true ∨ "INF".toList.isPrefixOf next = true then
        number text start spaced
      else token text .minus start (start + 1) spaced
    else if c.isDigit then number text start spaced
    else if isIdentifierStart c then word text start spaced
    else throw .malformed

/-- The token behind a place, and the place behind it. -/
def nextToken (start : Nat) : Scan (Token × Nat) := do
  let place ← scanWhile text isSpace start
  let spaced := decide (start < place)
  match ← behind text place with
  | [] => token text .endOfText place place spaced
  | c :: _ => tokenAt text c place spaced

end

/-! ### Tokens -/

theorem token_append (front piece back : List Char) (kind : TokenKind) (spaced : Bool) :
    token (front ++ (piece ++ back)) kind (byteLength front) (byteLength (front ++ piece)) spaced =
      .ok (⟨kind, String.ofList piece, byteLength front, spaced⟩, byteLength (front ++ piece)) := by
  rw [token, between_append]
  rfl

/-- What is found behind `front` if the token there starts with `c`, and `lexeme?` says how it goes
on. -/
def found (front : List Char) (c : Char) (cs : List Char) (spaced : Bool) :
    Option (TokenKind × Nat) → Scan (Token × Nat)
  | none => .error .malformed
  | some (kind, n) =>
    .ok (⟨kind, String.ofList (c :: cs.take n), byteLength front, spaced⟩,
      byteLength (front ++ c :: cs.take n))

/-- What is found behind `front` if no blank space stands there. -/
def foundBehind (front : List Char) (spaced : Bool) : List Char → Scan (Token × Nat)
  | [] => .ok (⟨.endOfText, "", byteLength front, spaced⟩, byteLength front)
  | c :: cs => found front c cs spaced (lexeme? c cs)

section

variable {front cs : List Char} {c : Char} {spaced : Bool}

theorem token_eq (kind : TokenKind) (n : Nat) :
    token (front ++ c :: cs) kind (byteLength front) (byteLength (front ++ c :: cs.take n)) spaced =
      found front c cs spaced (some (kind, n)) := by
  have htoken := token_append front (c :: cs.take n) (cs.drop n) kind spaced
  rwa [List.cons_append, List.take_append_drop] at htoken

/-- A token of one byte. -/
theorem token_single (hone : c.utf8Size = 1) (kind : TokenKind) :
    token (front ++ c :: cs) kind (byteLength front) (byteLength front + 1) spaced =
      found front c cs spaced (some (kind, 0)) := by
  have hplace : byteLength front + 1 = byteLength (front ++ c :: cs.take 0) := by simp [hone]
  rw [hplace, token_eq]

theorem take_runLength (p : Char → Bool) (cs : List Char) :
    cs.take (runLength p cs) = cs.takeWhile p :=
  (List.prefix_iff_eq_take.mp (List.takeWhile_prefix p)).symm

/-- A run of characters behind a character of one byte. -/
theorem scanWhile_behind (hone : c.utf8Size = 1) (p : Char → Bool) :
    scanWhile (front ++ c :: cs) p (byteLength front + 1) =
      .ok (byteLength (front ++ c :: cs.take (runLength p cs))) := by
  have hplace : byteLength front + 1 = byteLength (front ++ [c]) := by simp [hone]
  have hscan := scanWhile_append (front ++ [c]) cs p
  rw [hplace, take_runLength]
  simpa only [List.append_assoc, List.singleton_append] using hscan

theorem number_eq (hone : c.utf8Size = 1) :
    number (front ++ c :: cs) (byteLength front) spaced =
      found front c cs spaced (number? c cs) := by
  have hpiece := between_append front (c :: cs.take (runLength isNumberPart cs))
    (cs.drop (runLength isNumberPart cs))
  rw [List.cons_append, List.take_append_drop] at hpiece
  unfold number number?
  rw [scanWhile_behind hone, except_ok_bind, hpiece, except_ok_bind]
  dsimp only
  split
  · exact token_eq _ _
  · rfl

/-! ### Hyphenated identifiers -/

/-- The forms of literals in front of hyphenated identifiers are no such identifiers. -/
theorem infersGuid_eq (cs : List Char) : infersGuid cs = (Guid.parse? cs).isSome := by
  cases hparse : Guid.parse? cs with
  | none =>
    unfold infersGuid
    split
    · next g hinfer =>
      -- an inferred value is read from the text as a literal of its type
      have hinferred : PrimitiveValue.InferredFrom (String.ofList cs) (.guid g) :=
        PrimitiveValue.inferredFrom_of_infer? (by rwa [String.toList_ofList])
      rcases PrimitiveKind.validate_eq_ok_iff.mp (hinferred.valid .guid rfl) with ⟨-, h⟩ | ⟨-, hread⟩
      · cases h
      · rw [String.toList_ofList, PrimitiveValue.read?, hparse] at hread
        cases hread
    · rfl
  | some g =>
    have hlength := (Guid.isGuidChar_of_parse? hparse).1
    have hquote : '\'' ∉ cs := Guid.quote_not_mem (by rw [hparse]; rfl)
    have hword {word : List Char} (hword : word.length < 36) :
        ¬Text.equalIgnoringCase cs word = true := by
      intro heq
      have hsame := congrArg List.length (beq_iff_eq.mp heq)
      rw [List.length_map, List.length_map] at hsame
      omega
    have htyped {word : List Char} (hword : '\'' ∈ word) : ¬Text.startsIgnoringCase word cs = true :=
      fun h => hquote (Text.mem_of_startsIgnoringCase h hword (by decide) (by decide))
    have hnull : cs ≠ "null".toList := by
      rintro rfl
      cases hlength
    have hboolean : PrimitiveValue.boolean? cs = none := by
      rw [PrimitiveValue.boolean?, if_neg (hword (by decide)), if_neg (hword (by decide))]
    have hhead : cs.head? ≠ some '\'' := fun h => hquote (List.mem_of_mem_head? h)
    have hread : PrimitiveValue.read? .guid cs = some (.guid g) := by
      rw [PrimitiveValue.read?, hparse, Option.map_some]
    have hinfer : PrimitiveValue.infer? cs = some (.guid g) := by
      rw [PrimitiveValue.infer?, if_neg hnull, hboolean]
      dsimp only
      rw [if_neg hhead, if_neg (htyped (by decide)), if_neg (htyped (by decide))]
      simp only [List.findSome?_cons, hread, Option.some_or]
    rw [infersGuid, hinfer]
    rfl

theorem isAlphanum_of_toLower {c : Char} (h : c.toLower.isAlphanum = true) :
    c.isAlphanum = true := by
  unfold Char.toLower at h
  split at h
  · next hupper =>
    have hupper : c.isUpper = true := by
      delta Char.isUpper
      simpa using hupper
    delta Char.isAlphanum Char.isAlpha
    simp only [hupper, Bool.true_or]
  · exact h

/-- A letter or digit of a hyphenated identifier has one byte, and may stand in a word. -/
theorem hexadecimal_chars {c : Char} (h : (Text.hexValue? c.toLower).isSome = true) :
    c.utf8Size = 1 ∧ isIdentifierPart c = true := by
  have halphanum := isAlphanum_of_toLower (isAlphanum_of_hexValue? h)
  have hascii : c.val.toNat ≤ 127 := by
    rw [Char.isAlphanum] at halphanum
    delta Char.isAlpha Char.isUpper Char.isLower at halphanum
    simp only [Char.isDigit, Bool.or_eq_true, Bool.and_eq_true, decide_eq_true_eq,
      UInt32.le_iff_toNat_le, ge_iff_le] at halphanum
    change ((65 ≤ c.val.toNat ∧ c.val.toNat ≤ 90) ∨ (97 ≤ c.val.toNat ∧ c.val.toNat ≤ 122)) ∨
      (48 ≤ c.val.toNat ∧ c.val.toNat ≤ 57) at halphanum
    omega
  refine ⟨Char.utf8Size_eq_one_iff.mpr (UInt32.le_iff_toNat_le.mpr hascii), ?_⟩
  rcases Bool.or_eq_true_iff.mp halphanum with halpha | hdigit
  · simp [isIdentifierPart, Text.isAlphanumeric, Text.isAlphabetic_of_isAlpha halpha]
  · have hlow : c.toNat < 0x80 := Nat.lt_succ_of_le hascii
    simp [isIdentifierPart, Text.isAlphanumeric, Text.isNumeric, hlow, hdigit]

theorem byteLength_eq_length {cs : List Char} (h : ∀ c ∈ cs, c.utf8Size = 1) :
    byteLength cs = cs.length := by
  induction cs with
  | nil => rfl
  | cons c cs ih =>
    rw [byteLength_cons, h c List.mem_cons_self, ih fun x hx => h x (List.mem_cons_of_mem c hx),
      List.length_cons, Nat.add_comm]

theorem guid_utf8Size {cs : List Char} (h : (Guid.parse? cs).isSome = true) :
    ∀ x ∈ cs, x.utf8Size = 1 := by
  intro x hx
  obtain ⟨i, hi⟩ := List.mem_iff_getElem?.mp hx
  rcases (guid_shape h).2.2 i x hi with rfl | hhex
  · decide
  · exact (hexadecimal_chars hhex).1

theorem byteLength_guid {cs : List Char} (h : (Guid.parse? cs).isSome = true) :
    byteLength cs = 36 := by
  rw [byteLength_eq_length (guid_utf8Size h), (guid_shape h).1]

/-- A hyphenated identifier is a word of eight characters up to its first hyphen. -/
theorem wordLength_guid (h : (Guid.parse? (c :: cs.take 35)).isSome = true) :
    cs[7]? = some '-' ∧ wordLength cs = 7 := by
  obtain ⟨g, hg⟩ := Option.isSome_iff_exists.mp h
  have hseven : cs[7]? = some '-' := by
    have hhyphen := (guid_shape h).2.1
    rwa [List.getElem?_cons_succ, List.getElem?_take_of_lt (by decide)] at hhyphen
  have hparts : ∀ x ∈ cs.take 7, isIdentifierPart x = true := by
    intro x hx
    obtain ⟨i, hi⟩ := List.mem_iff_getElem?.mp hx
    have hlt : i < 7 := by
      by_contra hge
      rw [List.getElem?_take, if_neg hge] at hi
      cases hi
    -- the first hyphen stands behind these places
    have hchar := (Guid.isGuidChar_of_parse? hg).2 (i + 1) x (by
      rwa [List.getElem?_cons_succ, List.getElem?_take_of_lt (by omega),
        ← List.getElem?_take_of_lt hlt])
    rw [isGuidChar, if_neg (by omega)] at hchar
    exact (hexadecimal_chars hchar).2
  have hrest : ∀ x ∈ (cs.drop 7).head?, isIdentifierPart x = false ∧ x ≠ '.' := by
    rw [List.head?_drop, hseven]
    rintro x ⟨⟩
    decide
  have hrun := wordLength_of_identifierParts hparts hrest
  have hle := (List.getElem?_eq_some_iff.mp hseven).1
  rw [List.take_append_drop, List.length_take, Nat.min_eq_left (by omega)] at hrun
  exact ⟨hseven, hrun⟩

/-- Where a hyphenated identifier starts, it can be told from the first eight bytes and the hyphen
behind them that it may be one, and it has 36 bytes. -/
theorem guidAt_iff : (byteLength (c :: cs.take (wordLength cs)) = 8 ∧
      (cs.drop (wordLength cs)).head? = some '-' ∧
      ((slice? (front ++ c :: cs) (byteLength front) (byteLength front + 36)).any infersGuid) = true) ↔
    (Guid.parse? (c :: cs.take 35)).isSome = true := by
  constructor
  · rintro ⟨-, -, hany⟩
    obtain ⟨piece, hslice, hguid⟩ := (Option.any_eq_true _ _).mp hany
    obtain ⟨front', back, htext, hfront, -⟩ := slice?_eq_some_iff.mp hslice
    have hcut := (cutBytes?_append front (c :: cs)).symm.trans
      (cutBytes?_eq_some_iff.mpr ⟨htext, hfront⟩)
    have hpiece : c :: cs = piece ++ back := congrArg Prod.snd (Option.some.inj hcut)
    rw [infersGuid_eq] at hguid
    have htake : c :: cs.take 35 = piece := by
      rw [← List.take_succ_cons, hpiece, List.take_left' (guid_shape hguid).1]
    rwa [htake]
  · intro h
    obtain ⟨hseven, hword⟩ := wordLength_guid h
    have hslice : slice? (front ++ c :: cs) (byteLength front) (byteLength front + 36) =
        some (c :: cs.take 35) := by
      refine slice?_eq_some_iff.mpr ⟨front, cs.drop 35, ?_, rfl, ?_⟩
      · rw [List.cons_append, List.take_append_drop]
      · rw [byteLength_guid h]
    have hascii : ∀ x ∈ c :: cs.take 7, x.utf8Size = 1 := by
      intro x hx
      refine guid_utf8Size h x ?_
      rcases List.mem_cons.mp hx with rfl | hx
      · exact List.mem_cons_self
      · exact List.mem_cons_of_mem c (List.take_subset_take_left cs (by decide) hx)
    refine ⟨?_, ?_, ?_⟩
    · have hle := (List.getElem?_eq_some_iff.mp hseven).1
      rw [hword, byteLength_eq_length hascii, List.length_cons, List.length_take]
      omega
    · rw [hword, List.head?_drop, hseven]
    · rw [hslice, Option.any_some, infersGuid_eq]
      exact h

/-! ### The next token -/

theorem word_eq (hstart : isIdentifierStart c = true) :
    word (front ++ c :: cs) (byteLength front) spaced = found front c cs spaced (word? c cs) := by
  have hpart := isIdentifierPart_of_isIdentifierStart hstart
  have hcs : c :: cs = c :: cs.take (wordLength cs) ++ cs.drop (wordLength cs) := by
    rw [List.cons_append, List.take_append_drop]
  have hend : wordEnd (front ++ c :: cs) (byteLength front) =
      .ok (byteLength (front ++ c :: cs.take (wordLength cs))) := by
    rw [wordEnd_append, wordLength, if_pos hpart, List.take_succ_cons]
  have hword : between (front ++ c :: cs) (byteLength front)
      (byteLength (front ++ c :: cs.take (wordLength cs))) =
        .ok (c :: cs.take (wordLength cs)) := by
    have hpiece := between_append front (c :: cs.take (wordLength cs)) (cs.drop (wordLength cs))
    rwa [← hcs] at hpiece
  have hrest : behind (front ++ c :: cs) (byteLength (front ++ c :: cs.take (wordLength cs))) =
      .ok (cs.drop (wordLength cs)) := by
    have hpiece := behind_append (front ++ c :: cs.take (wordLength cs)) (cs.drop (wordLength cs))
    rwa [List.append_assoc, ← hcs] at hpiece
  unfold word
  rw [hend, except_ok_bind, hword, except_ok_bind, hrest, except_ok_bind]
  by_cases hquote : (cs.drop (wordLength cs)).head? = some '\''
  · obtain ⟨rest, hdrop⟩ := List.head?_eq_some_iff.mp hquote
    have hstring := stringEnd_append (front ++ c :: cs.take (wordLength cs)) rest
    rw [← hdrop, List.append_assoc, ← hcs] at hstring
    rw [if_pos hquote, word?_quoted hdrop, hstring]
    cases quotedLength? rest with
    | none => rfl
    | some m =>
      have hplace : front ++ c :: cs.take (wordLength cs) ++ '\'' :: rest.take m =
          front ++ c :: cs.take (wordLength cs + 1 + m) := by
        rw [take_quoted hdrop, List.append_assoc, List.cons_append]
      rw [Option.bind_some, except_ok_bind, hplace]
      split
      · exact token_eq _ _
      split
      · exact token_eq _ _
      · rfl
  · rw [if_neg hquote, word?_unquoted hquote]
    split
    · exact token_eq _ _
    by_cases hguid : (Guid.parse? (c :: cs.take 35)).isSome = true
    · have hplace : byteLength front + 36 = byteLength (front ++ c :: cs.take 35) := by
        rw [byteLength_append, byteLength_guid hguid]
      rw [if_pos (guidAt_iff.mpr hguid), if_pos hguid, hplace, token_eq]
    · rw [if_neg (mt guidAt_iff.mp hguid), if_neg hguid, token_eq]

theorem utf8Size_of_punctuation? {kind : TokenKind} (h : punctuation? c = some kind) :
    c.utf8Size = 1 := by
  unfold punctuation? at h
  split at h <;> first | decide | cases h

theorem utf8Size_of_isDigit (h : c.isDigit = true) : c.utf8Size = 1 := by
  have hdigit : 48 ≤ c.val ∧ c.val ≤ 57 := by simpa [Char.isDigit] using h
  exact Char.utf8Size_eq_one_iff.mpr (UInt32.le_trans hdigit.2 (by decide))

theorem byteLength_pos {cs : List Char} (h : cs ≠ []) : 0 < byteLength cs := by
  obtain ⟨c, cs, rfl⟩ := List.exists_cons_of_ne_nil h
  exact Nat.lt_of_lt_of_le c.utf8Size_pos (Nat.le_add_right _ _)

/-- A sign has a name behind it if the run of characters does not end where it starts. -/
theorem runLength_eq_zero_iff (hone : c.utf8Size = 1) (p : Char → Bool) :
    byteLength (front ++ c :: cs.take (runLength p cs)) = byteLength front + 1 ↔
      runLength p cs = 0 := by
  have hplace : byteLength (front ++ c :: cs.take (runLength p cs)) =
      byteLength front + 1 + byteLength (cs.take (runLength p cs)) := by
    rw [byteLength_append, byteLength_cons, hone, Nat.add_assoc]
  rw [hplace, Nat.add_eq_left]
  constructor
  · intro hzero
    have hnil : cs.take (runLength p cs) = [] := by
      by_contra hne
      exact absurd (byteLength_pos hne) (by omega)
    rw [take_runLength] at hnil
    rw [runLength, hnil, List.length_nil]
  · intro hzero
    rw [hzero, List.take_zero, byteLength_nil]

/-- The token at a character is what `lexeme?` says. -/
theorem tokenAt_eq :
    tokenAt (front ++ c :: cs) c (byteLength front) spaced =
      found front c cs spaced (lexeme? c cs) := by
  unfold tokenAt lexeme?
  cases hkind : punctuation? c with
  | some kind => exact token_single (utf8Size_of_punctuation? hkind) kind
  | none =>
    dsimp only
    split
    · next hquote =>
      subst hquote
      rw [stringEnd_append]
      cases quotedLength? cs with
      | none => rfl
      | some n => exact token_eq _ _
    split
    · next hsign =>
      have hone : c.utf8Size = 1 := by rcases hsign with rfl | rfl <;> decide
      rw [scanWhile_behind hone, except_ok_bind]
      by_cases hzero : runLength isIdentifierPart cs = 0
      · rw [if_pos ((runLength_eq_zero_iff hone _).mpr hzero), if_pos hzero]
        rfl
      · rw [if_neg (mt (runLength_eq_zero_iff hone _).mp hzero), if_neg hzero]
        exact token_eq _ _
    split
    · next hminus =>
      subst hminus
      have hone : '-'.utf8Size = 1 := by decide
      have hbehind : behind (front ++ '-' :: cs) (byteLength front + 1) = .ok cs := by
        have hplace : byteLength front + 1 = byteLength (front ++ ['-']) := by simp [hone]
        have hcs := behind_append (front ++ ['-']) cs
        rwa [← hplace, List.append_assoc, List.singleton_append] at hcs
      rw [hbehind, except_ok_bind]
      split
      · exact number_eq hone
      · exact token_single hone _
    split
    · next hdigit => exact number_eq (utf8Size_of_isDigit hdigit)
    split
    · next hstart => exact word_eq hstart
    · rfl

/-- Behind a gap stands the next token, or the end of the text. -/
theorem nextToken_append {gap rest : List Char} (hgap : ∀ x ∈ gap, isSpace x = true)
    (hrest : ∀ x ∈ rest.head?, isSpace x = false) :
    nextToken (front ++ (gap ++ rest)) (byteLength front) =
      foundBehind (front ++ gap) (!gap.isEmpty) rest := by
  have hrun : (gap ++ rest).takeWhile isSpace = gap := by
    rw [List.takeWhile_append_of_pos hgap]
    cases rest with
    | nil => simp
    | cons c cs => rw [List.takeWhile_cons_of_neg (by simp [hrest c rfl]), List.append_nil]
  have hspaced : decide (byteLength front < byteLength (front ++ gap)) = !gap.isEmpty := by
    cases gap with
    | nil => simp
    | cons c gap =>
      have hpos := byteLength_pos (List.cons_ne_nil c gap)
      rw [byteLength_append]
      simpa using hpos
  have hbehind := behind_append (front ++ gap) rest
  rw [nextToken, scanWhile_append, hrun, except_ok_bind]
  dsimp only
  rw [hspaced, ← List.append_assoc, hbehind, except_ok_bind]
  cases rest with
  | nil => simpa [foundBehind] using token_append (front ++ gap) [] [] .endOfText (!gap.isEmpty)
  | cons c cs => exact tokenAt_eq

theorem exists_of_nextToken {text : List Char} {start : Nat} {result : Token × Nat}
    (h : nextToken text start = .ok result) :
    ∃ front rest, text = front ++ rest ∧ byteLength front = start := by
  obtain ⟨place, hplace, -⟩ := except_bind_eq_ok.mp h
  obtain ⟨rest, hrest, -⟩ := except_bind_eq_ok.mp hplace
  obtain ⟨front, htext, hfront⟩ := exists_of_behind hrest
  exact ⟨front, rest, htext, hfront⟩

/-- The text behind a place is a gap and what follows it. -/
theorem exists_gap (rest : List Char) : ∃ gap tail, rest = gap ++ tail ∧
    (∀ x ∈ gap, isSpace x = true) ∧ ∀ x ∈ tail.head?, isSpace x = false :=
  ⟨rest.takeWhile isSpace, rest.dropWhile isSpace, List.takeWhile_append_dropWhile.symm,
    fun _ hx => List.mem_takeWhile_imp hx, head?_dropWhile isSpace rest⟩

/-- The next token ends behind the place from which it is read, and inside the text. -/
theorem nextToken_advances {text : List Char} {start next : Nat} {t : Token}
    (h : nextToken text start = .ok (t, next)) (hkind : t.kind ≠ .endOfText) :
    start < next ∧ next ≤ byteLength text := by
  obtain ⟨front, rest, rfl, rfl⟩ := exists_of_nextToken h
  obtain ⟨gap, tail, rfl, hgap, htail⟩ := exists_gap rest
  rw [nextToken_append hgap htail] at h
  cases tail with
  | nil =>
    cases h
    exact absurd rfl hkind
  | cons c cs =>
    rw [foundBehind] at h
    cases hlexeme : lexeme? c cs with
    | none =>
      rw [hlexeme] at h
      cases h
    | some found =>
      rw [hlexeme] at h
      cases h
      have hsize := c.utf8Size_pos
      have hcs : byteLength cs = byteLength (cs.take found.2) + byteLength (cs.drop found.2) := by
        rw [← byteLength_append, List.take_append_drop]
      simp only [byteLength_append, byteLength_cons]
      omega

end

/-! ### All tokens -/

/-- The tokens from a place on. Each token but the last one ends behind its start, so the rest of the
text becomes shorter. -/
def tokensFrom (text : List Char) (start : Nat) : Scan (List Token) :=
  match _h : nextToken text start with
  | .error e => .error e
  | .ok (t, next) =>
    if _hkind : t.kind = .endOfText then .ok [t]
    else (tokensFrom text next).map (t :: ·)
termination_by byteLength text - start
decreasing_by
  have hadvances := nextToken_advances _h _hkind
  omega

/-- The tokens of a text. -/
def tokenize (text : String) : Scan (List Token) :=
  tokensFrom text.toList 0

section

variable {text : List Char} {start next : Nat} {t : Token}

theorem tokensFrom_error {e : Stop} (h : nextToken text start = .error e) :
    tokensFrom text start = .error e := by
  rw [tokensFrom]
  split
  · next e' he =>
    rw [h] at he
    cases he
    rfl
  · next he =>
    rw [h] at he
    cases he

theorem tokensFrom_ok (h : nextToken text start = .ok (t, next)) : tokensFrom text start =
    if t.kind = .endOfText then .ok [t] else (tokensFrom text next).map (t :: ·) := by
  rw [tokensFrom]
  split
  · next he =>
    rw [h] at he
    cases he
  · next he =>
    rw [h] at he
    cases he
    rfl

/-! ### The same tokens -/

/-- What is read by characters, as a scan. -/
def ofOption : Option (List Token) → Scan (List Token)
  | some ts => .ok ts
  | none => .error .malformed

theorem tokensFrom_gap {gap : List Char} (hgap : ∀ x ∈ gap, isSpace x = true) (offset : Nat)
    (spaced : Bool) (rest : List Char) : Lexeme.tokensFrom offset spaced (gap ++ rest) =
      Lexeme.tokensFrom (offset + byteLength gap) (spaced || !gap.isEmpty) rest := by
  induction gap generalizing offset spaced with
  | nil => simp
  | cons c gap ih =>
    obtain ⟨hc, hrest⟩ := List.forall_mem_cons.mp hgap
    have hone : c.utf8Size = 1 := by
      simp only [isSpace, Bool.or_eq_true, beq_iff_eq] at hc
      rcases hc with rfl | rfl <;> decide
    rw [List.cons_append, Lexeme.tokensFrom, if_pos hc, ih hrest]
    simp [hone, Nat.add_assoc]

/-- From the end of a known text on, the tokens are those of the rest of the text. -/
theorem tokensFrom_append (front rest : List Char) :
    tokensFrom (front ++ rest) (byteLength front) =
      ofOption (Lexeme.tokensFrom (byteLength front) false rest) := by
  obtain ⟨gap, tail, rfl, hgap, htail⟩ := exists_gap rest
  have hnext : nextToken (front ++ (gap ++ tail)) (byteLength front) =
      foundBehind (front ++ gap) (!gap.isEmpty) tail := nextToken_append hgap htail
  rw [tokensFrom_gap hgap, Bool.false_or, ← byteLength_append]
  cases tail with
  | nil =>
    rw [tokensFrom_ok hnext, if_pos rfl, Lexeme.tokensFrom]
    rfl
  | cons c cs =>
    rw [foundBehind] at hnext
    rw [Lexeme.tokensFrom, if_neg (Bool.eq_false_iff.mp (htail c rfl))]
    cases hlexeme : lexeme? c cs with
    | none =>
      rw [hlexeme] at hnext
      exact tokensFrom_error hnext
    | some lexeme =>
      obtain ⟨kind, n⟩ := lexeme
      rw [hlexeme] at hnext
      have htext : front ++ (gap ++ c :: cs) = (front ++ gap ++ c :: cs.take n) ++ cs.drop n := by
        rw [List.append_assoc, List.append_assoc, List.cons_append, List.take_append_drop]
      have hrest := tokensFrom_append (front ++ gap ++ c :: cs.take n) (cs.drop n)
      rw [← htext] at hrest
      rw [tokensFrom_ok hnext, if_neg (lexeme?_kind_ne hlexeme), hrest]
      dsimp only
      rw [← byteLength_append]
      cases Lexeme.tokensFrom (byteLength (front ++ gap ++ c :: cs.take n)) false (cs.drop n) <;> rfl
termination_by rest.length
decreasing_by
  subst_vars
  simp only [List.length_append, List.length_cons, List.length_drop]
  omega

end

/-- Reading by places gives the tokens that are read by characters, and never asks for a piece of the
text that does not start and end at characters of it. -/
theorem tokenize_eq (text : String) :
    tokenize text = (ODataRequest.tokenize text).mapError fun _ => .malformed := by
  have htokens := tokensFrom_append [] text.toList
  rw [List.nil_append] at htokens
  rw [tokenize, ODataRequest.tokenize]
  refine htokens.trans ?_
  rw [byteLength_nil]
  cases Lexeme.tokensFrom 0 false text.toList <;> rfl

end ByteLexer

/-- Tokenizing loses nothing of a text but the blank space between tokens. The tokens of a text tile
it, and the texts of the tokens with single spaces between them have the same tokens again. For every
text, reading by places comes to an end with the same result, and only takes pieces of the text that
start and end at characters. -/
theorem tokenize_lossless (text : String) :
    (∀ ts, tokenize text = .ok ts → Tiling text ts ∧
      ∀ us ∈ [ts, ts.dropLast], ∃ vs,
        tokenize (" ".intercalate (us.map Token.text)) = .ok vs ∧
          vs.map Token.word = ts.map Token.word) ∧
    ByteLexer.tokenize text = (tokenize text).mapError fun _ => .malformed :=
  ⟨fun _ h => ⟨tiling_of_tokenize h, tokenize_joined h⟩, ByteLexer.tokenize_eq text⟩

/-- A text with tabs, with letters of two bytes, and with a unique identifier that starts with a
letter. -/
def dimensionText : String :=
  " Größe\teq  'ß''x'or\tId ne abcdef01-2345-6789-abcd-ef0123456789\t"

theorem tokenize_lossless_dimension : ∃ ts vs, tokenize dimensionText = .ok ts ∧
    ts.map Token.word = [⟨.identifier, "Größe"⟩, ⟨.identifier, "eq"⟩, ⟨.literal, "'ß''x'"⟩,
      ⟨.identifier, "or"⟩, ⟨.identifier, "Id"⟩, ⟨.identifier, "ne"⟩,
      ⟨.literal, "abcdef01-2345-6789-abcd-ef0123456789"⟩, ⟨.endOfText, ""⟩] ∧
    Tiling dimensionText ts ∧
    tokenize (" ".intercalate (ts.map Token.text)) = .ok vs ∧
    vs.map Token.word = ts.map Token.word ∧ ByteLexer.tokenize dimensionText = .ok ts := by
  have hwords : (tokenize dimensionText).toOption.map (·.map Token.word) =
      some [⟨.identifier, "Größe"⟩, ⟨.identifier, "eq"⟩, ⟨.literal, "'ß''x'"⟩,
        ⟨.identifier, "or"⟩, ⟨.identifier, "Id"⟩, ⟨.identifier, "ne"⟩,
        ⟨.literal, "abcdef01-2345-6789-abcd-ef0123456789"⟩, ⟨.endOfText, ""⟩] := by
    decide +kernel
  obtain ⟨ts, hts, hmap⟩ := Option.map_eq_some_iff.mp hwords
  have htokens := except_toOption_eq_some.mp hts
  obtain ⟨hread, hbytes⟩ := tokenize_lossless dimensionText
  obtain ⟨htiling, hjoined⟩ := hread ts htokens
  obtain ⟨vs, hvs, hsame⟩ := hjoined ts List.mem_cons_self
  rw [htokens] at hbytes
  exact ⟨ts, vs, htokens, hmap, htiling, hvs, hsame, hbytes⟩

end ODataRequest
