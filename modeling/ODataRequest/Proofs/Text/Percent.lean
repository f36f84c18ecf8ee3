import ODataRequest.Text.Percent

/-!
# ODataRequest.Proofs.Text.Percent

Percent encoding loses nothing: decoding an encoded text gives the text back
(`percentDecode?_percentEncode`). An encoded text has no slash in it, so it is a single segment of a
path.
-/

namespace ODataRequest.Text

/-! ### Digits and bytes -/

theorem hexValue?_hexDigit {n : Nat} (h : n < 16) : hexValue? (hexDigit n) = some n := by
  have all : ∀ n : Fin 16, hexValue? (hexDigit n) = some n.val := by decide
  exact all ⟨n, h⟩

theorem hexDigit_standsInSegment {n : Nat} (h : n < 16) : standsInSegment (hexDigit n) = true := by
  have all : ∀ n : Fin 16, standsInSegment (hexDigit n) = true := by decide
  exact all ⟨n, h⟩

/-- An escaped byte is written with a percent sign and digits. -/
theorem forall_mem_escapeByte {p : Char → Prop} (hsign : p '%') (hdigit : ∀ n < 16, p (hexDigit n))
    (b : UInt8) : ∀ c ∈ escapeByte b, p c := by
  have hlt : b.toNat < 256 := b.toNat_lt
  simp [escapeByte, hsign, hdigit (b.toNat / 16) (by omega), hdigit (b.toNat % 16) (by omega)]

/-- An escape stands for the byte with the two digits. -/
theorem unescape_escape {high low : Char} {m n : Nat} (hhigh : hexValue? high = some m)
    (hlow : hexValue? low = some n) (cs : List Char) :
    unescape ('%' :: high :: low :: cs) = (unescape cs).map (UInt8.ofNat (16 * m + n) :: ·) := by
  rw [unescape, hhigh, hlow]
  show (unescape cs).bind (fun bytes => some (UInt8.ofNat (16 * m + n) :: bytes)) = _
  cases unescape cs <;> rfl

/-- An escape that is decoded is made of hexadecimal digits. -/
theorem exists_of_unescape_escape {high low : Char} {cs : List Char} {bytes : List UInt8}
    (h : unescape ('%' :: high :: low :: cs) = some bytes) :
    ∃ m n rest, hexValue? high = some m ∧ hexValue? low = some n ∧ unescape cs = some rest ∧
      bytes = UInt8.ofNat (16 * m + n) :: rest := by
  rw [unescape] at h
  obtain ⟨m, hhigh, h⟩ := Option.bind_eq_some_iff.mp h
  obtain ⟨n, hlow, h⟩ := Option.bind_eq_some_iff.mp h
  obtain ⟨rest, hrest, heq⟩ := Option.bind_eq_some_iff.mp h
  cases heq
  exact ⟨m, n, rest, hhigh, hlow, hrest, rfl⟩

/-- The digits may be in upper or lower case. -/
theorem unescape_byte {b : UInt8} {high low : Char} (hhigh : hexValue? high = some (b.toNat / 16))
    (hlow : hexValue? low = some (b.toNat % 16)) (cs : List Char) :
    unescape ('%' :: high :: low :: cs) = (unescape cs).map (b :: ·) := by
  rw [unescape_escape hhigh hlow, Nat.div_add_mod, UInt8.ofNat_toNat]

theorem unescape_escapeByte (b : UInt8) (cs : List Char) :
    unescape (escapeByte b ++ cs) = (unescape cs).map (b :: ·) := by
  have hlt : b.toNat < 256 := b.toNat_lt
  exact unescape_byte (hexValue?_hexDigit (by omega)) (hexValue?_hexDigit (by omega)) cs

theorem unescape_escapeBytes (bs : List UInt8) (cs : List Char) :
    unescape (bs.flatMap escapeByte ++ cs) = (unescape cs).map (bs ++ ·) := by
  induction bs with
  | nil => simp
  | cons b bs ih =>
    rw [List.flatMap_cons, List.append_assoc, unescape_escapeByte, ih, Option.map_map]
    rfl

/-! ### Characters -/

/-- The percent sign starts an escape, so it is always escaped itself. -/
theorem ne_percent_of_standsInSegment {c : Char} (h : standsInSegment c = true) : c ≠ '%' := by
  rintro rfl
  exact absurd h (by decide)

theorem unescape_cons {c : Char} (h : c ≠ '%') (cs : List Char) :
    unescape (c :: cs) = (unescape cs).map (String.utf8EncodeChar c ++ ·) := by
  simp [unescape, h]

theorem unescape_escapeChar (c : Char) (cs : List Char) :
    unescape (escapeChar c ++ cs) = (unescape cs).map (String.utf8EncodeChar c ++ ·) := by
  unfold escapeChar
  split
  · rename_i h
    exact unescape_cons (ne_percent_of_standsInSegment h) cs
  · exact unescape_escapeBytes _ cs

/-- What stands for some bytes is decoded apart from what is behind it. -/
theorem unescape_append {cs : List Char} {bytes : List UInt8} (h : unescape cs = some bytes)
    (ds : List Char) : unescape (cs ++ ds) = (unescape ds).map (bytes ++ ·) := by
  induction cs using unescape.induct generalizing bytes with
  | case1 =>
    cases h
    simp
  | case2 high low cs ih =>
    obtain ⟨m, n, rest, hhigh, hlow, hrest, hbytes⟩ := exists_of_unescape_escape h
    rw [List.cons_append, List.cons_append, List.cons_append, unescape_escape hhigh hlow, ih hrest,
      Option.map_map, hbytes]
    rfl
  | case3 cs hcs =>
    -- a percent sign without two characters behind it
    rw [unescape] at h
    · cases h
    · exact hcs
  | case4 c cs _ hc ih =>
    rw [unescape_cons hc] at h
    obtain ⟨rest, hrest, rfl⟩ := Option.map_eq_some_iff.mp h
    rw [List.cons_append, unescape_cons hc, ih hrest, Option.map_map]
    congr 1
    funext behind
    simp

theorem unescape_flatMap_escapeChar (cs : List Char) :
    unescape (cs.flatMap escapeChar) = some (cs.flatMap String.utf8EncodeChar) := by
  induction cs with
  | nil => rfl
  | cons c cs ih =>
    rw [List.flatMap_cons, unescape_escapeChar, ih]
    rfl

/-! ### Texts -/

theorem fromUTF8?_toByteArray (s : String) : String.fromUTF8? s.toByteArray = some s := by
  rw [String.fromUTF8?, dif_pos s.isValidUTF8]
  rfl

/-- A text is decoded to the one whose bytes it stands for. -/
theorem percentDecode?_eq_some {cs : List Char} {s : String} :
    percentDecode? (String.ofList cs) = some s ↔
      unescape cs = some (s.toList.flatMap String.utf8EncodeChar) := by
  have hbytes : s.toByteArray = ⟨(s.toList.flatMap String.utf8EncodeChar).toArray⟩ := by
    rw [← String.utf8Encode_toList, List.utf8Encode]
    ext1
    simp
  unfold percentDecode?
  rw [String.toList_ofList]
  cases unescape cs with
  | none => simp
  | some bytes =>
    show String.fromUTF8? ⟨bytes.toArray⟩ = some s ↔ _
    rw [Option.some.injEq]
    constructor
    · intro h
      unfold String.fromUTF8? at h
      split at h
      · cases h
        have hsame : (⟨bytes.toArray⟩ : ByteArray) = _ := hbytes
        simpa using congrArg ByteArray.data hsame
      · cases h
    · intro h
      rw [h, ← hbytes, fromUTF8?_toByteArray]

/-- Bytes behind those of a character are valid if and only if all of them are. -/
theorem fromUTF8?_utf8EncodeChar_append (c : Char) (bytes : List UInt8) :
    String.fromUTF8? ⟨(String.utf8EncodeChar c ++ bytes).toArray⟩ =
      (String.fromUTF8? ⟨bytes.toArray⟩).map (String.singleton c ++ ·) := by
  have hbytes : (⟨(String.utf8EncodeChar c ++ bytes).toArray⟩ : ByteArray) =
      [c].utf8Encode ++ ⟨bytes.toArray⟩ := by
    ext1
    simp [List.utf8Encode]
  have hvalid :=
    ByteArray.isValidUTF8_utf8Encode_singleton_append_iff (c := c) (b := ⟨bytes.toArray⟩)
  rw [hbytes, String.fromUTF8?, String.fromUTF8?]
  by_cases h : ByteArray.IsValidUTF8 ⟨bytes.toArray⟩
  · rw [dif_pos h, dif_pos (hvalid.mpr h), Option.map_some, Option.some.injEq]
    apply String.toByteArray_inj.mp
    show [c].utf8Encode ++ ⟨bytes.toArray⟩ = _
    rw [String.toByteArray_append, String.toByteArray_singleton]
    rfl
  · rw [dif_neg h, dif_neg (mt hvalid.mp h)]
    rfl

/-- What stands for itself in front of a text is decoded apart from it. -/
theorem percentDecode?_append {as : List Char} (h : '%' ∉ as) (cs : List Char) :
    percentDecode? (String.ofList (as ++ cs)) =
      (percentDecode? (String.ofList cs)).map (String.ofList as ++ ·) := by
  induction as with
  | nil => simp
  | cons a as ih =>
    rw [List.mem_cons, not_or] at h
    have hcons : ∀ cs, percentDecode? (String.ofList (a :: cs)) =
        (percentDecode? (String.ofList cs)).map (String.singleton a ++ ·) := by
      intro cs
      unfold percentDecode?
      rw [String.toList_ofList, String.toList_ofList, unescape_cons (Ne.symm h.1)]
      cases unescape cs with
      | none => rfl
      | some bytes => exact fromUTF8?_utf8EncodeChar_append a bytes
    rw [List.cons_append, hcons, ih h.2, Option.map_map]
    congr 1
    funext s
    simp [String.ofList_cons, String.append_assoc]

theorem percentDecode?_of_not_mem {cs : List Char} (h : '%' ∉ cs) :
    percentDecode? (String.ofList cs) = some (String.ofList cs) := by
  have hkept := percentDecode?_append h []
  have hnil : percentDecode? (String.ofList []) = some "" := by decide +kernel
  rwa [List.append_nil, hnil, Option.map_some, String.append_empty] at hkept

/-- Decoding undoes encoding. -/
theorem percentDecode?_percentEncode (s : String) : percentDecode? (percentEncode s) = some s :=
  percentDecode?_eq_some.mpr (unescape_flatMap_escapeChar s.toList)

/-! ### Percent signs only -/

/-- Write every percent sign as an escape and everything else as it is. -/
def escapePercents (cs : List Char) : List Char :=
  cs.flatMap fun c => if c = '%' then ['%', '2', '5'] else [c]

theorem escapePercents_cons (c : Char) (cs : List Char) : escapePercents (c :: cs) =
    (if c = '%' then ['%', '2', '5'] else [c]) ++ escapePercents cs := rfl

theorem unescape_escapePercents (cs : List Char) :
    unescape (escapePercents cs) = some (cs.flatMap String.utf8EncodeChar) := by
  induction cs with
  | nil => rfl
  | cons c cs ih =>
    rw [escapePercents_cons]
    by_cases hc : c = '%'
    · subst hc
      have hbyte := unescape_escapeByte 0x25 (escapePercents cs)
      rw [ih] at hbyte
      exact hbyte
    · rw [if_neg hc, List.singleton_append, unescape_cons hc, ih]
      rfl

/-- Decoding gives back a text whose percent signs are escaped. -/
theorem percentDecode?_escapePercents (cs : List Char) :
    percentDecode? (String.ofList (escapePercents cs)) = some (String.ofList cs) := by
  rw [percentDecode?_eq_some, unescape_escapePercents, String.toList_ofList]

/-! ### Encoded texts -/

/-- Besides percent signs, an encoded text has only characters that stand for themselves. -/
theorem standsInSegment_of_mem_percentEncode {s : String} {c : Char}
    (h : c ∈ (percentEncode s).toList) : c = '%' ∨ standsInSegment c = true := by
  unfold percentEncode at h
  rw [String.toList_ofList, List.mem_flatMap] at h
  obtain ⟨d, -, hc⟩ := h
  unfold escapeChar at hc
  split at hc
  · next hstands =>
    rw [List.mem_singleton.mp hc]
    exact .inr hstands
  · obtain ⟨b, -, hb⟩ := List.mem_flatMap.mp hc
    have hall : ∀ d ∈ escapeByte b, d = '%' ∨ standsInSegment d = true :=
      forall_mem_escapeByte (.inl rfl) (fun n hn => .inr (hexDigit_standsInSegment hn)) b
    exact hall c hb

/-- No slash is left in an encoded text. -/
theorem slash_not_mem_percentEncode (s : String) : '/' ∉ (percentEncode s).toList := by
  intro h
  exact absurd (standsInSegment_of_mem_percentEncode h) (by decide)

theorem percentEncode_append (s t : String) :
    percentEncode (s ++ t) = percentEncode s ++ percentEncode t := by
  apply String.toList_inj.mp
  simp [percentEncode]

end ODataRequest.Text
