import ODataRequest.Proofs.Text.Percent
import ODataRequest.Proofs.Token.Bytes
import ODataRequest.Request.Reader
import Mathlib.Data.List.Basic

/-!
# ODataRequest.Proofs.Text.PercentBytes

Percent encoding by bytes (`percentCoding_exact`).

* Encoding escapes some of the bytes of a text and keeps the others (`segmentByte`). Quotes,
  parentheses, commas and equals signs are kept, and nothing that ends a segment or a path is left.
* A text is decoded if all its percent signs start escapes (`WellEscaped`), which is said by places of
  its characters, and if its bytes with the escapes replaced (`replaceEscapes`) are those of a text.
-/

namespace ODataRequest.Text

open Lexeme

/-- The bytes of a text in UTF-8. -/
def utf8 (s : String) : List UInt8 :=
  s.toList.flatMap String.utf8EncodeChar

variable {cs : List Char}

/-! ### Percent signs -/

/-- Two hexadecimal digits stand behind every percent sign. -/
def WellEscaped (cs : List Char) : Prop :=
  ∀ front back, cs = front ++ '%' :: back → ∃ high low rest, back = high :: low :: rest ∧
    (hexValue? high).isSome ∧ (hexValue? low).isSome

theorem wellEscaped_nil : WellEscaped [] := by
  intro front back h
  simp at h

theorem wellEscaped_cons {c : Char} (hc : c ≠ '%') : WellEscaped (c :: cs) ↔ WellEscaped cs := by
  constructor
  · intro h front back hcs
    exact h (c :: front) back (by simp [hcs])
  · intro h front back hcs
    cases front with
    | nil => exact absurd (List.cons.inj hcs).1 hc
    | cons d front => exact h front back (List.cons.inj hcs).2

theorem ne_percent_of_hexValue? {c : Char} (h : (hexValue? c).isSome) : c ≠ '%' := by
  intro hc
  subst hc
  exact absurd h (by decide)

/-- The digits of an escape are no percent signs, so that no escape starts inside of another. -/
theorem wellEscaped_percent : WellEscaped ('%' :: cs) ↔ ∃ high low rest, cs = high :: low :: rest ∧
    (hexValue? high).isSome ∧ (hexValue? low).isSome ∧ WellEscaped rest := by
  have hbehind {high low : Char} (rest : List Char) (hhigh : (hexValue? high).isSome)
      (hlow : (hexValue? low).isSome) : WellEscaped (high :: low :: rest) ↔ WellEscaped rest := by
    rw [wellEscaped_cons (ne_percent_of_hexValue? hhigh),
      wellEscaped_cons (ne_percent_of_hexValue? hlow)]
  constructor
  · intro h
    obtain ⟨high, low, rest, hcs, hhigh, hlow⟩ := h [] cs rfl
    have hrest : WellEscaped cs := fun front back hfront => h ('%' :: front) back (by simp [hfront])
    rw [hcs, hbehind rest hhigh hlow] at hrest
    exact ⟨high, low, rest, hcs, hhigh, hlow, hrest⟩
  · intro h front back hfront
    obtain ⟨high, low, rest, hcs, hhigh, hlow, hrest⟩ := h
    cases front with
    | nil => exact ⟨high, low, rest, (List.cons.inj hfront).2 ▸ hcs, hhigh, hlow⟩
    | cons d front =>
      have hwell : WellEscaped cs := by rwa [hcs, hbehind rest hhigh hlow]
      exact hwell front back (List.cons.inj hfront).2

/-- A text stands for bytes exactly if its percent signs start escapes. -/
theorem exists_unescape_iff : (∃ bytes, unescape cs = some bytes) ↔ WellEscaped cs := by
  induction cs using unescape.induct with
  | case1 => simp [unescape, wellEscaped_nil]
  | case2 high low cs ih =>
    rw [wellEscaped_percent]
    cases hhigh : hexValue? high with
    | none => simp [unescape, hhigh]
    | some m =>
      cases hlow : hexValue? low with
      | none => simp [unescape, hhigh, hlow]
      | some n => simp [unescape_escape hhigh hlow, hhigh, hlow, ih]
  | case3 cs hcs =>
    rw [wellEscaped_percent, unescape]
    · constructor
      · intro h
        simp at h
      · intro h
        obtain ⟨high, low, rest, hrest, -⟩ := h
        exact (hcs high low rest hrest).elim
    · exact hcs
  | case4 c cs _ hc ih => simp [unescape_cons hc, wellEscaped_cons hc, ih]

/-! ### Bytes -/

/-- The value of a byte that is a hexadecimal digit. -/
def hexByte? (b : UInt8) : Option Nat :=
  hexValue? (Char.ofNat b.toNat)

/-- The byte that a percent sign and two hexadecimal digits stand for. -/
def escapedByte? (sign high low : UInt8) : Option UInt8 :=
  if sign = 0x25 then do
    let h ← hexByte? high
    let l ← hexByte? low
    return UInt8.ofNat (16 * h + l)
  else none

/-- The bytes with each escape replaced by what it stands for. Percent signs that start no escape are
kept. -/
def replaceEscapes : List UInt8 → List UInt8
  | sign :: high :: low :: bytes =>
    match escapedByte? sign high low with
    | some b => b :: replaceEscapes bytes
    | none => sign :: replaceEscapes (high :: low :: bytes)
  | bytes => bytes

theorem replaceEscapes_cons {b : UInt8} (h : b ≠ 0x25) (bytes : List UInt8) :
    replaceEscapes (b :: bytes) = b :: replaceEscapes bytes := by
  match bytes with
  | [] => rfl
  | [_] => rfl
  | _ :: _ :: _ => simp [replaceEscapes, escapedByte?, h]

theorem replaceEscapes_append {as : List UInt8} (h : 0x25 ∉ as) (bytes : List UInt8) :
    replaceEscapes (as ++ bytes) = as ++ replaceEscapes bytes := by
  induction as with
  | nil => rfl
  | cons a as ih =>
    rw [List.mem_cons, not_or] at h
    rw [List.cons_append, replaceEscapes_cons (Ne.symm h.1), ih h.2, List.cons_append]

theorem toNat_lt_of_hexValue? {c : Char} {n : Nat} (h : hexValue? c = some n) : c.toNat < 0x80 := by
  unfold hexValue? at h
  split at h
  · next hdigit => exact Nat.lt_of_le_of_lt (Char.isDigit_iff_toNat.mp hdigit).2 (by decide)
  split at h
  · next hlower => exact Nat.lt_of_le_of_lt (m := 'f'.toNat) hlower.2 (by decide)
  split at h
  · next hupper => exact Nat.lt_of_le_of_lt (m := 'F'.toNat) hupper.2 (by decide)
  · cases h

theorem hexByte?_ofNat {c : Char} (h : c.toNat < 0x80) :
    hexByte? (UInt8.ofNat c.toNat) = hexValue? c := by
  unfold hexByte?
  rw [UInt8.toNat_ofNat_of_lt' (Nat.lt_trans h (by decide)), Char.ofNat_toNat]

/-- An escape is the same one in the bytes of a text. -/
theorem replaceEscapes_escape {high low : Char} {m n : Nat} (hhigh : hexValue? high = some m)
    (hlow : hexValue? low = some n) (bytes : List UInt8) :
    replaceEscapes (['%', high, low].flatMap String.utf8EncodeChar ++ bytes) =
      UInt8.ofNat (16 * m + n) :: replaceEscapes bytes := by
  have hhigh' := toNat_lt_of_hexValue? hhigh
  have hlow' := toNat_lt_of_hexValue? hlow
  have hsign : String.utf8EncodeChar '%' = [0x25] := by decide
  simp [hsign, utf8EncodeChar_of_lt hhigh', utf8EncodeChar_of_lt hlow', replaceEscapes,
    escapedByte?, hexByte?_ofNat hhigh', hexByte?_ofNat hlow', hhigh, hlow]

/-- No character but the percent sign has the byte of one. -/
theorem percent_not_mem_utf8EncodeChar {c : Char} (h : c ≠ '%') :
    0x25 ∉ String.utf8EncodeChar c := by
  intro hmem
  exact h (eq_of_mem_utf8EncodeChar (by decide) (by decide) hmem)

/-- The bytes that a text stands for are those with its escapes replaced. -/
theorem replaceEscapes_of_unescape {bytes : List UInt8} (h : unescape cs = some bytes) :
    replaceEscapes (cs.flatMap String.utf8EncodeChar) = bytes := by
  induction cs using unescape.induct generalizing bytes with
  | case1 =>
    cases h
    rfl
  | case2 high low cs ih =>
    obtain ⟨m, n, rest, hhigh, hlow, hrest, hbytes⟩ := exists_of_unescape_escape h
    have hcons : '%' :: high :: low :: cs = ['%', high, low] ++ cs := rfl
    rw [hbytes, hcons, List.flatMap_append, replaceEscapes_escape hhigh hlow, ih hrest]
  | case3 cs hcs =>
    rw [unescape] at h
    · cases h
    · exact hcs
  | case4 c cs _ hc ih =>
    rw [unescape_cons hc] at h
    obtain ⟨rest, hrest, hbytes⟩ := Option.map_eq_some_iff.mp h
    rw [List.flatMap_cons, replaceEscapes_append (percent_not_mem_utf8EncodeChar hc), ih hrest, hbytes]

theorem unescape_eq_some_iff {bytes : List UInt8} : unescape cs = some bytes ↔
    WellEscaped cs ∧ replaceEscapes (cs.flatMap String.utf8EncodeChar) = bytes := by
  constructor
  · intro h
    exact ⟨exists_unescape_iff.mp ⟨bytes, h⟩, replaceEscapes_of_unescape h⟩
  · intro h
    obtain ⟨found, hfound⟩ := exists_unescape_iff.mpr h.1
    rw [hfound, ← h.2, replaceEscapes_of_unescape hfound]

/-- A text is decoded to the one that has its bytes with the escapes replaced. -/
theorem decoded_eq_ok_iff {t s : String} : decoded t = .ok s ↔
    WellEscaped t.toList ∧ replaceEscapes (utf8 t) = utf8 s := by
  have hdecode : percentDecode? (String.ofList t.toList) = some s ↔
      unescape t.toList = some (s.toList.flatMap String.utf8EncodeChar) := percentDecode?_eq_some
  rw [String.ofList_toList, unescape_eq_some_iff] at hdecode
  unfold utf8
  rw [← hdecode]
  unfold decoded
  cases percentDecode? t with
  | none => simp
  | some found => simp

/-- Bytes are valid if they are those of a text. -/
theorem isValidUTF8_iff {bytes : List UInt8} :
    bytes.toByteArray.IsValidUTF8 ↔ ∃ s, bytes = utf8 s := by
  constructor
  · intro h
    obtain ⟨m, hm⟩ := h
    exact ⟨String.ofList m, by rw [utf8, String.toList_ofList]; exact List.toByteArray_inj.mp hm⟩
  · intro h
    obtain ⟨s, hs⟩ := h
    exact ⟨s.toList, congrArg List.toByteArray hs⟩

/-! ### Segments -/

/-- The bytes that are escaped in a segment: those of control characters, of characters that mean
something else in a URL or may not stand in one, and of all characters beyond ASCII. -/
def isEscaped (b : UInt8) : Bool :=
  b < 0x20 || 0x7F ≤ b ||
    [0x20, 0x22, 0x23, 0x25, 0x2F, 0x3C, 0x3E, 0x3F, 0x5B, 0x5C, 0x5D, 0x5E, 0x60, 0x7B, 0x7C,
      0x7D].contains b

/-- A byte as it is written in a segment. -/
def segmentByte (b : UInt8) : List Char :=
  if isEscaped b then escapeByte b else [Char.ofNat b.toNat]

/-- Characters are escaped if their bytes are. -/
theorem escapeChar_eq (c : Char) : escapeChar c = (String.utf8EncodeChar c).flatMap segmentByte := by
  by_cases hc : c.toNat < 0x80
  · have hall : ∀ n : Fin 128, standsInSegment (Char.ofNat n) = !isEscaped (UInt8.ofNat n) := by
      decide
    have hstands := hall ⟨c.toNat, hc⟩
    have hbyte : (UInt8.ofNat c.toNat).toNat = c.toNat :=
      UInt8.toNat_ofNat_of_lt' (Nat.lt_trans hc (by decide))
    simp only [Char.ofNat_toNat] at hstands
    unfold escapeChar segmentByte
    rw [utf8EncodeChar_of_lt hc, hstands]
    cases hescaped : isEscaped (UInt8.ofNat c.toNat) with
    | false => simp [hescaped, hbyte]
    | true => simp [hescaped]
  · have hstands : standsInSegment c = false := by
      simp [standsInSegment]
      omega
    have hescaped : ∀ b ∈ String.utf8EncodeChar c, segmentByte b = escapeByte b := by
      intro b hb
      have hbyte := toNat_of_mem_utf8EncodeChar hb
      have hle : 0x7F ≤ b := UInt8.le_iff_toNat_le.mpr (by simp; omega)
      simp [segmentByte, isEscaped, hle]
    unfold escapeChar
    rw [hstands, List.flatMap_congr hescaped]
    rfl

theorem percentEncode_eq (s : String) :
    (percentEncode s).toList = (utf8 s).flatMap segmentByte := by
  rw [percentEncode, String.toList_ofList, utf8, List.flatMap_assoc]
  exact List.flatMap_congr fun c _ => escapeChar_eq c

/-- What marks the parts of keys and calls: quotes, parentheses, commas and equals signs. -/
def isMark (c : Char) : Bool :=
  ['\'', '(', ')', ',', '='].contains c

theorem standsInSegment_of_isMark {c : Char} (h : isMark c = true) : standsInSegment c = true := by
  have hall : ['\'', '(', ')', ',', '='].all standsInSegment = true := by decide
  exact List.all_eq_true.mp hall c (List.contains_iff_mem.mp h)

theorem isMark_hexDigit {n : Nat} (h : n < 16) : isMark (hexDigit n) = false := by
  have all : ∀ n : Fin 16, isMark (hexDigit n) = false := by decide
  exact all ⟨n, h⟩

/-- Marks are not escaped, and escapes have no marks in them. -/
theorem filter_isMark_escapeChar (c : Char) :
    (escapeChar c).filter isMark = [c].filter isMark := by
  unfold escapeChar
  split
  · rfl
  · next hc =>
    have hmark : isMark c = false := eq_false_of_ne_true (mt standsInSegment_of_isMark hc)
    have hnone : ∀ b, ∀ d ∈ escapeByte b, isMark d = false :=
      forall_mem_escapeByte (by decide) fun n hn => isMark_hexDigit hn
    rw [List.filter_cons_of_neg (by simp [hmark]), List.filter_eq_nil_iff.mpr]
    · rfl
    · intro d hd
      obtain ⟨b, -, hb⟩ := List.mem_flatMap.mp hd
      simp [hnone b d hb]

theorem filter_isMark_percentEncode (s : String) :
    (percentEncode s).toList.filter isMark = s.toList.filter isMark := by
  rw [percentEncode, String.toList_ofList, List.filter_flatMap,
    List.flatMap_congr fun c _ => filter_isMark_escapeChar c, ← List.filter_flatMap]
  simp

/-- Encoding a text and decoding it gives the text back. The encoded text has the bytes of the text in
it, each of them escaped or as it is, nothing that ends a segment or a path, and the quotes,
parentheses, commas and equals signs of the text in their order. Decoding succeeds exactly if two
hexadecimal digits stand behind every percent sign and what the escapes are replaced by makes the bytes
of a text; this is the text that is given. -/
theorem percentCoding_exact :
    (∀ s, decoded (percentEncode s) = .ok s ∧
        (percentEncode s).toList = (utf8 s).flatMap segmentByte ∧
        List.Disjoint (percentEncode s).toList ['/', '?', '#', ' '] ∧
        (percentEncode s).toList.filter isMark = s.toList.filter isMark) ∧
      ∀ t, ((∃ s, decoded t = .ok s) ↔
          WellEscaped t.toList ∧ (replaceEscapes (utf8 t)).toByteArray.IsValidUTF8) ∧
        ∀ s, decoded t = .ok s ↔ WellEscaped t.toList ∧ replaceEscapes (utf8 t) = utf8 s := by
  constructor
  · intro s
    have hdecoded : decoded (percentEncode s) = .ok s := by
      simp [decoded, percentDecode?_percentEncode]
    have hdisjoint : List.Disjoint (percentEncode s).toList ['/', '?', '#', ' '] := by
      intro c hc hdelimiter
      have hall : ['/', '?', '#', ' '].all (fun c => c != '%' && !standsInSegment c) = true := by
        decide
      have hnone := List.all_eq_true.mp hall c hdelimiter
      obtain hsign | hstands := standsInSegment_of_mem_percentEncode hc
      · simp [hsign] at hnone
      · simp [hstands] at hnone
    exact ⟨hdecoded, percentEncode_eq s, hdisjoint, filter_isMark_percentEncode s⟩
  · intro t
    refine ⟨?_, fun s => decoded_eq_ok_iff⟩
    simp [decoded_eq_ok_iff, isValidUTF8_iff]

end ODataRequest.Text
