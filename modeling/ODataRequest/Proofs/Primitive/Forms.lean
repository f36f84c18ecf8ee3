import Mathlib.Data.Option.Basic
import ODataRequest.Proofs.Token.Literal

/-!
# ODataRequest.Proofs.Primitive.Forms

The forms that literals of unknown type are told apart by. A text has one form at most
(`LiteralForm.ofMarks_of_fits`): which one can be seen from a few marks, without reading a value.
A quote stands in front of texts and inside typed literals, a colon only in times of day; what is
left is told apart by the number of hyphens behind its sign, four in an identifier, two in a date,
and one in a number, where it belongs to the exponent; and the words have letters that numbers lack.
-/

namespace ODataRequest

open Text

/-! ### Forms -/

/-- Is a text a literal of a type, for another value than `null`? -/
def PrimitiveKind.isLiteral (kind : PrimitiveKind) (text : String) : Bool :=
  match kind.validate text with
  | .ok v => !v.isNull
  | .error _ => false

theorem PrimitiveKind.exists_read?_of_isLiteral {kind : PrimitiveKind} {text : String}
    (h : kind.isLiteral text = true) : ∃ v, PrimitiveValue.read? kind text.toList = some v := by
  unfold PrimitiveKind.isLiteral at h
  split at h
  · rename_i v hvalid
    rcases PrimitiveKind.validate_eq_ok_iff.mp hvalid with ⟨-, rfl⟩ | ⟨-, hread⟩
    · cases h
    · exact ⟨v, hread⟩
  · cases h

/-- The forms of literals that are told apart when the type is not known. -/
inductive LiteralForm where
  | word
  | quoted
  | typed
  | guid
  | date
  | timeOfDay
  | number
deriving DecidableEq, Repr

namespace LiteralForm

/-- Does a text have a form? -/
def fits : LiteralForm → String → Bool
  | .word, text => text == "null" || PrimitiveKind.boolean.isLiteral text
  | .quoted, text => text.toList.head? == some '\''
  | .typed, text =>
    startsIgnoringCase "duration'".toList text.toList ||
      startsIgnoringCase "binary'".toList text.toList
  | .guid, text => PrimitiveKind.guid.isLiteral text
  | .date, text => PrimitiveKind.date.isLiteral text
  | .timeOfDay, text => PrimitiveKind.timeOfDay.isLiteral text
  | .number, text =>
    (PrimitiveKind.integer .int64).isLiteral text || PrimitiveKind.decimal.isLiteral text ||
      PrimitiveKind.double.isLiteral text

/-- The words, in lower case. -/
def words : List (List Char) :=
  ["null".toList, "true".toList, "false".toList]

/-- A letter that every word has one of, and no number. -/
def isWordLetter (c : Char) : Bool :=
  c.toLower == 'l' || c.toLower == 'u'

/-- The only form a text can have, by its marks: quotes, colons, hyphens behind the sign, and the
letters of the words. -/
def ofMarks (cs : List Char) : LiteralForm :=
  if cs.head? = some '\'' then .quoted
  else if '\'' ∈ cs then .typed
  else if ':' ∈ cs then .timeOfDay
  else if 3 ≤ cs.tail.count '-' then .guid
  else if cs.tail.count '-' = 2 then .date
  else if cs.any isWordLetter then .word
  else .number

theorem ofMarks_plain {cs : List Char} (hquote : '\'' ∉ cs) (hcolon : ':' ∉ cs) :
    ofMarks cs =
      if 3 ≤ cs.tail.count '-' then .guid
      else if cs.tail.count '-' = 2 then .date
      else if cs.any isWordLetter then .word
      else .number := by
  have hhead : cs.head? ≠ some '\'' := fun h => hquote (List.mem_of_mem_head? h)
  unfold ofMarks
  rw [if_neg hhead, if_neg hquote, if_neg hcolon]

end LiteralForm

/-! ### Decimal numbers -/

namespace Decimal

/-- The places of a decimal number: nothing, or digits behind a point. -/
def IsPlaces (places : List Char) : Prop :=
  places = [] ∨ ∃ ds, isDigits ds = true ∧ places = '.' :: ds

/-- The exponent of a decimal number: nothing, or a signed number behind its mark. -/
def IsExponent (exponent : List Char) : Prop :=
  exponent = [] ∨ ∃ mark sign ds, (mark = 'e' ∨ mark = 'E') ∧ IsSign sign ∧ isDigits ds = true ∧
    exponent = mark :: (sign ++ ds)

/-- The text of a decimal number. -/
def IsText (cs : List Char) : Prop :=
  ∃ sign whole places exponent, cs = sign ++ (whole ++ (places ++ exponent)) ∧
    IsSign sign ∧ isDigits whole = true ∧ IsPlaces places ∧ IsExponent exponent

theorem isExponent_of_cut? {body significand behind : List Char}
    (hcut : cut? (fun c => c == 'e' || c == 'E') body = some (significand, behind))
    (hdigits : isDigits (signed behind).2 = true) :
    ∃ exponent, IsExponent exponent ∧ body = significand ++ exponent := by
  obtain ⟨mark, hmark, hbody⟩ := eq_append_of_cut? hcut
  obtain ⟨sign, hsign, hbehind⟩ := exists_sign behind
  refine ⟨mark :: behind, Or.inr ⟨mark, sign, _, ?_, hsign, hdigits, ?_⟩, hbody⟩
  · simpa using hmark
  · rw [← hbehind]

/-- Whole digits and places, as `shape?` asks for them. -/
theorem exists_places {significand : List Char} {parts : List Char × Option (List Char)}
    (hparts : (match cutAt? '.' significand with
      | some (whole, fraction) => (whole, some fraction)
      | none => (significand, none)) = parts)
    (hdigits : (parts.2.map isDigits).getD true = true) :
    ∃ places, IsPlaces places ∧ significand = parts.1 ++ places := by
  subst hparts
  split at hdigits
  · rename_i whole fraction hcut
    exact ⟨'.' :: fraction, Or.inr ⟨fraction, hdigits, rfl⟩, eq_append_of_cutAt? hcut⟩
  · exact ⟨[], Or.inl rfl, (List.append_nil _).symm⟩

theorem isText_of_shape? {cs : List Char} {s : Shape} (h : shape? cs = some s) : IsText cs := by
  obtain ⟨sign, hsign, hcs⟩ := exists_sign cs
  unfold shape? at h
  rcases hsigned : signed cs with ⟨negative, body⟩
  rw [hsigned] at h hcs
  simp only [Option.bind_eq_bind, Option.bind_eq_some_iff, Option.guard_eq_some', Option.pure_def,
    exists_const] at h
  obtain ⟨hwhole, hplaces, hexponent, -⟩ := h
  have hparts {significand exponent : List Char} (hbody : body = significand ++ exponent)
      (hexp : IsExponent exponent) (hsignificand : ∃ whole places, isDigits whole = true ∧
        IsPlaces places ∧ significand = whole ++ places) : IsText cs := by
    obtain ⟨whole, places, hdigits, hpl, hsig⟩ := hsignificand
    refine ⟨sign, whole, places, exponent, ?_, hsign, hdigits, hpl, hexp⟩
    rw [hcs, hbody, hsig, List.append_assoc]
  rcases hcut : cut? (fun c => c == 'e' || c == 'E') body with _ | ⟨significand, behind⟩
  · simp only [hcut] at hwhole hplaces hexponent
    obtain ⟨places, hpl, heq⟩ := exists_places rfl hplaces
    exact hparts (List.append_nil _).symm (Or.inl rfl) ⟨_, places, hwhole, hpl, heq⟩
  · simp only [hcut] at hwhole hplaces hexponent
    obtain ⟨exponent, hexp, heq⟩ := isExponent_of_cut? hcut hexponent
    obtain ⟨places, hpl, hsig⟩ := exists_places rfl hplaces
    exact hparts heq hexp ⟨_, places, hwhole, hpl, hsig⟩

end Decimal

/-! ### Numbers -/

theorem count_hyphen_of_isDigits {ds : List Char} (h : isDigits ds = true) : ds.count '-' = 0 :=
  List.count_eq_zero.mpr (not_mem_of_forall (isDigit_of_isDigits h) (by decide))

/-- The characters that numbers are written with, `INF` and `NaN` included. -/
def isNumberMark (c : Char) : Bool :=
  c.isDigit || "+-.eEINFa".toList.contains c

theorem isNumberMark_of_isDigits {ds : List Char} (h : isDigits ds = true) :
    ∀ c ∈ ds, isNumberMark c = true := by
  intro c hc
  simp [isNumberMark, isDigit_of_isDigits h c hc]

theorem isNumberMark_of_isSign {sign : List Char} (h : IsSign sign) :
    ∀ c ∈ sign, isNumberMark c = true := by
  have hall : sign.all isNumberMark = true := by
    rcases h with rfl | rfl | rfl <;> rfl
  exact fun c hc => List.all_eq_true.mp hall c hc

namespace Decimal

theorem IsText.isNumberMark {cs : List Char} (h : IsText cs) : ∀ c ∈ cs, isNumberMark c = true := by
  obtain ⟨sign, whole, places, exponent, rfl, hsign, hwhole, hplaces, hexponent⟩ := h
  simp only [List.forall_mem_append]
  refine ⟨isNumberMark_of_isSign hsign, isNumberMark_of_isDigits hwhole, ?_, ?_⟩
  · rcases hplaces with rfl | ⟨ds, hds, rfl⟩
    · simp
    · exact List.forall_mem_cons.mpr ⟨by decide, isNumberMark_of_isDigits hds⟩
  · rcases hexponent with rfl | ⟨mark, sign, ds, hmark, hsign, hds, rfl⟩
    · simp
    · refine List.forall_mem_cons.mpr ⟨?_, List.forall_mem_append.mpr
        ⟨isNumberMark_of_isSign hsign, isNumberMark_of_isDigits hds⟩⟩
      rcases hmark with rfl | rfl <;> decide

/-- Behind its sign a number has one hyphen at most, the one of its exponent. -/
theorem IsText.count_hyphen {cs : List Char} (h : IsText cs) : cs.tail.count '-' ≤ 1 := by
  obtain ⟨sign, whole, places, exponent, rfl, hsign, hwhole, hplaces, hexponent⟩ := h
  have hcount : places.count '-' = 0 := by
    rcases hplaces with rfl | ⟨ds, hds, rfl⟩
    · rfl
    · rw [List.count_cons_of_ne (by decide), count_hyphen_of_isDigits hds]
  have hbehind : exponent.count '-' ≤ 1 := by
    rcases hexponent with rfl | ⟨mark, sign, ds, hmark, hsign, hds, rfl⟩
    · exact Nat.zero_le 1
    · have hne : mark ≠ '-' := by rcases hmark with rfl | rfl <;> decide
      rw [List.count_cons_of_ne hne, List.count_append, count_hyphen_of_isDigits hds]
      rcases hsign with rfl | rfl | rfl <;> decide
  have hbody : (whole ++ (places ++ exponent)).count '-' ≤ 1 := by
    rw [List.count_append, List.count_append, count_hyphen_of_isDigits hwhole, hcount]
    omega
  rcases hsign with rfl | rfl | rfl
  · exact Nat.le_trans ((List.tail_sublist _).count_le '-') hbody
  · exact hbody
  · exact hbody

theorem isText_of_integer? {cs : List Char} {n : Int} (h : integer? cs = some n) : IsText cs := by
  obtain ⟨sign, ds, hsign, hds, rfl⟩ := exists_digits_of_integer? h
  exact ⟨sign, ds, [], [], by simp, hsign, hds, Or.inl rfl, Or.inl rfl⟩

end Decimal

/-- The names of doubles. -/
def Double.names : List (List Char) :=
  ["INF".toList, "-INF".toList, "NaN".toList]

theorem Double.isText_or_mem_names {cs : List Char} {d : Double} (h : parse? cs = some d) :
    Decimal.IsText cs ∨ cs ∈ names := by
  unfold parse? at h
  split at h
  · rename_i hname
    exact Or.inr (by simp [names, hname])
  split at h
  · rename_i hname
    exact Or.inr (by simp [names, hname])
  split at h
  · rename_i hname
    exact Or.inr (by simp [names, hname])
  · obtain ⟨shape, hshape, -⟩ := Option.bind_eq_some_iff.mp h
    exact Or.inl (Decimal.isText_of_shape? hshape)

theorem Double.marks_of_mem_names {cs : List Char} (h : cs ∈ names) :
    (∀ c ∈ cs, isNumberMark c = true) ∧ cs.tail.count '-' ≤ 1 := by
  have hall : names.all fun cs => cs.all isNumberMark && decide (cs.tail.count '-' ≤ 1) := by decide
  simpa using List.all_eq_true.mp hall cs h

theorem isWordLetter_of_isNumberMark {c : Char} (h : isNumberMark c = true) :
    LiteralForm.isWordLetter c = false := by
  simp only [isNumberMark, Bool.or_eq_true] at h
  rcases h with hdigit | hother
  · rw [LiteralForm.isWordLetter, Lexeme.toLower_of_isDigit hdigit]
    have hl : c ≠ 'l' := by
      rintro rfl
      exact absurd hdigit (by decide)
    have hu : c ≠ 'u' := by
      rintro rfl
      exact absurd hdigit (by decide)
    simp [hl, hu]
  · have hall : "+-.eEINFa".toList.all (fun c => !LiteralForm.isWordLetter c) = true := by decide
    simpa using List.all_eq_true.mp hall c (List.contains_iff_mem.mp hother)

/-! ### Dates, times and identifiers -/

theorem Date.exists_parts {cs : List Char} {d : Date} (h : parse? cs = some d) :
    ∃ sign year month day, (sign = [] ∨ sign = ['-']) ∧ isDigits year = true ∧
      isDigits month = true ∧ isDigits day = true ∧
        cs = sign ++ (year ++ '-' :: (month ++ '-' :: day)) := by
  have hunsigned : ∃ sign negative body, (sign = [] ∨ sign = ['-']) ∧ cs = sign ++ body ∧
      unsigned? negative body = some d := by
    unfold parse? at h
    split at h
    · exact ⟨['-'], true, _, Or.inr rfl, rfl, h⟩
    · exact ⟨[], false, _, Or.inl rfl, rfl, h⟩
  obtain ⟨sign, negative, body, hsign, rfl, hread⟩ := hunsigned
  simp only [unsigned?, Option.bind_eq_bind, Option.bind_eq_some_iff, Prod.exists] at hread
  obtain ⟨year, rest, hyear, month, day, hmonth, -, -, y, hy, m, hm, n, hn, -⟩ := hread
  refine ⟨sign, year, month, day, hsign, isDigits_of_digits? hy, isDigits_of_twoDigits? hm,
    isDigits_of_twoDigits? hn, ?_⟩
  rw [eq_append_of_cutAt? hyear, eq_append_of_cutAt? hmonth]

/-- Is it a character of a time of day? -/
def isClockMark (c : Char) : Bool :=
  c.isDigit || c == ':' || c == '.'

theorem isClockMark_of_isDigits {ds : List Char} (h : isDigits ds = true) :
    ∀ c ∈ ds, isClockMark c = true := by
  intro c hc
  simp [isClockMark, isDigit_of_isDigits h c hc]

theorem TimeOfDay.isClockMark_of_seconds? {cs : List Char} {parts : Nat × Nat}
    (h : seconds? cs = some parts) : ∀ c ∈ cs, isClockMark c = true := by
  unfold seconds? at h
  split at h
  · obtain ⟨n, hn, -⟩ := Option.map_eq_some_iff.mp h
    exact isClockMark_of_isDigits (isDigits_of_twoDigits? hn)
  · rename_i whole fraction hcut
    obtain ⟨n, hn, hwhole⟩ := Option.bind_eq_some_iff.mp h
    obtain ⟨m, hm, -⟩ := Option.bind_eq_some_iff.mp hwhole
    rw [eq_append_of_cutAt? hcut, List.forall_mem_append, List.forall_mem_cons]
    have hfraction : isDigits fraction = true := by
      unfold nanoseconds? at hn
      split at hn
      · assumption
      · cases hn
    exact ⟨isClockMark_of_isDigits (isDigits_of_twoDigits? hm), by decide,
      isClockMark_of_isDigits hfraction⟩

theorem TimeOfDay.marks_of_parse? {cs : List Char} {t : TimeOfDay} (h : parse? cs = some t) :
    ':' ∈ cs ∧ ∀ c ∈ cs, isClockMark c = true := by
  unfold parse? at h
  obtain ⟨⟨hour, rest⟩, hcut, h⟩ := Option.bind_eq_some_iff.mp h
  rw [eq_append_of_cutAt? hcut, List.forall_mem_append, List.forall_mem_cons]
  refine ⟨by simp, ?_⟩
  dsimp only at h
  split at h
  · obtain ⟨n, hn, h⟩ := Option.bind_eq_some_iff.mp h
    obtain ⟨m, hm, -⟩ := Option.bind_eq_some_iff.mp h
    exact ⟨isClockMark_of_isDigits (isDigits_of_twoDigits? hn), by decide,
      isClockMark_of_isDigits (isDigits_of_twoDigits? hm)⟩
  · rename_i minute rest hsecond
    obtain ⟨parts, hparts, h⟩ := Option.bind_eq_some_iff.mp h
    obtain ⟨n, hn, h⟩ := Option.bind_eq_some_iff.mp h
    obtain ⟨m, hm, -⟩ := Option.bind_eq_some_iff.mp h
    refine ⟨isClockMark_of_isDigits (isDigits_of_twoDigits? hn), by decide, ?_⟩
    rw [eq_append_of_cutAt? hsecond, List.forall_mem_append, List.forall_mem_cons]
    exact ⟨isClockMark_of_isDigits (isDigits_of_twoDigits? hm), by decide,
      isClockMark_of_seconds? hparts⟩

/-- Counting a character behind a place where it stands. -/
theorem count_drop_lt {cs : List Char} {i : Nat} {c : Char} (h : cs[i]? = some c) :
    (cs.drop (i + 1)).count c + 1 ≤ cs.count c := by
  obtain ⟨hi, rfl⟩ := List.getElem?_eq_some_iff.mp h
  have hdrop := (List.drop_sublist i cs).count_le cs[i]
  rw [List.drop_eq_getElem_cons hi, List.count_cons_self] at hdrop
  exact hdrop

theorem Guid.count_hyphen {cs : List Char} {g : Guid} (h : parse? cs = some g) :
    3 ≤ cs.tail.count '-' := by
  obtain ⟨hlength, hplaces⟩ := isGuidChar_of_parse? h
  have hhyphen {i : Nat} (hi : i < 36) (hplace : i + 1 = 8 ∨ i + 1 = 13 ∨ i + 1 = 18) :
      cs.tail[i]? = some '-' := by
    have hc : cs[i + 1]? = some cs[i + 1] := List.getElem?_eq_getElem (by omega)
    have hchar := hplaces _ _ hc
    rw [isGuidChar, if_pos (by omega), beq_iff_eq] at hchar
    rw [List.getElem?_tail, hc, eq_of_toLower (by decide) hchar]
  have h7 : (cs.tail.drop 8).count '-' + 1 ≤ cs.tail.count '-' :=
    count_drop_lt (hhyphen (by decide) (by decide))
  have h12 : ((cs.tail.drop 8).drop 5).count '-' + 1 ≤ (cs.tail.drop 8).count '-' := by
    refine count_drop_lt ?_
    rw [List.getElem?_drop]
    exact hhyphen (by decide) (by decide)
  have h17 : (((cs.tail.drop 8).drop 5).drop 5).count '-' + 1 ≤
      ((cs.tail.drop 8).drop 5).count '-' := by
    refine count_drop_lt ?_
    rw [List.getElem?_drop, List.getElem?_drop]
    exact hhyphen (by decide) (by decide)
  omega

theorem Guid.marks_of_parse? {cs : List Char} {g : Guid} (h : parse? cs = some g) :
    ∀ c ∈ cs, c = '-' ∨ (hexValue? c.toLower).isSome = true := by
  intro c hc
  obtain ⟨i, hi⟩ := List.mem_iff_getElem?.mp hc
  have hchar := (isGuidChar_of_parse? h).2 i c hi
  unfold isGuidChar at hchar
  split at hchar
  · exact Or.inl (eq_of_toLower (by decide) (beq_iff_eq.mp hchar))
  · exact Or.inr hchar

/-! ### A text has one form -/

namespace LiteralForm

theorem ofMarks_word {text : String} (h : fits .word text = true) : ofMarks text.toList = .word := by
  have hlower : text.toList.map Char.toLower ∈ words := by
    rcases Bool.or_eq_true_iff.mp h with hnull | hboolean
    · rw [beq_iff_eq.mp hnull]
      decide
    · obtain ⟨v, hv⟩ := PrimitiveKind.exists_read?_of_isLiteral hboolean
      obtain ⟨b, hb, -⟩ := Option.map_eq_some_iff.mp hv
      unfold PrimitiveValue.boolean? equalIgnoringCase at hb
      split at hb
      · rename_i htrue
        rw [beq_iff_eq.mp htrue]
        decide
      split at hb
      · rename_i hfalse
        rw [beq_iff_eq.mp hfalse]
        decide
      · cases hb
  have hnot (x : Char) (hx : words.all fun w => !w.contains x.toLower) : x ∉ text.toList := by
    intro hmem
    have hw := List.all_eq_true.mp hx _ hlower
    simp at hw
    exact hw x hmem rfl
  have hletter : text.toList.any isWordLetter = true := by
    have hw : words.all (fun w => w.any fun c => c == 'l' || c == 'u') = true := by decide
    have hany := List.all_eq_true.mp hw _ hlower
    rwa [List.any_map] at hany
  have hcount : text.toList.tail.count '-' = 0 :=
    List.count_eq_zero.mpr fun hmem => hnot '-' (by decide) (List.mem_of_mem_tail hmem)
  rw [ofMarks_plain (hnot _ (by decide)) (hnot _ (by decide)), hcount, hletter]
  rfl

theorem ofMarks_typed {text : String} (h : fits .typed text = true) :
    ofMarks text.toList = .typed := by
  -- either word ends with the quote, and does not start with it
  have htyped : ∃ word, '\'' ∈ word ∧ word.head? ∈ [some 'd', some 'b'] ∧
      startsIgnoringCase word text.toList = true := by
    rcases Bool.or_eq_true_iff.mp h with h | h
    · exact ⟨_, by decide, by decide, h⟩
    · exact ⟨_, by decide, by decide, h⟩
  obtain ⟨word, hword, hfirst, hstarts⟩ := htyped
  have hquote : '\'' ∈ text.toList :=
    mem_of_startsIgnoringCase hstarts hword (by decide) (by decide)
  have hhead : text.toList.head? ≠ some '\'' := by
    intro hhead
    obtain ⟨cs, hcs⟩ := List.head?_eq_some_iff.mp hhead
    cases word with
    | nil => cases hword
    | cons w word =>
      rw [hcs] at hstarts
      simp only [startsIgnoringCase, Bool.and_eq_true, beq_iff_eq] at hstarts
      have hw : w = 'd' ∨ w = 'b' := by simpa using hfirst
      rcases hw with rfl | rfl
      · exact absurd hstarts.1 (by decide)
      · exact absurd hstarts.1 (by decide)
  unfold ofMarks
  rw [if_neg hhead, if_pos hquote]

theorem ofMarks_guid {text : String} (h : fits .guid text = true) :
    ofMarks text.toList = .guid := by
  obtain ⟨v, hv⟩ := PrimitiveKind.exists_read?_of_isLiteral h
  obtain ⟨g, hg, -⟩ := Option.map_eq_some_iff.mp hv
  have hnot (x : Char) (hx : x ≠ '-' ∧ (hexValue? x.toLower).isSome = false) :
      x ∉ text.toList := by
    intro hmem
    rcases Guid.marks_of_parse? hg x hmem with heq | hhex
    · exact hx.1 heq
    · rw [hx.2] at hhex
      cases hhex
  rw [ofMarks_plain (hnot _ (by decide)) (hnot _ (by decide)), if_pos (Guid.count_hyphen hg)]

theorem ofMarks_date {text : String} (h : fits .date text = true) :
    ofMarks text.toList = .date := by
  obtain ⟨v, hv⟩ := PrimitiveKind.exists_read?_of_isLiteral h
  obtain ⟨d, hd, -⟩ := Option.map_eq_some_iff.mp hv
  obtain ⟨sign, year, month, day, hsign, hyear, hmonth, hday, heq⟩ := Date.exists_parts hd
  have hmarks : ∀ c ∈ text.toList, isNumberMark c = true := by
    have hsign' : IsSign sign := hsign.imp_right Or.inl
    rw [heq]
    simp only [List.forall_mem_append, List.forall_mem_cons]
    exact ⟨isNumberMark_of_isSign hsign', isNumberMark_of_isDigits hyear, by decide,
      isNumberMark_of_isDigits hmonth, by decide, isNumberMark_of_isDigits hday⟩
  have hfront {front : List Char} (hfront : front.count '-' = 0) :
      (front ++ '-' :: (month ++ '-' :: day)).count '-' = 2 := by
    simp [List.count_append, hfront, count_hyphen_of_isDigits hmonth, count_hyphen_of_isDigits hday]
  have hcount : text.toList.tail.count '-' = 2 := by
    rw [heq]
    have hyears := count_hyphen_of_isDigits hyear
    rcases hsign with rfl | rfl
    · cases year with
      | nil => cases hyear
      | cons y year => exact hfront (Nat.le_zero.mp (hyears ▸ List.count_le_count_cons))
    · exact hfront hyears
  rw [ofMarks_plain (not_mem_of_forall hmarks (by decide)) (not_mem_of_forall hmarks (by decide)),
    hcount]
  rfl

theorem ofMarks_timeOfDay {text : String} (h : fits .timeOfDay text = true) :
    ofMarks text.toList = .timeOfDay := by
  obtain ⟨v, hv⟩ := PrimitiveKind.exists_read?_of_isLiteral h
  obtain ⟨t, ht, -⟩ := Option.map_eq_some_iff.mp hv
  obtain ⟨hcolon, hmarks⟩ := TimeOfDay.marks_of_parse? ht
  have hquote : '\'' ∉ text.toList := not_mem_of_forall hmarks (by decide)
  have hhead : text.toList.head? ≠ some '\'' := fun h => hquote (List.mem_of_mem_head? h)
  unfold ofMarks
  rw [if_neg hhead, if_neg hquote, if_pos hcolon]

theorem ofMarks_number {text : String} (h : fits .number text = true) :
    ofMarks text.toList = .number := by
  have hnumber : Decimal.IsText text.toList ∨ text.toList ∈ Double.names := by
    rcases Bool.or_eq_true_iff.mp h with h | hdouble
    · rcases Bool.or_eq_true_iff.mp h with hinteger | hdecimal
      · obtain ⟨v, hv⟩ := PrimitiveKind.exists_read?_of_isLiteral hinteger
        obtain ⟨n, hn, -⟩ := Option.bind_eq_some_iff.mp hv
        exact Or.inl (Decimal.isText_of_integer? hn)
      · obtain ⟨v, hv⟩ := PrimitiveKind.exists_read?_of_isLiteral hdecimal
        obtain ⟨d, hd, -⟩ := Option.map_eq_some_iff.mp hv
        obtain ⟨shape, hshape, -⟩ := Option.bind_eq_some_iff.mp hd
        exact Or.inl (Decimal.isText_of_shape? hshape)
    · obtain ⟨v, hv⟩ := PrimitiveKind.exists_read?_of_isLiteral hdouble
      obtain ⟨d, hd, -⟩ := Option.map_eq_some_iff.mp hv
      exact Double.isText_or_mem_names hd
  obtain ⟨hmarks, hcount⟩ : (∀ c ∈ text.toList, isNumberMark c = true) ∧
      text.toList.tail.count '-' ≤ 1 := by
    rcases hnumber with htext | hname
    · exact ⟨htext.isNumberMark, htext.count_hyphen⟩
    · exact Double.marks_of_mem_names hname
  have hletter : text.toList.any isWordLetter = false :=
    List.any_eq_false.mpr fun c hc =>
      Bool.not_eq_true _ ▸ isWordLetter_of_isNumberMark (hmarks c hc)
  rw [ofMarks_plain (not_mem_of_forall hmarks (by decide)) (not_mem_of_forall hmarks (by decide)),
    if_neg (by omega), if_neg (by omega), hletter]
  rfl

theorem ofMarks_of_fits {form : LiteralForm} {text : String} (h : form.fits text = true) :
    ofMarks text.toList = form := by
  cases form with
  | word => exact ofMarks_word h
  | quoted => exact if_pos (beq_iff_eq.mp h)
  | typed => exact ofMarks_typed h
  | guid => exact ofMarks_guid h
  | date => exact ofMarks_date h
  | timeOfDay => exact ofMarks_timeOfDay h
  | number => exact ofMarks_number h

end LiteralForm

end ODataRequest
