import ODataRequest.Proofs.Except
import ODataRequest.Proofs.Token.Bytes
import ODataRequest.Proofs.Token.Lexeme

/-!
# ODataRequest.Proofs.Token.ByteScan

Scanning a text by places that are given by numbers of bytes. Nothing is taken off the text: a place is
moved forward over characters of a class, over dotted identifiers, or byte by byte to the end of a
quoted text. Each look at the text may miss (`Stop.outside`), if the place is behind the text or inside
a character of several bytes.

From the end of a known text on, a scan stops where the characters say it does, and does not miss
(`scanWhile_append`, `wordEnd_append`, `stringEnd_append`).
-/

namespace ODataRequest

namespace ByteLexer

open Lexeme

/-- Why no tokens are given. -/
inductive Stop where
  /-- A piece was asked for that does not start or end at a character of the text. -/
  | outside
  /-- The text is not made of tokens. -/
  | malformed
deriving DecidableEq, Repr

/-- What is found in a text, which may not be there. -/
abbrev Scan := Except Stop

/-! ### Places -/

/-- The number of bytes in front of the first character that satisfies `p`. -/
def findByte? (p : Char → Bool) : List Char → Option Nat
  | [] => none
  | c :: cs => if p c then some 0 else (findByte? p cs).map (c.utf8Size + ·)

/-- The place behind a closing quote that is looked for from a byte on; two quotes in a row do not
close. -/
def closingQuote? (bytes : List UInt8) (i : Nat) : Option Nat :=
  if h : i < bytes.length then
    if bytes[i] = 0x27 then
      if bytes[i + 1]? = some 0x27 then closingQuote? bytes (i + 2) else some (i + 1)
    else closingQuote? bytes (i + 1)
  else none
termination_by bytes.length - i

section

variable (text : List Char)

/-- The text from a place on. -/
def behind (start : Nat) : Scan (List Char) :=
  match cutBytes? text start with
  | some (_, back) => .ok back
  | none => .error .outside

/-- The text between two places. -/
def between (start stop : Nat) : Scan (List Char) :=
  match slice? text start stop with
  | some piece => .ok piece
  | none => .error .outside

/-- The place where the characters that satisfy `p` end. -/
def scanWhile (p : Char → Bool) (start : Nat) : Scan Nat := do
  let rest ← behind text start
  return (findByte? (fun c => !p c) rest).elim (byteLength text) (start + ·)

/-- The place behind the quoted text that starts at a place. -/
def stringEnd (start : Nat) : Scan Nat :=
  match closingQuote? (text.flatMap String.utf8EncodeChar) (start + 1) with
  | some stop => .ok stop
  | none => .error .malformed

variable {text}

theorem behind_append (front rest : List Char) :
    behind (front ++ rest) (byteLength front) = .ok rest := by
  rw [behind, cutBytes?_append]

theorem exists_of_behind {start : Nat} {rest : List Char} (h : behind text start = .ok rest) :
    ∃ front, text = front ++ rest ∧ byteLength front = start := by
  unfold behind at h
  split at h
  · next front back hcut =>
    cases h
    exact ⟨front, cutBytes?_eq_some_iff.mp hcut⟩
  · cases h

theorem findByte?_eq (p : Char → Bool) (rest : List Char) (start : Nat) :
    (findByte? (fun c => !p c) rest).elim (start + byteLength rest) (start + ·) =
      start + byteLength (rest.takeWhile p) := by
  induction rest generalizing start with
  | nil => rfl
  | cons c rest ih =>
    by_cases hc : p c = true
    · have ih := ih (start + c.utf8Size)
      rw [findByte?, if_neg (by simp [hc]), List.takeWhile_cons_of_pos hc, byteLength_cons,
        byteLength_cons, ← Nat.add_assoc, ← Nat.add_assoc, ← ih]
      cases findByte? (fun c => !p c) rest with
      | none => rfl
      | some n => exact (Nat.add_assoc ..).symm
    · rw [findByte?, if_pos (by simpa using hc), List.takeWhile_cons_of_neg hc]
      rfl

theorem scanWhile_append (front rest : List Char) (p : Char → Bool) :
    scanWhile (front ++ rest) p (byteLength front) =
      .ok (byteLength (front ++ rest.takeWhile p)) := by
  rw [scanWhile, behind_append, except_ok_bind, except_pure, byteLength_append, byteLength_append,
    findByte?_eq]

theorem le_of_scanWhile {p : Char → Bool} {start stop : Nat}
    (h : scanWhile text p start = .ok stop) : start ≤ stop ∧ stop ≤ byteLength text := by
  obtain ⟨rest, hrest, -⟩ := except_bind_eq_ok.mp h
  obtain ⟨front, rfl, rfl⟩ := exists_of_behind hrest
  rw [scanWhile_append, Except.ok.injEq] at h
  have hprefix : byteLength rest =
      byteLength (rest.takeWhile p) + byteLength (rest.dropWhile p) := by
    rw [← byteLength_append, List.takeWhile_append_dropWhile]
  rw [byteLength_append] at h
  rw [byteLength_append]
  omega

variable (text)

/-- The place where dotted identifiers end, the first of which has been read up to `stop`. -/
def dottedEnd (stop : Nat) : Scan Nat := do
  let rest ← behind text stop
  if rest.head? = some '.' then
    let next ← behind text (stop + 1)
    if (next.head?.any isIdentifierStart) = true then
      match _h : scanWhile text isIdentifierPart (stop + 1) with
      | .error e => .error e
      | .ok stop' => dottedEnd stop'
    else return stop
  else return stop
termination_by byteLength text - stop
decreasing_by
  have hle := le_of_scanWhile _h
  omega

/-- The place where dotted identifiers end that start at a place. -/
def wordEnd (start : Nat) : Scan Nat := do
  dottedEnd text (← scanWhile text isIdentifierPart start)

end

/-! ### Scanning from the end of a known text -/

theorem between_append (front piece back : List Char) :
    between (front ++ (piece ++ back)) (byteLength front) (byteLength (front ++ piece)) =
      .ok piece := by
  have hslice : slice? (front ++ (piece ++ back)) (byteLength front) (byteLength (front ++ piece)) =
      some piece := slice?_eq_some_iff.mpr ⟨front, back, rfl, rfl, (byteLength_append ..).symm⟩
  rw [between, hslice]

theorem head?_dropWhile (p : Char → Bool) (cs : List Char) :
    ∀ c ∈ (cs.dropWhile p).head?, p c = false := by
  intro c hc
  have hnot := List.head?_dropWhile_not p cs
  rwa [hc] at hnot

/-- A word is a run of identifier characters and what follows behind a dot. -/
theorem take_wordLength (cs : List Char) : cs.take (wordLength cs) =
    cs.takeWhile isIdentifierPart ++ (cs.dropWhile isIdentifierPart).take
      (wordLength (cs.dropWhile isIdentifierPart)) := by
  induction cs with
  | nil => rfl
  | cons c cs ih =>
    by_cases hpart : isIdentifierPart c = true
    · rw [wordLength, if_pos hpart, List.take_succ_cons, ih, List.takeWhile_cons_of_pos hpart,
        List.dropWhile_cons_of_pos hpart, List.cons_append]
    · rw [List.takeWhile_cons_of_neg hpart, List.dropWhile_cons_of_neg hpart, List.nil_append]

theorem dottedEnd_eq {text : List Char} {stop : Nat} (front rest : List Char)
    (htext : text = front ++ rest) (hstop : stop = byteLength front)
    (hend : ∀ c ∈ rest.head?, isIdentifierPart c = false) :
    dottedEnd text stop = .ok (byteLength (front ++ rest.take (wordLength rest))) := by
  have hbehind : behind text stop = .ok rest := by rw [htext, hstop, behind_append]
  have hnone (h : wordLength rest = 0) :
      stop = byteLength (front ++ rest.take (wordLength rest)) := by
    rw [h, List.take_zero, List.append_nil, hstop]
  rw [dottedEnd, hbehind, except_ok_bind]
  cases rest with
  | nil => exact congrArg Except.ok (hnone rfl)
  | cons c more =>
    have hpart : ¬isIdentifierPart c = true := Bool.eq_false_iff.mp (hend c rfl)
    by_cases hdot : c = '.'
    · subst hdot
      have htext' : text = (front ++ ['.']) ++ more := by rw [htext, List.append_assoc]; rfl
      have hstop' : stop + 1 = byteLength (front ++ ['.']) := by
        rw [byteLength_append, hstop]
        rfl
      have hnext : behind text (stop + 1) = .ok more := by rw [htext', hstop', behind_append]
      rw [if_pos List.head?_cons, hnext, except_ok_bind]
      by_cases hstart : (more.head?.any isIdentifierStart) = true
      · -- the next identifier belongs to the word, and the loop goes on behind it
        have hscan : scanWhile text isIdentifierPart (stop + 1) =
            .ok (byteLength (front ++ ['.'] ++ more.takeWhile isIdentifierPart)) := by
          rw [htext', hstop', scanWhile_append]
        have hmore : text = (front ++ ['.'] ++ more.takeWhile isIdentifierPart) ++
            more.dropWhile isIdentifierPart := by
          rw [List.append_assoc, List.takeWhile_append_dropWhile, htext']
        have hrest := dottedEnd_eq _ _ hmore rfl (head?_dropWhile isIdentifierPart more)
        have hword : ('.' :: more).take (wordLength ('.' :: more)) =
            '.' :: more.take (wordLength more) := by
          rw [wordLength, if_neg hpart, if_pos ⟨rfl, hstart⟩, List.take_succ_cons]
        rw [if_pos hstart]
        split
        · next e he =>
          rw [hscan] at he
          cases he
        · next stop' hstop' =>
          rw [hscan, Except.ok.injEq] at hstop'
          rw [← hstop', hrest, hword, take_wordLength more]
          simp only [List.append_assoc, List.cons_append, List.nil_append]
      · rw [if_neg hstart]
        refine congrArg Except.ok (hnone ?_)
        rw [wordLength, if_neg hpart, if_neg fun h => hstart h.2]
    · rw [if_neg (by simpa using hdot)]
      refine congrArg Except.ok (hnone ?_)
      rw [wordLength, if_neg hpart, if_neg fun h => hdot h.1]
termination_by rest.length
decreasing_by
  subst_vars
  exact Nat.lt_succ_of_le (List.dropWhile_suffix _).length_le

theorem wordEnd_append (front rest : List Char) :
    wordEnd (front ++ rest) (byteLength front) =
      .ok (byteLength (front ++ rest.take (wordLength rest))) := by
  have htext : front ++ rest =
      (front ++ rest.takeWhile isIdentifierPart) ++ rest.dropWhile isIdentifierPart := by
    rw [List.append_assoc, List.takeWhile_append_dropWhile]
  have hdotted := dottedEnd_eq _ _ htext rfl (head?_dropWhile isIdentifierPart rest)
  rw [wordEnd, scanWhile_append, except_ok_bind, hdotted, List.append_assoc, ← take_wordLength]

/-! ### Quoted texts -/

/-- No other character has the byte of a quote in it. -/
theorem eq_quote_of_mem_utf8EncodeChar {c : Char} (h : 0x27 ∈ String.utf8EncodeChar c) : c = '\'' :=
  eq_of_mem_utf8EncodeChar (by decide) (by decide) h

/-- Bytes that are no quotes are passed. -/
theorem closingQuote?_skip (front bytes back : List UInt8) (h : 0x27 ∉ bytes) :
    closingQuote? (front ++ (bytes ++ back)) front.length =
      closingQuote? (front ++ (bytes ++ back)) (front ++ bytes).length := by
  induction bytes generalizing front with
  | nil => simp
  | cons b bytes ih =>
    rw [List.mem_cons, not_or] at h
    have ih := ih (front ++ [b]) h.2
    rw [closingQuote?, dif_pos (by simp), if_neg (by simpa using Ne.symm h.1)]
    simpa using ih

/-- The closing quote is where the text of a quoted text ends, character by character. -/
theorem closingQuote?_eq (front : List UInt8) (rest : List Char) :
    closingQuote? (front ++ rest.flatMap String.utf8EncodeChar) front.length =
      (quotedLength? rest).map fun n => front.length + byteLength (rest.take n) := by
  have hquote : String.utf8EncodeChar '\'' = [0x27] := by decide
  fun_induction quotedLength? rest generalizing front with
  | case1 =>
    rw [closingQuote?, dif_neg (by simp)]
    rfl
  | case2 cs ih =>
    have ih := ih (front ++ [0x27, 0x27])
    rw [List.append_assoc, List.length_append] at ih
    rw [List.flatMap_cons, List.flatMap_cons, hquote, closingQuote?, dif_pos (by simp),
      if_pos (by simp), if_pos (by simp)]
    refine ih.trans ?_
    rw [Option.map_map]
    refine congrArg (Option.map · _) (funext fun n => ?_)
    have hone : '\''.utf8Size = 1 := by decide
    simp only [Function.comp_apply, List.take_succ_cons, byteLength_cons, hone, List.length_cons,
      List.length_nil]
    omega
  | case3 cs hdouble =>
    have hnext : (front ++ 0x27 :: cs.flatMap String.utf8EncodeChar)[front.length + 1]? ≠
        some 0x27 := by
      rw [List.getElem?_append_right (by omega), Nat.add_sub_cancel_left, List.getElem?_cons_succ]
      intro hnext
      cases cs with
      | nil => cases hnext
      | cons d ds =>
        have hpos : 0 < (String.utf8EncodeChar d).length := by
          rw [String.length_utf8EncodeChar]
          exact d.utf8Size_pos
        rw [List.flatMap_cons, List.getElem?_append_left hpos] at hnext
        exact hdouble ds rfl (by rw [eq_quote_of_mem_utf8EncodeChar (List.mem_of_getElem? hnext)])
    rw [List.flatMap_cons, hquote, List.singleton_append, closingQuote?, dif_pos (by simp),
      if_pos (by simp), if_neg hnext]
    rfl
  | case4 c cs hdouble hc ih =>
    have ih := ih (front ++ String.utf8EncodeChar c)
    have hskip := closingQuote?_skip front (String.utf8EncodeChar c)
      (cs.flatMap String.utf8EncodeChar) fun h => hc (eq_quote_of_mem_utf8EncodeChar h)
    rw [List.append_assoc] at ih
    rw [List.flatMap_cons, hskip, ih, Option.map_map]
    refine congrArg (Option.map · _) (funext fun n => ?_)
    simp [String.length_utf8EncodeChar, Nat.add_assoc]

theorem length_flatMap_utf8EncodeChar (cs : List Char) :
    (cs.flatMap String.utf8EncodeChar).length = byteLength cs := by
  induction cs with
  | nil => rfl
  | cons c cs ih =>
    rw [List.flatMap_cons, List.length_append, String.length_utf8EncodeChar, ih, byteLength_cons]

theorem stringEnd_append (front rest : List Char) :
    stringEnd (front ++ '\'' :: rest) (byteLength front) =
      match quotedLength? rest with
      | some n => .ok (byteLength (front ++ '\'' :: rest.take n))
      | none => .error .malformed := by
  have hplace : byteLength front + 1 =
      ((front ++ ['\'']).flatMap String.utf8EncodeChar).length := by
    rw [length_flatMap_utf8EncodeChar, byteLength_append]
    rfl
  have hscan := closingQuote?_eq ((front ++ ['\'']).flatMap String.utf8EncodeChar) rest
  rw [← List.flatMap_append, List.append_assoc, List.singleton_append, ← hplace] at hscan
  rw [stringEnd, hscan]
  cases quotedLength? rest with
  | none => rfl
  | some n =>
    have hone : '\''.utf8Size = 1 := by decide
    simp [hone, Nat.add_assoc]

end ByteLexer

end ODataRequest
