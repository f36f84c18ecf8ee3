import ODataRequest.Token.Basic

/-!
# ODataRequest.Proofs.Token.Bytes

Places in a text that are given by numbers of bytes. A text can be cut at a place if the bytes in
front of it are those of whole characters (`cutBytes?_eq_some_iff`), and the piece between two places
(`slice?`) is there if the text can be cut at both and they are in order.
-/

namespace ODataRequest

namespace Lexeme

/-! ### Numbers of bytes -/

@[simp] theorem byteLength_nil : byteLength [] = 0 := rfl

@[simp] theorem byteLength_cons (c : Char) (cs : List Char) :
    byteLength (c :: cs) = c.utf8Size + byteLength cs := rfl

@[simp] theorem byteLength_append (as bs : List Char) :
    byteLength (as ++ bs) = byteLength as + byteLength bs := by
  induction as with
  | nil => simp
  | cons a as ih => rw [List.cons_append, byteLength_cons, byteLength_cons, ih, Nat.add_assoc]

/-- A string has as many bytes as its characters. -/
theorem byteLength_toList (s : String) : byteLength s.toList = s.utf8ByteSize := by
  have hlength (cs : List Char) : byteLength cs = (String.ofList cs).utf8ByteSize := by
    induction cs with
    | nil => simp
    | cons c cs ih =>
      rw [byteLength_cons, ih, String.ofList_cons, String.utf8ByteSize_append,
        String.utf8ByteSize_singleton]
  rw [hlength, String.ofList_toList]

/-! ### Bytes of a character -/

theorem utf8EncodeChar_of_lt {c : Char} (h : c.toNat < 0x80) :
    String.utf8EncodeChar c = [UInt8.ofNat c.toNat] := by
  unfold String.utf8EncodeChar
  exact if_pos (Nat.le_of_lt_succ h)

/-- A character of one byte is this byte; all bytes of a longer one are above those. -/
theorem toNat_of_mem_utf8EncodeChar {c : Char} {b : UInt8} (h : b ∈ String.utf8EncodeChar c) :
    b.toNat = c.toNat ∨ 0x80 ≤ b.toNat := by
  have hbyte {n : Nat} (hlow : 0x80 ≤ n) (hn : n < 256) : 0x80 ≤ (UInt8.ofNat n).toNat := by
    rwa [UInt8.toNat_ofNat_of_lt' hn]
  unfold String.utf8EncodeChar at h
  dsimp only at h
  split at h
  · next hone =>
    left
    rw [List.mem_singleton.mp h]
    exact UInt8.toNat_ofNat_of_lt' (Nat.lt_of_le_of_lt hone (by decide))
  · right
    split at h
    · simp only [List.mem_cons, List.not_mem_nil, or_false] at h
      obtain h | h := h <;> exact h ▸ hbyte (by omega) (by omega)
    split at h
    · simp only [List.mem_cons, List.not_mem_nil, or_false] at h
      obtain h | h | h := h <;> exact h ▸ hbyte (by omega) (by omega)
    · simp only [List.mem_cons, List.not_mem_nil, or_false] at h
      obtain h | h | h | h := h <;> exact h ▸ hbyte (by omega) (by omega)

/-- No other character has the byte of a character of one byte in it. -/
theorem eq_of_mem_utf8EncodeChar {c d : Char} {b : UInt8} (hd : d.toNat < 0x80)
    (hb : b.toNat = d.toNat) (h : b ∈ String.utf8EncodeChar c) : c = d := by
  obtain heq | hle := toNat_of_mem_utf8EncodeChar h
  · exact Char.toNat_inj.mp (heq.symm.trans hb)
  · omega

/-! ### Pieces of a text -/

/-- The text in front of a place and the text from it on. -/
def cutBytes? : List Char → Nat → Option (List Char × List Char)
  | cs, 0 => some ([], cs)
  | [], _ + 1 => none
  | c :: cs, n + 1 =>
    if c.utf8Size ≤ n + 1 then
      (cutBytes? cs (n + 1 - c.utf8Size)).map fun parts => (c :: parts.1, parts.2)
    else none

/-- The text between two places. -/
def slice? (cs : List Char) (start stop : Nat) : Option (List Char) := do
  let (upTo, _) ← cutBytes? cs stop
  let (_, piece) ← cutBytes? upTo start
  return piece

theorem cutBytes?_append (front back : List Char) :
    cutBytes? (front ++ back) (byteLength front) = some (front, back) := by
  induction front with
  | nil => cases back <;> rfl
  | cons c front ih =>
    have hsize := c.utf8Size_pos
    obtain ⟨n, hn⟩ := Nat.exists_eq_add_one_of_ne_zero
      (show c.utf8Size + byteLength front ≠ 0 by omega)
    have hfront : n + 1 - c.utf8Size = byteLength front := by omega
    rw [byteLength_cons, hn, List.cons_append, cutBytes?, if_pos (by omega), hfront, ih,
      Option.map_some]

/-- A text is cut at the places that whole characters stand in front of. -/
theorem cutBytes?_eq_some_iff {cs front back : List Char} {n : Nat} :
    cutBytes? cs n = some (front, back) ↔ cs = front ++ back ∧ byteLength front = n := by
  constructor
  · intro h
    fun_induction cutBytes? cs n generalizing front back with
    | case1 cs =>
      cases h
      exact ⟨rfl, rfl⟩
    | case2 n => cases h
    | case3 c cs n hle ih =>
      obtain ⟨⟨front', back'⟩, hcut, heq⟩ := Option.map_eq_some_iff.mp h
      cases heq
      obtain ⟨rfl, hlength⟩ := ih hcut
      refine ⟨rfl, ?_⟩
      rw [byteLength_cons, hlength]
      omega
    | case4 c cs n hle => cases h
  · rintro ⟨rfl, rfl⟩
    exact cutBytes?_append front back

/-- There is a piece between two places if it starts and ends at characters. -/
theorem slice?_eq_some_iff {cs piece : List Char} {start stop : Nat} :
    slice? cs start stop = some piece ↔ ∃ front back, cs = front ++ (piece ++ back) ∧
      byteLength front = start ∧ start + byteLength piece = stop := by
  simp only [slice?, Option.pure_def, Option.bind_eq_bind, Option.bind_eq_some_iff, Prod.exists,
    cutBytes?_eq_some_iff, Option.some.injEq, exists_eq_right]
  constructor
  · rintro ⟨upTo, back, ⟨rfl, rfl⟩, front, rfl, rfl⟩
    exact ⟨front, back, List.append_assoc .., rfl, (byteLength_append ..).symm⟩
  · rintro ⟨front, back, rfl, rfl, rfl⟩
    exact ⟨front ++ piece, back, ⟨(List.append_assoc ..).symm, byteLength_append ..⟩, front, rfl, rfl⟩

end Lexeme

end ODataRequest
