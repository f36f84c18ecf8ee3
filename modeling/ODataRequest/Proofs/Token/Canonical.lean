import ODataRequest.Proofs.Token.Literal

/-!
# ODataRequest.Proofs.Token.Canonical

Canonical literals. The literal of a value that has been read is read as this value again, and it is
one token (`PrimitiveKind.literal_canonical`), however the value had been spelled before: with a
sign or zeros in front, in capital letters, with a prefix or without one.
-/

namespace ODataRequest

/-- A word that stands is the only token of its text. -/
theorem Word.tokenize_of_stands {w : Word} (h : w.Stands) :
    tokenize w.text = .ok [⟨w.kind, w.text, 0, false⟩,
      ⟨.endOfText, "", Lexeme.byteLength w.text.toList, false⟩] := by
  have htokens := Word.tokensFrom_of_lexes (h [] Lexeme.bounded_nil) 0 false
  rw [List.append_nil, Lexeme.tokensFrom, Option.map_some, Nat.zero_add] at htokens
  unfold tokenize
  rw [htokens]

namespace PrimitiveKind

/-- The literal of a valid value is valid, and it is a literal for the reader of tokens too. -/
theorem literal_canonical {kind : PrimitiveKind} {text : String} {v : PrimitiveValue}
    (hexact : kind.isExact = true) (h : kind.validate text = .ok v) :
    kind.validate v.literal = .ok v ∧
      tokenize v.literal = .ok [⟨.literal, v.literal, 0, false⟩,
        ⟨.endOfText, "", Lexeme.byteLength v.literal.toList, false⟩] := by
  rcases validate_eq_ok_iff.mp h with ⟨-, rfl⟩ | ⟨-, hread⟩
  · have hnull : (Word.mk .literal "null").Stands :=
      Word.stands_of_lexeme? (c := 'n') rfl (by decide) (by decide +kernel)
    exact ⟨validate_eq_ok_iff.mpr (Or.inl ⟨rfl, rfl⟩), Word.tokenize_of_stands hnull⟩
  · have hkind := PrimitiveValue.kind?_of_read? hread
    exact ⟨PrimitiveValue.validate_literal hkind hexact,
      Word.tokenize_of_stands (PrimitiveValue.literal_stands hkind hexact)⟩

/-- Digits in capital letters, and what is written for them. -/
theorem literal_canonical_guid : ∃ v,
    PrimitiveKind.guid.validate "5FE3CD1C-7BB3-4CFA-A7C2-1F2E5C7AB0DE" = .ok v ∧
      v.literal = "5fe3cd1c-7bb3-4cfa-a7c2-1f2e5c7ab0de" ∧
        PrimitiveKind.guid.validate v.literal = .ok v ∧
          tokenize v.literal = .ok [⟨.literal, v.literal, 0, false⟩, ⟨.endOfText, "", 36, false⟩] := by
  have hliteral : (PrimitiveKind.guid.validate "5FE3CD1C-7BB3-4CFA-A7C2-1F2E5C7AB0DE").toOption.map
      PrimitiveValue.literal = some "5fe3cd1c-7bb3-4cfa-a7c2-1f2e5c7ab0de" := by decide +kernel
  cases hvalid : PrimitiveKind.guid.validate "5FE3CD1C-7BB3-4CFA-A7C2-1F2E5C7AB0DE" with
  | error e =>
    rw [hvalid] at hliteral
    cases hliteral
  | ok v =>
    rw [hvalid] at hliteral
    have hv : v.literal = "5fe3cd1c-7bb3-4cfa-a7c2-1f2e5c7ab0de" := Option.some.inj hliteral
    have hlength : Lexeme.byteLength v.literal.toList = 36 := by
      rw [hv]
      decide +kernel
    obtain ⟨hagain, htokens⟩ := literal_canonical (by decide) hvalid
    rw [hlength] at htokens
    exact ⟨v, rfl, hv, hagain, htokens⟩

end PrimitiveKind

end ODataRequest
