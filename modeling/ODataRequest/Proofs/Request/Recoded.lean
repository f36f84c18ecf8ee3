import ODataRequest.Proofs.Path.Resolved
import ODataRequest.Proofs.Request.Reader
import ODataRequest.Proofs.Text.Recoded

/-!
# ODataRequest.Proofs.Request.Recoded

Requests whose path has some of its characters percent-encoded. The segments of the path stay the same if
and only if each slash separates as it did before (`pathSegments_recoded`), and then so does the request
(`Request.read_recoded`); quotes and parentheses are the only characters that can make a difference. One
of them that is encoded without its counterpart does: the scanner that cuts the path then takes a slash
behind it to be inside (`Request.read_recoded_refused`).
-/

namespace ODataRequest

open Text (Recoded cuts)

/-! ### Segments -/

theorem decoded_eq_ok {cs : List Char} {s : String} :
    decoded (String.ofList cs) = .ok s ↔
      Text.unescape cs = some (s.toList.flatMap String.utf8EncodeChar) := by
  unfold decoded
  rw [← Text.percentDecode?_eq_some]
  cases Text.percentDecode? (String.ofList cs) <;> simp

/-- Parts are decoded to the texts whose bytes they stand for. -/
theorem mapM_decoded_eq_ok {parts : List (List Char)} {segments : List String} :
    parts.mapM (fun part => decoded (String.ofList part)) = .ok segments ↔
      parts.map Text.unescape = segments.map fun s => some (s.toList.flatMap String.utf8EncodeChar) := by
  induction parts generalizing segments with
  | nil => cases segments <;> simp
  | cons part parts ih =>
    simp only [List.mapM_cons, except_bind_eq_ok, decoded_eq_ok, ih]
    cases segments with
    | nil => simp
    | cons segment segments =>
      simp only [List.map_cons, List.cons.injEq]
      constructor
      · rintro ⟨s, hs, ss, hss, heq⟩
        cases heq
        exact ⟨hs, hss⟩
      · intro ⟨hs, hss⟩
        exact ⟨segment, hs, segments, hss, rfl⟩

/-- A path with characters encoded has the same segments if and only if each slash separates as it did
before. -/
theorem pathSegments_recoded {may : Char → Prop} {path path' : String} {segments : List String}
    (h : pathSegments path = .ok segments) (hrecoded : Recoded may path.toList path'.toList) :
    pathSegments path' = .ok segments ↔
      cuts .outermost path'.toList = cuts .outermost path.toList := by
  -- the slashes in front are not cut but dropped, in both paths alike
  obtain ⟨htrimmed, hcuts⟩ := hrecoded.dropSlashes
  unfold pathSegments Text.splitTopLevel at h ⊢
  rw [mapM_decoded_eq_ok] at h ⊢
  rw [← h, htrimmed.map_unescape_splitFrom, hcuts]

/-! ### Requests -/

namespace Request

variable {config : Config} {path : String} {query fragment : Option String} {d : Directory} {r : Request}

/-- Encoding characters of the path of an accepted request, whatever they are, does not change what is read
if each slash of the path separates as it did before. It always does if neither quotes nor parentheses are
encoded. -/
theorem read_recoded (h : ((read config path query fragment).runOn d).1 = .ok r) :
    (∀ path', Recoded (fun _ => True) path.toList path'.toList →
      cuts .outermost path'.toList = cuts .outermost path.toList →
        (read config path' query fragment).runOn d = (read config path query fragment).runOn d) ∧
    (∀ path', Recoded (fun c => c ∉ ['\'', '(', ')']) path.toList path'.toList →
      (read config path' query fragment).runOn d = (read config path query fragment).runOn d) := by
  -- everything but the segments is read from the query, which is the same
  obtain ⟨items, segments, -, -, hsegments, -⟩ := gives_read.mp (Resolution.gives_of_runOn h)
  have hsame : ∀ path', pathSegments path' = .ok segments →
      (read config path' query fragment).runOn d = (read config path query fragment).runOn d := by
    intro path' hpath'
    unfold read
    rw [hpath', hsegments]
  constructor
  · intro path' hrecoded hcuts
    exact hsame path' ((pathSegments_recoded hsegments hrecoded).mpr hcuts)
  · intro path' hrecoded
    have hcuts := hrecoded.cuts_eq_of_forall (fun _ hc => hc) .outermost
    exact hsame path' ((pathSegments_recoded hsegments hrecoded).mpr hcuts)

section Music

/-- A path with a slash and a letter of two bytes in a key. -/
private def rawPath : String := "Albums('é/B')/Tracks"

/-- The first letter and the one of two bytes are encoded. -/
private def lettersEncoded : String := "%41lbums('%C3%a9/B')/Tracks"

/-- The quotes are encoded. The slash between them still stands in parentheses. -/
private def quotesEncoded : String := "Albums(%27é/B%27)/Tracks"

/-- The closing parenthesis is encoded and the opening one is not. -/
private def groupLeftOpen : String := "Albums('é/B'%29/Tracks"

private theorem recoded_letters :
    Recoded (fun c => c ∉ ['\'', '(', ')']) rawPath.toList lettersEncoded.toList := by
  have hraw : rawPath.toList = ['A'] ++ "lbums('".toList ++ ['é'] ++ "/B')/Tracks".toList := by
    simp [rawPath]
  have hencoded : lettersEncoded.toList =
      ['%', '4', '1'] ++ "lbums('".toList ++ ['%', 'C', '3', '%', 'a', '9'] ++ "/B')/Tracks".toList := by
    simp [lettersEncoded]
  have hone : Text.Escapes (String.utf8EncodeChar 'A') ['%', '4', '1'] :=
    .cons (by decide) (by decide) .nil
  have htwo : Text.Escapes (String.utf8EncodeChar 'é') ['%', 'C', '3', '%', 'a', '9'] :=
    .cons (by decide) (by decide) (.cons (by decide) (by decide) .nil)
  rw [hraw, hencoded]
  exact (((Recoded.encoded (by decide) (by decide) (by decide) hone).append (.refl rfl)).append
    (.encoded (by decide) (by decide) (by decide) htwo)).append (.refl rfl)

private theorem recoded_quotes : Recoded (fun _ => True) rawPath.toList quotesEncoded.toList := by
  have hraw : rawPath.toList =
      "Albums(".toList ++ ['\''] ++ "é/B".toList ++ ['\''] ++ ")/Tracks".toList := by
    simp [rawPath]
  have hencoded : quotesEncoded.toList = "Albums(".toList ++ ['%', '2', '7'] ++ "é/B".toList ++
      ['%', '2', '7'] ++ ")/Tracks".toList := by
    simp [quotesEncoded]
  have hquote : Recoded (fun _ => True) ['\''] ['%', '2', '7'] :=
    .encoded trivial (by decide) (by decide) (.cons (by decide) (by decide) .nil)
  rw [hraw, hencoded]
  exact ((((Recoded.refl rfl).append hquote).append (.refl rfl)).append hquote).append (.refl rfl)

private theorem recoded_groupLeftOpen :
    Recoded (fun _ => True) rawPath.toList groupLeftOpen.toList := by
  have hraw : rawPath.toList = "Albums('é/B'".toList ++ [')'] ++ "/Tracks".toList := by
    simp [rawPath]
  have hencoded : groupLeftOpen.toList =
      "Albums('é/B'".toList ++ ['%', '2', '9'] ++ "/Tracks".toList := by
    simp [groupLeftOpen]
  have hclosing : Recoded (fun _ => True) [')'] ['%', '2', '9'] :=
    .encoded trivial (by decide) (by decide) (.cons (by decide) (by decide) .nil)
  rw [hraw, hencoded]
  exact ((Recoded.refl rfl).append hclosing).append (.refl rfl)

private theorem acceptedSegments_rawPath :
    acceptedSegments ((read .standard rawPath none none).runOn (.ofSource music)).1 =
      ["Albums", "Tracks"] := by
  decide +kernel

/-- Letters may be encoded, and both of the quotes. -/
theorem read_recoded_music :
    ∃ r resources, ((read .standard rawPath none none).runOn (.ofSource music)).1 = .ok r ∧
      r.address = .resource resources ∧ resources.map Resource.segment = ["Albums", "Tracks"] ∧
      Recoded (fun _ => True) rawPath.toList quotesEncoded.toList ∧
      (read .standard quotesEncoded none none).runOn (.ofSource music) =
        (read .standard rawPath none none).runOn (.ofSource music) ∧
      Recoded (fun c => c ∉ ['\'', '(', ')']) rawPath.toList lettersEncoded.toList ∧
      (read .standard lettersEncoded none none).runOn (.ofSource music) =
        (read .standard rawPath none none).runOn (.ofSource music) := by
  obtain ⟨r, resources, hread, haddress, hresources⟩ :=
    exists_of_acceptedSegments (by decide) acceptedSegments_rawPath
  obtain ⟨hany, hharmless⟩ := read_recoded hread
  exact ⟨r, resources, hread, haddress, hresources,
    recoded_quotes, hany quotesEncoded recoded_quotes (by decide +kernel),
    recoded_letters, hharmless lettersEncoded recoded_letters⟩

/-- A parenthesis may not be encoded on its own: the whole path is then one segment, which is refused. -/
theorem read_recoded_refused :
    ¬∀ (s : Source) (config : Config) (path path' : String) (query fragment : Option String)
      (r : Request) (resources : List Resource),
        ((read config path query fragment).runOn (.ofSource s)).1 = .ok r →
        r.address = .resource resources →
        Recoded (fun _ => True) path.toList path'.toList →
          ((read config path' query fragment).runOn (.ofSource s)).1 = .ok r := by
  intro h
  obtain ⟨r, resources, hread, haddress, hresources⟩ :=
    exists_of_acceptedSegments (by decide) acceptedSegments_rawPath
  have hsame := h music .standard rawPath groupLeftOpen none none r resources hread haddress
    recoded_groupLeftOpen
  have hrefused : acceptedSegments
      ((read .standard groupLeftOpen none none).runOn (.ofSource music)).1 = [] := by
    decide +kernel
  rw [hsame, acceptedSegments, haddress, Address.path, hresources] at hrefused
  cases hrefused

end Music

end Request

end ODataRequest
