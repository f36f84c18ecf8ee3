import ODataRequest.Config
import ODataRequest.Text.Cut
import ODataRequest.Text.Digits

/-!
# ODataRequest.Config.Reader

Reading a configuration in TOML. Each line sets one of four keys to a number or a truth value. A key
that is not set keeps its standard value; any other key, a key that is set twice, and a value of
another type are refused. Since a table, an array or a text is never the value of a key here, the
lines can be read one by one.
-/

namespace ODataRequest.Config

/-- Blank space inside a line. -/
def isSpace (c : Char) : Bool :=
  c == ' ' || c == '\t'

/-- A line without blank space at its start. -/
def skipSpace (cs : List Char) : List Char :=
  cs.dropWhile isSpace

/-- A character that a comment may hold. -/
def standsInComment (c : Char) : Bool :=
  c == '\t' || (0x20 ≤ c.toNat && c.toNat ≠ 0x7F)

/-- Is a text blank, or a comment with blank space in front? -/
def isEmptyOrComment (cs : List Char) : Bool :=
  match skipSpace cs with
  | [] => true
  | c :: cs => c == '#' && cs.all standsInComment

/-- A character of a key without quotes. -/
def isKeyPart (c : Char) : Bool :=
  c.isAlphanum || c == '_' || c == '-'

/-- The characters that a letter or mark behind a backslash stands for. -/
def escapes : List (Char × Char) :=
  [('b', '\x08'), ('t', '\t'), ('n', '\n'), ('f', '\x0c'), ('r', '\r'), ('e', '\x1b'), ('"', '"'),
    ('\\', '\\')]

/-- The character whose code stands at the start of a text in so many hexadecimal digits, and what
follows it. -/
def codePoint? (count : Nat) (cs : List Char) : Option (Char × List Char) := do
  let digits := cs.take count
  let code ← Text.valueInBase? 16 digits
  if digits.length = count ∧ code.isValidChar then some (Char.ofNat code, cs.drop count) else none

/-- The character that is written behind a backslash, and what follows it. -/
def escape? : List Char → Option (Char × List Char)
  | [] => none
  | c :: cs =>
    if c = 'x' then codePoint? 2 cs
    else if c = 'u' then codePoint? 4 cs
    else if c = 'U' then codePoint? 8 cs
    else (escapes.lookup c).map fun e => (e, cs)

theorem escape?_length {cs rest : List Char} {c : Char} (h : escape? cs = some (c, rest)) :
    rest.length < cs.length := by
  have drop_le (count : Nat) (ds : List Char) (h : codePoint? count ds = some (c, rest)) :
      rest.length < ds.length + 1 := by
    simp only [codePoint?, Option.bind_eq_bind, Option.bind_eq_some_iff] at h
    obtain ⟨code, _, h⟩ := h
    split at h
    · cases h
      simp only [List.length_drop]
      omega
    · cases h
  cases cs with
  | nil => cases h
  | cons d ds =>
    simp only [escape?] at h
    simp only [List.length_cons]
    split at h
    · exact drop_le 2 ds h
    · split at h
      · exact drop_le 4 ds h
      · split at h
        · exact drop_le 8 ds h
        · obtain ⟨e, _, he⟩ := Option.map_eq_some_iff.1 h
          cases he
          omega

/-- A text behind its opening quotation mark, with its escapes undone, and what follows the closing
mark. -/
def quoted? : List Char → Option (List Char × List Char)
  | [] => none
  | c :: cs =>
    if c = '"' then some ([], cs)
    else if c = '\\' then
      match _h : escape? cs with
      | none => none
      | some (e, rest) => (quoted? rest).map fun r => (e :: r.1, r.2)
    else (quoted? cs).map fun r => (c :: r.1, r.2)
termination_by cs => cs.length
decreasing_by
  · have := escape?_length ‹escape? cs = some _›
    simp only [List.length_cons]
    omega
  · simp only [List.length_cons]
    omega

/-- The key at the start of a line and what follows it. A key may stand in quotation marks, where
escapes are undone, or in apostrophes, where there are none. -/
def key? (cs : List Char) : Option (List Char × List Char) :=
  match cs with
  | '"' :: cs => quoted? cs
  | '\'' :: cs => Text.cutAt? '\'' cs
  | cs =>
    let name := cs.takeWhile isKeyPart
    if name.isEmpty then none else some (name, cs.dropWhile isKeyPart)

/-- The truth value or the digits at the start of a text, and what follows. -/
def scalar (cs : List Char) : List Char × List Char :=
  let stands := fun c : Char => c.isAlphanum || c == '_' || c == '+' || c == '-'
  (cs.takeWhile stands, cs.dropWhile stands)

/-- A truth value. -/
def bool? (cs : List Char) : Option Bool :=
  if cs = "true".toList then some true
  else if cs = "false".toList then some false
  else none

/-- Digits with underscores, each of which has to stand between two digits. -/
def withoutUnderscores? (cs : List Char) : Option (List Char) :=
  let groups := Text.pieces '_' cs
  if groups.any List.isEmpty then none else some groups.flatten

/-- The value of digits of a base. -/
def digitsOfBase? (base : Nat) (cs : List Char) : Option Nat := do
  Text.valueInBase? base (← withoutUnderscores? cs)

/-- A decimal number without a sign; only zero itself starts with a zero. -/
def decimal? (cs : List Char) : Option Nat :=
  match cs with
  | '0' :: _ :: _ => none
  | cs => digitsOfBase? 10 cs

/-- A number that is not negative: decimal with an optional sign, hexadecimal, octal or binary. -/
def number? : List Char → Option Nat
  | '0' :: 'x' :: cs => digitsOfBase? 16 cs
  | '0' :: 'o' :: cs => digitsOfBase? 8 cs
  | '0' :: 'b' :: cs => digitsOfBase? 2 cs
  | '+' :: cs => decimal? cs
  | '-' :: cs => (decimal? cs).filter (· == 0)
  | cs => decimal? cs

/-- A configuration with a key set to a value. -/
def set? (config : Config) (key value : List Char) : Option Config :=
  if key = "max_nesting_depth".toList then
    ((number? value).filter (· < Nat.pow 2 64)).map fun n => { config with maxNesting := n }
  else if key = "max_levels".toList then
    ((number? value).filter (· < Nat.pow 2 32)).map fun n => { config with maxLevels := n }
  else if key = "case_insensitive_system_options".toList then
    (bool? value).map fun b => { config with ignoringCase := b }
  else if key = "allow_missing_dollar".toList then
    (bool? value).map fun b => { config with dollarOptional := b }
  else none

/-- A configuration behind some lines, and the keys that they set. -/
structure Reading where
  config : Config
  keys : List (List Char)

/-- Read `key = value`, with blank space anywhere between the parts. -/
def assignment? (r : Reading) (line : List Char) : Option Reading := do
  let (key, rest) ← key? line
  match skipSpace rest with
  | '=' :: rest =>
    let (value, rest) := scalar (skipSpace rest)
    if isEmptyOrComment rest && !r.keys.contains key then
      return { config := ← set? r.config key value, keys := key :: r.keys }
    else none
  | _ => none

/-- Read a line. -/
def line? (r : Reading) (line : List Char) : Option Reading :=
  if isEmptyOrComment line then some r else assignment? r (skipSpace line)

/-- The lines of a text; a carriage return in front of a line feed belongs to the line end. -/
def lines (cs : List Char) : List (List Char) :=
  let lines := Text.pieces '\n' cs
  lines.dropLast.map (fun line => (Text.before? ['\r'] line).getD line) ++ lines.getLast?.toList

/-- Read a configuration. A byte order mark at the start is passed over. -/
def ofToml? (text : String) : Option Config :=
  let cs := text.toList
  let cs := if cs.head? = some '\ufeff' then cs.tail else cs
  ((lines cs).foldlM line? ⟨.standard, []⟩).map (·.config)

end ODataRequest.Config
