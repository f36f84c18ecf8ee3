import ODataRequest.Request.Error
import ODataRequest.Text.Cut
import ODataRequest.Text.Digits

/-!
# ODataRequest.Query.Option

The kinds of system query options, and the options whose values need no model: numbers, truth
values, formats and levels.
-/

namespace ODataRequest

/-- The kind of a system query option. -/
inductive OptionKind where
  | filter
  | expand
  | select
  | orderBy
  | top
  | skip
  | count
  | search
  | format
  | id
  | skipToken
  | levels
deriving DecidableEq, Repr

namespace OptionKind

/-- All kinds in the order in which options are written. -/
def all : List OptionKind :=
  [.filter, .expand, .select, .orderBy, .top, .skip, .count, .search, .format, .id, .skipToken,
    .levels]

/-- The name of an option. -/
def name : OptionKind → String
  | .filter => "$filter"
  | .expand => "$expand"
  | .select => "$select"
  | .orderBy => "$orderby"
  | .top => "$top"
  | .skip => "$skip"
  | .count => "$count"
  | .search => "$search"
  | .format => "$format"
  | .id => "$id"
  | .skipToken => "$skiptoken"
  | .levels => "$levels"

/-- The kind of a name, the case of letters aside if that is wanted. -/
def ofName? (ignoringCase : Bool) (name : String) : Option OptionKind :=
  all.find? fun kind =>
    if ignoringCase then Text.equalIgnoringCase kind.name.toList name.toList else kind.name == name

/-- The error for a value that an option cannot have. -/
def wrongValue (kind : OptionKind) (text : String) : GrammarError :=
  .wrongOptionValue kind.name text

end OptionKind

/-! ### Numbers and truth values -/

/-- The value of a string of digits up to a greatest one. -/
def boundedNumber? (greatest : Nat) (text : String) : Option Nat :=
  (Text.digits? text.toList).filter (· ≤ greatest)

/-- A non-negative number of 64 bits. -/
def parseNumber (kind : OptionKind) (text : String) : Except GrammarError Nat :=
  match boundedNumber? (Nat.pow 2 64 - 1) text with
  | some n => .ok n
  | none => .error (kind.wrongValue text)

/-- `true` or `false`. -/
def parseCount (text : String) : Except GrammarError Bool :=
  if text = "true" then .ok true
  else if text = "false" then .ok false
  else .error (OptionKind.count.wrongValue text)

/-! ### Levels -/

/-- How many levels of a recursive expansion are wanted. -/
inductive Levels where
  | max
  | number (n : Nat)
deriving DecidableEq, Repr

namespace Levels

/-- Read `max` or a number of 32 bits that is not above a limit. -/
def parse (limit : Nat) (text : String) : Except GrammarError Levels :=
  if text = "max" then .ok .max
  else
    match boundedNumber? (min limit (Nat.pow 2 32 - 1)) text with
    | some n => .ok (.number n)
    | none => .error (OptionKind.levels.wrongValue text)

/-- The text of levels. -/
def text : Levels → String
  | .max => "max"
  | .number n => toString n

end Levels

/-! ### Formats -/

/-- The format of the response: one of three short names, or a media type. -/
inductive Format where
  | json
  | xml
  | atom
  | custom (mediaType : String)
deriving DecidableEq, Repr

namespace Format

/-- A type and a subtype, both non-empty, with one slash between them; parameters may follow behind
a semicolon. -/
def isMediaType (cs : List Char) : Bool :=
  match Text.pieces '/' (cs.takeWhile (· != ';')) with
  | [type, subtype] => !type.isEmpty && !subtype.isEmpty
  | _ => false

/-- Read a format; short names may be in any case. -/
def parse (text : String) : Except GrammarError Format :=
  let cs := text.toList
  if Text.equalIgnoringCase cs "json".toList then .ok .json
  else if Text.equalIgnoringCase cs "xml".toList then .ok .xml
  else if Text.equalIgnoringCase cs "atom".toList then .ok .atom
  else if isMediaType cs then .ok (.custom text)
  else .error (OptionKind.format.wrongValue text)

/-- The text of a format. -/
def text : Format → String
  | .json => "json"
  | .xml => "xml"
  | .atom => "atom"
  | .custom mediaType => mediaType

end Format

end ODataRequest
