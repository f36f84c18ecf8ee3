/-!
# ODataRequest.Config

How requests are read: limits, and how strictly the names of system query options are taken.
-/

namespace ODataRequest

/-- The configuration of a reading. -/
structure Config where
  /-- How deep expressions, searches and expansions may nest. -/
  maxNesting : Nat
  /-- The greatest number of levels of a recursive expansion. -/
  maxLevels : Nat
  /-- Are option names taken in any case? -/
  ignoringCase : Bool
  /-- May the dollar sign of an option name be left out? -/
  dollarOptional : Bool
deriving DecidableEq, Repr

/-- The configuration without any settings. -/
def Config.standard : Config :=
  { maxNesting := 100, maxLevels := 100, ignoringCase := false, dollarOptional := false }

end ODataRequest
