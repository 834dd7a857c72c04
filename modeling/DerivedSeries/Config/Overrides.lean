import DerivedSeries.Config

/-!
# Overrides

Each setting can be overridden by a text from outside, such as an environment variable. A text that
cannot be read leaves its setting alone.
-/

namespace DerivedSeries

/-- The texts that are set, one for each setting. -/
structure Overrides where
  interpolation : Option String := none
  skipMissing : Option String := none
  logRankings : Option String := none
  maxInputSeries : Option String := none
  deriving DecidableEq, Repr, Inhabited

namespace Overrides

/-- A truth value is one of two words, as they are. -/
def readBool : String → Option Bool
  | "true" => some true
  | "false" => some false
  | _ => none

/-- What a text reads as, or the current setting. -/
def pick {α : Type} (read : String → Option α) (text : Option String) (current : α) : α :=
  (text.bind read).getD current

end Overrides

/-- The settings after overriding. -/
def Config.override (c : Config) (o : Overrides) : Config where
  interpolation :=
    Overrides.pick (fun s => (Interpolation.parse s).toOption) o.interpolation c.interpolation
  skipMissing := Overrides.pick Overrides.readBool o.skipMissing c.skipMissing
  logRankings := Overrides.pick Overrides.readBool o.logRankings c.logRankings
  maxInputSeries :=
    Overrides.pick (fun s => (Text.readUInt64 s).toOption) o.maxInputSeries c.maxInputSeries

end DerivedSeries
