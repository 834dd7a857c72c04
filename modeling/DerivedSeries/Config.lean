import DerivedSeries.Interpolation

/-!
# Configuration

The settings that all functions of a registry share.
-/

namespace DerivedSeries

structure Config where
  /-- How a merged series fills a time at which it has no sample. -/
  interpolation : Interpolation := .lerp
  /-- Only merge samples that exist at a time. -/
  skipMissing : Bool := false
  /-- Report rankings at the level for users. -/
  logRankings : Bool := false
  /-- The greatest number of input series; zero sets no limit. -/
  maxInputSeries : UInt64 := 100000
  deriving DecidableEq, Repr, Inhabited

namespace Config

/-- The policy for missing samples, if they are filled at all. -/
def fill (c : Config) : Option Interpolation :=
  if c.skipMissing then none else some c.interpolation

/-- A policy other than the default is refused when missing samples are skipped: it would never be
used. -/
def validate (c : Config) : Except Error Unit :=
  if c.skipMissing ∧ c.interpolation ≠ .lerp then
    .error (.idleInterpolation c.interpolation.name)
  else .ok ()

/-- Refuses more series than the limit allows. -/
def checkSize (c : Config) (count : Nat) : Except Error Unit :=
  if c.maxInputSeries ≠ 0 ∧ c.maxInputSeries.toNat < count then
    .error (.tooManySeries count c.maxInputSeries)
  else .ok ()

end Config
end DerivedSeries
