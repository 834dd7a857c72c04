import DerivedSeries.OrderedMap
import DerivedSeries.Sample

/-!
# Series

A series is a named and tagged set of samples, at most one for each second. Input comes in groups
of series, one group for each query; the flattened order, group by group, is the one that
positions and ties refer to.
-/

namespace DerivedSeries

/-- What identifies a series: its metric, its tags, and the tags that were aggregated away. -/
structure Metadata where
  metric : String := ""
  tags : OrderedMap String String := .empty
  aggregatedTags : List String := []
  deriving DecidableEq, Inhabited

structure Series extends Metadata where
  samples : OrderedMap Timestamp Sample := .empty
  deriving DecidableEq, Inhabited

namespace Series

/-- The samples as points, in ascending order of time. -/
def points (s : Series) : List Point :=
  s.samples.entries.map fun e => ⟨e.1, e.2⟩

/-- Sets the sample at a time, new or not. -/
def insert (s : Series) (p : Point) : Series :=
  { s with samples := s.samples.insert p.timestamp p.value }

def insertAll (s : Series) (ps : List Point) : Series :=
  ps.foldl insert s

def withTag (s : Series) (key value : String) : Series :=
  { s with tags := s.tags.insert key value }

/-- The same series without its samples. -/
def blank (s : Series) : Series :=
  { s with samples := .empty }

def size (s : Series) : Nat := s.samples.size

/-- Changes every sample and no time. -/
def mapSamples (f : Sample → Sample) (s : Series) : Series :=
  { s with samples := s.samples.mapValues f }

@[simp] theorem toMetadata_insert (s : Series) (p : Point) :
    (s.insert p).toMetadata = s.toMetadata := rfl

@[simp] theorem toMetadata_insertAll (s : Series) (ps : List Point) :
    (s.insertAll ps).toMetadata = s.toMetadata := by
  unfold insertAll
  induction ps generalizing s with
  | nil => rfl
  | cons p ps ih => rw [List.foldl_cons, ih, toMetadata_insert]

end Series

/-- Series in the groups of the queries that they come from. -/
abbrev Input := List (List Series)

namespace Input

/-- Every series, group by group. -/
def series (input : Input) : List Series :=
  List.flatten input

def size (input : Input) : Nat :=
  input.series.length

/-- The first series of the first group. -/
def first? (input : Input) : Option Series :=
  input.head?.bind List.head?

end Input
end DerivedSeries
