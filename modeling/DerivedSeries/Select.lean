import DerivedSeries.Config
import DerivedSeries.Evaluation
import DerivedSeries.Text.Blank

/-!
# Selecting series

The functions that pick the series that rank highest. When as many are asked for as there are, the
input comes back in its own order and nothing is ranked.
-/

namespace DerivedSeries.Select

/-- Reads how many series to pick, at least one. -/
def count (params : List String) : Except Error Nat :=
  match params with
  | [] => .error .missingCount
  | raw :: _ =>
    let text := Text.trim raw
    if text.isEmpty then .error (.blankCount raw)
    else
      match Text.readInt64 text with
      | .error fault => .error (.unreadableCount raw fault)
      | .ok k => if k ≤ 0 then .error (.nonPositiveCount k) else .ok k.toInt.toNat

/-- The entry of a series at a position of the input. -/
def entry (w : Window) (c : Criterion) (index : Nat) (s : Series) : Evaluation RankEntry := do
  let view ← Evaluation.ofExcept (View.ofSeries w .identity s)
  let value := (c.scan view).resolve
  if value.isNone then Evaluation.report (.unobserved index s.metric)
  return ⟨value, index⟩

/-- The entries of series, the first of which stands at `index`. -/
def entriesFrom (w : Window) (c : Criterion) (index : Nat) :
    List Series → Evaluation (List RankEntry)
  | [] => return []
  | s :: ss => return (← entry w c index s) :: (← entriesFrom w c (index + 1) ss)

/-- The ranking of series by a criterion. -/
def table (w : Window) (c : Criterion) (ss : List Series) : Evaluation (List RankEntry) :=
  return Ranking.sort (← entriesFrom w c 0 ss)

/-- Takes the series that the entries of a ranking point to out of their slots, in order. A slot is
empty once its series is taken. -/
def take (slots : List (Option Series)) : List RankEntry → Except Error (List Series)
  | [] => .ok []
  | e :: es =>
    match slots[e.index]?.join with
    | none => .error (.unavailableSeries e.index)
    | some s => do return s :: (← take (slots.set e.index none) es)

/-- The `k` series that rank highest, highest first. -/
def highest (criterion : Criterion) (c : Config) (w : Window) (input : Input)
    (params : List String) : Evaluation (List Series) := do
  let k ← Evaluation.ofExcept (count params)
  let ss := input.series
  if ss.isEmpty then Evaluation.fail .noInput
  else if k ≥ ss.length then
    Evaluation.report (.unranked k ss.length)
    return ss
  else
    let ranking ← table w criterion ss
    Evaluation.report (.ranked c.logRankings criterion ranking)
    if ranking.length < k then Evaluation.fail (.shortRanking ranking.length k)
    else Evaluation.ofExcept (take (ss.map some) (ranking.take k))

end DerivedSeries.Select
