import Remap.Plan.Compile
import Remap.Run.Execute

/-!
# Profiling rules

Rules are compiled once and run over samples in turn, again and again. Every run is timed by whoever
holds the clock; here the runs are laid out and the times summed up.
-/

namespace Remap.Profile

/-- Why rules are not profiled. -/
inductive Error where
  | noSamples
  | zeroIterations
  | compile (errors : List Diagnostic)

def Error.message : Error → String
  | noSamples => "no samples to profile against"
  | zeroIterations => "iterations must be at least 1"
  | compile errors => "rules do not compile (" ++ toString errors.length ++ " diagnostics)"

/-- Whether there is anything to profile. -/
def check (samples : List Value) (iterations : Nat) : Except Error Unit :=
  if samples.isEmpty then .error .noSamples
  else if iterations = 0 then .error .zeroIterations
  else .ok ()

/-- The next samples in turn, of which `rest` comes before the samples start over. -/
def turns (samples : List Value) : Nat → List Value → List Value
  | 0, _ => []
  | n + 1, v :: rest => v :: turns samples n rest
  | n + 1, [] =>
    match samples with
    | [] => []
    | v :: rest => v :: turns samples n rest

/-- The samples of so many runs. -/
def schedule (samples : List Value) (iterations : Nat) : List Value :=
  turns samples iterations samples

/-- How many runs over some inputs end with errors. -/
def failedRuns (plan : Plan) (inputs : List Value) : Nat :=
  inputs.countP fun v => !(Run.execute plan v).isSuccess

/-- What times of runs come to. -/
structure Summary where
  least : Nat
  mean : Nat
  percentile95 : Nat
  greatest : Nat

/-- The place of a percentile among so many sorted values, counted from one: the least place with at
least that share of the values up to it. -/
def rank (percent count : Nat) : Nat := max 1 ((percent * count + 99) / 100)

/-- The least value such that at least a share of the values are at or below it. -/
def nearestRank (sorted : List Nat) (percent : Nat) : Nat :=
  sorted.getD (rank percent sorted.length - 1) 0

def summarize (times : List Nat) : Summary :=
  let sorted := times.mergeSort
  { least := sorted.headD 0
    mean := times.foldl (· + ·) 0 / max 1 times.length
    percentile95 := nearestRank sorted 95
    greatest := sorted.getLastD 0 }

def Summary.isOrdered (s : Summary) : Bool :=
  s.least ≤ s.mean && s.mean ≤ s.greatest && s.percentile95 ≤ s.greatest

/-- A profile of rules; times are in microseconds. -/
structure Report where
  compileTime : Nat
  summary : Summary
  runs : Nat
  failedRuns : Nat

def Report.ofTimes (compileTime : Nat) (times : List Nat) (failedRuns : Nat) : Report :=
  ⟨compileTime, summarize times, times.length, failedRuns⟩

def Report.report (r : Report) : Value :=
  let count (n : Nat) : Value := .number (Float.ofNat n)
  .object
    [("compileMicros", count r.compileTime), ("iterations", count r.runs),
      ("minMicros", count r.summary.least), ("meanMicros", count r.summary.mean),
      ("p95Micros", count r.summary.percentile95), ("maxMicros", count r.summary.greatest),
      ("itemsProcessed", count r.runs), ("failedRuns", count r.failedRuns)]

end Remap.Profile
