import PageLoads.Number.Printed

/-!
# Distribution tables

The cumulative distribution of samples, as rows of a value and the number of samples up to it. Samples
are either rows of their own or counted in buckets, each named by its upper bound; the bucket of the
smallest samples is named by these themselves, so that an outlying minimum stays visible. The counts may
stand in any order: the rows are put into ascending order before the counts are summed up. What a table
needs of its values is the class `Sample`, so the same table can be drawn of doubles and of exact
numbers.
-/

namespace PageLoads

/-- What a distribution table needs to know of its samples. -/
class Sample (α : Type) where
  lesser : α → α → α
  same : α → α → Bool
  /-- `roundUp bucket v` is the least multiple of the bucket size that is not below `v`. -/
  roundUp : α → α → α
  /-- One spelling for values that differ in spelling only. -/
  settle : α → α
  le : α → α → Bool
  /-- The bucket sizes that leave the samples apart. -/
  unbucketed : α → Bool
  fraction : Nat → Nat → α

instance : Sample Binary64 where
  lesser := Binary64.minimum
  same := Binary64.same
  roundUp bucket v := (v / bucket).ceil * bucket
  settle v := if v.magnitude = 0 then Binary64.zero else v
  le := Binary64.totalLe
  unbucketed bucket := bucket.le Binary64.zero
  fraction := Binary64.fraction

namespace Distribution

section

variable {α : Type}

def smallest? [Sample α] : List α → Option α
  | [] => none
  | v :: vs => some (vs.foldl Sample.lesser v)

def bucketOf [Sample α] (bucket smallest v : α) : α :=
  Sample.settle (if Sample.same v smallest then smallest else Sample.roundUp bucket v)

def countOne [DecidableEq α] (v : α) : List (α × Nat) → List (α × Nat)
  | [] => [(v, 1)]
  | (w, n) :: counts => if v = w then (w, n + 1) :: counts else (w, n) :: countOne v counts

def tally [DecidableEq α] (vs : List α) : List (α × Nat) :=
  vs.foldl (fun counts v => countOne v counts) []

/-- The buckets that occur, each with the number of its samples. -/
def buckets [DecidableEq α] [Sample α] (bucket : α) (samples : List α) : List (α × Nat) :=
  match smallest? samples with
  | none => []
  | some smallest => tally (samples.map (bucketOf bucket smallest))

/-- Replaces each count by the sum of the counts up to it. -/
def accumulate (sum : Nat) : List (α × Nat) → List (α × Nat)
  | [] => []
  | (v, n) :: rest => (v, sum + n) :: accumulate (sum + n) rest

/-- Counted values in ascending order, each with the number of all that are counted up to it. -/
def cumulate [Sample α] (counts : List (α × Nat)) : List (α × Nat) :=
  accumulate 0 (counts.mergeSort fun a b => Sample.le a.1 b.1)

/-- Each sample with its rank, the first being one. -/
def ranked (samples : List α) : List (α × Nat) :=
  samples.zipIdx 1

/-- The rows of a table: one per bucket, or one per sample without buckets. -/
def rows [DecidableEq α] [Sample α] (bucket : α) (samples : List α) : List (α × Nat) :=
  if Sample.unbucketed bucket then ranked samples else cumulate (buckets bucket samples)

/-- The points of rows: each value with the fraction of all samples up to it. -/
def points [Sample α] (total : Nat) (rows : List (α × Nat)) : List (α × α) :=
  rows.map fun (value, count) => (value, Sample.fraction count total)

/-- The table of samples in ascending order; a bucket size of zero or less means no buckets. -/
def table [DecidableEq α] [Sample α] (bucket : α) (samples : List α) : List (α × α) :=
  points samples.length (rows bucket samples)

end

/-- A point of a table: a value and the fraction of the samples up to it. -/
abbrev Point := Binary64 × Binary64

/-- One line per comment, after a number sign, and one per point, in two columns. -/
def text (comments : List String) (points : List Point) : String :=
  String.join (comments.map fun comment => s!"# {comment}\n") ++
    String.join (points.map fun (value, fraction) => value.fixed 6 ++ "    " ++ fraction.fixed 6 ++ "\n")

end Distribution

end PageLoads
