import PageLoads.Fault
import PageLoads.Number.Decimal
import PageLoads.Text.Blank
import PageLoads.Text.Split

/-!
# Durations

Virtual times are written as hours, minutes and seconds between colons, the seconds possibly with a
fraction, and are kept as seconds. Clock texts go the other way: they write milliseconds in four
fields, so no clock text is a duration.
-/

namespace PageLoads.Duration

open PageLoads.Text

/-- A field of whole hours or minutes; blanks about it are ignored. -/
def wholeField (text : String) (field : List Char) : Except Fault Int :=
  match Decimal.signed? (UInt64.size / 2 - 1) (trim field) with
  | some n => .ok n
  | none => .error (.format none (.badField (String.ofList field) text))

def secondsField (text : String) (field : List Char) : Except Fault Binary64 :=
  match Decimal.binary64? (trim field) with
  | some x => .ok x
  | none => .error (.format none (.badSeconds (String.ofList field) text))

def seconds (hours minutes : Int) (rest : Binary64) : Binary64 :=
  Binary64.ofInt hours * Binary64.ofNat 3600 + Binary64.ofInt minutes * Binary64.ofNat 60 + rest

def parse (text : String) : Except Fault Binary64 :=
  match splitAt ':' (trim text.toList) with
  | [first, second, third] => do
    let hours ← wholeField text first
    let minutes ← wholeField text second
    let rest ← secondsField text third
    let value := seconds hours minutes rest
    if Binary64.zero.lt value then .ok value
    else .error (.range none (.notPositive text value))
  | _ => .error (.format none (.notDuration text))

def padded (width n : Nat) : List Char :=
  let digits := Nat.toDigits 10 n
  List.replicate (width - digits.length) '0' ++ digits

def clock (milliseconds : UInt64) : String :=
  let ms := milliseconds.toNat
  String.ofList (padded 2 (ms / 3600000) ++ ':' :: padded 2 (ms % 3600000 / 60000) ++
    ':' :: padded 2 (ms % 60000 / 1000) ++ ':' :: padded 3 (ms % 1000))

end PageLoads.Duration
