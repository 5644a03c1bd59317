import LightTrack.Core.Event

/-! # Timestamps as text

`fmtTs` writes an instant the way every timestamp column stores it: UTC, nanosecond
digits, a trailing `Z`.
-/

namespace LightTrack

/-- A number in decimal, padded with zeros to `width` digits. -/
def padded (width n : ℕ) : String :=
  let digits := (toString n).toList
  String.ofList (List.replicate (width - digits.length) '0' ++ digits)

/-- The civil date of a day counted from 1970-01-01, in the proleptic Gregorian calendar. -/
def civilFromDays (day : Int) : Int × ℕ × ℕ :=
  -- years start in March, so that the leap day is the last of its year
  let z := day + 719468
  let era := z / 146097
  let doe := (z % 146097).toNat
  let yoe := (doe - doe / 1460 + doe / 36524 - doe / 146096) / 365
  let doy := doe - (365 * yoe + yoe / 4 - yoe / 100)
  let mp := (5 * doy + 2) / 153
  let d := doy - (153 * mp + 2) / 5 + 1
  let m := if mp < 10 then mp + 3 else mp - 9
  let y := (yoe : Int) + era * 400
  (if m ≤ 2 then y + 1 else y, m, d)

/-- The year: four digits, or a sign and at least four. -/
def fmtYear (y : Int) : String :=
  if 0 ≤ y ∧ y ≤ 9999 then padded 4 y.toNat
  else (if y < 0 then "-" else "+") ++ padded 4 y.natAbs

/-- `fmt_ts`. -/
def fmtTs (t : Time) : String :=
  let secs := t / Time.second
  let nanos := (t % Time.second).toNat
  let (y, m, d) := civilFromDays (secs / 86400)
  let sod := (secs % 86400).toNat
  fmtYear y ++ "-" ++ padded 2 m ++ "-" ++ padded 2 d ++ "T" ++ padded 2 (sod / 3600) ++ ":" ++
    padded 2 (sod / 60 % 60) ++ ":" ++ padded 2 (sod % 60) ++ "." ++ padded 9 nanos ++ "Z"

example : fmtTs 1780186034110948400 = "2026-05-31T00:07:14.110948400Z" := by decide +kernel

end LightTrack
