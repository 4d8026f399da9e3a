import LineScript.Bytes

/-!
# Points in time

A plain scalar can be a date, or a date with a time of day. The year has four digits, all other parts
one or two. A time after the letter T ends with its zone; a time after spaces has none.
-/

namespace LineScript.Yaml.Timestamp

/-- A number of one or two digits and what follows it. -/
def number? : Bytes → Option (Nat × Bytes)
  | [] => none
  | a :: rest =>
    if !Bytes.isDigit a then none
    else
      match rest with
      | b :: rest' =>
        if Bytes.isDigit b then some ((a.toNat - 0x30) * 10 + (b.toNat - 0x30), rest')
        else some (a.toNat - 0x30, rest)
      | [] => some (a.toNat - 0x30, [])

/-- What follows a mark. -/
def after? (mark : UInt8) : Bytes → Option Bytes
  | [] => none
  | b :: rest => if b = mark then some rest else none

/-- The number of days of a month. -/
def daysIn (year month : Nat) : Nat :=
  if month = 2 then
    if year % 4 = 0 && (year % 100 ≠ 0 || year % 400 = 0) then 29 else 28
  else if month = 4 || month = 6 || month = 9 || month = 11 then 30
  else 31

/-- What follows a date. -/
def afterDate? (text : Bytes) : Option Bytes := do
  let digits := text.takeWhile Bytes.isDigit
  guard (digits.length = 4)
  let year := digits.foldl (fun n b => n * 10 + (b.toNat - 0x30)) 0
  let (month, rest) ← number? (← after? 0x2d (text.drop 4))
  guard (1 ≤ month && month ≤ 12)
  let (day, rest) ← number? (← after? 0x2d rest)
  guard (1 ≤ day && day ≤ daysIn year month)
  return rest

/-- What follows a fraction of a second, which may be missing. -/
def afterFraction : Bytes → Bytes
  | mark :: d :: rest =>
    if (mark = 0x2e || mark = 0x2c) && Bytes.isDigit d then rest.dropWhile Bytes.isDigit
    else mark :: d :: rest
  | rest => rest

/-- What follows a time of day. -/
def afterClock? (text : Bytes) : Option Bytes := do
  let (hour, rest) ← number? text
  guard (hour < 24)
  let (minute, rest) ← number? (← after? 0x3a rest)
  guard (minute < 60)
  let (second, rest) ← number? (← after? 0x3a rest)
  guard (second < 60)
  return afterFraction rest

/-- Is a text the zone of a time: the letter Z, or a sign with hours and minutes of two digits? -/
def isZone : Bytes → Bool
  | [0x5a] => true
  | [sign, a, b, 0x3a, c, d] =>
    (sign = 0x2b || sign = 0x2d)
      && [a, b, c, d].all Bytes.isDigit
      && (a.toNat - 0x30) * 10 + (b.toNat - 0x30) ≤ 24
      && (c.toNat - 0x30) * 10 + (d.toNat - 0x30) ≤ 60
  | _ => false

/-- Is a text a point in time? -/
def holds (text : Bytes) : Bool :=
  match afterDate? text with
  | none => false
  | some [] => true
  | some (b :: rest) =>
    if b = 0x54 || b = 0x74 then (afterClock? rest).any isZone
    else if b = 0x20 then (afterClock? (rest.dropWhile (· == 0x20))).any List.isEmpty
    else false

end LineScript.Yaml.Timestamp
