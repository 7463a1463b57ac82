import ContainerBuild.Text.Number
import ContainerBuild.Text
import ContainerBuild.Time.Calendar

/-!
# Points in time

A point in time is a number of seconds after the start of 1970 and nanoseconds beyond it; a leap
second has a thousand million nanoseconds more. It is read from and written as a date and a time of
day with an offset. Reading is lenient: blanks may stand before the numbers, the signs between them
and the offset, a blank may take the place of the letter between date and time, and numbers may have
fewer digits than usual. Writing is always for the offset zero.
-/

namespace ContainerBuild

structure Instant where
  seconds : Int
  nanos : Nat
  deriving DecidableEq, Repr

namespace Instant

def yearRange : Int × Int := (-262143, 262142)

def secondsRange : Int × Int := (-8334601228800, 8210266876799)

def ofSeconds? (seconds : Int) : Option Instant :=
  if secondsRange.1 ≤ seconds ∧ seconds ≤ secondsRange.2 then some ⟨seconds, 0⟩ else none

/-- Up to `width` digits, at least one, after blanks. -/
def takeNumber (width : Nat) (cs : List Char) : Option (Nat × List Char) :=
  let cs := Text.trimStartChars cs
  let digits := (cs.takeWhile Char.isDigit).take width
  (Text.digits? 10 digits).map fun n => (n, cs.drop digits.length)

/-- A year: four digits at most, or any number of them after a sign. -/
def takeYear (cs : List Char) : Option (Int × List Char) :=
  match Text.trimStartChars cs with
  | '-' :: rest =>
    let digits := rest.takeWhile Char.isDigit
    (Text.digits? 10 digits).map fun n => (-(n : Int), rest.drop digits.length)
  | '+' :: rest =>
    let digits := rest.takeWhile Char.isDigit
    (Text.digits? 10 digits).map fun n => ((n : Int), rest.drop digits.length)
  | cs => (takeNumber 4 cs).map fun (n, rest) => ((n : Int), rest)

def takeSign (c : Char) (cs : List Char) : Option (List Char) :=
  match Text.trimStartChars cs with
  | d :: rest => if d = c then some rest else none
  | [] => none

/-- A fraction of a second in nanoseconds; digits after the ninth do not count. -/
def takeFraction (cs : List Char) : Option (Nat × List Char) :=
  match cs with
  | '.' :: rest =>
    let digits := rest.takeWhile Char.isDigit
    let kept := digits.take 9
    (Text.digits? 10 kept).map fun n => (n * Nat.pow 10 (9 - kept.length), rest.drop digits.length)
  | _ => some (0, cs)

/-- The minutes of an offset: two digits, the first of them at most five. -/
def takeOffsetMinutes (cs : List Char) : Option (Nat × List Char) :=
  match cs with
  | a :: b :: rest =>
    if '0' ≤ a ∧ a ≤ '5' ∧ b.isDigit then
      some ((a.toNat - '0'.toNat) * 10 + (b.toNat - '0'.toNat), rest)
    else none
  | _ => none

/-- An offset in seconds: a letter or word for none, or a sign with hours and minutes. -/
def takeOffset (cs : List Char) : Option (Int × List Char) :=
  match Text.trimStartChars cs with
  | 'Z' :: rest => some (0, rest)
  | 'z' :: rest => some (0, rest)
  | sign :: rest =>
    match sign :: rest with
    | u :: t :: c :: more =>
      if u.toUpper = 'U' ∧ t.toUpper = 'T' ∧ c.toUpper = 'C' then some (0, more)
      else
        if sign = '+' ∨ sign = '-' ∨ sign = '−' then
          match rest with
          | a :: b :: rest =>
            if a.isDigit && b.isDigit then
              let hours := (a.toNat - '0'.toNat) * 10 + (b.toNat - '0'.toNat)
              let rest := rest.dropWhile fun x => x == ':' || Text.isBlank x
              (takeOffsetMinutes rest).bind fun (minutes, rest) =>
                let size : Int := (hours * 3600 + minutes * 60 : Nat)
                if hours < 24 then some (if sign = '+' then size else -size, rest) else none
            else none
          | _ => none
        else none
    | _ => none
  | [] => none

def ofChars? (cs : List Char) : Option Instant := do
  let (year, cs) ← takeYear cs
  let cs ← takeSign '-' cs
  let (month, cs) ← takeNumber 2 cs
  let cs ← takeSign '-' cs
  let (day, cs) ← takeNumber 2 cs
  let cs ← match cs with
    | 'T' :: rest => some rest
    | 't' :: rest => some rest
    | ' ' :: rest => some rest
    | _ => none
  let (hour, cs) ← takeNumber 2 cs
  let cs ← takeSign ':' cs
  let (minute, cs) ← takeNumber 2 cs
  let cs ← takeSign ':' cs
  let (second, cs) ← takeNumber 2 cs
  let (nanos, cs) ← takeFraction cs
  let (offset, cs) ← takeOffset cs
  let date : Date := ⟨year, month, day⟩
  if !(Text.trimStartChars cs).isEmpty then none
  if !date.isValid then none
  if year < yearRange.1 ∨ yearRange.2 < year then none
  if 23 < hour ∨ 59 < minute ∨ 60 < second then none
  let leap := second = 60
  let timeOfDay : Nat := hour * 3600 + minute * 60 + (if leap then 59 else second)
  let seconds := date.toDays * 86400 + timeOfDay - offset
  if seconds < secondsRange.1 ∨ secondsRange.2 < seconds then none
  return ⟨seconds, nanos + (if leap then 1000000000 else 0)⟩

def ofText? (s : String) : Option Instant :=
  ofChars? s.toList

def padded (width n : Nat) : String :=
  let digits := Nat.toDigits 10 n
  String.ofList (List.replicate (width - digits.length) '0' ++ digits)

/-- A year has four digits; one outside of these has a sign as well. -/
def yearText (year : Int) : String :=
  if 0 ≤ year ∧ year ≤ 9999 then padded 4 year.toNat
  else (if year < 0 then "-" else "+") ++ padded 4 year.natAbs

/-- The fraction of a second with three, six or nine digits, as few as hold it. -/
def fractionText (nanos : Nat) : String :=
  if nanos = 0 then ""
  else if nanos % 1000000 = 0 then "." ++ padded 3 (nanos / 1000000)
  else if nanos % 1000 = 0 then "." ++ padded 6 (nanos / 1000)
  else "." ++ padded 9 nanos

def text (t : Instant) : String :=
  let days := t.seconds.fdiv 86400
  let timeOfDay := (t.seconds - days * 86400).toNat
  let date := Date.ofDays days
  let second := timeOfDay % 60 + t.nanos / 1000000000
  yearText date.year ++ "-" ++ padded 2 date.month ++ "-" ++ padded 2 date.day ++ "T" ++
    padded 2 (timeOfDay / 3600) ++ ":" ++ padded 2 (timeOfDay / 60 % 60) ++ ":" ++
    padded 2 second ++ fractionText (t.nanos % 1000000000) ++ "Z"

end Instant
end ContainerBuild
