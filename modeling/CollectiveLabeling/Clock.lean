import CollectiveLabeling.Step

/-!
The date that entries are stamped with, and the readings from which elapsed times are taken.
-/

namespace CollectiveLabeling

structure Date where
  year : Nat
  month : Nat
  day : Nat
  hour : Nat
  minute : Nat
  second : Nat

namespace Date

def twoDigits (n : Nat) : String :=
  if n < 10 then "0" ++ toString n else toString n

def fields (d : Date) : List String :=
  [toString d.year, twoDigits d.month, twoDigits d.day, twoDigits d.hour, twoDigits d.minute,
    twoDigits d.second]

-- As in the entries of a log.
def stamp (d : Date) : String :=
  "-".intercalate (d.fields.take 3) ++ " " ++ ":".intercalate (d.fields.drop 3)

-- As in the name of a file.
def compact (d : Date) : String :=
  String.join (d.fields.take 3) ++ "_" ++ String.join (d.fields.drop 3)

end Date

-- Readings are taken from `coming`; when it is empty they are zero.
structure Clock where
  date : Date
  coming : List Float := []

namespace Clock

def read : Step Clock Float := do
  let c ← get
  match c.coming with
  | [] => return 0.0
  | x :: rest =>
    set { c with coming := rest }
    return x

-- The time since the reading `started`.
def elapsed (started : Float) : Step Clock Float := do
  return (← read) - started

end Clock
end CollectiveLabeling
