import TrustlistCore.Library.Fixed

namespace TrustlistCore.Library

def isLeap (year : ℕ) : Bool :=
  year % 4 = 0 ∧ (year % 100 ≠ 0 ∨ year % 400 = 0)

def daysInMonth (year month : ℕ) : ℕ :=
  if month = 2 then (if isLeap year then 29 else 28)
  else if month = 4 ∨ month = 6 ∨ month = 9 ∨ month = 11 then 30
  else 31

-- What calendar and clock show; the offset counts the microseconds east of UTC.
structure Reading where
  year : ℕ
  month : ℕ
  day : ℕ
  hour : ℕ
  minute : ℕ
  second : ℕ
  microsecond : ℕ
  offset : Option ℤ
  deriving DecidableEq, Repr

-- The offset is less than a day.
structure Reading.Valid (reading : Reading) : Prop where
  year : 1 ≤ reading.year ∧ reading.year ≤ 9999
  month : 1 ≤ reading.month ∧ reading.month ≤ 12
  day : 1 ≤ reading.day ∧ reading.day ≤ daysInMonth reading.year reading.month
  hour : reading.hour < 24
  minute : reading.minute < 60
  second : reading.second < 60
  microsecond : reading.microsecond < 10 ^ 6
  offset : ∀ offset ∈ reading.offset, offset.natAbs < 24 * 60 * 60 * 10 ^ 6

instance (reading : Reading) : Decidable reading.Valid :=
  decidable_of_iff
    ((1 ≤ reading.year ∧ reading.year ≤ 9999) ∧ (1 ≤ reading.month ∧ reading.month ≤ 12) ∧
      (1 ≤ reading.day ∧ reading.day ≤ daysInMonth reading.year reading.month) ∧
      reading.hour < 24 ∧ reading.minute < 60 ∧ reading.second < 60 ∧
      reading.microsecond < 10 ^ 6 ∧
      ∀ offset ∈ reading.offset, offset.natAbs < 24 * 60 * 60 * 10 ^ 6)
    ⟨fun ⟨h1, h2, h3, h4, h5, h6, h7, h8⟩ => ⟨h1, h2, h3, h4, h5, h6, h7, h8⟩,
      fun h => ⟨h.year, h.month, h.day, h.hour, h.minute, h.second, h.microsecond, h.offset⟩⟩

structure DateTime extends Reading where
  valid : toReading.Valid
  deriving DecidableEq, Repr

namespace IsoTime

def ofReading (reading : Reading) : Option DateTime :=
  if h : reading.Valid then some ⟨reading, h⟩ else none

def two (n : ℕ) : List Char :=
  Fixed.write 10 2 n

def fractionText (microsecond : ℕ) : List Char :=
  if microsecond = 0 then [] else '.' :: Fixed.write 10 6 microsecond

def secondText (second microsecond : ℕ) : List Char :=
  ':' :: two second ++ fractionText microsecond

-- The seconds of an offset are left out where there are none.
def offsetText : Option ℤ → List Char
  | none => []
  | some offset =>
      let total := offset.natAbs
      (if offset < 0 then '-' else '+') :: two (total / 10 ^ 6 / 60 / 60) ++
        ':' :: two (total / 10 ^ 6 / 60 % 60) ++
        if total / 10 ^ 6 % 60 = 0 ∧ total % 10 ^ 6 = 0 then []
        else secondText (total / 10 ^ 6 % 60) (total % 10 ^ 6)

def dateText (reading : Reading) : List Char :=
  Fixed.write 10 4 reading.year ++ '-' :: two reading.month ++ '-' :: two reading.day

def clockText (reading : Reading) : List Char :=
  two reading.hour ++ ':' :: two reading.minute ++
    secondText reading.second reading.microsecond

def isoformat (time : DateTime) : List Char :=
  dateText time.toReading ++ 'T' :: clockText time.toReading ++ offsetText time.offset

section Read

def digits (width : ℕ) (text : List Char) : Option (ℕ × List Char) :=
  Fixed.take Fixed.decimalValue 10 width text

-- Past the separator between two parts, if the text has separators.
def next (separator : Char) (separated : Bool) (text : List Char) : Option (List Char) :=
  if separated then
    if text.head? = some separator then some text.tail else none
  else some text

-- Digits past the sixth are read over.
def fraction : List Char → Option ℕ
  | [] => some 0
  | c :: text =>
      if (c = '.' ∨ c = ',') ∧ text ≠ [] ∧ text.all Char.isDigit then
        Fixed.read Fixed.decimalValue 10 ((text ++ List.replicate 6 '0').take 6)
      else none

structure Clock where
  hour : ℕ
  minute : ℕ
  second : ℕ
  microsecond : ℕ
  deriving DecidableEq, Repr

-- `HH[:?MM[:?SS[{.,}f+]]]`
def clock (text : List Char) : Option Clock := do
  let (hour, rest) ← digits 2 text
  let separated := rest.head? = some ':'
  if rest = [] then some ⟨hour, 0, 0, 0⟩
  else
    let (minute, rest) ← digits 2 (← next ':' separated rest)
    if rest = [] then some ⟨hour, minute, 0, 0⟩
    else
      let (second, rest) ← digits 2 (← next ':' separated rest)
      (fraction rest).map fun microsecond => ⟨hour, minute, second, microsecond⟩

def Clock.total (clock : Clock) : ℕ :=
  ((clock.hour * 60 + clock.minute) * 60 + clock.second) * 10 ^ 6 + clock.microsecond

def isZone (c : Char) : Bool :=
  c = '+' || c = '-' || c = 'Z'

def offset : List Char → Option (Option ℤ)
  | [] => some none
  | ['Z'] => some (some 0)
  | sign :: text =>
      if sign = 'Z' then none
      else (clock text).map fun clock =>
        some (if sign = '-' then -(clock.total : ℤ) else clock.total)

-- The time of day is all before the first sign of a zone.
def time (text : List Char) : Option (Clock × Option ℤ) := do
  let clock ← clock (text.takeWhile fun c => !isZone c)
  let offset ← offset (text.dropWhile fun c => !isZone c)
  some (clock, offset)

-- Days before the first of January, counted from the year 1.
def daysBefore (year : ℕ) : ℕ :=
  (year - 1) * 365 + (year - 1) / 4 - (year - 1) / 100 + (year - 1) / 400

-- The weekday of the first of January, with 0 for Monday.
def firstWeekday (year : ℕ) : ℕ :=
  daysBefore year % 7

-- The day so many days after the first of the month, within the months that are left.
def fromMonth (year : ℕ) : ℕ → ℕ → ℕ × ℕ × ℕ
  | 0, days => (year + 1, 1, days + 1)
  | months + 1, days =>
      if days < daysInMonth year (12 - months) then (year, 12 - months, days + 1)
      else fromMonth year months (days - daysInMonth year (12 - months))

def hasLongYear (year : ℕ) : Bool :=
  firstWeekday year = 3 ∨ firstWeekday year = 2 ∧ isLeap year

-- The first week of a year is the one with its first Thursday.
def ofWeek (year week weekday : ℕ) : Option (ℕ × ℕ × ℕ) :=
  if (1 ≤ year ∧ year ≤ 9999) ∧ 1 ≤ week ∧ (week ≤ 52 ∨ week = 53 ∧ hasLongYear year) ∧
      1 ≤ weekday ∧ weekday ≤ 7 then
    let first : ℤ := if firstWeekday year ≤ 3 then -firstWeekday year else 7 - firstWeekday year
    let days := first + (week - 1) * 7 + (weekday - 1)
    some (if days < 0 then (year - 1, 12, (32 + days).toNat) else fromMonth year 12 days.toNat)
  else none

-- `YYYY-MM-DD`, `YYYYMMDD`, `YYYY-Www`, `YYYYWww`, `YYYY-Www-D` or `YYYYWwwD`
def date (text : List Char) : Option (ℕ × ℕ × ℕ) := do
  let (year, rest) ← digits 4 text
  let separated := rest.head? = some '-'
  let rest ← next '-' separated rest
  if rest.head? = some 'W' then
    let (week, rest) ← digits 2 rest.tail
    if rest = [] then ofWeek year week 1
    else
      let (weekday, rest) ← digits 1 (← next '-' separated rest)
      if rest = [] then ofWeek year week weekday else none
  else
    let (month, rest) ← digits 2 rest
    let (day, rest) ← digits 2 (← next '-' separated rest)
    if rest = [] then some (year, month, day) else none

-- Where the date ends.
def separatorAt (text : List Char) : ℕ :=
  if text.length = 7 then 7
  else if (text.drop 4).head? = some '-' then
    if (text.drop 5).head? = some 'W' then
      if (text.drop 8).head? = some '-' ∧ ¬ (text.drop 10).head?.any Char.isDigit then 10 else 8
    else 10
  else if (text.drop 4).head? = some 'W' then
    let digits := ((text.drop 7).takeWhile Char.isDigit).length
    if digits < 2 then 7 + digits else if digits % 2 = 1 then 7 else 8
  else 8

def fromIsoformat (text : List Char) : Option DateTime := do
  let (year, month, day) ← date (text.take (separatorAt text))
  let (clock, offset) ←
    if text.length ≤ separatorAt text then some (⟨0, 0, 0, 0⟩, none)
    else time (text.drop (separatorAt text + 1))
  ofReading
    { year, month, day, hour := clock.hour, minute := clock.minute, second := clock.second,
      microsecond := clock.microsecond, offset }

end Read

end IsoTime

end TrustlistCore.Library
