import TrustlistCore.Library.IsoTime

namespace TrustlistCore.Library.IsoTime

theorem decimal_digits : ∀ digit < 10,
    Fixed.decimalValue (Nat.digitChar digit) = some digit :=
  fun _ h => Fixed.decimalValue_digitChar h

theorem digits_write {width n : ℕ} (h : n < 10 ^ width) (rest : List Char) :
    digits width (Fixed.write 10 width n ++ rest) = some (n, rest) :=
  Fixed.take_write decimal_digits h rest

theorem digits_two {n : ℕ} (h : n < 100) (rest : List Char) :
    digits 2 (two n ++ rest) = some (n, rest) :=
  digits_write h rest

theorem next_cons (separator : Char) (rest : List Char) :
    next separator true (separator :: rest) = some rest := by
  simp [next]

theorem fraction_fractionText {microsecond : ℕ} (h : microsecond < 10 ^ 6) :
    fraction (fractionText microsecond) = some microsecond := by
  unfold fractionText
  by_cases hzero : microsecond = 0
  · rw [if_pos hzero, hzero]
    rfl
  · have hlength := Fixed.length_write 10 6 microsecond
    have hne : Fixed.write 10 6 microsecond ≠ [] := by
      intro hnil
      rw [hnil] at hlength
      exact absurd hlength (by decide)
    have hall : (Fixed.write 10 6 microsecond).all Char.isDigit = true :=
      List.all_eq_true.mpr fun c hc => Fixed.isDigit_write hc
    rw [if_neg hzero, fraction, if_pos ⟨Or.inl rfl, hne, hall⟩, List.take_left' hlength]
    exact Fixed.read_write decimal_digits h

-- Hours and minutes alone, as an offset may be written.
theorem clock_minutes {hour minute : ℕ} (hhour : hour < 100) (hminute : minute < 100) :
    clock (two hour ++ ':' :: two minute) = some ⟨hour, minute, 0, 0⟩ := by
  have hlast : digits 2 (two minute) = some (minute, []) := by
    have h := digits_two hminute []
    rwa [List.append_nil] at h
  simp [clock, digits_two hhour, next_cons, hlast]

theorem clock_seconds {hour minute second microsecond : ℕ} (hhour : hour < 100)
    (hminute : minute < 100) (hsecond : second < 100) (hmicrosecond : microsecond < 10 ^ 6) :
    clock (two hour ++ ':' :: two minute ++ secondText second microsecond) =
      some ⟨hour, minute, second, microsecond⟩ := by
  simp [clock, secondText, List.append_assoc, digits_two hhour, digits_two hminute,
    digits_two hsecond, next_cons, fraction_fractionText hmicrosecond]

theorem offset_of_clock {sign : Char} (hsign : sign = '+' ∨ sign = '-') {text : List Char}
    {c : Clock} (h : clock text = some c) :
    offset (sign :: text) =
      some (some (if sign = '-' then -(c.total : ℤ) else c.total)) := by
  have hne : sign ≠ 'Z' := by
    rcases hsign with rfl | rfl
    · decide
    · decide
  unfold offset
  split
  · rename_i heq
    exact absurd heq (List.cons_ne_nil _ _)
  · rename_i heq
    exact absurd (List.cons.inj heq).1 hne
  · rename_i _ heq
    obtain ⟨rfl, rfl⟩ := List.cons.inj heq
    rw [if_neg hne, h]
    rfl

theorem offset_offsetText {east : Option ℤ}
    (h : ∀ offset ∈ east, offset.natAbs < 24 * 60 * 60 * 10 ^ 6) :
    offset (offsetText east) = some east := by
  cases east with
  | none => rfl
  | some east =>
      have hlt := h east rfl
      set total := east.natAbs with htotal
      have hhour : total / 10 ^ 6 / 60 / 60 < 100 := by omega
      have hminute : total / 10 ^ 6 / 60 % 60 < 100 := by omega
      have hsecond : total / 10 ^ 6 % 60 < 100 := by omega
      have hmicrosecond : total % 10 ^ 6 < 10 ^ 6 := Nat.mod_lt _ (by decide)
      have hsign : (if east < 0 then '-' else '+') = '+' ∨ (if east < 0 then '-' else '+') = '-' := by
        by_cases hneg : east < 0
        · exact Or.inr (if_pos hneg)
        · exact Or.inl (if_neg hneg)
      have hvalue {n : ℕ} (hn : n = total) :
          (if (if east < 0 then '-' else '+') = '-' then -(n : ℤ) else n) = east := by
        by_cases hneg : east < 0
        · rw [if_pos (if_pos hneg)]
          omega
        · rw [if_neg (by rw [if_neg hneg]; decide)]
          omega
      unfold offsetText
      simp only [← htotal, List.cons_append]
      by_cases hwhole : total / 10 ^ 6 % 60 = 0 ∧ total % 10 ^ 6 = 0
      · rw [if_pos hwhole, List.append_nil,
          offset_of_clock hsign (clock_minutes hhour hminute)]
        refine congrArg (fun offset => some (some offset)) (hvalue ?_)
        unfold Clock.total
        dsimp only
        omega
      · rw [if_neg hwhole,
          offset_of_clock hsign (clock_seconds hhour hminute hsecond hmicrosecond)]
        refine congrArg (fun offset => some (some offset)) (hvalue ?_)
        unfold Clock.total
        dsimp only
        omega

theorem not_isZone_of_isDigit {c : Char} (h : c.isDigit = true) : isZone c = false := by
  rw [isZone, Bool.or_eq_false_iff, Bool.or_eq_false_iff]
  refine ⟨⟨?_, ?_⟩, ?_⟩
  all_goals
    refine decide_eq_false fun heq => ?_
    rw [heq] at h
    exact absurd h (by decide)

theorem not_isZone_of_mem_clockText {reading : Reading} {c : Char}
    (h : c ∈ clockText reading) : isZone c = false := by
  have htwo {n : ℕ} (hc : c ∈ two n) : isZone c = false :=
    not_isZone_of_isDigit (Fixed.isDigit_write hc)
  have hfraction (hc : c ∈ fractionText reading.microsecond) : isZone c = false := by
    unfold fractionText at hc
    split at hc
    · exact absurd hc List.not_mem_nil
    · rcases List.mem_cons.mp hc with rfl | hc
      · rfl
      · exact not_isZone_of_isDigit (Fixed.isDigit_write hc)
  simp only [clockText, secondText, List.mem_append, List.mem_cons] at h
  rcases h with (h | rfl | h) | (rfl | h) | h
  · exact htwo h
  · rfl
  · exact htwo h
  · rfl
  · exact htwo h
  · exact hfraction h

theorem head_offsetText {east : Option ℤ} {c : Char} {rest : List Char}
    (h : offsetText east = c :: rest) : isZone c = true := by
  cases east with
  | none => exact absurd h (by simp [offsetText])
  | some east =>
      have hc : (if east < 0 then '-' else '+') = c := by
        unfold offsetText at h
        exact (List.cons.inj h).1
      rw [← hc]
      split <;> rfl

theorem time_text {reading : Reading} (h : reading.Valid) :
    time (clockText reading ++ offsetText reading.offset) =
      some (⟨reading.hour, reading.minute, reading.second, reading.microsecond⟩,
        reading.offset) := by
  have hclock : ∀ c ∈ clockText reading, (!isZone c) = true := fun c hc => by
    rw [not_isZone_of_mem_clockText hc, Bool.not_false]
  have htake : (clockText reading ++ offsetText reading.offset).takeWhile (fun c => !isZone c) =
      clockText reading := by
    rw [List.takeWhile_append_of_pos hclock]
    cases hoffset : offsetText reading.offset with
    | nil => simp
    | cons c rest => simp [head_offsetText hoffset]
  have hdrop : (clockText reading ++ offsetText reading.offset).dropWhile (fun c => !isZone c) =
      offsetText reading.offset := by
    rw [List.dropWhile_append_of_pos hclock]
    cases hoffset : offsetText reading.offset with
    | nil => rfl
    | cons c rest => simp [head_offsetText hoffset]
  have hhour := h.hour
  have hminute := h.minute
  have hsecond := h.second
  have hparts : clock (clockText reading) =
      some ⟨reading.hour, reading.minute, reading.second, reading.microsecond⟩ :=
    clock_seconds (by omega) (by omega) (by omega) h.microsecond
  unfold time
  rw [htake, hdrop, hparts, offset_offsetText h.offset]
  rfl

theorem length_dateText (reading : Reading) : (dateText reading).length = 10 := by
  simp [dateText, two, Fixed.length_write]

theorem head_two (n : ℕ) (rest : List Char) : (two n ++ rest).head? ≠ some 'W' := by
  intro h
  have hlength : (two n).length = 2 := Fixed.length_write 10 2 n
  cases htext : two n with
  | nil =>
      rw [htext] at hlength
      exact absurd hlength (by decide)
  | cons c text =>
      rw [htext] at h
      have hdigit : c.isDigit = true :=
        Fixed.isDigit_write (by rw [← two, htext]; exact List.mem_cons_self)
      rw [Option.some.inj h] at hdigit
      exact absurd hdigit (by decide)

theorem daysInMonth_le (year month : ℕ) : daysInMonth year month ≤ 31 := by
  unfold daysInMonth
  split
  · split <;> omega
  · split <;> omega

theorem date_dateText {reading : Reading} (h : reading.Valid) :
    date (dateText reading) = some (reading.year, reading.month, reading.day) := by
  have hyear : reading.year < 10 ^ 4 := by
    have := h.year.2
    omega
  have hmonth : reading.month < 100 := by
    have := h.month.2
    omega
  have hday : reading.day < 100 := by
    have := h.day.2
    have := daysInMonth_le reading.year reading.month
    omega
  have hlast : digits 2 (two reading.day) = some (reading.day, []) := by
    have hdigits := digits_two hday []
    rwa [List.append_nil] at hdigits
  have hhead := head_two reading.month ('-' :: two reading.day)
  simp only [date, dateText, List.append_assoc, List.cons_append, digits_write hyear,
    Option.bind_eq_bind, Option.bind_some, List.head?_cons, decide_true, next_cons,
    if_neg hhead, digits_two hmonth, hlast, if_true]

theorem separatorAt_text (reading : Reading) (rest : List Char) :
    separatorAt (dateText reading ++ 'T' :: rest) = 10 := by
  have hlength : (dateText reading ++ 'T' :: rest).length ≠ 7 := by
    rw [List.length_append, length_dateText]
    omega
  have hfour : (dateText reading ++ 'T' :: rest).drop 4 =
      '-' :: two reading.month ++ '-' :: two reading.day ++ 'T' :: rest := by
    unfold dateText
    rw [List.append_assoc, List.append_assoc, List.drop_left' (Fixed.length_write ..)]
    simp
  have hfive : (dateText reading ++ 'T' :: rest).drop 5 =
      two reading.month ++ ('-' :: two reading.day ++ 'T' :: rest) := by
    rw [← List.drop_drop (i := 1) (j := 4), hfour]
    simp
  have hhead := head_two reading.month ('-' :: two reading.day ++ 'T' :: rest)
  unfold separatorAt
  rw [if_neg hlength, hfour, hfive, if_pos (by rfl), if_neg hhead]

-- What `isoformat` writes, `fromisoformat` reads as the very time it shows.
theorem fromIsoformat_isoformat (t : DateTime) : fromIsoformat (isoformat t) = some t := by
  have hat := separatorAt_text t.toReading (clockText t.toReading ++ offsetText t.offset)
  have hlength := length_dateText t.toReading
  have htake : (dateText t.toReading ++ 'T' :: (clockText t.toReading ++ offsetText t.offset)).take
      10 = dateText t.toReading := List.take_left' hlength
  have hdrop : (dateText t.toReading ++ 'T' :: (clockText t.toReading ++ offsetText t.offset)).drop
      (10 + 1) = clockText t.toReading ++ offsetText t.offset := by
    rw [← List.drop_drop, List.drop_left' hlength]
    rfl
  have hlong : ¬ (dateText t.toReading ++
      'T' :: (clockText t.toReading ++ offsetText t.offset)).length ≤ 10 := by
    rw [List.length_append, hlength, List.length_cons]
    omega
  unfold fromIsoformat isoformat
  rw [List.append_assoc, List.cons_append, hat, htake, hdrop, date_dateText t.valid,
    time_text t.valid]
  simp only [Option.bind_eq_bind, Option.bind_some, if_neg hlong]
  unfold ofReading
  rw [dif_pos t.valid]

end TrustlistCore.Library.IsoTime
