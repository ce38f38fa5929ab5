import AgentGovernance.Time.Reader
import AgentGovernance.Proofs.Decimal
import AgentGovernance.Proofs.Time.Calendar

/-!
# Reading instants that were written

The text of an instant of the calendar reads back as that instant, whichever number of digits its
seconds are written with. Every number in it has the width its reader takes, or is followed by a
mark that is no digit.
-/
namespace AgentGovernance.Instant

/-! ## Digits -/

theorem pad_eq (width n : Nat) :
    pad width n =
      List.replicate (width - (Nat.toDigits 10 n).length) '0' ++ Nat.toDigits 10 n := by
  rw [pad, Decimal.toList_toString]

theorem pad_ne_nil (width n : Nat) : pad width n ≠ [] := by
  rw [pad_eq]
  simp [Nat.toDigits_ne_nil]

theorem length_pad {width n : Nat} (hwidth : 0 < width) (h : n < 10 ^ width) :
    (pad width n).length = width := by
  have hlength := (Nat.length_toDigits_le_iff (by decide) hwidth).mpr h
  rw [pad_eq, List.length_append, List.length_replicate]
  omega

namespace Reader

theorem isDigit_of_mem_pad {width n : Nat} {c : Char} (h : c ∈ pad width n) :
    isDigit c = true := by
  rw [pad_eq, List.mem_append] at h
  rcases h with h | h
  · rw [(List.mem_replicate.mp h).2]
    decide
  · exact Decimal.isDigit_of_mem h

theorem valueOf_pad (width n : Nat) : valueOf (pad width n) = n := by
  have hzeros : ∀ k, (List.replicate k '0').foldl (fun n d => n * 10 + (d.toNat - 48)) 0 = 0 := by
    intro k
    induction k with
    | zero => rfl
    | succ k ih => exact ih
  rw [pad_eq, valueOf, List.foldl_append, hzeros, Decimal.foldl_toDigits]

/-- A padded number is read when its width, or a mark behind it, says where it ends. -/
theorem digits?_pad {limit width n : Nat} {rest : List Char} (hwidth : (pad width n).length ≤ limit)
    (hend : (rest.take (limit - (pad width n).length)).takeWhile isDigit = []) :
    digits? limit (pad width n ++ rest) = some (n, rest) := by
  have htaken : ((pad width n ++ rest).take limit).takeWhile isDigit = pad width n := by
    rw [List.take_append, List.take_of_length_le hwidth,
      List.takeWhile_append_of_pos fun c hc => isDigit_of_mem_pad hc, hend, List.append_nil]
  have hne : (pad width n).isEmpty = false := by
    rw [List.isEmpty_eq_false_iff]
    exact pad_ne_nil width n
  rw [digits?, htaken, hne, valueOf_pad]
  simp

theorem skip_cons {c : Char} (h : isBlank c = false) (cs : List Char) : skip (c :: cs) = c :: cs := by
  rw [skip, List.dropWhile_cons_of_neg (by simp [h])]

theorem isBlank_of_isDigit {c : Char} (h : isDigit c = true) : isBlank c = false := by
  simp only [isDigit, Bool.and_eq_true, decide_eq_true_eq] at h
  have hlow : 48 ≤ c.toNat := h.1
  have hhigh : c.toNat ≤ 57 := h.2
  simp only [isBlank, Bool.or_eq_false_iff, Bool.and_eq_false_iff, decide_eq_false_iff_not]
  omega

theorem skip_pad (width n : Nat) (rest : List Char) :
    skip (pad width n ++ rest) = pad width n ++ rest := by
  cases hds : pad width n with
  | nil => exact absurd hds (pad_ne_nil width n)
  | cons d ds =>
      have hdigit : isDigit d = true := isDigit_of_mem_pad (hds ▸ List.mem_cons_self)
      exact skip_cons (isBlank_of_isDigit hdigit) _

theorem number?_pad {n : Nat} (h : n < 100) (rest : List Char) :
    number? (pad 2 n ++ rest) = some (n, rest) := by
  have hlength : (pad 2 n).length = 2 := length_pad (by decide) h
  rw [number?, skip_pad, digits?_pad (by omega) (by simp [hlength])]

theorem year?_digit {d : Char} (h : isDigit d = true) (cs : List Char) :
    year? (d :: cs) = (digits? 4 (d :: cs)).map fun r => ((r.1 : Int), r.2) := by
  have hminus : d ≠ '-' := by
    rintro rfl
    exact absurd h (by decide)
  have hplus : d ≠ '+' := by
    rintro rfl
    exact absurd h (by decide)
  rw [year?, skip_cons (isBlank_of_isDigit h)]
  split
  next heq => exact absurd (List.cons.inj heq).1 hminus
  next heq => exact absurd (List.cons.inj heq).1 hplus
  next => rfl

theorem year?_yearText (year : Int) (rest : List Char) :
    year? (yearText year ++ '-' :: rest) = some (year, '-' :: rest) := by
  have hmark : ∀ k, (('-' :: rest).take k).takeWhile isDigit = [] := by
    intro k
    cases k <;> rfl
  have hsigned : ∀ n, digits? (pad 4 n ++ '-' :: rest).length (pad 4 n ++ '-' :: rest) =
      some (n, '-' :: rest) := by
    intro n
    exact digits?_pad (by simp) (hmark _)
  unfold yearText
  split
  next h =>
    have hlength : (pad 4 year.toNat).length = 4 := length_pad (by decide) (by omega)
    have hread : digits? 4 (pad 4 year.toNat ++ '-' :: rest) = some (year.toNat, '-' :: rest) :=
      digits?_pad (by omega) (hmark _)
    have hyear : (year.toNat : Int) = year := by omega
    obtain ⟨d, ds, hds⟩ := List.exists_cons_of_ne_nil (pad_ne_nil 4 year.toNat)
    have hdigit : isDigit d = true := isDigit_of_mem_pad (hds ▸ List.mem_cons_self)
    rw [hds, List.cons_append] at hread ⊢
    rw [year?_digit hdigit, hread, Option.map_some, hyear]
  next =>
    split
    next hneg =>
      have hyear : -(year.natAbs : Int) = year := by omega
      rw [year?, List.cons_append, skip_cons (by decide)]
      simp only [hsigned, Option.map_some, hyear]
    next hpos =>
      have hyear : (year.natAbs : Int) = year := by omega
      rw [year?, List.cons_append, skip_cons (by decide)]
      simp only [hsigned, Option.map_some, hyear]

/-- The digits behind a point are read with the zeros that are not written. -/
theorem nanos?_pad {width n : Nat} (hwidth : 0 < width) (hlimit : width ≤ 9)
    (h : n < 10 ^ width) {rest : List Char} (hrest : rest.takeWhile isDigit = []) :
    nanos? ('.' :: (pad width n ++ rest)) = some (n * 10 ^ (9 - width), rest) := by
  have hlength : (pad width n).length = width := length_pad hwidth h
  have hdigits : (pad width n ++ rest).takeWhile isDigit = pad width n := by
    rw [List.takeWhile_append_of_pos fun c hc => isDigit_of_mem_pad hc, hrest, List.append_nil]
  have hbehind : (pad width n ++ rest).dropWhile isDigit = rest := by
    rw [List.dropWhile_append_of_pos fun c hc => isDigit_of_mem_pad hc]
    have hsplit := List.takeWhile_append_dropWhile (p := isDigit) (l := rest)
    rwa [hrest, List.nil_append] at hsplit
  have hne : (pad width n).isEmpty = false := by
    rw [List.isEmpty_eq_false_iff]
    exact pad_ne_nil width n
  have hkept : (pad width n).take 9 = pad width n := List.take_of_length_le (by omega)
  simp only [nanos?, hdigits, hbehind, hne, hkept, valueOf_pad, hlength, Bool.false_eq_true,
    if_false]
  rfl

theorem nanos?_fraction (precision : Precision) {n : Nat} (h : n < 1000000000) (rest : List Char) :
    nanos? (fraction precision n ++ 'Z' :: rest) = some (n, 'Z' :: rest) := by
  have hmark : ('Z' :: rest).takeWhile isDigit = [] := rfl
  have hfull : nanos? ('.' :: (pad 9 n ++ 'Z' :: rest)) = some (n * 10 ^ (9 - 9), 'Z' :: rest) :=
    nanos?_pad (by decide) (by decide) h hmark
  rw [Nat.sub_self, Nat.pow_zero, Nat.mul_one] at hfull
  cases precision with
  | nanoseconds => exact hfull
  | shortest =>
      unfold fraction
      dsimp only
      split
      next hzero =>
        subst hzero
        rfl
      next =>
        split
        next hmillis =>
          rw [List.cons_append, nanos?_pad (by decide) (by decide) (by omega) hmark]
          have : n / 1000000 * 10 ^ (9 - 3) = n := by omega
          rw [this]
        next =>
          split
          next hmicros =>
            rw [List.cons_append, nanos?_pad (by decide) (by decide) (by omega) hmark]
            have : n / 1000 * 10 ^ (9 - 6) = n := by omega
            rw [this]
          next => exact hfull

end Reader

/-! ## The parts of a text -/

theorem minute_bounds {t : Instant} (h : t.checked? = some t) :
    (Date.mk (-262143) 1 1).toDays ≤ t.minute / minutesPerDay ∧
      t.minute / minutesPerDay ≤ (Date.mk 262142 12 31).toDays := by
  have hrange : earliest ≤ t ∧ t ≤ last := by
    unfold checked? at h
    split at h
    next hrange => exact hrange
    next => cases h
  have hfirst : (Date.mk (-262143) 1 1).toDays * 1440 * 61000000000 + 0 ≤ t.ticks := hrange.1
  have hlast : t.ticks ≤ ((Date.mk 262142 12 31).toDays + 1) * 1440 * 61000000000 + 0 - 1 :=
    hrange.2
  have hminute : t.minute = t.ticks / 61000000000 := rfl
  rw [hminute, minutesPerDay]
  omega

/-- An instant is its day, its minute of the day and its nanosecond of the minute. -/
theorem ofMinute_parts (t : Instant) :
    ofMinute (t.minute / minutesPerDay * minutesPerDay + t.minute % minutesPerDay)
      t.nanosInMinute = t := by
  have hminute : t.minute / minutesPerDay * minutesPerDay + t.minute % minutesPerDay = t.minute := by
    rw [minutesPerDay]
    omega
  have hticks : t.minute * ticksPerMinute + t.nanosInMinute = t.ticks := by
    have hlength : ticksPerMinute = 61000000000 := rfl
    rw [minute, nanosInMinute, hlength]
    omega
  rw [hminute, ofMinute, hticks]

namespace Reader

theorem literal?_cons {c : Char} (h : isBlank c = false) (cs : List Char) :
    literal? c (c :: cs) = some cs := by
  rw [literal?, skip_cons h]
  exact if_pos rfl

theorem Date.parts_lt {d : Date} (h : d.isValid = true) : d.month < 100 ∧ d.day < 100 := by
  simp only [Date.isValid, Bool.and_eq_true, decide_eq_true_eq] at h
  obtain ⟨⟨⟨-, hmonth⟩, -⟩, hday⟩ := h
  have hdays : daysInMonth d.year d.month ≤ 31 := by
    unfold daysInMonth
    repeat' split
    all_goals omega
  omega

/-- The text of a date, a minute of the day and a nanosecond of the minute. -/
def partsText (precision : Precision) (d : Date) (minute nanos : Nat) : List Char :=
  yearText d.year ++ '-' :: (pad 2 d.month ++ '-' :: (pad 2 d.day ++ 'T' ::
    (pad 2 (minute / 60) ++ ':' :: (pad 2 (minute % 60) ++ ':' ::
      (pad 2 (nanos / 1000000000) ++ (fraction precision (nanos % 1000000000) ++ ['Z']))))))

/-- The parts of a text are read one after the other. -/
theorem read?_partsText {d : Date} (hd : d.isValid = true) {minute nanos : Nat}
    (hminute : minute < 1440) (hnanos : nanos < 61000000000) (precision : Precision) :
    read? (partsText precision d minute nanos) =
      (checked? (ofMinute (d.toDays * minutesPerDay + minute) nanos)).map fun t => (t, []) := by
  obtain ⟨hmonth, hday⟩ := Date.parts_lt hd
  have hdash : ∀ cs, literal? '-' ('-' :: cs) = some cs := literal?_cons (by decide)
  have hcolon : ∀ cs, literal? ':' (':' :: cs) = some cs := literal?_cons (by decide)
  have hmark : ∀ cs, separator? ('T' :: cs) = some cs := fun cs => rfl
  have hzone : offset? (skip ['Z']) = some (0, []) := rfl
  have hfraction := nanos?_fraction precision (Nat.mod_lt nanos (show 0 < 1000000000 by decide)) []
  have hhour := number?_pad (show minute / 60 < 100 by omega)
  have hminutes := number?_pad (show minute % 60 < 100 by omega)
  have hseconds := number?_pad (show nanos / 1000000000 < 100 by omega)
  have hin : d.isValid = true ∧ minute / 60 < 24 ∧ minute % 60 < 60 ∧ nanos / 1000000000 ≤ 60 ∧
      Int.natAbs 0 < 1440 :=
    ⟨hd, by omega, by omega, by omega, by decide⟩
  have hsum : d.toDays * minutesPerDay + (minute / 60 : Nat) * 60 + (minute % 60 : Nat) - 0 =
      d.toDays * minutesPerDay + minute := by
    omega
  have hsecond : (nanos / 1000000000 : Nat) * nanosPerSecond + (nanos % 1000000000 : Nat) =
      (nanos : Int) := by
    rw [nanosPerSecond]
    omega
  unfold partsText read?
  dsimp only [Option.bind_eq_bind]
  rw [year?_yearText, Option.bind_some, hdash, Option.bind_some, number?_pad hmonth,
    Option.bind_some, hdash, Option.bind_some, number?_pad hday, Option.bind_some, hmark,
    Option.bind_some, hhour, Option.bind_some, hcolon, Option.bind_some, hminutes,
    Option.bind_some, hcolon, Option.bind_some, hseconds, Option.bind_some, hfraction,
    Option.bind_some, hzone, Option.bind_some, if_pos hin, hsum, hsecond]
  cases checked? (ofMinute (d.toDays * minutesPerDay + minute) nanos) <;> rfl

/-- The reader takes an instant of the calendar off the front of its text. -/
theorem read?_text {t : Instant} (h : t.checked? = some t) (precision : Precision) :
    read? (t.dateText ++ 'T' :: (t.timeText precision ++ ['Z'])) = some (t, []) := by
  obtain ⟨hfirst, hlast⟩ := minute_bounds h
  obtain ⟨hearly, hlate⟩ := Date.year_ofDays hfirst hlast
  have hvalid := Date.isValid_ofDays hearly hlate
  obtain ⟨minute, hminute, hday⟩ : ∃ m : Nat, t.minute % minutesPerDay = m ∧ m < 1440 :=
    ⟨(t.minute % minutesPerDay).toNat, by rw [minutesPerDay]; omega, by rw [minutesPerDay]; omega⟩
  obtain ⟨nanos, hnanos, hlong⟩ : ∃ n : Nat, t.nanosInMinute = n ∧ n < 61000000000 := by
    have hlength : ticksPerMinute = 61000000000 := rfl
    refine ⟨t.nanosInMinute.toNat, ?_, ?_⟩ <;> rw [nanosInMinute, hlength] <;> omega
  have hparts := ofMinute_parts t
  have hread := read?_partsText hvalid hday hlong precision
  have htext : t.dateText ++ 'T' :: (t.timeText precision ++ ['Z']) =
      partsText precision (Date.ofDays (t.minute / minutesPerDay)) minute nanos := by
    simp [dateText, timeText, partsText, hminute, hnanos]
  rw [hminute, hnanos] at hparts
  rw [Date.toDays_ofDays, hparts, h] at hread
  rw [htext, hread]
  rfl

end Reader

/-- An instant of the calendar reads back from its text, however many digits its seconds have. -/
theorem parse?_textWith {t : Instant} (h : t.checked? = some t) (precision : Precision) :
    parse? (t.textWith precision "Z") = some t := by
  have htext : (t.textWith precision "Z").toList =
      t.dateText ++ 'T' :: (t.timeText precision ++ ['Z']) := by
    rw [textWith, String.toList_ofList]
    rfl
  rw [parse?, htext, Reader.read?_text h precision]
  rfl

end AgentGovernance.Instant
