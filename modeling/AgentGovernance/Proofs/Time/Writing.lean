import AgentGovernance.Proofs.Time.Reading
import AgentGovernance.Proofs.Utf8

/-!
# What the text of an instant determines

No two instants of the calendar are written alike, with whatever zone behind them, since the text
without the zone reads back. A year of the calendar has six digits at most, so the texts are short.
-/
namespace AgentGovernance.Instant

/-- The text of an instant in front of its zone. -/
def stem (precision : Precision) (t : Instant) : List Char :=
  t.dateText ++ 'T' :: t.timeText precision

theorem textWith_eq (precision : Precision) (zone : String) (t : Instant) :
    t.textWith precision zone = String.ofList (t.stem precision ++ zone.toList) := by
  rw [textWith, stem, List.append_assoc, List.cons_append]

theorem stem_injective {s t : Instant} {precision : Precision} (hs : s.checked? = some s)
    (ht : t.checked? = some t) (h : s.stem precision = t.stem precision) : s = t := by
  have htext : s.textWith precision "Z" = t.textWith precision "Z" := by
    rw [textWith_eq, textWith_eq, h]
  have hread : some s = some t := by
    rw [← parse?_textWith hs precision, htext, parse?_textWith ht precision]
  exact Option.some.inj hread

/-- No two instants of the calendar are written alike. -/
theorem textWith_injective {s t : Instant} {precision : Precision} {zone : String}
    (hs : s.checked? = some s) (ht : t.checked? = some t)
    (h : s.textWith precision zone = t.textWith precision zone) : s = t := by
  rw [textWith_eq, textWith_eq] at h
  exact stem_injective hs ht (List.append_cancel_right (String.ofList_injective h))

/-! ## Lengths -/

theorem length_pad_le {width limit n : Nat} (hwidth : width ≤ limit) (hlimit : 0 < limit)
    (h : n < 10 ^ limit) : (pad width n).length ≤ limit := by
  have hdigits := (Nat.length_toDigits_le_iff (by decide) hlimit).mpr h
  rw [pad_eq, List.length_append, List.length_replicate]
  omega

theorem length_fraction_le (precision : Precision) {n : Nat} (h : n < 1000000000) :
    (fraction precision n).length ≤ 10 := by
  have hnine : (pad 9 n).length ≤ 9 := length_pad_le (by decide) (by decide) h
  cases precision with
  | nanoseconds =>
      rw [fraction, List.length_cons]
      omega
  | shortest =>
      have hsix : (pad 6 (n / 1000)).length ≤ 6 := length_pad_le (by decide) (by decide) (by omega)
      have hthree : (pad 3 (n / 1000000)).length ≤ 3 :=
        length_pad_le (by decide) (by decide) (by omega)
      unfold fraction
      dsimp only
      repeat' split
      all_goals simp only [List.length_nil, List.length_cons]; omega

theorem length_timeText_le (precision : Precision) (t : Instant) :
    (t.timeText precision).length ≤ 18 := by
  have hday : minutesPerDay = 1440 := rfl
  have hticks : ticksPerMinute = 61000000000 := rfl
  have hminute : (t.minute % minutesPerDay).toNat < 1440 := by
    rw [hday]
    omega
  have hnanos : t.nanosInMinute.toNat < 61000000000 := by
    rw [nanosInMinute, hticks]
    omega
  have hpair : ∀ n < 100, (pad 2 n).length ≤ 2 := fun n hn =>
    length_pad_le (by decide) (by decide) hn
  have hhours := hpair _ (show (t.minute % minutesPerDay).toNat / 60 < 100 by omega)
  have hminutes := hpair _ (show (t.minute % minutesPerDay).toNat % 60 < 100 by omega)
  have hseconds := hpair _ (show t.nanosInMinute.toNat / 1000000000 < 100 by omega)
  have hfraction := length_fraction_le precision
    (Nat.mod_lt t.nanosInMinute.toNat (show 0 < 1000000000 by decide))
  rw [timeText]
  simp only [List.length_append, List.length_cons]
  omega

theorem length_yearText_le {year : Int} (hfirst : -1000000 < year) (hlast : year < 1000000) :
    (yearText year).length ≤ 7 := by
  unfold yearText
  split
  · have hyear := length_pad_le (show 4 ≤ 6 by decide) (by decide)
      (show year.toNat < 10 ^ 6 by omega)
    omega
  · have hyear := length_pad_le (show 4 ≤ 6 by decide) (by decide)
      (show year.natAbs < 10 ^ 6 by omega)
    rw [List.length_cons]
    omega

theorem length_dateText_le {t : Instant} (h : t.checked? = some t) : t.dateText.length ≤ 13 := by
  obtain ⟨hfirst, hlast⟩ := minute_bounds h
  obtain ⟨hearly, hlate⟩ := Date.year_ofDays hfirst hlast
  obtain ⟨hmonth, hday⟩ := Reader.Date.parts_lt (Date.isValid_ofDays hearly hlate)
  have hyear : (yearText (Date.ofDays (t.minute / minutesPerDay)).year).length ≤ 7 :=
    length_yearText_le (by omega) (by omega)
  have hmonths := length_pad_le (show 2 ≤ 2 by decide) (by decide) hmonth
  have hdays := length_pad_le (show 2 ≤ 2 by decide) (by decide) hday
  rw [dateText]
  simp only [List.length_append, List.length_cons]
  omega

/-- The text of an instant of the calendar fits a frame by far. -/
theorem length_textWith_lt {t : Instant} (h : t.checked? = some t) (precision : Precision)
    {zone : String} (hzone : zone.toList.length ≤ 6) :
    (Bytes.ofString (t.textWith precision zone)).length < 2 ^ 64 := by
  have hoctets := Bytes.length_ofString_le (t.textWith precision zone)
  have hdate := length_dateText_le h
  have htime := length_timeText_le precision t
  rw [textWith_eq, String.toList_ofList, stem] at hoctets
  simp only [List.length_append, List.length_cons] at hoctets
  rw [textWith_eq, stem]
  omega

end AgentGovernance.Instant
