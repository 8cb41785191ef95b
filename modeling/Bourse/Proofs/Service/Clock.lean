import Bourse.Proofs.Date.Periods
import Bourse.Proofs.Text.Integer
import Bourse.Service.Start

/-!
# The market's clock

The clock stands some seconds ahead of universal time, and the market's day is the one that holds
the instant moved by them (`Config.ClockAt`). An offset within a day is taken as it was asked for;
one of a day or more, as long as a word holds its seconds, is read all the same and stands for none.
The offset is the last variable that is read, after every other one has been accepted (`read_eq`),
so what is no integer of a word is refused there, with its name and its text.
-/

namespace Bourse

namespace Date

/-- 1 January 1970. -/
def epoch : Date := ⟨1970, 1, 1, by decide, by decide, first.day_pos, by decide⟩

theorem serial_epoch : epoch.serial = 719162 := by decide

/-- The day on which some seconds have passed since the start of 1970. -/
def Holds (day : Date) (seconds : ℤ) : Prop :=
  86400 * (day.serial - epoch.serial) ≤ seconds ∧
    seconds < 86400 * (day.serial - epoch.serial + 1)

instance (day : Date) (seconds : ℤ) : Decidable (day.Holds seconds) :=
  inferInstanceAs (Decidable (_ ∧ _))

/-- From the start of the first date to the end of the last. -/
def InCalendar (seconds : ℤ) : Prop :=
  86400 * (daysBeforeYear (-262143) - epoch.serial) ≤ seconds ∧
    seconds < 86400 * (daysBeforeYear 262143 - epoch.serial)

instance (seconds : ℤ) : Decidable (InCalendar seconds) :=
  inferInstanceAs (Decidable (_ ∧ _))

theorem holds_iff {day : Date} {seconds : ℤ} :
    day.Holds seconds ↔ day.serial = 719162 + seconds / 86400 := by
  rw [Holds, serial_epoch]
  omega

/-- One day holds an instant. -/
theorem Holds.unique {d e : Date} {seconds : ℤ} (hd : d.Holds seconds) (he : e.Holds seconds) :
    d = e :=
  serial_inj ((holds_iff.1 hd).trans (holds_iff.1 he).symm)

theorem InCalendar.exists_holds {seconds : ℤ} (h : InCalendar seconds) :
    ∃ day : Date, day.Holds seconds := by
  rw [InCalendar, serial_epoch] at h
  simp only [holds_iff]
  exact exists_serial (by omega) (by omega)

end Date

namespace Service

open Period (word?)

theorem offsetSeconds_eq {hours : ℤ} (h : hours.natAbs < 24) :
    offsetSeconds hours = hours * 3600 := by
  rw [offsetSeconds, Period.word_eq (by omega), if_pos (by omega)]

theorem offsetSeconds_eq_zero {hours : ℤ} (h : 24 ≤ hours.natAbs)
    (hword : word? (hours * 3600) = some (hours * 3600)) : offsetSeconds hours = 0 := by
  rw [offsetSeconds, (Period.of_word? hword).2, if_neg (by omega)]

/-- The market's day is the one that holds the instant under the offset. -/
theorem today_eq_iff {hours instant : ℤ}
    (h : Date.InCalendar (instant + offsetSeconds hours)) {day : Date} :
    today hours instant = day ↔ day.Holds (instant + offsetSeconds hours) := by
  obtain ⟨held, hheld⟩ := h.exists_holds
  have htoday : today hours instant = held := by
    rw [today, ← Date.holds_iff.1 hheld, Date.ofSerial?_serial, Option.getD_some]
  rw [htoday]
  exact ⟨fun heq => heq ▸ hheld, hheld.unique⟩

namespace Config

/-- A clock that stands some seconds ahead of universal time, and the days that it shows. -/
structure ClockAt (c : Config) (seconds : ℤ) : Prop where
  offset : offsetSeconds c.utcOffsetHours = seconds
  today : ∀ instant, Date.InCalendar (instant + seconds) →
    ∀ day : Date, (c.desk instant).today = day ↔ day.Holds (instant + seconds)

theorem clockAt_of_eq {c : Config} {seconds : ℤ} (h : offsetSeconds c.utcOffsetHours = seconds) :
    c.ClockAt seconds := by
  subst h
  exact ⟨rfl, fun _ hcalendar _ => today_eq_iff hcalendar⟩

variable (environment : String → Option String)

/-- The hours that the variables ask for: the integer that is written, when a word holds it, or
seven. -/
def AsksFor (hours : ℤ) : Prop :=
  match setting environment "MARKET_UTC_OFFSET_HOURS" with
  | some raw => Text.IsInteger raw hours ∧ -2147483648 ≤ hours ∧ hours ≤ 2147483647
  | none => hours = 7

/-- The variables but for the offset. -/
def withoutOffset (name : String) : Option String :=
  if name = "MARKET_UTC_OFFSET_HOURS" then none else environment name

variable {environment}

theorem intSetting_offset_eq_ok_iff {hours : ℤ} :
    intSetting environment 0x7FFFFFFF "MARKET_UTC_OFFSET_HOURS" 7 = .ok hours ↔
      AsksFor environment hours := by
  unfold intSetting AsksFor
  rcases setting environment "MARKET_UTC_OFFSET_HOURS" with _ | raw
  · exact ⟨fun h => (Except.ok.inj h).symm, fun h => congrArg Except.ok h.symm⟩
  · exact mapError_eq_ok_iff.trans Text.readInt_eq_ok_iff

section

variable {name : String}

theorem setting_withoutOffset (h : name ≠ "MARKET_UTC_OFFSET_HOURS") :
    setting (withoutOffset environment) name = setting environment name := by
  rw [setting, withoutOffset, if_neg h, setting]

theorem natSetting_withoutOffset (h : name ≠ "MARKET_UTC_OFFSET_HOURS") (bound default : ℕ) :
    natSetting (withoutOffset environment) bound name default
      = natSetting environment bound name default := by
  rw [natSetting, setting_withoutOffset h, natSetting]

theorem flagSetting_withoutOffset (h : name ≠ "MARKET_UTC_OFFSET_HOURS") (default : Bool) :
    flagSetting (withoutOffset environment) name default
      = flagSetting environment name default := by
  rw [flagSetting, setting_withoutOffset h, flagSetting]

end

/-- The offset is read last. -/
theorem read_eq : read environment = do
    let base ← read (withoutOffset environment)
    let hours ← intSetting environment 0x7FFFFFFF "MARKET_UTC_OFFSET_HOURS" 7
    return { base with utcOffsetHours := hours } := by
  have hdefault : intSetting (withoutOffset environment) 0x7FFFFFFF "MARKET_UTC_OFFSET_HOURS" 7
      = pure 7 := rfl
  unfold read
  simp only [hdefault, setting_withoutOffset, natSetting_withoutOffset, flagSetting_withoutOffset,
    ne_eq, String.reduceEq, not_false_iff, bind_assoc, pure_bind]

theorem asksFor_of_read {c : Config} (h : read environment = .ok c) :
    AsksFor environment c.utcOffsetHours := by
  rw [read_eq] at h
  obtain ⟨base, -, h⟩ := of_bind_eq_ok h
  obtain ⟨hours, hhours, h⟩ := of_bind_eq_ok h
  obtain rfl := Except.ok.inj h
  exact intSetting_offset_eq_ok_iff.1 hhours

theorem read_of_asksFor {hours : ℤ} {base : Config} (h : AsksFor environment hours)
    (hbase : read (withoutOffset environment) = .ok base) :
    read environment = .ok { base with utcOffsetHours := hours } := by
  rw [read_eq, hbase, intSetting_offset_eq_ok_iff.2 h]
  rfl

/-- A refused integer is reported with the name of its variable and the text. -/
theorem of_intSetting_eq_error {bound : ℕ} {name : String} {default : ℤ} {fault : ConfigFault}
    (h : intSetting environment bound name default = .error fault) :
    ∃ raw cause, setting environment name = some raw ∧ fault = .number name raw cause := by
  unfold intSetting at h
  split at h
  · next raw hraw =>
    rcases hread : Text.readInt bound raw with cause | n
    · rw [hread] at h
      exact ⟨raw, cause, hraw, (Except.error.inj h).symm⟩
    · rw [hread] at h
      cases h
  · cases h

theorem exists_fault (h : ∀ hours, ¬AsksFor environment hours) : ∃ fault,
    read environment = .error fault ∧
      (read (withoutOffset environment) = .error fault ∨
        ∃ raw cause, setting environment "MARKET_UTC_OFFSET_HOURS" = some raw ∧
          fault = .number "MARKET_UTC_OFFSET_HOURS" raw cause) := by
  rw [read_eq]
  rcases read (withoutOffset environment) with fault | base
  · exact ⟨fault, rfl, .inl rfl⟩
  · rcases hoffset : intSetting environment 0x7FFFFFFF "MARKET_UTC_OFFSET_HOURS" 7 with fault | n
    · exact ⟨fault, rfl, .inr (of_intSetting_eq_error hoffset)⟩
    · exact absurd (intSetting_offset_eq_ok_iff.1 hoffset) (h n)

/-- A configuration that is read has the offset that was asked for. Within a day it is the one that
the clock has; from a day on the clock has none, as long as a word holds the seconds. Every integer
of a word is read when the other variables are, and nothing else is. -/
theorem clockAt_of_read (environment : String → Option String) :
    (∀ c, read environment = .ok c →
      AsksFor environment c.utcOffsetHours ∧
      (c.utcOffsetHours.natAbs < 24 →
        word? (c.utcOffsetHours * 3600) = some (c.utcOffsetHours * 3600) ∧
          c.ClockAt (c.utcOffsetHours * 3600)) ∧
      (24 ≤ c.utcOffsetHours.natAbs →
        word? (c.utcOffsetHours * 3600) = some (c.utcOffsetHours * 3600) → c.ClockAt 0)) ∧
    (∀ hours base, AsksFor environment hours → read (withoutOffset environment) = .ok base →
      read environment = .ok { base with utcOffsetHours := hours }) ∧
    ((∀ hours, ¬AsksFor environment hours) → ∃ fault,
      read environment = .error fault ∧
        (read (withoutOffset environment) = .error fault ∨
          ∃ raw cause, setting environment "MARKET_UTC_OFFSET_HOURS" = some raw ∧
            fault = .number "MARKET_UTC_OFFSET_HOURS" raw cause)) := by
  refine ⟨fun c hc => ⟨asksFor_of_read hc, fun hwithin => ⟨?_, ?_⟩, fun hday hword => ?_⟩,
    fun hours base => read_of_asksFor, exists_fault⟩
  · exact Period.word?_eq (by omega)
  · exact clockAt_of_eq (offsetSeconds_eq hwithin)
  · exact clockAt_of_eq (offsetSeconds_eq_zero hday hword)

/-- Only the offset is written. -/
def offsetOnly (text : String) (name : String) : Option String :=
  if name = "MARKET_UTC_OFFSET_HOURS" then some text else none

/-- Five hours behind, the start of 1970 is still the day before. Two days ahead the clock has none
of the offset, and a word for a number is refused by name. -/
theorem clockAt_of_read_offsets :
    (∃ c, read (offsetOnly " -5 ") = .ok c ∧ c.ClockAt (-18000) ∧
      ((c.desk 0).today.year, (c.desk 0).today.month, (c.desk 0).today.day) = (1969, 12, 31)) ∧
    (∃ c, read (offsetOnly "48") = .ok c ∧ c.ClockAt 0 ∧ (c.desk 0).today = Date.epoch) ∧
    ∃ cause, read (offsetOnly "seven")
      = .error (.number "MARKET_UTC_OFFSET_HOURS" "seven" cause) := by
  refine ⟨?west, ?days, ?word⟩
  case west =>
    obtain ⟨c, hc, hhours⟩ : ∃ c, read (offsetOnly " -5 ") = .ok c ∧ c.utcOffsetHours = -5 :=
      ⟨_, rfl, rfl⟩
    obtain ⟨-, hclock⟩ := ((clockAt_of_read _).1 c hc).2.1 (by rw [hhours]; decide)
    rw [hhours] at hclock
    have hday := (hclock.today 0 (by decide)
      ⟨1969, 12, 31, by decide, by decide, by decide, by decide⟩).2 (by decide)
    exact ⟨c, hc, hclock, by rw [hday]⟩
  case days =>
    have hasks : AsksFor (offsetOnly "48") 48 :=
      intSetting_offset_eq_ok_iff.1 rfl
    obtain ⟨base, hbase⟩ : ∃ base, read (withoutOffset (offsetOnly "48")) = .ok base := ⟨_, rfl⟩
    have hc := (clockAt_of_read _).2.1 48 base hasks hbase
    have hclock := ((clockAt_of_read _).1 _ hc).2.2 (by decide : 24 ≤ (48 : ℤ).natAbs) rfl
    exact ⟨_, hc, hclock, (hclock.today 0 (by decide) Date.epoch).2 (by decide)⟩
  case word =>
    have hnone : ∀ hours, ¬AsksFor (offsetOnly "seven") hours := by
      intro hours hasks
      cases intSetting_offset_eq_ok_iff.2 hasks
    obtain ⟨fault, hfault, hbase | ⟨raw, cause, hraw, rfl⟩⟩ := (clockAt_of_read _).2.2 hnone
    · cases hbase
    · obtain rfl := Option.some.inj hraw
      exact ⟨cause, hfault⟩

/-- A day ahead is read, and the clock does not have it. -/
theorem not_clockAt_day : ∃ c, read (offsetOnly "24") = .ok c ∧ c.utcOffsetHours = 24 ∧
    word? (24 * 3600) = some (24 * 3600) ∧ ¬c.ClockAt (24 * 3600) ∧
    (c.desk 0).today = Date.epoch ∧ ¬Date.epoch.Holds (0 + 24 * 3600) := by
  obtain ⟨c, hc, hhours⟩ : ∃ c, read (offsetOnly "24") = .ok c ∧ c.utcOffsetHours = 24 :=
    ⟨_, rfl, rfl⟩
  have hclock : c.ClockAt 0 := clockAt_of_eq (by rw [hhours]; decide)
  refine ⟨c, hc, hhours, rfl, fun h => ?_, (hclock.today 0 (by decide) _).2 (by decide), by decide⟩
  exact absurd (hclock.offset.symm.trans h.offset) (by decide)

end Config

end Service

end Bourse
