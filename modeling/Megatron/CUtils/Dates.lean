import Megatron.Http.Numerals
import Megatron.Lib.Calendar

/-!
# Dates as text

Four functions write a time as a date, in the Russian order and in the other,
with the time of the day and without.  Two functions read the numbers of such a
text back into a `struct tm`, by their places.  `localtime` and `mktime` are
those of a time zone.

## Main results

* `fromRusDatetime_rusDatetime`, `fromEnDatetime_enDatetime` — what the places of
  the numbers make of a time.
* `not_roundTrips` — no time comes back from its text.
-/

namespace Megatron.CUtils

open Megatron.Corelib (Bytes CommonError)
open Megatron.Http
open Megatron.Lib

/-! ## Broken-down time -/

/-- `struct tm`, as `memset` leaves it. -/
structure Tm where
  sec : Int := 0
  min : Int := 0
  hour : Int := 0
  mday : Int := 0
  mon : Int := 0
  year : Int := 0
  isdst : Int := 0
  deriving DecidableEq

namespace Tm

/-- The seconds of the calendar that the fields come to. -/
def seconds (tm : Tm) : Int :=
  Calendar.dayNumber (tm.year + 1900) tm.mon tm.mday * 86400 + tm.hour * 3600 + tm.min * 60 + tm.sec

/-- The fields are in the ranges that the C library documents. -/
structure Proper (tm : Tm) : Prop where
  sec : 0 ≤ tm.sec ∧ tm.sec ≤ 60
  min : 0 ≤ tm.min ∧ tm.min ≤ 59
  hour : 0 ≤ tm.hour ∧ tm.hour ≤ 23
  mday : 1 ≤ tm.mday ∧ tm.mday ≤ 31
  mon : 0 ≤ tm.mon ∧ tm.mon ≤ 11

/-- What the clock on the wall and the calendar show. -/
def clock (tm : Tm) : Tm := { tm with isdst := 0 }

/-- Fields out of their ranges, but not far. -/
def Modest (tm : Tm) : Prop :=
  ∀ n ∈ [tm.sec, tm.min, tm.hour, tm.mday, tm.mon, tm.year], -10000 ≤ n ∧ n ≤ 10000

end Tm

/-- No other time looks the same. -/
def Unambiguous (localtime : Int → Tm) (t : Int) : Prop :=
  ∀ t', (localtime t').clock = (localtime t).clock → t' = t

/-- `localtime` and `mktime` of a time zone. -/
structure Zone where
  localtime : Int → Tm
  mktime : Tm → Int
  proper : ∀ t, (localtime t).Proper
  inverse : ∀ t, Unambiguous localtime t → mktime (localtime t) = t
  /-- `mktime` takes the fields for what they come to, but for the hours that the
  zone leaves out or has twice. -/
  normalises : ∀ tm : Tm, tm.Modest →
    -172800 ≤ (localtime (mktime tm)).seconds - tm.seconds ∧
      (localtime (mktime tm)).seconds - tm.seconds ≤ 172800

/-! ## The functions -/

/-- `%02d` and `%04d`. -/
def padded (width : Nat) (n : Int) : Bytes :=
  let digits := text (toString n.natAbs)
  if n < 0 then 45 :: (List.replicate (width - 1 - digits.length) 48 ++ digits)
  else List.replicate (width - digits.length) 48 ++ digits

/-- `snprintf` into `buf[30]`. -/
def inBuf (s : Bytes) : Bytes := s.take 29

/-- `"%02d:%02d:%02d"`. -/
def timeText (tt : Tm) : Bytes :=
  padded 2 tt.hour ++ text ":" ++ padded 2 tt.min ++ text ":" ++ padded 2 tt.sec

/-- `"%02d.%02d.%04d"`. -/
def rusDateText (tt : Tm) : Bytes :=
  padded 2 tt.mday ++ text "." ++ padded 2 (tt.mon + 1) ++ text "." ++ padded 4 (tt.year + 1900)

/-- `"%04d.%02d.%02d"`. -/
def enDateText (tt : Tm) : Bytes :=
  padded 4 (tt.year + 1900) ++ text "." ++ padded 2 (tt.mon + 1) ++ text "." ++ padded 2 tt.mday

namespace Zone

variable (z : Zone)

def rusDatetime (t : Int) : Bytes :=
  inBuf (rusDateText (z.localtime t) ++ text " " ++ timeText (z.localtime t))

def rusDate (t : Int) : Bytes := inBuf (rusDateText (z.localtime t))

def enDatetime (t : Int) : Bytes :=
  inBuf (enDateText (z.localtime t) ++ text " " ++ timeText (z.localtime t))

def enDate (t : Int) : Bytes := inBuf (enDateText (z.localtime t))

def fromRusDatetime (s : Bytes) : Except CommonError Int :=
  match splitString (text ". :") s with
  | [v0, v1, v2] =>
      .ok (z.mktime { mday := atoi v0, mon := atoi v1 - 1, year := atoi v2 - 1900 })
  | [v0, v1, v2, v3, _, v5] =>
      -- `tm_min` is set twice, and `tm_sec` never
      .ok (z.mktime
        { mday := atoi v0, mon := atoi v1 - 1, year := atoi v2 - 1900, hour := atoi v3
          min := atoi v5 })
  | _ => .error ⟨"invalid v size"⟩

def fromEnDatetime (s : Bytes) : Except CommonError Int :=
  match splitString (text ". :") s with
  | [v0, v1, v2] =>
      .ok (z.mktime { mday := atoi v2, mon := atoi v1 - 1, year := atoi v0 - 1900 })
  | [v0, v1, v2, v3, _, v5] =>
      -- the day and the year have changed places as well
      .ok (z.mktime
        { mday := atoi v0, mon := atoi v1 - 1, year := atoi v2 - 1900, hour := atoi v3
          min := atoi v5 })
  | _ => .error ⟨"invalid v size"⟩

end Zone

/-! ## Numbers and their places -/

section Texts

theorem numeral_zeros {s : Bytes} {n : Nat} (h : Numeral s n) (k : Nat) :
    Numeral (List.replicate k 48 ++ s) n := by
  induction k with
  | zero => exact h
  | succ k ih =>
      rw [List.replicate_succ, List.cons_append]
      refine ⟨List.cons_ne_nil _ _, ?_, ?_⟩
      · intro c hc
        rcases List.mem_cons.1 hc with rfl | hc
        · decide
        · exact ih.isDigit c hc
      · have hZero : isDigit 48 = true := by decide
        rw [← ih.digits_eq]
        simp [digits, hZero]

theorem numeral_padded (width : Nat) {n : Int} (hn : 0 ≤ n) :
    Numeral (padded width n) n.natAbs := by
  have hSign : ¬ n < 0 := by omega
  unfold padded
  dsimp only
  rw [if_neg hSign]
  exact numeral_zeros (numeral_toString _) _

theorem atoi_padded (width : Nat) {n : Int} (hn : 0 ≤ n) (hSmall : n < 2 ^ 31) :
    atoi (padded width n) = n := by
  rw [(numeral_padded width hn).atoi_eq (by omega)]
  omega

/-- No separator is in a number. -/
theorem not_separator {s : Bytes} {n : Nat} (h : Numeral s n) : ∀ c ∈ s, c ∉ text ". :" := by
  intro c hc
  have hDigit := toNat_of_isDigit (h.isDigit c hc)
  have hSeps : ∀ d ∈ text ". :", ¬ (48 ≤ d.toNat ∧ d.toNat ≤ 57) := by decide +kernel
  exact fun hMem => hSeps c hMem hDigit

theorem splitString_numeral {s rest : Bytes} {n : Nat} {c : UInt8} (h : Numeral s n)
    (hc : c ∈ text ". :") :
    splitString (text ". :") (s ++ c :: rest) = s :: splitString (text ". :") rest :=
  splitString_append h.ne_nil (not_separator h) hc

theorem separators : text "." = [46] ∧ text " " = [32] ∧ text ":" = [58] ∧
    (46 ∈ text ". :" ∧ 32 ∈ text ". :" ∧ 58 ∈ text ". :") := by
  decide +kernel

section Fields

variable {a b c d e f : Bytes} {na nb nc nd ne nf : Nat}

theorem splitString_date (ha : Numeral a na) (hb : Numeral b nb) (hc : Numeral c nc) :
    splitString (text ". :") (a ++ text "." ++ b ++ text "." ++ c) = [a, b, c] := by
  obtain ⟨hDot, -, -, hMem, -, -⟩ := separators
  rw [hDot]
  simp only [List.append_assoc, List.cons_append, List.nil_append]
  rw [splitString_numeral ha hMem, splitString_numeral hb hMem,
    splitString_self hc.ne_nil (not_separator hc)]

theorem splitString_datetime (ha : Numeral a na) (hb : Numeral b nb) (hc : Numeral c nc)
    (hd : Numeral d nd) (he : Numeral e ne) (hf : Numeral f nf) :
    splitString (text ". :") (a ++ text "." ++ b ++ text "." ++ c ++ text " " ++
      (d ++ text ":" ++ e ++ text ":" ++ f)) = [a, b, c, d, e, f] := by
  obtain ⟨hDot, hBlank, hColon, hMemDot, hMemBlank, hMemColon⟩ := separators
  rw [hDot, hBlank, hColon]
  simp only [List.append_assoc, List.cons_append, List.nil_append]
  rw [splitString_numeral ha hMemDot, splitString_numeral hb hMemDot,
    splitString_numeral hc hMemBlank, splitString_numeral hd hMemColon,
    splitString_numeral he hMemColon, splitString_self hf.ne_nil (not_separator hf)]

end Fields

theorem length_toString_le {k : Nat} :
    ∀ n, n < 10 ^ (k + 1) → (text (toString n)).length ≤ k + 1 := by
  induction k with
  | zero =>
      intro n hn
      rw [Nat.toString_eq_ofList_toDigits, Nat.toDigits_of_lt_base (by simpa using hn),
        text_digitChar (by simpa using hn), List.length_singleton]
  | succ k ih =>
      intro n hn
      rw [Nat.toString_eq_ofList_toDigits]
      rcases Nat.lt_or_ge n 10 with hDigit | hMore
      · rw [Nat.toDigits_of_lt_base hDigit, text_digitChar hDigit, List.length_singleton]
        omega
      · have hShort := ih (n / 10) (by rw [Nat.pow_succ] at hn; omega)
        rw [Nat.toString_eq_ofList_toDigits] at hShort
        rw [Nat.toDigits_of_base_le (by decide) hMore, String.ofList_append, text_append,
          text_digitChar (Nat.mod_lt _ (by decide)), List.length_append, List.length_singleton]
        omega

/-- A number that is not too long takes its width. -/
theorem length_padded {k : Nat} {n : Int} (hn : 0 ≤ n) (hSmall : n.natAbs < 10 ^ (k + 1)) :
    (padded (k + 1) n).length = k + 1 := by
  have hLength := length_toString_le n.natAbs hSmall
  have hSign : ¬ n < 0 := by omega
  unfold padded
  dsimp only
  rw [if_neg hSign, List.length_append, List.length_replicate]
  omega

end Texts

/-! ## What comes back -/

/-- The year is written with four digits. -/
def Tm.FourDigitYear (tm : Tm) : Prop := 1000 ≤ tm.year + 1900 ∧ tm.year + 1900 ≤ 9999

instance (tm : Tm) : Decidable tm.FourDigitYear := inferInstanceAs (Decidable (_ ∧ _))

section Reading

variable {tm : Tm} (hProper : tm.Proper) (hYear : tm.FourDigitYear)

include hProper

theorem length_timeText : (timeText tm).length = 8 := by
  obtain ⟨hSec, hMin, hHour, -, -⟩ := hProper
  obtain ⟨-, -, hColon, -⟩ := separators
  simp only [timeText, hColon, List.length_append, List.length_singleton,
    length_padded (k := 1) hSec.1 (by omega), length_padded (k := 1) hMin.1 (by omega),
    length_padded (k := 1) hHour.1 (by omega)]

include hYear

theorem length_dateText : (rusDateText tm).length = 10 ∧ (enDateText tm).length = 10 := by
  obtain ⟨-, -, -, hMday, hMon⟩ := hProper
  obtain ⟨hLow, hHigh⟩ := hYear
  obtain ⟨hDot, -⟩ := separators
  have hDay : (padded 2 tm.mday).length = 2 := length_padded (by omega) (by omega)
  have hMonth : (padded 2 (tm.mon + 1)).length = 2 := length_padded (by omega) (by omega)
  have hYears : (padded 4 (tm.year + 1900)).length = 4 := length_padded (by omega) (by omega)
  simp only [rusDateText, enDateText, hDot, List.length_append, List.length_singleton, hDay, hMonth,
    hYears, and_self]

/-- The texts fit into the buffer. -/
theorem inBuf_texts :
    inBuf (rusDateText tm) = rusDateText tm ∧ inBuf (enDateText tm) = enDateText tm ∧
      inBuf (rusDateText tm ++ text " " ++ timeText tm) =
        rusDateText tm ++ text " " ++ timeText tm ∧
      inBuf (enDateText tm ++ text " " ++ timeText tm) =
        enDateText tm ++ text " " ++ timeText tm := by
  obtain ⟨hRus, hEn⟩ := length_dateText hProper hYear
  have hTime := length_timeText hProper
  have hBlank := separators.2.1
  unfold inBuf
  refine ⟨?_, ?_, ?_, ?_⟩ <;> apply List.take_of_length_le <;>
    simp only [List.length_append, hRus, hEn, hTime, hBlank, List.length_singleton] <;> decide

/-- The numbers of a time, at their places in either text. -/
theorem splitString_texts :
    splitString (text ". :") (rusDateText tm ++ text " " ++ timeText tm) =
        [padded 2 tm.mday, padded 2 (tm.mon + 1), padded 4 (tm.year + 1900), padded 2 tm.hour,
          padded 2 tm.min, padded 2 tm.sec] ∧
      splitString (text ". :") (enDateText tm ++ text " " ++ timeText tm) =
        [padded 4 (tm.year + 1900), padded 2 (tm.mon + 1), padded 2 tm.mday, padded 2 tm.hour,
          padded 2 tm.min, padded 2 tm.sec] ∧
      splitString (text ". :") (rusDateText tm) =
        [padded 2 tm.mday, padded 2 (tm.mon + 1), padded 4 (tm.year + 1900)] ∧
      splitString (text ". :") (enDateText tm) =
        [padded 4 (tm.year + 1900), padded 2 (tm.mon + 1), padded 2 tm.mday] := by
  obtain ⟨hSec, hMin, hHour, hMday, hMon⟩ := hProper
  obtain ⟨hLow, hHigh⟩ := hYear
  have hDay := numeral_padded 2 (n := tm.mday) (by omega)
  have hMonth := numeral_padded 2 (n := tm.mon + 1) (by omega)
  have hYears := numeral_padded 4 (n := tm.year + 1900) (by omega)
  have hHours := numeral_padded 2 hHour.1
  have hMins := numeral_padded 2 hMin.1
  have hSecs := numeral_padded 2 hSec.1
  exact ⟨splitString_datetime hDay hMonth hYears hHours hMins hSecs,
    splitString_datetime hYears hMonth hDay hHours hMins hSecs,
    splitString_date hDay hMonth hYears, splitString_date hYears hMonth hDay⟩

/-- The numbers are read back. -/
theorem atoi_fields :
    atoi (padded 2 tm.mday) = tm.mday ∧ atoi (padded 2 (tm.mon + 1)) = tm.mon + 1 ∧
      atoi (padded 4 (tm.year + 1900)) = tm.year + 1900 ∧ atoi (padded 2 tm.hour) = tm.hour ∧
      atoi (padded 2 tm.sec) = tm.sec := by
  obtain ⟨hSec, hMin, hHour, hMday, hMon⟩ := hProper
  obtain ⟨hLow, hHigh⟩ := hYear
  exact ⟨atoi_padded 2 (by omega) (by omega), atoi_padded 2 (by omega) (by omega),
    atoi_padded 4 (by omega) (by omega), atoi_padded 2 (by omega) (by omega),
    atoi_padded 2 (by omega) (by omega)⟩

end Reading

/-- What `from_en_datetime` has for the fields: the day is the year, the year the
day, and the seconds are minutes. -/
def Tm.misread (tm : Tm) : Tm where
  mday := tm.year + 1900
  mon := tm.mon
  year := tm.mday - 1900
  hour := tm.hour
  min := tm.sec

namespace Zone

variable {z : Zone} {t : Int}

section Reading

variable (hYear : (z.localtime t).FourDigitYear)

include hYear

theorem fromRusDatetime_rusDatetime :
    z.fromRusDatetime (z.rusDatetime t) = .ok (z.mktime
      { z.localtime t with min := (z.localtime t).sec, sec := 0, isdst := 0 }) := by
  have hProper := z.proper t
  obtain ⟨hDay, hMonth, hYears, hHour, hSec⟩ := atoi_fields hProper hYear
  rw [rusDatetime, (inBuf_texts hProper hYear).2.2.1, fromRusDatetime,
    (splitString_texts hProper hYear).1]
  simp only [hDay, hMonth, hYears, hHour, hSec, Int.add_sub_cancel]

theorem fromEnDatetime_enDatetime :
    z.fromEnDatetime (z.enDatetime t) = .ok (z.mktime (z.localtime t).misread) := by
  have hProper := z.proper t
  obtain ⟨hDay, hMonth, hYears, hHour, hSec⟩ := atoi_fields hProper hYear
  rw [enDatetime, (inBuf_texts hProper hYear).2.2.2, fromEnDatetime,
    (splitString_texts hProper hYear).2.1]
  simp only [Tm.misread, hDay, hMonth, hYears, hHour, hSec, Int.add_sub_cancel]

/-- Either date without a time is read as midnight of the standard time. -/
theorem from_date :
    z.fromRusDatetime (z.rusDate t) = .ok (z.mktime
        { z.localtime t with hour := 0, min := 0, sec := 0, isdst := 0 }) ∧
      z.fromEnDatetime (z.enDate t) = .ok (z.mktime
        { z.localtime t with hour := 0, min := 0, sec := 0, isdst := 0 }) := by
  have hProper := z.proper t
  obtain ⟨hDay, hMonth, hYears, -, -⟩ := atoi_fields hProper hYear
  constructor
  · rw [rusDate, (inBuf_texts hProper hYear).1, fromRusDatetime,
      (splitString_texts hProper hYear).2.2.1]
    simp only [hDay, hMonth, hYears, Int.add_sub_cancel]
  · rw [enDate, (inBuf_texts hProper hYear).2.1, fromEnDatetime,
      (splitString_texts hProper hYear).2.2.2]
    simp only [hDay, hMonth, hYears, Int.add_sub_cancel]

end Reading

/-! ## The round trips -/

/-- Midnight of the day that `t` is in. -/
def IsDayStart (z : Zone) (t t' : Int) : Prop :=
  (z.localtime t').clock = { z.localtime t with hour := 0, min := 0, sec := 0, isdst := 0 }

/-- The times come back, and from the dates the starts of their days. -/
structure RoundTrips (z : Zone) (t : Int) : Prop where
  rus : z.fromRusDatetime (z.rusDatetime t) = .ok t
  en : z.fromEnDatetime (z.enDatetime t) = .ok t
  rusDate : ∃ t', z.fromRusDatetime (z.rusDate t) = .ok t' ∧ z.IsDayStart t t'
  enDate : ∃ t', z.fromEnDatetime (z.enDate t) = .ok t' ∧ z.IsDayStart t t'

/-- What is misread is a date of the first century. -/
theorem seconds_misread {tm : Tm} (hProper : tm.Proper) (hYear : tm.FourDigitYear) :
    tm.misread.Modest ∧ tm.misread.seconds + 172800 < tm.seconds := by
  obtain ⟨hSec, hMin, hHour, hMday, hMon⟩ := hProper
  obtain ⟨hLow, hHigh⟩ := hYear
  have hNoYear : tm.mon / 12 = 0 := by omega
  have hLate := (Calendar.dayNumber_bounds (tm.year + 1900) tm.mon tm.mday).1
  have hFirst := (Calendar.dayNumber_bounds (tm.mday - 1900 + 1900) tm.mon (tm.year + 1900)).2
  have hLateYear := (Calendar.yearStart_bounds (tm.year + 1900)).1
  have hFirstYear := (Calendar.yearStart_bounds (tm.mday - 1900 + 1900)).2
  rw [hNoYear, Int.add_zero] at hLate hFirst
  constructor
  · intro n hn
    simp only [Tm.misread, List.mem_cons, List.not_mem_nil, or_false] at hn
    omega
  · unfold Tm.seconds Tm.misread
    dsimp only
    omega

/-- No time comes back from its text. -/
theorem fromEnDatetime_ne (hYear : (z.localtime t).FourDigitYear) :
    z.fromEnDatetime (z.enDatetime t) ≠ .ok t := by
  rw [fromEnDatetime_enDatetime hYear]
  intro hSame
  obtain ⟨hModest, hFar⟩ := seconds_misread (z.proper t) hYear
  have hNear := (z.normalises _ hModest).2
  rw [Except.ok.inj hSame] at hNear
  omega

/-- In standard time, a full hour comes back from the Russian text. -/
theorem rus_of_fullHour (hYear : (z.localtime t).FourDigitYear)
    (hOne : Unambiguous z.localtime t) (hStandard : (z.localtime t).isdst = 0)
    (hMin : (z.localtime t).min = 0) (hSec : (z.localtime t).sec = 0) :
    z.fromRusDatetime (z.rusDatetime t) = .ok t := by
  have hSame : { z.localtime t with min := (z.localtime t).sec, sec := 0, isdst := 0 } =
      z.localtime t := by
    generalize z.localtime t = tm at hMin hSec hStandard
    cases tm
    dsimp only at hMin hSec hStandard
    subst hMin hSec hStandard
    rfl
  rw [fromRusDatetime_rusDatetime hYear, hSame, z.inverse t hOne]

/-- The start of a day comes back from a date, if it is in standard time. -/
theorem dayStart_of_date {t' : Int} (hYear : (z.localtime t).FourDigitYear)
    (hStart : z.IsDayStart t t') (hOne : Unambiguous z.localtime t')
    (hStandard : (z.localtime t').isdst = 0) :
    z.fromRusDatetime (z.rusDate t) = .ok t' ∧ z.fromEnDatetime (z.enDate t) = .ok t' := by
  have hSame : z.localtime t' =
      { z.localtime t with hour := 0, min := 0, sec := 0, isdst := 0 } := by
    rw [← hStart, Tm.clock, ← hStandard]
  obtain ⟨hRus, hEn⟩ := from_date hYear
  rw [← hSame, z.inverse t' hOne] at hRus hEn
  exact ⟨hRus, hEn⟩

/-! ## Universal time -/

/-- The days in front of 1970. -/
def epochDays : Int := 719162

def gmtime (t : Int) : Tm :=
  let date := Calendar.dateOf (t / 86400 + epochDays)
  { sec := t % 60, min := t / 60 % 60, hour := t / 3600 % 24, mday := date.mday, mon := date.mon
    year := date.year - 1900 }

theorem seconds_gmtime (t : Int) : (gmtime t).seconds = t + epochDays * 86400 := by
  have hDay := (Calendar.dayNumber_dateOf (t / 86400 + epochDays)).1
  unfold Tm.seconds gmtime
  dsimp only
  rw [Int.sub_add_cancel, hDay]
  omega

/-- The zone without a shift. -/
def utc : Zone where
  localtime := gmtime
  mktime tm := tm.seconds - epochDays * 86400
  proper t := by
    obtain ⟨-, hMon, hMday⟩ := Calendar.dayNumber_dateOf (t / 86400 + epochDays)
    unfold gmtime
    constructor <;> dsimp only <;> omega
  inverse t _ := by
    rw [seconds_gmtime]
    omega
  normalises tm _ := by
    rw [seconds_gmtime]
    omega

/--
**The round trips.** They hold for no time with a four-digit year.
-/
theorem not_roundTrips (z : Zone) (t : Int) (hYear : (z.localtime t).FourDigitYear) :
    ¬ z.RoundTrips t :=
  fun h => fromEnDatetime_ne hYear h.en

/-- The 14th of November 2023, 22:13:20. -/
theorem not_roundTrips_november : ¬ utc.RoundTrips 1700000000 :=
  not_roundTrips utc 1700000000 (by decide +kernel)

theorem unambiguous_utc (t : Int) : Unambiguous utc.localtime t := by
  intro t' hClock
  have hSeconds : (gmtime t').clock.seconds = (gmtime t).clock.seconds :=
    congrArg Tm.seconds hClock
  have hHere : t + epochDays * 86400 = t' + epochDays * 86400 := by
    rw [← seconds_gmtime, ← seconds_gmtime]
    exact hSeconds.symm
  omega

/-- In UTC no time is ambiguous, and its English text is not read back either. -/
theorem roundTrips_fails :
    ¬ ∀ (z : Zone) (t : Int), (z.localtime t).FourDigitYear → Unambiguous z.localtime t →
      z.RoundTrips t := by
  intro hAll
  have hYear : (utc.localtime 1700000000).FourDigitYear := by decide +kernel
  exact fromEnDatetime_ne hYear (hAll utc _ hYear (unambiguous_utc _)).en

end Zone

end Megatron.CUtils
