import WiseWay.Calendar
import WiseWay.Doubles
import WiseWay.Records

/-! # The times of the audit journal

`timestamp` and `utc` of `common.py`, and the expression with which `audit_pagination.py` has
SQLite write a time as a UTC text. On RFC 3339 values they order times alike. -/
namespace AuditTimes

open Records Calendar

/-! Values. -/

inductive Zone where
  | utc
  | offset (negative : Bool) (hours minutes : ℕ)
  deriving DecidableEq, Repr

/-- The parts of an RFC 3339 value. A fraction without digits is not written. -/
structure Rfc3339 where
  civil : Civil
  separator : Char
  fraction : Text
  zone : Zone
  deriving DecidableEq, Repr

def Zone.Valid : Zone → Prop
  | .utc => True
  | .offset _ hours minutes => hours < 24 ∧ minutes < 60

structure Rfc3339.Valid (v : Rfc3339) : Prop where
  civil : v.civil.Valid
  year_pos : 1 ≤ v.civil.year
  year_lt : v.civil.year < 10000
  separator : v.separator = 'T' ∨ v.separator = 't'
  fraction : ∀ c ∈ v.fraction, isDigit c = true
  zone : v.zone.Valid

def Zone.text : Zone → Text
  | .utc => ['Z']
  | .offset negative hours minutes =>
    (if negative then '-' else '+') :: (padded 2 hours ++ ':' :: padded 2 minutes)

def fractionText (fraction : Text) : Text := if fraction = [] then [] else '.' :: fraction

def Rfc3339.tail (v : Rfc3339) : Text := fractionText v.fraction ++ v.zone.text

def Rfc3339.text (v : Rfc3339) : Text := v.civil.textWith v.separator ++ v.tail

/-- `utc`: a time as it is written into an event. -/
def utc (civil : Civil) (microsecond : ℕ) : Text :=
  civil.text ++ '.' :: (padded 6 microsecond ++ ['Z'])

/-! Instants. -/

def Zone.seconds : Zone → ℤ
  | .utc => 0
  | .offset negative hours minutes =>
    (if negative then -1 else 1) * ((hours : ℤ) * 3600 + (minutes : ℤ) * 60)

/-- The six digits of a fraction that count, and their value. -/
def sixDigits (fraction : Text) : Text := (fraction ++ List.replicate 6 '0').take 6

def microseconds (fraction : Text) : ℕ := valueOf (sixDigits fraction)

def Rfc3339.utcSeconds (v : Rfc3339) : ℤ := v.civil.seconds - v.zone.seconds

def Rfc3339.instant (v : Rfc3339) : ℤ := v.utcSeconds * 1000000 + microseconds v.fraction

def epoch : ℤ := 62167219200

/-- A number of microseconds since the year 0 in seconds since the epoch, as a double. -/
def toTimestamp (instant : ℤ) : ℚ := Doubles.double ((instant - epoch * 1000000 : ℤ) / 1000000)

/-! Python. -/

def readChar (c : Char) : Text → Option Text
  | d :: rest => if d = c then some rest else none
  | [] => none

/-- The date and the time of the day in front of a value, with their separator. -/
def readCivil (text : Text) : Option (Civil × Char × Text) := do
  let (year, rest) ← readNumber 4 0 text
  let (month, rest) ← readNumber 2 0 (← readChar '-' rest)
  let (day, rest) ← readNumber 2 0 (← readChar '-' rest)
  match rest with
  | [] => none
  | separator :: rest =>
    let (hour, rest) ← readNumber 2 0 rest
    let (minute, rest) ← readNumber 2 0 (← readChar ':' rest)
    let (second, rest) ← readNumber 2 0 (← readChar ':' rest)
    return (⟨year, month, day, hour, minute, second⟩, separator, rest)

def readOffset (text : Text) : Option ℤ := do
  match text with
  | [] => none
  | sign :: rest =>
    if sign ≠ '+' ∧ sign ≠ '-' then none
    let (hours, rest) ← readNumber 2 0 rest
    let (minutes, rest) ← readNumber 2 0 (← readChar ':' rest)
    if rest ≠ [] ∨ minutes ≥ 60 then none
    return (if sign = '-' then -1 else 1) * ((hours : ℤ) * 3600 + (minutes : ℤ) * 60)

/-- `datetime.fromisoformat` on a date, a time of the day to the second or finer and an offset;
the other shapes that it reads are left out. Digits after the sixth are dropped. -/
def fromisoformat (text : Text) : Option ℤ := do
  let (civil, _, rest) ← readCivil text
  let fraction := match rest with
    | '.' :: rest => rest.takeWhile isDigit
    | _ => []
  let offset ← readOffset (rest.drop (fractionText fraction).length)
  if ¬civil.Valid ∨ civil.year = 0 ∨ offset ≤ -86400 ∨ 86400 ≤ offset then none
  return (civil.seconds - offset) * 1000000 + microseconds fraction

/-- `replace("Z", "+00:00")`, on one character. -/
def replaceZ (c : Char) : Text := if c = 'Z' then "+00:00".toList else [c]

/-- `timestamp`. -/
def timestamp (value : Text) : Option ℚ := (fromisoformat (value.flatMap replaceZ)).map toTimestamp

/-! SQLite. -/

/-- `instr` of one character: its place, counted from one. -/
def instr (text : Text) (c : Char) : ℕ := if c ∈ text then text.idxOf c + 1 else 0

def readZone (text : Text) : Option ℤ := if text = ['Z'] then some 0 else readOffset text

/-- `strftime('%Y-%m-%dT%H:%M:%S', …)` of a date and a time of the day to the second with a zone;
a time outside the years 0 to 9999 and an offset of 15 hours or more are refused. -/
def strftime (text : Text) : Option Text := do
  let (civil, separator, rest) ← readCivil text
  let offset ← readZone rest
  if separator ≠ 'T' ∧ separator ≠ ' ' ∨ civil.month = 0 ∨ 12 < civil.month ∨ civil.day = 0 ∨
      31 < civil.day ∨ 24 < civil.hour ∨ 60 ≤ civil.minute ∨ 60 ≤ civil.second then none
  if offset ≤ -54000 ∨ 54000 ≤ offset then none
  let utcSeconds := (civil.seconds : ℤ) - offset
  if utcSeconds < 0 ∨ (endOfYears : ℤ) ≤ utcSeconds then none
  return (civilOf utcSeconds.toNat).text

/-- `replace(…, 't', 'T')`, on one character. -/
def replaceT (c : Char) : Char := if c = 't' then 'T' else c

/-- `timezone_position` in the tail of a value. -/
def timezonePosition (tail : Text) : ℕ :=
  if 0 < instr tail 'Z' then instr tail 'Z'
  else if 0 < instr tail '+' then instr tail '+' else instr tail '-'

def timezone (value : Text) : Text :=
  if 0 < instr (value.drop 19) 'Z' then ['Z']
  else if 0 < instr (value.drop 19) '+' then value.drop (18 + instr (value.drop 19) '+')
  else value.drop (18 + instr (value.drop 19) '-')

def fractionOf (value : Text) : Text :=
  if value[19]? = some '.' then (value.drop 20).take (timezonePosition (value.drop 19) - 2) else []

/-- `_normalized_utc`. -/
def normalizedUtc (value : Text) : Option Text :=
  (strftime ((value.take 19).map replaceT ++ timezone value)).map fun whole =>
    whole ++ '.' :: sixDigits (fractionOf value)

example : normalizedUtc "2030-12-31t23:59:59.9999999-01:00".toList =
    some "2031-01-01T00:59:59.999999".toList := by decide +kernel

/-! What the two readers make of an RFC 3339 value. -/

theorem lt_pow_of_valid {c : Civil} (h : c.Valid) (hyear : c.year < 10000) :
    c.year < 10 ^ 4 ∧ c.month < 10 ^ 2 ∧ c.day < 10 ^ 2 ∧ c.hour < 10 ^ 2 ∧ c.minute < 10 ^ 2 ∧
      c.second < 10 ^ 2 := by
  have := h.month_le
  have := h.day_le.trans (daysInMonth_le _ _)
  have := h.hour_lt
  have := h.minute_lt
  have := h.second_lt
  omega

theorem readCivil_text {c : Civil} (h : c.Valid) (hyear : c.year < 10000) (separator : Char)
    (rest : Text) : readCivil (c.textWith separator ++ rest) = some (c, separator, rest) := by
  obtain ⟨h1, h2, h3, h4, h5, h6⟩ := lt_pow_of_valid h hyear
  unfold readCivil Civil.textWith
  simp only [List.append_assoc, List.cons_append, readNumber_padded _ _ _ h1,
    readNumber_padded _ _ _ h2, readNumber_padded _ _ _ h3, readNumber_padded _ _ _ h4,
    readNumber_padded _ _ _ h5, readNumber_padded _ _ _ h6, readChar, Option.bind_eq_bind,
    Option.bind_some, if_true, Option.pure_def]

theorem readOffset_text {negative : Bool} {hours minutes : ℕ} (hhours : hours < 24)
    (hminutes : minutes < 60) : readOffset (Zone.offset negative hours minutes).text =
      some (Zone.offset negative hours minutes).seconds := by
  have hread : readNumber 2 0 (padded 2 minutes) = some (minutes, []) := by
    have := readNumber_padded 2 minutes [] (by omega)
    rwa [List.append_nil] at this
  unfold readOffset Zone.text Zone.seconds
  cases negative with
  | false =>
    simp only [readNumber_padded _ _ _ (show hours < 10 ^ 2 by omega), readChar, hread,
      Option.bind_eq_bind, Option.bind_some, if_true]
    simp [hminutes]
  | true =>
    simp only [readNumber_padded _ _ _ (show hours < 10 ^ 2 by omega), readChar, hread,
      Option.bind_eq_bind, Option.bind_some, if_true]
    simp [hminutes]

theorem map_digits {f : Char → Char} (hf : ∀ c, isDigit c = true → f c = c) {text : Text}
    (h : ∀ c ∈ text, isDigit c = true) : text.map f = text :=
  (List.map_congr_left fun c hc => hf c (h c hc)).trans (List.map_id' text)

theorem flatMap_digits {f : Char → Text} (hf : ∀ c, isDigit c = true → f c = [c]) {text : Text}
    (h : ∀ c ∈ text, isDigit c = true) : text.flatMap f = text := by
  induction text with
  | nil => rfl
  | cons c text ih =>
    rw [List.flatMap_cons, hf c (h c (List.mem_cons_self ..)),
      ih fun d hd => h d (List.mem_cons_of_mem _ hd), List.singleton_append]

theorem not_digit {c : Char} (h : isDigit c = true) (d : Char) (hd : isDigit d = false) :
    c ≠ d := by
  rintro rfl
  rw [h] at hd
  cases hd

/-- The zone that Python sees: `Z` is replaced. -/
def Zone.plain : Zone → Zone
  | .utc => .offset false 0 0
  | zone => zone

theorem plain_seconds (zone : Zone) : zone.plain.seconds = zone.seconds := by
  cases zone <;> rfl

theorem replaceZ_digit {c : Char} (h : isDigit c = true) : replaceZ c = [c] :=
  if_neg (not_digit h 'Z' (by decide))

theorem replaceZ_padded (width n : ℕ) : (padded width n).flatMap replaceZ = padded width n :=
  flatMap_digits (fun _ => replaceZ_digit) (isDigit_padded width n)

theorem replace_text {v : Rfc3339} (h : v.Valid) : v.text.flatMap replaceZ =
    v.civil.textWith v.separator ++ (fractionText v.fraction ++ v.zone.plain.text) := by
  have hseparator : replaceZ v.separator = [v.separator] :=
    if_neg (by rcases h.separator with h | h <;> rw [h] <;> decide)
  have hcivil : (v.civil.textWith v.separator).flatMap replaceZ =
      v.civil.textWith v.separator := by
    simp only [Civil.textWith, List.flatMap_append, List.flatMap_cons, replaceZ_padded, hseparator,
      show replaceZ '-' = ['-'] from rfl, show replaceZ ':' = [':'] from rfl,
      List.singleton_append]
  have hfraction : (fractionText v.fraction).flatMap replaceZ = fractionText v.fraction := by
    unfold fractionText
    split
    · rfl
    · rw [List.flatMap_cons, flatMap_digits (fun _ => replaceZ_digit) h.fraction]
      rfl
  have hzone : v.zone.text.flatMap replaceZ = v.zone.plain.text := by
    cases v.zone with
    | utc => rfl
    | offset negative hours minutes =>
      have hsign : replaceZ (if negative then '-' else '+') = [if negative then '-' else '+'] := by
        cases negative <;> rfl
      simp only [Zone.text, Zone.plain, List.flatMap_cons, List.flatMap_append, replaceZ_padded,
        hsign, show replaceZ ':' = [':'] from rfl, List.singleton_append]
  rw [Rfc3339.text, Rfc3339.tail, List.flatMap_append, List.flatMap_append, hcivil, hfraction,
    hzone]

theorem fraction_read {fraction : Text} (hfraction : ∀ c ∈ fraction, isDigit c = true)
    {zoneText : Text} (hzone : ∃ sign rest, zoneText = sign :: rest ∧ isDigit sign = false ∧
      sign ≠ '.') :
    (match fractionText fraction ++ zoneText with
      | '.' :: rest => rest.takeWhile isDigit
      | _ => []) = fraction := by
  obtain ⟨sign, rest, rfl, hsign, hdot⟩ := hzone
  by_cases hnone : fraction = []
  · subst hnone
    rw [fractionText, if_pos rfl, List.nil_append]
    split
    · rename_i heq
      exact absurd (List.cons.inj heq).1 hdot
    · rfl
  · rw [fractionText, if_neg hnone, List.cons_append]
    show (fraction ++ sign :: rest).takeWhile isDigit = fraction
    rw [List.takeWhile_append_of_pos hfraction, List.takeWhile_cons_of_neg (by simp [hsign]),
      List.append_nil]

theorem fromisoformat_text {v : Rfc3339} (h : v.Valid) :
    fromisoformat (v.text.flatMap replaceZ) = some v.instant := by
  obtain ⟨negative, hours, minutes, hplain, hhours, hminutes⟩ :
      ∃ negative hours minutes, v.zone.plain = .offset negative hours minutes ∧ hours < 24 ∧
        minutes < 60 := by
    have hzone := h.zone
    cases hz : v.zone with
    | utc => exact ⟨false, 0, 0, rfl, by omega, by omega⟩
    | offset negative hours minutes =>
      rw [hz] at hzone
      exact ⟨negative, hours, minutes, rfl, hzone.1, hzone.2⟩
  have hread : (match fractionText v.fraction ++ v.zone.plain.text with
      | '.' :: rest => rest.takeWhile isDigit
      | _ => []) = v.fraction := by
    refine fraction_read h.fraction ?_
    rw [hplain]
    cases negative
    · exact ⟨'+', _, rfl, by decide, by decide⟩
    · exact ⟨'-', _, rfl, by decide, by decide⟩
  have hoffset : -86400 < v.zone.seconds ∧ v.zone.seconds < 86400 := by
    rw [← plain_seconds, hplain]
    unfold Zone.seconds
    cases negative <;> simp <;> omega
  have hbad : ¬(¬v.civil.Valid ∨ v.civil.year = 0 ∨ v.zone.seconds ≤ -86400 ∨
      86400 ≤ v.zone.seconds) := by
    have := h.year_pos
    rintro (hcivil | hyear | hlow | hhigh)
    · exact hcivil h.civil
    · omega
    · omega
    · omega
  rw [replace_text h, fromisoformat, readCivil_text h.civil h.year_lt]
  simp only [Option.bind_eq_bind, Option.bind_some, hread, List.drop_left]
  rw [hplain, readOffset_text hhours hminutes, ← hplain, plain_seconds]
  simp only [Option.bind_some, if_neg hbad]
  rfl

theorem timestamp_text {v : Rfc3339} (h : v.Valid) :
    timestamp v.text = some (toTimestamp v.instant) := by
  rw [timestamp, fromisoformat_text h]
  rfl

/-- SQLite can write the value: its offset is less than 15 hours and it falls in a year that has
four digits. -/
structure Rfc3339.Normal (v : Rfc3339) : Prop where
  offset_low : -54000 < v.zone.seconds
  offset_high : v.zone.seconds < 54000
  year : v.utcSeconds < endOfYears

theorem replaceT_padded (width n : ℕ) : (padded width n).map replaceT = padded width n :=
  map_digits (fun _ hc => if_neg (not_digit hc 't' (by decide))) (isDigit_padded width n)

theorem map_replaceT {v : Rfc3339} (h : v.Valid) :
    (v.civil.textWith v.separator).map replaceT = v.civil.text := by
  have hseparator : replaceT v.separator = 'T' := by
    rcases h.separator with h | h <;> rw [h] <;> decide
  simp only [Civil.text, Civil.textWith, List.map_append, List.map_cons, replaceT_padded,
    hseparator, show replaceT '-' = '-' from rfl, show replaceT ':' = ':' from rfl]

theorem instr_append {p r : Text} {c : Char} (h : c ∉ p) :
    instr (p ++ c :: r) c = p.length + 1 := by
  rw [instr, if_pos (by simp), List.idxOf_append_of_notMem h, List.idxOf_cons_self]

theorem instr_absent {text : Text} {c : Char} (h : c ∉ text) : instr text c = 0 := if_neg h

theorem not_mem_fractionText {fraction : Text} (hfraction : ∀ c ∈ fraction, isDigit c = true)
    {c : Char} (hdigit : isDigit c = false) (hdot : c ≠ '.') : c ∉ fractionText fraction := by
  unfold fractionText
  split
  · exact List.not_mem_nil
  · rw [List.mem_cons, not_or]
    exact ⟨hdot, fun hmem => not_digit (hfraction c hmem) c hdigit rfl⟩

theorem not_mem_padded {width n : ℕ} {c : Char} (hdigit : isDigit c = false) :
    c ∉ padded width n := fun hmem => not_digit (isDigit_padded width n c hmem) c hdigit rfl

theorem zone_found {v : Rfc3339} (h : v.Valid) :
    timezonePosition v.tail = (fractionText v.fraction).length + 1 ∧
      timezone v.text = v.zone.text := by
  have hdrop : v.text.drop 19 = v.tail := by
    rw [Rfc3339.text, List.drop_append_of_le_length (by simp), List.drop_of_length_le (by simp),
      List.nil_append]
  have hzone : v.text.drop (18 + ((fractionText v.fraction).length + 1)) = v.zone.text := by
    rw [show 18 + ((fractionText v.fraction).length + 1) = 19 + (fractionText v.fraction).length
      by omega, ← List.drop_drop, hdrop, Rfc3339.tail, List.drop_left]
  have habsent : ∀ c, isDigit c = false → c ≠ '.' → c ∉ fractionText v.fraction :=
    fun c => not_mem_fractionText h.fraction
  unfold timezonePosition timezone
  rw [hdrop]
  cases hz : v.zone with
  | utc =>
    have hfound : instr v.tail 'Z' = (fractionText v.fraction).length + 1 := by
      rw [Rfc3339.tail, hz]
      exact instr_append (habsent 'Z' (by decide) (by decide))
    simp [hfound, Zone.text]
  | offset negative hours minutes =>
    have hnone : ∀ c, isDigit c = false → c ≠ '.' → c ≠ ':' →
        c ≠ (if negative then '-' else '+') → instr v.tail c = 0 := by
      intro c hdigit hdot hcolon hsign
      refine instr_absent ?_
      rw [Rfc3339.tail, hz, Zone.text]
      simp only [List.mem_append, List.mem_cons, not_or]
      exact ⟨habsent c hdigit hdot, hsign, not_mem_padded hdigit, hcolon, not_mem_padded hdigit⟩
    have hfound : instr v.tail (if negative then '-' else '+') =
        (fractionText v.fraction).length + 1 := by
      rw [Rfc3339.tail, hz]
      refine instr_append (habsent _ ?_ ?_)
      · cases negative <;> decide
      · cases negative <;> decide
    rw [hnone 'Z' (by decide) (by decide) (by decide) (by cases negative <;> decide), ← hz]
    cases negative with
    | false =>
      rw [show (if false = true then '-' else '+') = '+' from rfl] at hfound
      rw [hfound]
      simp [hzone]
    | true =>
      rw [show (if true = true then '-' else '+') = '-' from rfl] at hfound
      rw [hfound, hnone '+' (by decide) (by decide) (by decide) (by decide)]
      simp [hzone]

theorem fraction_found {v : Rfc3339} (h : v.Valid) : fractionOf v.text = v.fraction := by
  have hdrop : v.text.drop 19 = v.tail := by
    rw [Rfc3339.text, List.drop_append_of_le_length (by simp), List.drop_of_length_le (by simp),
      List.nil_append]
  have hfirst : v.text[19]? = v.tail[0]? := by rw [← hdrop, List.getElem?_drop]
  have hrest : v.text.drop 20 = v.tail.drop 1 := by rw [← hdrop, List.drop_drop]
  unfold fractionOf
  rw [hfirst, hrest, hdrop, (zone_found h).1]
  unfold Rfc3339.tail fractionText
  by_cases hnone : v.fraction = []
  · rw [if_pos hnone, hnone, List.nil_append]
    cases v.zone with
    | utc => rfl
    | offset negative hours minutes => cases negative <;> rfl
  · rw [if_neg hnone]
    simp

theorem seconds_le_of_year {v : Rfc3339} (h : v.Valid) : 31536000 ≤ v.civil.seconds := by
  have hle := daysBeforeYear_strictMono.monotone h.year_pos
  have hone : daysBeforeYear 1 = 366 := rfl
  unfold Civil.seconds Civil.dayNumber
  omega

theorem Rfc3339.Normal.utcSeconds_nonneg {v : Rfc3339} (hnormal : v.Normal) (h : v.Valid) :
    0 ≤ v.utcSeconds := by
  have := seconds_le_of_year h
  have := hnormal.offset_high
  unfold Rfc3339.utcSeconds
  omega

def Rfc3339.normalized (v : Rfc3339) : Text :=
  (civilOf v.utcSeconds.toNat).text ++ '.' :: sixDigits v.fraction

theorem strftime_text {v : Rfc3339} (h : v.Valid) (hnormal : v.Normal) :
    strftime (v.civil.text ++ v.zone.text) = some (civilOf v.utcSeconds.toNat).text := by
  have hlow := hnormal.utcSeconds_nonneg h
  have hoffset : readZone v.zone.text = some v.zone.seconds := by
    have hzone := h.zone
    cases hz : v.zone with
    | utc => rfl
    | offset negative hours minutes =>
      rw [hz] at hzone
      have hne : (Zone.offset negative hours minutes).text ≠ ['Z'] := by
        cases negative <;> simp [Zone.text]
      rw [readZone, if_neg hne, readOffset_text hzone.1 hzone.2]
  have hcivil : ¬('T' ≠ 'T' ∧ 'T' ≠ ' ' ∨ v.civil.month = 0 ∨ 12 < v.civil.month ∨
      v.civil.day = 0 ∨ 31 < v.civil.day ∨ 24 < v.civil.hour ∨ 60 ≤ v.civil.minute ∨
        60 ≤ v.civil.second) := by
    have := h.civil.month_pos
    have := h.civil.month_le
    have := h.civil.day_pos
    have := h.civil.day_le.trans (daysInMonth_le _ _)
    have := h.civil.hour_lt
    have := h.civil.minute_lt
    have := h.civil.second_lt
    rintro (⟨hT, _⟩ | hrest)
    · exact hT rfl
    · omega
  have hzone : ¬(v.zone.seconds ≤ -54000 ∨ 54000 ≤ v.zone.seconds) := by
    have := hnormal.offset_low
    have := hnormal.offset_high
    omega
  have hrange : ¬((v.civil.seconds : ℤ) - v.zone.seconds < 0 ∨
      (endOfYears : ℤ) ≤ (v.civil.seconds : ℤ) - v.zone.seconds) := by
    have := hnormal.year
    unfold Rfc3339.utcSeconds at this hlow
    omega
  unfold strftime
  rw [Civil.text, readCivil_text h.civil h.year_lt]
  simp only [Option.bind_eq_bind, Option.bind_some, hoffset, if_neg hcivil, if_neg hzone,
    if_neg hrange]
  rfl

theorem normalizedUtc_text {v : Rfc3339} (h : v.Valid) (hnormal : v.Normal) :
    normalizedUtc v.text = some v.normalized := by
  have htake : v.text.take 19 = v.civil.textWith v.separator := by
    rw [Rfc3339.text, List.take_append_of_le_length (by simp), List.take_of_length_le (by simp)]
  rw [normalizedUtc, htake, map_replaceT h, (zone_found h).2, fraction_found h,
    strftime_text h hnormal]
  rfl

/-! Texts and doubles are ordered like instants. -/

theorem sixDigits_digits {fraction : Text} (h : ∀ c ∈ fraction, isDigit c = true) :
    ∀ c ∈ sixDigits fraction, isDigit c = true := by
  intro c hc
  rcases List.mem_append.mp (List.mem_of_mem_take hc) with hc | hc
  · exact h c hc
  · rw [(List.mem_replicate.mp hc).2]
    decide

theorem sixDigits_eq {fraction : Text} (h : ∀ c ∈ fraction, isDigit c = true) :
    sixDigits fraction = padded 6 (microseconds fraction) ∧ microseconds fraction < 1000000 := by
  have hlength : (sixDigits fraction).length = 6 := by
    unfold sixDigits
    simp
  obtain ⟨htext, hlt⟩ := padded_valueOf (sixDigits_digits h)
  rw [hlength] at htext hlt
  exact ⟨htext.symm, hlt⟩

theorem normalized_lt {a b : Rfc3339} (ha : a.Valid) (hna : a.Normal) (hb : b.Valid)
    (hnb : b.Normal) (h : a.instant < b.instant) : a.normalized < b.normalized := by
  obtain ⟨hta, hma⟩ := sixDigits_eq ha.fraction
  obtain ⟨htb, hmb⟩ := sixDigits_eq hb.fraction
  have hposa := hna.utcSeconds_nonneg ha
  have hposb := hnb.utcSeconds_nonneg hb
  have hya := hna.year
  have hyb := hnb.year
  unfold Rfc3339.normalized
  rw [hta, htb]
  unfold Rfc3339.instant at h
  by_cases hseconds : a.utcSeconds < b.utcSeconds
  · refine append_lt_append (by simp) ((text_lt_iff (civilOf_valid _) (civilOf_valid _)
      (civilOf_year_lt (by omega)) (civilOf_year_lt (by omega))).mpr ?_)
    rw [seconds_civilOf, seconds_civilOf]
    omega
  · rw [show a.utcSeconds = b.utcSeconds by omega]
    exact append_left_lt _ (separator_lt (padded_lt (by omega) hmb))

theorem normalized_eq {a b : Rfc3339} (ha : a.Valid) (hb : b.Valid)
    (h : a.instant = b.instant) : a.normalized = b.normalized := by
  obtain ⟨hta, hma⟩ := sixDigits_eq ha.fraction
  obtain ⟨htb, hmb⟩ := sixDigits_eq hb.fraction
  unfold Rfc3339.instant at h
  unfold Rfc3339.normalized
  rw [hta, htb, show a.utcSeconds = b.utcSeconds by omega,
    show microseconds a.fraction = microseconds b.fraction by omega]

theorem normalized_lt_iff {a b : Rfc3339} (ha : a.Valid) (hna : a.Normal) (hb : b.Valid)
    (hnb : b.Normal) : a.normalized < b.normalized ↔ a.instant < b.instant := by
  refine ⟨fun h => ?_, normalized_lt ha hna hb hnb⟩
  rcases lt_trichotomy a.instant b.instant with hab | heq | hba
  · exact hab
  · rw [normalized_eq ha hb heq] at h
    exact absurd h (lt_irrefl _)
  · exact absurd h (lt_asymm (normalized_lt hb hnb ha hna hba))

/-- Within 2³³ seconds of the epoch, a double tells microseconds apart. -/
def Recent (instant : ℤ) : Prop :=
  -8589934592000000 < instant - epoch * 1000000 ∧ instant - epoch * 1000000 < 8589934592000000

theorem toTimestamp_lt {a b : ℤ} (hrecent : Recent a ∨ Recent b) (h : a < b) :
    toTimestamp a < toTimestamp b := by
  have hunit : (2 : ℚ) ^ (33 - 53 : ℤ) < 1 / 1000000 := by norm_num
  have hpower : (2 : ℚ) ^ (33 : ℤ) = 8589934592 := by norm_num
  have hstep : (1 : ℚ) ≤ ((b - epoch * 1000000 : ℤ) : ℚ) - ((a - epoch * 1000000 : ℤ) : ℚ) := by
    have : (1 : ℤ) ≤ (b - epoch * 1000000) - (a - epoch * 1000000) := by omega
    exact_mod_cast this
  have hapart : ((a - epoch * 1000000 : ℤ) : ℚ) / 1000000 + 2 ^ (33 - 53 : ℤ) <
      ((b - epoch * 1000000 : ℤ) : ℚ) / 1000000 := by
    linarith
  unfold toTimestamp
  rcases hrecent with ⟨hlow, hhigh⟩ | ⟨hlow, hhigh⟩
  · have hlow' : ((-8589934592000000 : ℤ) : ℚ) + 1 ≤ ((a - epoch * 1000000 : ℤ) : ℚ) := by
      exact_mod_cast hlow
    have hhigh' : ((a - epoch * 1000000 : ℤ) : ℚ) + 1 ≤ ((8589934592000000 : ℤ) : ℚ) := by
      exact_mod_cast hhigh
    refine Doubles.double_lt_of_left (k := 33) hapart ?_ ?_
    · rw [hpower]
      push_cast at hlow' ⊢
      linarith
    · rw [hpower]
      push_cast at hhigh' ⊢
      linarith
  · have hlow' : ((-8589934592000000 : ℤ) : ℚ) + 1 ≤ ((b - epoch * 1000000 : ℤ) : ℚ) := by
      exact_mod_cast hlow
    have hhigh' : ((b - epoch * 1000000 : ℤ) : ℚ) + 1 ≤ ((8589934592000000 : ℤ) : ℚ) := by
      exact_mod_cast hhigh
    refine Doubles.double_lt_of_right (k := 33) hapart ?_ ?_
    · rw [hpower]
      push_cast at hlow' ⊢
      linarith
    · rw [hpower]
      push_cast at hhigh' ⊢
      linarith

theorem toTimestamp_lt_iff {a b : ℤ} (hrecent : Recent a ∨ Recent b) :
    toTimestamp a < toTimestamp b ↔ a < b := by
  refine ⟨fun h => ?_, toTimestamp_lt hrecent⟩
  rcases lt_trichotomy a b with hab | rfl | hba
  · exact hab
  · exact absurd h (lt_irrefl _)
  · exact absurd h (lt_asymm (toTimestamp_lt hrecent.symm hba))

/-! Times of events. -/

/-- The time that `utc` writes. -/
def stamp (civil : Civil) (microsecond : ℕ) : Rfc3339 where
  civil := civil
  separator := 'T'
  fraction := padded 6 microsecond
  zone := .utc

theorem stamp_text (civil : Civil) (microsecond : ℕ) :
    (stamp civil microsecond).text = utc civil microsecond := by
  have hne : padded 6 microsecond ≠ [] := by
    intro h
    have := length_padded 6 microsecond
    rw [h] at this
    cases this
  simp [Rfc3339.text, Rfc3339.tail, stamp, fractionText, hne, Zone.text, utc, Civil.text]

theorem stamp_valid {civil : Civil} (h : civil.Valid) (hlow : 1 ≤ civil.year)
    (hhigh : civil.year < 10000) (microsecond : ℕ) : (stamp civil microsecond).Valid :=
  ⟨h, hlow, hhigh, .inl rfl, isDigit_padded 6 microsecond, trivial⟩

theorem stamp_normal {civil : Civil} (h : civil.Valid) (hhigh : civil.year < 10000)
    (microsecond : ℕ) : (stamp civil microsecond).Normal := by
  refine ⟨show (-54000 : ℤ) < 0 by decide, show (0 : ℤ) < 54000 by decide, ?_⟩
  have hlt := h.dayNumber_lt
  have hle := daysBeforeYear_strictMono.monotone (show civil.year + 1 ≤ 10000 from hhigh)
  have := h.hour_lt
  have := h.minute_lt
  have := h.second_lt
  show (civil.seconds : ℤ) - 0 < endOfYears
  unfold Civil.seconds endOfYears
  omega

end AuditTimes
