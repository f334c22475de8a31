/-
# `AutobricksVpn.Lib.IsoTime` — times as texts

A time of the form `YYYY-MM-DDTHH:mm:ss.sssZ` and the milliseconds that it stands
for.  All its numbers have their full width, the longer spans come first, and what
is between them stands at the same places; so the texts are in the order of the
times (`compare_text`).

    2024-01-02T03:04:05.006Z
    ──── ── ── ── ── ── ───
    year …               milli       each less than one unit of what is before it

Without the milliseconds, or with fewer digits, this is not so.
-/
import Mathlib.Algebra.Group.Nat.Defs
import Mathlib.Data.List.Basic
import Mathlib.Order.Monotone.Basic

/-! ## The order of blocks -/

/-- Of two numbers, each in the block that starts at `f a` and ends before
`f (a + 1)`, the blocks decide, and within one block what is left. -/
theorem compare_block {f : Nat → Nat} (hf : ∀ n, f n ≤ f (n + 1)) {a b r s : Nat}
    (hr : f a + r < f (a + 1)) (hs : f b + s < f (b + 1)) :
    compare (f a + r) (f b + s) = (compare a b).then (compare r s) := by
  have hmono : ∀ {m n}, m ≤ n → f m ≤ f n := fun h => monotone_nat_of_le_succ hf h
  rcases Nat.lt_trichotomy a b with hlt | rfl | hgt
  · have hblocks : f (a + 1) ≤ f b := hmono hlt
    rw [Nat.compare_eq_lt.mpr hlt, Nat.compare_eq_lt.mpr (by omega)]
    rfl
  · rw [Nat.compare_eq_eq.mpr rfl]
    show compare (f a + r) (f a + s) = compare r s
    rcases Nat.lt_trichotomy r s with hlt | rfl | hgt
    · rw [Nat.compare_eq_lt.mpr hlt, Nat.compare_eq_lt.mpr (by omega)]
    · rw [Nat.compare_eq_eq.mpr rfl, Nat.compare_eq_eq.mpr rfl]
    · rw [Nat.compare_eq_gt.mpr hgt, Nat.compare_eq_gt.mpr (by omega)]
  · have hblocks : f (b + 1) ≤ f a := hmono hgt
    rw [Nat.compare_eq_gt.mpr hgt, Nat.compare_eq_gt.mpr (by omega)]
    rfl

theorem compare_units (unit : Nat) {a b r s : Nat} (hr : r < unit) (hs : s < unit) :
    compare (a * unit + r) (b * unit + s) = (compare a b).then (compare r s) := by
  refine compare_block (f := (· * unit)) (fun n => ?_) ?_ ?_
  · exact Nat.mul_le_mul_right unit (Nat.le_succ n)
  · rw [Nat.succ_mul]
    omega
  · rw [Nat.succ_mul]
    omega

namespace IsoTime

/-! ## Digits -/

/-- The last `width` decimal digits of `n`. -/
def digits : Nat → Nat → List Char
  | 0, _ => []
  | width + 1, n => Nat.digitChar (n / 10 ^ width % 10) :: digits width (n % 10 ^ width)

def value (text : List Char) : Nat := text.foldl (fun n c => n * 10 + (c.toNat - 48)) 0

theorem toNat_digitChar : ∀ n < 10, (Nat.digitChar n).toNat = n + 48 := by decide

theorem compare_digitChar :
    ∀ m < 10, ∀ n < 10, compare (Nat.digitChar m) (Nat.digitChar n) = compare m n := by decide

theorem value_digits {width n : Nat} (h : n < 10 ^ width) : value (digits width n) = n := by
  have hfold : ∀ {width n : Nat}, n < 10 ^ width → ∀ before,
      (digits width n).foldl (fun n c => n * 10 + (c.toNat - 48)) before =
        before * 10 ^ width + n := by
    intro width
    induction width with
    | zero =>
        intro n hn before
        obtain rfl : n = 0 := by simpa using hn
        simp [digits]
    | succ width ih =>
        intro n hn before
        have hdigit : n / 10 ^ width < 10 :=
          Nat.div_lt_of_lt_mul (by rwa [Nat.pow_succ] at hn)
        rw [digits, List.foldl_cons, ih (Nat.mod_lt _ (Nat.pow_pos (by decide))),
          Nat.mod_eq_of_lt hdigit, toNat_digitChar _ hdigit, Nat.add_sub_cancel, Nat.add_mul,
          Nat.pow_succ, Nat.add_assoc, Nat.div_add_mod', Nat.mul_assoc, Nat.mul_comm 10]
  rw [value, hfold h, Nat.zero_mul, Nat.zero_add]

theorem compare_cons (c : Char) (l l' : List Char) : compare (c :: l) (c :: l') = compare l l' := by
  have hself : compare c c = .eq := Std.ReflCmp.compare_self
  rw [List.compare_cons_cons, hself]
  rfl

/-- Numbers of full width decide, and what comes behind them if they are the same. -/
theorem compare_digits {width : Nat} {l l' : List Char} : ∀ {m n : Nat}, m < 10 ^ width →
    n < 10 ^ width →
    compare (digits width m ++ l) (digits width n ++ l') = (compare m n).then (compare l l') := by
  induction width with
  | zero =>
      intro m n hm hn
      obtain rfl : m = 0 := by simpa using hm
      obtain rfl : n = 0 := by simpa using hn
      rfl
  | succ width ih =>
      intro m n hm hn
      have hpos : 0 < 10 ^ width := Nat.pow_pos (by decide)
      have hm' : m / 10 ^ width < 10 := Nat.div_lt_of_lt_mul (by rwa [Nat.pow_succ] at hm)
      have hn' : n / 10 ^ width < 10 := Nat.div_lt_of_lt_mul (by rwa [Nat.pow_succ] at hn)
      have hunits := compare_units (10 ^ width) (a := m / 10 ^ width) (b := n / 10 ^ width)
        (Nat.mod_lt m hpos) (Nat.mod_lt n hpos)
      rw [Nat.div_add_mod', Nat.div_add_mod'] at hunits
      rw [digits, digits, List.cons_append, List.cons_append, List.compare_cons_cons,
        Nat.mod_eq_of_lt hm', Nat.mod_eq_of_lt hn', compare_digitChar _ hm' _ hn',
        ih (Nat.mod_lt m hpos) (Nat.mod_lt n hpos), hunits, Ordering.then_assoc]

/-! ## The calendar -/

def isLeap (year : Nat) : Bool := year % 4 = 0 && (year % 100 ≠ 0 || year % 400 = 0)

def yearLength (year : Nat) : Nat := if isLeap year then 366 else 365

def monthLength (year : Nat) : Nat → Nat
  | 2 => if isLeap year then 29 else 28
  | 4 | 6 | 9 | 11 => 30
  | _ => 31

/-- The days of the years before. -/
def daysBeforeYear (year : Nat) : Nat :=
  year * 365 + (year + 3) / 4 + (year + 399) / 400 - (year + 99) / 100

/-- The days of the first `months` months. -/
def daysOfMonths (year : Nat) : Nat → Nat
  | 0 => 0
  | months + 1 => daysOfMonths year months + monthLength year (months + 1)

/-- Milliseconds since the year 0 began. -/
def millisOf (year month day hour minute second milli : Nat) : Nat :=
  let days := daysBeforeYear year + (daysOfMonths year (month - 1) + (day - 1))
  (((days * 24 + hour) * 60 + minute) * 60 + second) * 1000 + milli

theorem div_succ_4 (n : Nat) : (n + 1 + 3) / 4 = (n + 3) / 4 + if n % 4 = 0 then 1 else 0 := by
  split <;> omega

theorem div_succ_100 (n : Nat) :
    (n + 1 + 99) / 100 = (n + 99) / 100 + if n % 100 = 0 then 1 else 0 := by
  split <;> omega

theorem div_succ_400 (n : Nat) :
    (n + 1 + 399) / 400 = (n + 399) / 400 + if n % 400 = 0 then 1 else 0 := by
  split <;> omega

theorem yearLength_add (year : Nat) :
    yearLength year + (if year % 100 = 0 then 1 else 0) =
      365 + (if year % 4 = 0 then 1 else 0) + if year % 400 = 0 then 1 else 0 := by
  have h400 : year % 400 = 0 → year % 100 = 0 := by omega
  have h100 : year % 100 = 0 → year % 4 = 0 := by omega
  unfold yearLength isLeap
  by_cases hfour : year % 4 = 0
  · by_cases hhundred : year % 100 = 0
    · by_cases hfourHundred : year % 400 = 0 <;> simp [hfour, hhundred, hfourHundred]
    · simp [hfour, hhundred, mt h400 hhundred]
  · simp [hfour, mt h100 hfour, mt h400 (mt h100 hfour)]

theorem daysBeforeYear_succ (year : Nat) :
    daysBeforeYear (year + 1) = daysBeforeYear year + yearLength year := by
  have hlength := yearLength_add year
  have hle : (year + 99) / 100 ≤ year := by omega
  have hone : (if year % 100 = 0 then 1 else 0) ≤ 1 := by split <;> decide
  unfold daysBeforeYear
  rw [div_succ_4, div_succ_100, div_succ_400]
  omega

theorem daysOfMonths_twelve (year : Nat) : daysOfMonths year 12 = yearLength year := by
  simp only [daysOfMonths, monthLength, yearLength]
  split <;> rfl

theorem daysOfMonths_le (year : Nat) {months months' : Nat} :
    months ≤ months' → daysOfMonths year months ≤ daysOfMonths year months' :=
  fun h => monotone_nat_of_le_succ (f := daysOfMonths year) (fun _ => Nat.le_add_right _ _) h

end IsoTime

/-! ## Times -/

structure IsoTime where
  year : Nat
  month : Nat
  day : Nat
  hour : Nat
  minute : Nat
  second : Nat
  milli : Nat
  year_lt : year < 10000
  month_pos : 0 < month
  month_le : month ≤ 12
  day_pos : 0 < day
  day_le : day ≤ IsoTime.monthLength year month
  hour_lt : hour < 24
  minute_lt : minute < 60
  second_lt : second < 60
  milli_lt : milli < 1000

namespace IsoTime

def text (t : IsoTime) : List Char :=
  digits 4 t.year ++ '-' :: (digits 2 t.month ++ '-' :: (digits 2 t.day ++ 'T' ::
    (digits 2 t.hour ++ ':' :: (digits 2 t.minute ++ ':' :: (digits 2 t.second ++ '.' ::
      (digits 3 t.milli ++ ['Z']))))))

def millis (t : IsoTime) : Nat :=
  millisOf t.year t.month t.day t.hour t.minute t.second t.milli

/-- The time that a text stands for, with its milliseconds or without them. -/
def instantOf : List Char → Option Nat
  | [y₀, y₁, y₂, y₃, _, m₀, m₁, _, d₀, d₁, _, h₀, h₁, _, i₀, i₁, _, s₀, s₁, _, f₀, f₁, f₂, _] =>
      some (millisOf (value [y₀, y₁, y₂, y₃]) (value [m₀, m₁]) (value [d₀, d₁]) (value [h₀, h₁])
        (value [i₀, i₁]) (value [s₀, s₁]) (value [f₀, f₁, f₂]))
  | [y₀, y₁, y₂, y₃, _, m₀, m₁, _, d₀, d₁, _, h₀, h₁, _, i₀, i₁, _, s₀, s₁, _] =>
      some (millisOf (value [y₀, y₁, y₂, y₃]) (value [m₀, m₁]) (value [d₀, d₁]) (value [h₀, h₁])
        (value [i₀, i₁]) (value [s₀, s₁]) 0)
  | _ => none

-- The Unix epoch.
example : instantOf "1970-01-01T00:00:00.000Z".toList = some 62167219200000 := by decide +kernel

theorem monthLength_le (year month : Nat) : monthLength year month ≤ 31 := by
  unfold monthLength
  split
  · split <;> decide
  all_goals decide

theorem instantOf_text (t : IsoTime) : instantOf t.text = some t.millis := by
  have hmonth := t.month_le
  have hday := t.day_le.trans (monthLength_le t.year t.month)
  have hhour := t.hour_lt
  have hminute := t.minute_lt
  have hsecond := t.second_lt
  show some (millisOf (value (digits 4 t.year)) (value (digits 2 t.month))
    (value (digits 2 t.day)) (value (digits 2 t.hour)) (value (digits 2 t.minute))
    (value (digits 2 t.second)) (value (digits 3 t.milli))) = _
  rw [value_digits t.year_lt, value_digits (by omega), value_digits (by omega),
    value_digits (by omega), value_digits (by omega), value_digits (by omega),
    value_digits t.milli_lt]
  rfl

theorem then_congr {o p q : Ordering} (h : o = .eq → p = q) : o.then p = o.then q := by
  cases o with
  | eq => exact h rfl
  | lt | gt => rfl

/-- Years decide, then months, then days. -/
theorem compare_days (a b : IsoTime) :
    compare (daysBeforeYear a.year + (daysOfMonths a.year (a.month - 1) + (a.day - 1)))
        (daysBeforeYear b.year + (daysOfMonths b.year (b.month - 1) + (b.day - 1))) =
      (compare a.year b.year).then ((compare a.month b.month).then (compare a.day b.day)) := by
  have hmonth : ∀ t : IsoTime, daysOfMonths t.year (t.month - 1) + (t.day - 1) <
      daysOfMonths t.year (t.month - 1 + 1) := fun t => by
    have hday := t.day_le
    have hpos := t.day_pos
    rw [daysOfMonths, Nat.sub_add_cancel t.month_pos]
    omega
  have hyear : ∀ t : IsoTime, daysBeforeYear t.year +
      (daysOfMonths t.year (t.month - 1) + (t.day - 1)) < daysBeforeYear (t.year + 1) := fun t => by
    have htwelve : daysOfMonths t.year (t.month - 1 + 1) ≤ daysOfMonths t.year 12 :=
      daysOfMonths_le t.year (by rw [Nat.sub_add_cancel t.month_pos]; exact t.month_le)
    rw [daysOfMonths_twelve] at htwelve
    rw [daysBeforeYear_succ]
    exact Nat.add_lt_add_left (Nat.lt_of_lt_of_le (hmonth t) htwelve) _
  have hpred : ∀ {m n : Nat}, 0 < m → 0 < n → compare (m - 1) (n - 1) = compare m n := by
    intro m n hm hn
    rcases Nat.lt_trichotomy m n with hlt | rfl | hgt
    · rw [Nat.compare_eq_lt.mpr hlt, Nat.compare_eq_lt.mpr (by omega)]
    · rw [Nat.compare_eq_eq.mpr rfl, Nat.compare_eq_eq.mpr rfl]
    · rw [Nat.compare_eq_gt.mpr hgt, Nat.compare_eq_gt.mpr (by omega)]
  rw [compare_block (fun n => by rw [daysBeforeYear_succ]; exact Nat.le_add_right _ _) (hyear a)
    (hyear b)]
  refine then_congr fun hsame => ?_
  have hmonth' := hmonth b
  rw [← Nat.compare_eq_eq.mp hsame] at hmonth' ⊢
  rw [compare_block (fun n => Nat.le_add_right _ _) (hmonth a) hmonth',
    hpred a.month_pos b.month_pos, hpred a.day_pos b.day_pos]

/-- The order of the texts is that of the times. -/
theorem compare_text (a b : IsoTime) : compare a.text b.text = compare a.millis b.millis := by
  have hmonth : ∀ t : IsoTime, t.month < 10 ^ 2 := fun t => by have := t.month_le; omega
  have hday : ∀ t : IsoTime, t.day < 10 ^ 2 := fun t => by
    have := t.day_le.trans (monthLength_le t.year t.month)
    omega
  have hhour : ∀ t : IsoTime, t.hour < 10 ^ 2 := fun t => by have := t.hour_lt; omega
  have hminute : ∀ t : IsoTime, t.minute < 10 ^ 2 := fun t => by have := t.minute_lt; omega
  have hsecond : ∀ t : IsoTime, t.second < 10 ^ 2 := fun t => by have := t.second_lt; omega
  have hend : compare ['Z'] ['Z'] = .eq := rfl
  calc compare a.text b.text
      = (compare a.year b.year).then ((compare a.month b.month).then ((compare a.day b.day).then
          ((compare a.hour b.hour).then ((compare a.minute b.minute).then
            ((compare a.second b.second).then (compare a.milli b.milli)))))) := by
        rw [text, text, compare_digits a.year_lt b.year_lt, compare_cons,
          compare_digits (hmonth a) (hmonth b), compare_cons,
          compare_digits (hday a) (hday b), compare_cons,
          compare_digits (hhour a) (hhour b), compare_cons,
          compare_digits (hminute a) (hminute b), compare_cons,
          compare_digits (hsecond a) (hsecond b), compare_cons,
          compare_digits a.milli_lt b.milli_lt, hend, Ordering.then_eq]
    _ = compare a.millis b.millis := by
        simp only [millis, millisOf]
        rw [compare_units 1000 a.milli_lt b.milli_lt, compare_units 60 a.second_lt b.second_lt,
          compare_units 60 a.minute_lt b.minute_lt, compare_units 24 a.hour_lt b.hour_lt,
          compare_days]
        simp only [Ordering.then_assoc]

end IsoTime
