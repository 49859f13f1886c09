import KistCollector.Lib.Text

/-!
# Reading numbers with `sscanf`

`Scanf.sscanf` runs a format string of number conversions and literal characters over a text and
returns the values it stored before the first directive that does not match. Each conversion skips
blanks and takes as much as can be part of a number. `Scanf.Reads c t v` says that the conversion `c`
takes exactly the column `t` and stores `v`; a line of such columns is read back column by column
(`Scanf.sscanf_columns`).
-/

namespace Scanf

open Text

inductive Conv where
  | llu
  | lld
  | d
  | f
  deriving DecidableEq

inductive Directive where
  | conv (c : Conv)
  | lit (c : Char)
  deriving DecidableEq

/-- The directives of a format string. -/
def directives : List Char → List Directive
  | '%' :: 'l' :: 'l' :: 'u' :: cs => .conv .llu :: directives cs
  | '%' :: 'l' :: 'l' :: 'd' :: cs => .conv .lld :: directives cs
  | '%' :: 'd' :: cs => .conv .d :: directives cs
  | '%' :: 'f' :: cs => .conv .f :: directives cs
  | c :: cs => .lit c :: directives cs
  | [] => []

/-- What a conversion stores; of a float, the literal it took. -/
inductive Value where
  | llu (n : UInt64)
  | lld (z : Int64)
  | d (z : Int32)
  | f (literal : List Char)
  deriving DecidableEq

def isBlank (c : Char) : Bool := c ∈ [' ', '\t', '\n', '\x0b', '\x0c', '\r']

/-! ## Integers -/

/-- A sign, if there is one. -/
def takeSign : List Char → List Char × List Char
  | '-' :: cs => (['-'], cs)
  | '+' :: cs => (['+'], cs)
  | cs => ([], cs)

/-- A sign and digits: whether it is negative, and its magnitude. -/
def scanInteger (cs : List Char) : Option ((Bool × Nat) × List Char) :=
  let (sign, cs) := takeSign cs
  let digits := cs.takeWhile Char.isDigit
  if digits = [] then none
  else some ((sign = ['-'], Nat.ofDigitChars 10 digits 0), cs.dropWhile Char.isDigit)

/-- `strtoull`: out of range gives the maximum, a sign negates modulo `2 ^ 64`. -/
def toUInt64 (p : Bool × Nat) : UInt64 :=
  if 2 ^ 64 ≤ p.2 then .ofNat (2 ^ 64 - 1) else if p.1 then -.ofNat p.2 else .ofNat p.2

/-- `strtoll`: out of range gives the nearest bound. -/
def toLong (p : Bool × Nat) : Int :=
  let z : Int := if p.1 then -p.2 else p.2
  max (-2 ^ 63) (min z (2 ^ 63 - 1))

/-! ## Floats -/

def isHexDigit (c : Char) : Bool := c.isDigit || c.toLower ∈ ['a', 'b', 'c', 'd', 'e', 'f']

/-- The characters that can continue a number: digits, one point, and an exponent after a digit. The
flags say whether a digit, the point and the exponent letter were seen, and whether the letter was
the last character. -/
def floatTail (hex : Bool) (gotDigit gotDot gotExp afterExp : Bool) :
    List Char → List Char × List Char
  | [] => ([], [])
  | c :: cs =>
    let expChar := if hex then 'p' else 'e'
    if c.isDigit || (hex && !gotExp && isHexDigit c) then
      let (t, rest) := floatTail hex true gotDot gotExp false cs
      (c :: t, rest)
    else if afterExp && (c = '-' || c = '+') then
      let (t, rest) := floatTail hex gotDigit gotDot gotExp false cs
      (c :: t, rest)
    else if gotDigit && !gotExp && c.toLower = expChar then
      let (t, rest) := floatTail hex gotDigit true true true cs
      (expChar :: t, rest)
    else if !gotDot && c = '.' then
      let (t, rest) := floatTail hex gotDigit true gotExp false cs
      (c :: t, rest)
    else ([], c :: cs)

/-- A word, in any case. -/
def takeWord : List Char → List Char → Option (List Char × List Char)
  | [], cs => some ([], cs)
  | w :: ws, c :: cs =>
    if c.toLower = w then (takeWord ws cs).map fun p => (c :: p.1, p.2) else none
  | _ :: _, [] => none

def isHexPrefix : List Char → Bool
  | '0' :: c :: _ => c.toLower = 'x'
  | _ => false

/-- The magnitude of a float: `nan`, `inf` or `infinity`, a hexadecimal or a decimal number. -/
def scanMagnitude (cs : List Char) : Option (List Char × List Char) :=
  match (cs.head?).map Char.toLower with
  | some 'n' => takeWord ['n', 'a', 'n'] cs
  | some 'i' =>
    match takeWord ['i', 'n', 'f'] cs with
    | some (t, rest) =>
      if (rest.head?).map Char.toLower = some 'i' then
        (takeWord ['i', 'n', 'i', 't', 'y'] rest).map fun p => (t ++ p.1, p.2)
      else some (t, rest)
    | none => none
  | _ =>
    if isHexPrefix cs then
      let (t, rest) := floatTail true false false false false (cs.drop 2)
      if t = [] then none else some (cs.take 2 ++ t, rest)
    else
      let (t, rest) := floatTail false false false false false cs
      if t.any Char.isDigit then some (t, rest) else none

/-- The literal a float conversion takes. -/
def scanFloat (cs : List Char) : Option (List Char × List Char) :=
  let (sign, cs) := takeSign cs
  (scanMagnitude cs).map fun p => (sign ++ p.1, p.2)

/-! ## Formats -/

def convert : Conv → List Char → Option (Value × List Char)
  | .llu, cs => (scanInteger cs).map fun p => (.llu (toUInt64 p.1), p.2)
  | .lld, cs => (scanInteger cs).map fun p => (.lld (.ofInt (toLong p.1)), p.2)
  -- read as a long, stored as an int
  | .d, cs => (scanInteger cs).map fun p => (.d (.ofInt (toLong p.1)), p.2)
  | .f, cs => (scanFloat cs).map fun p => (.f p.1, p.2)

/-- The values stored before the first directive that does not match. -/
def scan : List Directive → List Char → List Value
  | [], _ => []
  | .lit l :: ds, c :: cs => if c = l then scan ds cs else []
  | .lit _ :: _, [] => []
  | .conv k :: ds, cs =>
    match convert k (cs.dropWhile isBlank) with
    | some (v, rest) => v :: scan ds rest
    | none => []

def sscanf (cs fmt : List Char) : List Value := scan (directives fmt) cs

/-! ## Lines of columns -/

/-- The text before a comma or the end. -/
def Ends (rest : List Char) : Prop := rest = [] ∨ ∃ cs, rest = ',' :: cs

/-- The conversion takes exactly the column `t` and stores `v`. -/
def Reads (k : Conv) (t : List Char) (v : Value) : Prop :=
  (∀ c ∈ t.head?, isBlank c = false) ∧ t ≠ [] ∧
  ∀ rest, Ends rest → convert k (t ++ rest) = some (v, rest)

/-- The characters printed numbers are made of. -/
def isColumnChar (c : Char) : Bool := c.isDigit || c ∈ ['.', 'e', '+', '-', 'i', 'n', 'f', 'a']

/-- A column of a line: how it is read, its text and its value. -/
structure Column where
  conv : Conv
  text : List Char
  value : Value
  reads : Reads conv text value
  plain : ∀ c ∈ text, isColumnChar c = true

def columnsFormat (cols : List Column) : List Directive :=
  (cols.map fun c => Directive.conv c.conv).intersperse (.lit ',')

def columnsText (cols : List Column) : List Char := [','].intercalate (cols.map (·.text))

theorem not_mem_columnsText {c : Char} (hc : isColumnChar c = false) (hne : c ≠ ',')
    (cols : List Column) : c ∉ columnsText cols := by
  have hcol : ∀ col : Column, c ∉ col.text := fun col hmem =>
    absurd (hc.symm.trans (col.plain c hmem)) nofun
  induction cols with
  | nil => exact List.not_mem_nil
  | cons col cols ih =>
    cases cols with
    | nil => simpa [columnsText] using hcol col
    | cons col' cols =>
      intro hmem
      rw [columnsText, List.map_cons, List.map_cons, List.intercalate_cons_cons, List.mem_append,
        List.mem_append, List.mem_singleton] at hmem
      rcases hmem with (hmem | hmem) | hmem
      · exact hcol col hmem
      · exact hne hmem
      · exact ih hmem

theorem columnsText_append_cons (cols : List Column) (hne : cols ≠ []) (col : Column) :
    columnsText (cols ++ [col]) = columnsText cols ++ ',' :: col.text := by
  induction cols with
  | nil => exact absurd rfl hne
  | cons c cols ih =>
    cases cols with
    | nil => simp [columnsText, List.intercalate_cons_cons]
    | cons c' cols =>
      have := ih (by simp)
      simp only [columnsText, List.map_append, List.map_cons, List.map_nil, List.cons_append,
        List.intercalate_cons_cons, List.append_assoc] at this ⊢
      rw [this]

theorem Reads.scan (h : Reads k t v) (hrest : Ends rest) (ds : List Directive) :
    Scanf.scan (.conv k :: ds) (t ++ rest) = v :: Scanf.scan ds rest := by
  obtain ⟨hblank, hne, hconv⟩ := h
  have hdrop : (t ++ rest).dropWhile isBlank = t ++ rest := by
    cases t with
    | nil => exact absurd rfl hne
    | cons c t => simp [hblank c (by simp)]
  rw [Scanf.scan, hdrop, hconv rest hrest]

/-- A line of columns is read back column by column. -/
theorem sscanf_columns (cols : List Column) :
    scan (columnsFormat cols) (columnsText cols) = cols.map (·.value) := by
  induction cols with
  | nil => rfl
  | cons c cols ih =>
    cases cols with
    | nil =>
      have hlast := c.reads.scan (.inl rfl) []
      rw [List.append_nil] at hlast
      simpa [columnsFormat, columnsText, scan] using hlast
    | cons c' cols =>
      have htext : columnsText (c :: c' :: cols) = c.text ++ ',' :: columnsText (c' :: cols) := by
        simp [columnsText, List.intercalate_cons_cons]
      have hformat : columnsFormat (c :: c' :: cols) =
          .conv c.conv :: .lit ',' :: columnsFormat (c' :: cols) := rfl
      rw [htext, hformat, c.reads.scan (.inr ⟨_, rfl⟩), scan, if_pos rfl, ih]
      rfl

/-! ## Columns that are printed numbers -/

theorem Ends.head (h : Ends rest) : ∀ c ∈ rest.head?, c = ',' := by
  rcases h with rfl | ⟨cs, rfl⟩
  · simp
  · simp

theorem takeWhile_digits {ds rest : List Char} (hd : ∀ c ∈ ds, c.isDigit = true)
    (hrest : Ends rest) :
    (ds ++ rest).takeWhile Char.isDigit = ds ∧ (ds ++ rest).dropWhile Char.isDigit = rest := by
  have hstop : rest.takeWhile Char.isDigit = [] ∧ rest.dropWhile Char.isDigit = rest := by
    rcases hrest with rfl | ⟨cs, rfl⟩ <;> exact ⟨rfl, rfl⟩
  rw [List.takeWhile_append_of_pos hd, List.dropWhile_append_of_pos hd, hstop.1, hstop.2]
  simp

theorem decimal_eq_cons (n : Nat) : ∃ c cs, decimal n = c :: cs ∧ c.isDigit = true := by
  obtain ⟨c, cs, h⟩ := List.exists_cons_of_ne_nil (decimal_ne_nil (n := n))
  exact ⟨c, cs, h, isDigit_of_mem_decimal (h ▸ List.mem_cons_self)⟩

theorem takeSign_of_isDigit {c : Char} (h : c.isDigit = true) (cs : List Char) :
    takeSign (c :: cs) = ([], c :: cs) := by
  rw [takeSign]
  all_goals
    intro _ heq
    cases heq
    exact absurd h (by decide)

theorem scanInteger_decimal (n : Nat) (hrest : Ends rest) :
    scanInteger (decimal n ++ rest) = some ((false, n), rest) := by
  obtain ⟨htake, hdrop⟩ := takeWhile_digits (fun _ => isDigit_of_mem_decimal (n := n)) hrest
  have hsign : takeSign (decimal n ++ rest) = ([], decimal n ++ rest) := by
    obtain ⟨c, cs, h, hc⟩ := decimal_eq_cons n
    rw [h]
    exact takeSign_of_isDigit hc _
  simp only [scanInteger, hsign, htake, hdrop, if_neg decimal_ne_nil]
  simp [decimal]

theorem scanInteger_neg (n : Nat) (hrest : Ends rest) :
    scanInteger ('-' :: (decimal n ++ rest)) = some ((true, n), rest) := by
  obtain ⟨htake, hdrop⟩ := takeWhile_digits (fun _ => isDigit_of_mem_decimal (n := n)) hrest
  simp only [scanInteger, takeSign, htake, hdrop, if_neg decimal_ne_nil]
  simp [decimal]

theorem scanInteger_integer (z : Int) (hrest : Ends rest) : ∃ p,
    scanInteger (integer z ++ rest) = some (p, rest) ∧
    toLong p = max (-2 ^ 63) (min z (2 ^ 63 - 1)) := by
  cases z with
  | ofNat n => exact ⟨(false, n), scanInteger_decimal n hrest, rfl⟩
  | negSucc n => exact ⟨(true, n + 1), scanInteger_neg (n + 1) hrest, rfl⟩

theorem isBlank_of_isDigit {c : Char} (h : c.isDigit = true) : isBlank c = false := by
  refine decide_eq_false fun hmem => ?_
  simp only [List.mem_cons, List.not_mem_nil, or_false] at hmem
  rcases hmem with rfl | rfl | rfl | rfl | rfl | rfl <;> exact absurd h (by decide)

theorem decimal_head (n : Nat) : ∀ c ∈ (decimal n).head?, isBlank c = false := by
  obtain ⟨c, cs, h, hc⟩ := decimal_eq_cons n
  rw [h]
  intro c' hc'
  cases hc'
  exact isBlank_of_isDigit hc

theorem integer_head (z : Int) : (∀ c ∈ (integer z).head?, isBlank c = false) ∧ integer z ≠ [] := by
  cases z with
  | ofNat n => exact ⟨decimal_head n, decimal_ne_nil⟩
  | negSucc n => exact ⟨by simp [integer, isBlank], by simp [integer]⟩

theorem reads_llu (n : UInt64) : Reads .llu (decimal n.toNat) (.llu n) := by
  refine ⟨decimal_head _, decimal_ne_nil, fun rest hrest => ?_⟩
  have hlt := n.toNat_lt
  rw [convert, scanInteger_decimal _ hrest]
  simp [toUInt64, Nat.not_le.mpr hlt]

theorem reads_lld (z : Int64) : Reads .lld (integer z.toInt) (.lld z) := by
  refine ⟨(integer_head _).1, (integer_head _).2, fun rest hrest => ?_⟩
  obtain ⟨p, hscan, hlong⟩ := scanInteger_integer z.toInt hrest
  have hlt := z.toInt_lt
  have hle := z.le_toInt
  have hclamp : max (-2 ^ 63) (min z.toInt (2 ^ 63 - 1)) = z.toInt := by omega
  rw [convert, hscan, Option.map_some, hlong, hclamp, Int64.ofInt_toInt]

theorem reads_d (z : Int32) : Reads .d (integer z.toInt) (.d z) := by
  refine ⟨(integer_head _).1, (integer_head _).2, fun rest hrest => ?_⟩
  obtain ⟨p, hscan, hlong⟩ := scanInteger_integer z.toInt hrest
  have hlt := z.toInt_lt
  have hle := z.le_toInt
  have hclamp : max (-2 ^ 63) (min z.toInt (2 ^ 63 - 1)) = z.toInt := by omega
  rw [convert, hscan, Option.map_some, hlong, hclamp, Int32.ofInt_toInt]

theorem isColumnChar_decimal {c : Char} (h : c ∈ decimal n) : isColumnChar c = true := by
  rw [isColumnChar, isDigit_of_mem_decimal h, Bool.true_or]

theorem isColumnChar_integer {c : Char} {z : Int} (h : c ∈ integer z) : isColumnChar c = true := by
  cases z with
  | ofNat n => exact isColumnChar_decimal h
  | negSucc n =>
    rcases List.mem_cons.mp h with rfl | h
    · rfl
    · exact isColumnChar_decimal h

/-! ## Float literals as `%g` prints them -/

/-- A nonempty run of digits. -/
structure Digits where
  chars : List Char
  ne_nil : chars ≠ []
  all_digit : ∀ c ∈ chars, c.isDigit = true

inductive Magnitude where
  | inf
  | nan
  | number (int : Digits) (frac : Option Digits) (exp : Option (Bool × Digits))

/-- What `%g` prints: a sign, then `inf`, `nan` or a decimal number with an optional fraction and an
optional signed exponent. -/
structure GLiteral where
  neg : Bool
  magnitude : Magnitude

def fracText : Option Digits → List Char
  | none => []
  | some ds => '.' :: ds.chars

def expText : Option (Bool × Digits) → List Char
  | none => []
  | some (neg, ds) => 'e' :: (if neg then '-' else '+') :: ds.chars

def Magnitude.text : Magnitude → List Char
  | .inf => ['i', 'n', 'f']
  | .nan => ['n', 'a', 'n']
  | .number int frac exp => int.chars ++ (fracText frac ++ expText exp)

def GLiteral.text (g : GLiteral) : List Char := (if g.neg then ['-'] else []) ++ g.magnitude.text

/-- The characters of a number in decimal notation. -/
def isNumberChar (c : Char) : Bool := c.isDigit || c ∈ ['.', 'e', '+', '-']

theorem floatTail_digits {ds : List Char} (hd : ∀ c ∈ ds, c.isDigit = true) (hne : ds ≠ [])
    (got dot exp after : Bool) (rest : List Char) :
    floatTail false got dot exp after (ds ++ rest) =
      (ds ++ (floatTail false true dot exp false rest).1,
        (floatTail false true dot exp false rest).2) := by
  induction ds generalizing got after with
  | nil => exact absurd rfl hne
  | cons c ds ih =>
    rw [List.cons_append, floatTail]
    simp only [hd c (by simp), Bool.true_or, if_true]
    cases ds with
    | nil => rfl
    | cons c' ds => rw [ih (fun x hx => hd x (by simp [hx])) (by simp)]; rfl

theorem floatTail_ends (hrest : Ends rest) :
    floatTail false got dot exp after rest = ([], rest) := by
  rcases hrest with rfl | ⟨cs, rfl⟩
  · rfl
  · rw [floatTail]
    simp [show (',').isDigit = false by decide, show (',').toLower = ',' by decide]

theorem floatTail_exp (exp : Option (Bool × Digits)) (hrest : Ends rest) :
    floatTail false true dot false false (expText exp ++ rest) = (expText exp, rest) := by
  rcases exp with _ | ⟨neg, ds⟩
  · exact floatTail_ends hrest
  · have hds := floatTail_digits ds.all_digit ds.ne_nil true true true false rest
    cases neg <;> simp [expText, floatTail, hds, floatTail_ends hrest, show ('e').isDigit = false by decide,
      show ('e').toLower = 'e' by decide, show ('-').isDigit = false by decide,
      show ('+').isDigit = false by decide]

theorem floatTail_number (int : Digits) (frac : Option Digits) (exp : Option (Bool × Digits))
    (hrest : Ends rest) :
    floatTail false false false false false ((Magnitude.number int frac exp).text ++ rest) =
      ((Magnitude.number int frac exp).text, rest) := by
  rw [Magnitude.text, List.append_assoc, floatTail_digits int.all_digit int.ne_nil]
  cases frac with
  | none => simp [fracText, floatTail_exp exp hrest]
  | some ds =>
    have hds := floatTail_digits ds.all_digit ds.ne_nil true true false false (expText exp ++ rest)
    rw [floatTail_exp exp hrest] at hds
    simp [fracText, floatTail, hds, show ('.').isDigit = false by decide,
      show ('.').toLower = '.' by decide]

theorem toLower_of_isDigit {c : Char} (h : c.isDigit = true) : c.toLower = c := by
  unfold Char.toLower
  rw [dif_neg]
  rintro ⟨hA, -⟩
  have h9 := (Char.isDigit_iff_toNat.mp h).2
  exact absurd (Nat.le_trans (UInt32.le_iff_toNat_le.mp hA) h9) (by decide)

theorem isNumberChar_of_mem {c : Char} (h : c ∈ (Magnitude.number int frac exp).text) :
    isNumberChar c = true := by
  have hdigit : ∀ ds : Digits, c ∈ ds.chars → isNumberChar c = true := fun ds hc => by
    simp [isNumberChar, ds.all_digit c hc]
  rw [Magnitude.text, List.mem_append, List.mem_append] at h
  rcases h with h | h | h
  · exact hdigit int h
  · cases frac with
    | none => cases h
    | some ds =>
      rcases List.mem_cons.mp h with rfl | h
      · rfl
      · exact hdigit ds h
  · rcases exp with _ | ⟨neg, ds⟩
    · cases h
    · rcases List.mem_cons.mp h with rfl | h
      · rfl
      rcases List.mem_cons.mp h with rfl | h
      · cases neg <;> rfl
      · exact hdigit ds h

theorem toLower_ne_x {c : Char} (h : isNumberChar c = true) : c.toLower ≠ 'x' := by
  rw [isNumberChar, Bool.or_eq_true] at h
  rcases h with h | h
  · rw [toLower_of_isDigit h]
    rintro rfl
    exact absurd h (by decide)
  · have hmem := of_decide_eq_true h
    simp only [List.mem_cons, List.not_mem_nil, or_false] at hmem
    rcases hmem with rfl | rfl | rfl | rfl <;> decide

/-- No character of a number is an `x`, so `0` is never taken for the start of a hexadecimal one. -/
theorem isHexPrefix_number (hrest : Ends rest) :
    isHexPrefix ((Magnitude.number int frac exp).text ++ rest) = false := by
  have hnum : ∀ c ∈ (Magnitude.number int frac exp).text, c.toLower ≠ 'x' := fun c hc =>
    toLower_ne_x (isNumberChar_of_mem hc)
  generalize (Magnitude.number int frac exp).text = t at hnum
  unfold isHexPrefix
  split
  · rename_i c cs heq
    refine decide_eq_false ?_
    cases t with
    | nil =>
      have := hrest.head '0' (by simp [show rest = _ from heq])
      exact absurd this (by decide)
    | cons x t =>
      have heq : t ++ rest = c :: cs := (List.cons.inj heq).2
      cases t with
      | nil =>
        rw [hrest.head c (by simp [show rest = _ from heq])]
        decide
      | cons y t =>
        rw [← (List.cons.inj heq).1]
        exact hnum y (by simp)
  · rfl

theorem scanMagnitude_text (m : Magnitude) (hrest : Ends rest) :
    scanMagnitude (m.text ++ rest) = some (m.text, rest) := by
  cases m with
  | inf => rcases hrest with rfl | ⟨cs, rfl⟩ <;> rfl
  | nan => rcases hrest with rfl | ⟨cs, rfl⟩ <;> rfl
  | number int frac exp =>
    obtain ⟨c, cs, hcs⟩ := List.exists_cons_of_ne_nil int.ne_nil
    have hc : c.isDigit = true := int.all_digit c (by simp [hcs])
    have hhead : ((Magnitude.number int frac exp).text ++ rest).head? = some c := by
      simp [Magnitude.text, hcs]
    have hany : (Magnitude.number int frac exp).text.any Char.isDigit = true := by
      simp [Magnitude.text, hcs, hc]
    rw [scanMagnitude, hhead, Option.map_some, toLower_of_isDigit hc]
    split
    · rename_i heq
      cases heq
      exact absurd hc (by decide)
    · rename_i heq
      cases heq
      exact absurd hc (by decide)
    · rw [isHexPrefix_number hrest, floatTail_number int frac exp hrest]
      simp [hany]

theorem Magnitude.head (m : Magnitude) : ∃ c cs, m.text = c :: cs ∧
    (c = 'i' ∨ c = 'n' ∨ c.isDigit = true) := by
  cases m with
  | inf => exact ⟨_, _, rfl, .inl rfl⟩
  | nan => exact ⟨_, _, rfl, .inr (.inl rfl)⟩
  | number int frac exp =>
    obtain ⟨c, cs, hcs⟩ := List.exists_cons_of_ne_nil int.ne_nil
    refine ⟨c, cs ++ (fracText frac ++ expText exp), by simp [Magnitude.text, hcs], ?_⟩
    exact .inr (.inr (int.all_digit c (by simp [hcs])))

theorem takeSign_magnitude (m : Magnitude) (rest : List Char) :
    takeSign (m.text ++ rest) = ([], m.text ++ rest) := by
  obtain ⟨c, cs, h, hc⟩ := m.head
  rw [h]
  rcases hc with rfl | rfl | hc
  · rfl
  · rfl
  · exact takeSign_of_isDigit hc _

/-- A literal is taken whole. -/
theorem reads_f (g : GLiteral) : Reads .f g.text (.f g.text) := by
  obtain ⟨neg, m⟩ := g
  obtain ⟨c, cs, hm, hc⟩ := m.head
  have hblank : isBlank c = false := by
    rcases hc with rfl | rfl | hc
    · rfl
    · rfl
    · exact isBlank_of_isDigit hc
  refine ⟨?_, ?_, fun rest hrest => ?_⟩
  · cases neg
    · simpa [GLiteral.text, hm] using hblank
    · simp [GLiteral.text, isBlank]
  · simp [GLiteral.text, hm]
  · have hscan := scanMagnitude_text m hrest
    cases neg
    · simp only [GLiteral.text, convert, scanFloat, Bool.false_eq_true, if_false, List.nil_append,
        takeSign_magnitude, hscan, Option.map_some]
    · simp only [GLiteral.text, convert, scanFloat, if_true, List.cons_append, List.nil_append,
        takeSign, hscan, Option.map_some]

theorem isColumnChar_literal {g : GLiteral} {c : Char} (h : c ∈ g.text) :
    isColumnChar c = true := by
  obtain ⟨neg, m⟩ := g
  rw [GLiteral.text, List.mem_append] at h
  rcases h with h | h
  · cases neg with
    | false => cases h
    | true => cases List.mem_singleton.mp h; rfl
  cases m with
  | inf | nan =>
    simp only [Magnitude.text, List.mem_cons, List.not_mem_nil, or_false] at h
    rcases h with rfl | rfl | rfl <;> rfl
  | number int frac exp =>
    have hnum := isNumberChar_of_mem h
    rw [isNumberChar, Bool.or_eq_true] at hnum
    rw [isColumnChar, Bool.or_eq_true]
    refine hnum.imp_right fun hmem => ?_
    simp only [decide_eq_true_eq, List.mem_cons, List.not_mem_nil, or_false] at hmem ⊢
    rcases hmem with rfl | rfl | rfl | rfl <;> simp

/-! ## The columns of a printed line -/

def Column.llu (n : UInt64) : Column :=
  ⟨.llu, decimal n.toNat, .llu n, reads_llu n, fun _ => isColumnChar_decimal⟩

def Column.lld (z : Int64) : Column :=
  ⟨.lld, integer z.toInt, .lld z, reads_lld z, fun _ => isColumnChar_integer⟩

def Column.d (z : Int32) : Column :=
  ⟨.d, integer z.toInt, .d z, reads_d z, fun _ => isColumnChar_integer⟩

def Column.f (g : GLiteral) : Column :=
  ⟨.f, g.text, .f g.text, reads_f g, fun _ => isColumnChar_literal⟩

theorem length_decimal_le {n k : Nat} (hk : 0 < k) (h : n < 10 ^ k) : (decimal n).length ≤ k :=
  (Nat.length_toDigits_le_iff (by decide) hk).mpr h

theorem length_integer_le {z : Int} {k : Nat} (hk : 0 < k) (h : z.natAbs < 10 ^ k) :
    (integer z).length ≤ k + 1 := by
  cases z with
  | ofNat n => exact Nat.le_succ_of_le (length_decimal_le hk h)
  | negSucc n => exact Nat.succ_le_succ (length_decimal_le hk h)

theorem length_llu (n : UInt64) : (decimal n.toNat).length ≤ 20 := by
  have := n.toNat_lt
  exact length_decimal_le (by decide) (by omega)

theorem length_lld (z : Int64) : (integer z.toInt).length ≤ 20 := by
  have := z.toInt_lt
  have := z.le_toInt
  exact length_integer_le (k := 19) (by decide) (by omega)

theorem length_d (z : Int32) : (integer z.toInt).length ≤ 11 := by
  have := z.toInt_lt
  have := z.le_toInt
  exact length_integer_le (k := 10) (by decide) (by omega)

end Scanf
