import Mathlib.Algebra.Order.Ring.Nat
import Mathlib.Data.List.Basic

/-!
# Lines, comma-separated fields and decimal numbers

Text files are lists of characters. `Text.unlines` terminates every line, `Text.completeLines` reads
back the lines that are terminated and `Text.getlines` what a `getline` loop sees, an unterminated
last line included. A file cut short keeps the lines that end before the cut
(`Text.completeLines_take`).
-/

/-- A text without a line break. -/
structure Line where
  text : List Char
  no_newline : '\n' ∉ text

namespace Text

/-! ## Lines -/

def unlines (ls : List (List Char)) : List Char := ls.flatMap (· ++ ['\n'])

/-- The lines of a file that end in a line break. -/
def completeLines (cs : List Char) : List (List Char) := (cs.splitOn '\n').dropLast

/-- The lines a `getline` loop reads: a last line without line break counts if it is not empty. -/
def getlines (cs : List Char) : List (List Char) :=
  if cs.getLast? = some '\n' ∨ cs = [] then completeLines cs else cs.splitOn '\n'

@[simp] theorem unlines_nil : unlines [] = [] := rfl

@[simp] theorem unlines_cons (l : List Char) (ls : List (List Char)) :
    unlines (l :: ls) = l ++ '\n' :: unlines ls := by simp [unlines]

@[simp] theorem unlines_append (ls ms : List (List Char)) :
    unlines (ls ++ ms) = unlines ls ++ unlines ms := List.flatMap_append

theorem completeLines_of_not_mem {cs : List Char} (h : '\n' ∉ cs) : completeLines cs = [] := by
  rw [completeLines, List.splitOn_eq_singleton h]
  rfl

theorem completeLines_append {l cs : List Char} (h : '\n' ∉ l) :
    completeLines (l ++ '\n' :: cs) = l :: completeLines cs := by
  rw [completeLines, List.splitOn_append_cons_self_of_not_mem h,
    List.dropLast_cons_of_ne_nil (by simp)]
  rfl

theorem completeLines_unlines {ls : List (List Char)} (h : ∀ l ∈ ls, '\n' ∉ l) :
    completeLines (unlines ls) = ls := by
  induction ls with
  | nil => rfl
  | cons l ls ih =>
    rw [unlines_cons, completeLines_append (h l (by simp)), ih fun m hm => h m (by simp [hm])]

theorem getlines_unlines {ls : List (List Char)} (h : ∀ l ∈ ls, '\n' ∉ l) :
    getlines (unlines ls) = ls := by
  have hlast : (unlines ls).getLast? = some '\n' ∨ unlines ls = [] := by
    rcases List.eq_nil_or_concat ls with rfl | ⟨ls, l, rfl⟩
    · exact .inr rfl
    · exact .inl (by simp)
  rw [getlines, if_pos hlast, completeLines_unlines h]

/-- A file cut to its first `q` characters keeps exactly the lines that end within them. -/
theorem completeLines_take {ls : List (List Char)} (h : ∀ l ∈ ls, '\n' ∉ l) (q j : Nat) :
    (completeLines ((unlines ls).take q))[j]? =
      if (unlines (ls.take (j + 1))).length ≤ q then ls[j]? else none := by
  induction ls generalizing q j with
  | nil => simp [completeLines]
  | cons l ls ih =>
    have hl : '\n' ∉ l := h l (by simp)
    rw [unlines_cons, List.take_succ_cons, unlines_cons, List.length_append, List.length_cons]
    by_cases hq : q ≤ l.length
    · rw [List.take_append_of_le_length hq,
        completeLines_of_not_mem fun hm => hl (List.mem_of_mem_take hm),
        if_neg (by omega)]
      rfl
    · obtain ⟨k, rfl⟩ : ∃ k, q = l.length + (k + 1) := ⟨q - l.length - 1, by omega⟩
      rw [List.take_length_add_append, List.take_succ_cons, completeLines_append hl]
      cases j with
      | zero => simp
      | succ j =>
        rw [List.getElem?_cons_succ, ih (fun m hm => h m (by simp [hm])), List.getElem?_cons_succ]
        congr 1
        exact propext (by omega)

/-! ## A last line without its line break -/

/-- What follows the last line break. -/
def tornLine (cs : List Char) : List Char := (cs.splitOn '\n').getLast (by simp)

theorem splitOn_newline (cs : List Char) : cs.splitOn '\n' = completeLines cs ++ [tornLine cs] :=
  (List.dropLast_concat_getLast _).symm

theorem tornLine_of_not_mem {cs : List Char} (h : '\n' ∉ cs) : tornLine cs = cs := by
  simp [tornLine, List.splitOn_eq_singleton h]

theorem tornLine_append {l cs : List Char} (h : '\n' ∉ l) :
    tornLine (l ++ '\n' :: cs) = tornLine cs := by
  simp [tornLine, List.splitOn_append_cons_self_of_not_mem h]

theorem completeLines_unlines_append {ls : List (List Char)} (h : ∀ l ∈ ls, '\n' ∉ l)
    (ht : '\n' ∉ t) : completeLines (unlines ls ++ t) = ls ∧ tornLine (unlines ls ++ t) = t := by
  induction ls with
  | nil => exact ⟨completeLines_of_not_mem ht, tornLine_of_not_mem ht⟩
  | cons l ls ih =>
    have hl : '\n' ∉ l := h l (by simp)
    obtain ⟨hlines, htorn⟩ := ih fun m hm => h m (by simp [hm])
    rw [unlines_cons, List.append_assoc, List.cons_append, completeLines_append hl,
      tornLine_append hl, hlines, htorn]
    exact ⟨rfl, rfl⟩

/-- Every file is some lines and a last one without its line break. -/
theorem exists_lines (cs : List Char) : ∃ ls t, (∀ l ∈ ls, '\n' ∉ l) ∧ '\n' ∉ t ∧
    cs = unlines ls ++ t := by
  induction cs with
  | nil => exact ⟨[], [], by simp, by simp, rfl⟩
  | cons c cs ih =>
    obtain ⟨ls, t, hls, ht, rfl⟩ := ih
    by_cases hc : c = '\n'
    · subst hc
      exact ⟨[] :: ls, t, List.forall_mem_cons.mpr ⟨by simp, hls⟩, ht, by simp⟩
    · cases ls with
      | nil => exact ⟨[], c :: t, by simp, by simp [Ne.symm hc, ht], rfl⟩
      | cons l ls =>
        obtain ⟨hl, hls⟩ := List.forall_mem_cons.mp hls
        exact ⟨(c :: l) :: ls, t, List.forall_mem_cons.mpr ⟨by simp [Ne.symm hc, hl], hls⟩, ht,
          by simp⟩

/-- One more character ends the torn line or lengthens it. -/
theorem completeLines_concat (cs : List Char) (c : Char) :
    completeLines (cs ++ [c]) = completeLines cs ++ if c = '\n' then [tornLine cs] else [] := by
  obtain ⟨ls, t, hls, ht, rfl⟩ := exists_lines cs
  obtain ⟨hlines, htorn⟩ := completeLines_unlines_append hls ht
  rw [hlines, htorn]
  split
  case isTrue hc =>
    subst hc
    have hunlines : unlines ls ++ t ++ ['\n'] = unlines (ls ++ [t]) := by simp
    rw [hunlines, completeLines_unlines]
    intro l hl
    rcases List.mem_append.mp hl with hl | hl
    · exact hls l hl
    · cases List.mem_singleton.mp hl
      exact ht
  case isFalse hc =>
    have htc : '\n' ∉ t ++ [c] := by simp [ht, Ne.symm hc]
    rw [List.append_assoc, (completeLines_unlines_append hls htc).1, List.append_nil]

/-- The lines of a file that is cut one character later. -/
theorem completeLines_take_succ (cs : List Char) (q : Nat) :
    completeLines (cs.take (q + 1)) =
      completeLines (cs.take q) ++ if cs[q]? = some '\n' then [tornLine (cs.take q)] else [] := by
  rw [List.take_add_one]
  cases hc : cs[q]? with
  | none => simp
  | some c => simpa using completeLines_concat (cs.take q) c

theorem newline_mem_iff (cs : List Char) : '\n' ∈ cs ↔ completeLines cs ≠ [] := by
  obtain ⟨ls, t, hls, ht, rfl⟩ := exists_lines cs
  rw [(completeLines_unlines_append hls ht).1]
  cases ls with
  | nil => simpa using ht
  | cons l ls => simp

/-- A `getline` loop reads a torn line like any other. -/
theorem getlines_eq (cs : List Char) :
    getlines cs = completeLines cs ++ if tornLine cs = [] then [] else [tornLine cs] := by
  obtain ⟨ls, t, hls, ht, rfl⟩ := exists_lines cs
  obtain ⟨hlines, htorn⟩ := completeLines_unlines_append hls ht
  split
  case isTrue hnil =>
    obtain rfl : t = [] := htorn.symm.trans hnil
    rw [List.append_nil, getlines_unlines hls, completeLines_unlines hls, List.append_nil]
  case isFalse hnil =>
    rw [htorn] at hnil
    have hlast : ¬((unlines ls ++ t).getLast? = some '\n' ∨ unlines ls ++ t = []) := by
      rintro (hlast | hnone)
      · rw [List.getLast?_append_of_ne_nil _ hnil] at hlast
        exact ht (List.mem_of_getLast? hlast)
      · exact hnil (List.append_eq_nil_iff.mp hnone).2
    rw [getlines, if_neg hlast, splitOn_newline]

/-- A file cut to its first `q` characters keeps some lines and a part of the next. -/
theorem take_unlines {ls : List (List Char)} (h : ∀ l ∈ ls, '\n' ∉ l) (q : Nat) :
    ∃ k ≤ ls.length, completeLines ((unlines ls).take q) = ls.take k ∧
      tornLine ((unlines ls).take q) <+: (ls[k]?).getD [] := by
  induction ls generalizing q with
  | nil => exact ⟨0, Nat.le_refl _, by simp [completeLines], by simp [tornLine]⟩
  | cons l ls ih =>
    have hl : '\n' ∉ l := h l (by simp)
    rw [unlines_cons]
    by_cases hq : q ≤ l.length
    · have hmem : '\n' ∉ l.take q := fun hm => hl (List.mem_of_mem_take hm)
      rw [List.take_append_of_le_length hq]
      exact ⟨0, Nat.zero_le _, completeLines_of_not_mem hmem,
        by simpa [tornLine_of_not_mem hmem] using List.take_prefix q l⟩
    · obtain ⟨k, rfl⟩ : ∃ k, q = l.length + (k + 1) := ⟨q - l.length - 1, by omega⟩
      rw [List.take_length_add_append, List.take_succ_cons, completeLines_append hl,
        tornLine_append hl]
      obtain ⟨j, hj, hlines, htorn⟩ := ih (fun m hm => h m (by simp [hm])) k
      exact ⟨j + 1, Nat.succ_le_succ hj, by rw [hlines]; rfl, htorn⟩

/-- Cut right before a line break, the torn line is a whole line. -/
theorem getElem?_of_newline {ls : List (List Char)} (h : ∀ l ∈ ls, '\n' ∉ l) {q k : Nat}
    (hk : k ≤ ls.length) (hcomplete : completeLines ((unlines ls).take q) = ls.take k)
    (hq : (unlines ls)[q]? = some '\n') : ls[k]? = some (tornLine ((unlines ls).take q)) := by
  obtain ⟨j, -, hlines, -⟩ := take_unlines h (q + 1)
  have hsucc := completeLines_take_succ (unlines ls) q
  rw [if_pos hq, hcomplete, hlines] at hsucc
  obtain ⟨later, hlater⟩ := List.take_prefix j ls
  rw [hsucc, List.append_assoc] at hlater
  have hlen : (ls.take k).length = k := by simp [hk]
  calc ls[k]? = (ls.take k ++ ([tornLine ((unlines ls).take q)] ++ later))[k]? := by rw [hlater]
    _ = some (tornLine ((unlines ls).take q)) := by
      rw [List.getElem?_append_right (by omega), hlen, Nat.sub_self]
      rfl

/-! ## Decimal numbers and fields -/

def decimal (n : Nat) : List Char := Nat.toDigits 10 n

def integer : Int → List Char
  | .ofNat n => decimal n
  | .negSucc n => '-' :: decimal (n + 1)

/-- The number a nonempty text of digits spells. -/
def number? (cs : List Char) : Option Nat :=
  if cs ≠ [] ∧ cs.all Char.isDigit then some (Nat.ofDigitChars 10 cs 0) else none

theorem isDigit_of_mem_decimal {c : Char} (h : c ∈ decimal n) : c.isDigit = true :=
  Nat.isDigit_of_mem_toDigits (by decide) (by decide) h

theorem not_mem_decimal {c : Char} (hc : c.isDigit = false) : c ∉ decimal n := fun h =>
  absurd (isDigit_of_mem_decimal h) (by simp [hc])

theorem decimal_ne_nil : decimal n ≠ [] := Nat.toDigits_ne_nil

@[simp] theorem number?_decimal (n : Nat) : number? (decimal n) = some n := by
  rw [number?, if_pos ⟨decimal_ne_nil, List.all_eq_true.mpr fun _ => isDigit_of_mem_decimal⟩, decimal,
    Nat.ofDigitChars_ten_toDigits]

/-- The number that digits spell, behind a minus sign or not. -/
def integer? : List Char → Option Int
  | '-' :: cs => (number? cs).map fun n => -n
  | cs => (number? cs).map Int.ofNat

@[simp] theorem integer?_integer (z : Int) : integer? (integer z) = some z := by
  cases z with
  | ofNat n =>
    have hminus : ∀ cs, decimal n ≠ '-' :: cs := fun cs h =>
      not_mem_decimal (c := '-') (by decide) (h ▸ List.mem_cons_self)
    rw [integer, integer?.eq_2 _ hminus, number?_decimal]
    rfl
  | negSucc n =>
    rw [integer, integer?, number?_decimal]
    rfl

/-- The last two comma-separated fields of a line, read as numbers. -/
def lastTwo? (cs : List Char) : Option (Nat × Nat) :=
  match (cs.splitOn ',').reverse with
  | y :: x :: _ => (number? x).bind fun m => (number? y).map fun n => (m, n)
  | _ => none

theorem lastTwo?_append (p : List Char) (m n : Nat) :
    lastTwo? (p ++ ',' :: decimal m ++ ',' :: decimal n) = some (m, n) := by
  have hcomma : ∀ k, (decimal k).splitOn ',' = [decimal k] := fun k =>
    List.splitOn_eq_singleton (not_mem_decimal (by decide))
  rw [lastTwo?, List.splitOn_append_cons_self, List.splitOn_append_cons_self, hcomma, hcomma]
  simp

end Text
