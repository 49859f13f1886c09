import KistCollector.Common.CsvRows

/-!
# Motors in CSV rows

Hand and body streams show the same quantities of a motor: four of a state, six of a command. The message
headers are not part of the repository; an integer field has the type in which the rows print it.
-/

namespace Kist

open Text Scanf

/-- The C library on the floats of type `F`: `%.7g` prints at most 13 characters, none a comma or a
line break, and of zero the digit `0`. -/
class Floats7 (F : Type) where
  zero : F
  format : F → List Char
  format_zero : format zero = ['0']
  length_le : ∀ x, (format x).length ≤ 13
  plain : ∀ x, Plain (format x)

/-- The floats from 0 to 9, which `%.7g` prints as digits. -/
instance : Floats7 (Fin 10) where
  zero := 0
  format d := decimal d.val
  format_zero := rfl
  length_le d := Nat.le_trans (length_decimal_le (k := 1) (by decide) (by omega)) (by decide)
  plain d := plain_decimal d.val

/-- `%u`. -/
def unsigned (n : UInt32) : List Char := decimal n.toNat

theorem length_unsigned (n : UInt32) : (unsigned n).length ≤ 10 := by
  have := n.toNat_lt
  exact length_decimal_le (by decide) (by omega)

/-- `%02d`. -/
def zeroPadded (n : Nat) : List Char := if n < 10 then '0' :: decimal n else decimal n

theorem plain_zeroPadded (n : Nat) : Plain (zeroPadded n) := by
  rw [zeroPadded]
  split
  · exact (plain_decimal n).cons (by decide)
  · exact plain_decimal n

theorem length_zeroPadded (h : n < 100) : (zeroPadded n).length ≤ 2 := by
  rw [zeroPadded]
  split
  case isTrue hn => exact Nat.succ_le_succ (length_decimal_le (by decide) (by omega))
  case isFalse => exact length_decimal_le (by decide) (by omega)

theorem zeroPadded_injective : Function.Injective zeroPadded := by
  have hvalue : ∀ n, Nat.ofDigitChars 10 (zeroPadded n) 0 = n := by
    intro n
    rw [zeroPadded]
    split
    · rw [Nat.ofDigitChars_cons]
      exact Nat.ofDigitChars_ten_toDigits
    · exact Nat.ofDigitChars_ten_toDigits
  exact Function.LeftInverse.injective hvalue

theorem decimal_injective : Function.Injective decimal :=
  Function.LeftInverse.injective fun _ => Nat.ofDigitChars_ten_toDigits

theorem isDigit_of_mem_zeroPadded {c : Char} (h : c ∈ zeroPadded n) : c.isDigit = true := by
  rw [zeroPadded] at h
  split at h
  · rcases List.mem_cons.mp h with rfl | h
    · rfl
    · exact isDigit_of_mem_decimal h
  · exact isDigit_of_mem_decimal h

theorem zeroPadded_ne_nil : zeroPadded n ≠ [] := by
  rw [zeroPadded]
  split
  · exact List.cons_ne_nil _ _
  · exact decimal_ne_nil

/-- What stands before and after the underscore of a name. -/
theorem underscore_inj {cs cs' ds ds' : List Char} (h : cs ++ '_' :: ds = cs' ++ '_' :: ds')
    (hcs : ∀ c ∈ cs, c.isDigit = true) (hcs' : ∀ c ∈ cs', c.isDigit = true) :
    cs = cs' ∧ ds = ds' := by
  have htake : ∀ {es fs : List Char}, (∀ c ∈ es, c.isDigit = true) →
      (es ++ '_' :: fs).takeWhile Char.isDigit = es := by
    intro es fs hes
    rw [List.takeWhile_append_of_pos hes, List.takeWhile_cons_of_neg (by decide), List.append_nil]
  have heq : cs = cs' := by rw [← htake hcs, h, htake hcs']
  subst heq
  exact ⟨rfl, (List.cons.inj (List.append_cancel_left h)).2⟩

/-- The name of a column of a loop: a letter and the number. -/
def numbered (cs : List Char) : Bool := (cs[1]?).any Char.isDigit

theorem numbered_of_cons {c : Char} {ds : List Char} (hne : ds ≠ []) (h : ∀ d ∈ ds, d.isDigit = true)
    (es : List Char) : numbered (c :: ds ++ es) = true := by
  obtain ⟨d, ds, rfl⟩ := List.exists_cons_of_ne_nil hne
  simpa [numbered] using h d (by simp)

/-- Names are distinct if those that do not come from a loop are distinct, those of the loops are, and
only the latter are numbered. -/
theorem injective_of_numbered {name : C → List Char} (fixed : List C) (hfixed : (fixed.map name).Nodup)
    (hnot : ∀ c ∈ fixed, numbered (name c) = false) (hnumbered : ∀ c ∉ fixed, numbered (name c) = true)
    (hloop : ∀ a ∉ fixed, ∀ b ∉ fixed, name a = name b → a = b) : Function.Injective name := by
  intro a b h
  by_cases ha : a ∈ fixed
  · by_cases hb : b ∈ fixed
    · exact List.inj_on_of_nodup_map hfixed ha hb h
    · have hnum := hnot a ha
      rw [h, hnumbered b hb] at hnum
      cases hnum
  · by_cases hb : b ∈ fixed
    · have hnum := hnot b hb
      rw [← h, hnumbered a ha] at hnum
      cases hnum
    · exact hloop a ha b hb h

theorem toList_eq_map_finRange (v : Vector α n) : v.toList = (List.finRange n).map fun i => v.get i := by
  apply List.ext_getElem
  · simp
  · intro i hi hi'
    simp [Vector.get]

structure MotorState (F : Type) where
  q : F
  dq : F
  ddq : F
  tauEst : F

structure MotorCmd (F : Type) where
  mode : UInt32
  q : F
  dq : F
  tau : F
  kp : F
  kd : F

/-- What the rows show of a motor's state. -/
inductive StateQuantity where
  | q
  | dq
  | ddq
  | tau

/-- What the rows show of a motor's command. -/
inductive CmdQuantity where
  | mode
  | q
  | dq
  | tau
  | kp
  | kd

def StateQuantity.all : List StateQuantity := [.q, .dq, .ddq, .tau]

def CmdQuantity.all : List CmdQuantity := [.mode, .q, .dq, .tau, .kp, .kd]

theorem StateQuantity.mem_all (x : StateQuantity) : x ∈ all := by cases x <;> simp [all]

theorem CmdQuantity.mem_all (x : CmdQuantity) : x ∈ all := by cases x <;> simp [all]

theorem StateQuantity.nodup_all : all.Nodup := by simp [all]

theorem CmdQuantity.nodup_all : all.Nodup := by simp [all]

def StateQuantity.name : StateQuantity → List Char
  | .q => ['q']
  | .dq => ['d', 'q']
  | .ddq => ['d', 'd', 'q']
  | .tau => ['t', 'a', 'u']

def CmdQuantity.name : CmdQuantity → List Char
  | .mode => ['m', 'o', 'd', 'e']
  | .q => ['q']
  | .dq => ['d', 'q']
  | .tau => ['t', 'a', 'u']
  | .kp => ['k', 'p']
  | .kd => ['k', 'd']

theorem StateQuantity.name_injective : Function.Injective name := by
  intro x y h
  cases x <;> cases y <;> first | rfl | simp [name] at h

theorem CmdQuantity.name_injective : Function.Injective name := by
  intro x y h
  cases x <;> cases y <;> first | rfl | simp [name] at h

variable {F : Type} [Floats7 F]

/-- The field of a quantity. -/
def MotorState.shown (m : MotorState F) : StateQuantity → List Char
  | .q => Floats7.format m.q
  | .dq => Floats7.format m.dq
  | .ddq => Floats7.format m.ddq
  | .tau => Floats7.format m.tauEst

def MotorCmd.shown (m : MotorCmd F) : CmdQuantity → List Char
  | .mode => unsigned m.mode
  | .q => Floats7.format m.q
  | .dq => Floats7.format m.dq
  | .tau => Floats7.format m.tau
  | .kp => Floats7.format m.kp
  | .kd => Floats7.format m.kd

/-! ## The texts of the rows and headers -/

/-- `,%.7g,%.7g,%.7g,%.7g` of a motor's state. -/
def MotorState.text (m : MotorState F) : List Char :=
  fields [Floats7.format m.q, Floats7.format m.dq, Floats7.format m.ddq, Floats7.format m.tauEst]

/-- `,%u,%.7g,%.7g,%.7g,%.7g,%.7g` of a motor's command. -/
def MotorCmd.text (m : MotorCmd F) : List Char :=
  fields [unsigned m.mode, Floats7.format m.q, Floats7.format m.dq, Floats7.format m.tau,
    Floats7.format m.kp, Floats7.format m.kd]

/-- The text of a motor that may be beyond the end of its vector. -/
def stateText : Option (MotorState F) → List Char
  | some m => m.text
  | none => ",0,0,0,0".toList

def cmdText : Option (MotorCmd F) → List Char
  | some m => m.text
  | none => ",0,0,0,0,0,0".toList

/-- `,p_q,p_dq,p_ddq,p_tau` for the prefix `p` of a motor. -/
def stateNames (p : List Char) : List Char :=
  fields [p ++ "_q".toList, p ++ "_dq".toList, p ++ "_ddq".toList, p ++ "_tau".toList]

/-- `,p_mode,p_q,p_dq,p_tau,p_kp,p_kd` for the prefix `p` of a motor. -/
def cmdNames (p : List Char) : List Char :=
  fields [p ++ "_mode".toList, p ++ "_q".toList, p ++ "_dq".toList, p ++ "_tau".toList,
    p ++ "_kp".toList, p ++ "_kd".toList]

theorem MotorState.text_eq (m : MotorState F) : m.text = fields (StateQuantity.all.map m.shown) := rfl

theorem MotorCmd.text_eq (m : MotorCmd F) : m.text = fields (CmdQuantity.all.map m.shown) := rfl

/-- The field of a quantity of a motor that may be missing. -/
def shownState (m : Option (MotorState F)) (x : StateQuantity) : List Char := m.elim ['0'] (·.shown x)

def shownCmd (m : Option (MotorCmd F)) (x : CmdQuantity) : List Char := m.elim ['0'] (·.shown x)

theorem stateText_eq (m : Option (MotorState F)) :
    stateText m = fields (StateQuantity.all.map (shownState m)) := by
  cases m with
  | none => rfl
  | some m => exact m.text_eq

theorem cmdText_eq (m : Option (MotorCmd F)) :
    cmdText m = fields (CmdQuantity.all.map (shownCmd m)) := by
  cases m with
  | none => rfl
  | some m => exact m.text_eq

theorem stateNames_eq (p : List Char) :
    stateNames p = fields (StateQuantity.all.map fun x => p ++ '_' :: x.name) := rfl

theorem cmdNames_eq (p : List Char) :
    cmdNames p = fields (CmdQuantity.all.map fun x => p ++ '_' :: x.name) := rfl

theorem MotorState.shown_plain (m : MotorState F) (x : StateQuantity) : Plain (m.shown x) := by
  cases x <;> exact Floats7.plain _

theorem MotorCmd.shown_plain (m : MotorCmd F) (x : CmdQuantity) : Plain (m.shown x) := by
  cases x with
  | mode => exact plain_decimal _
  | q | dq | tau | kp | kd => exact Floats7.plain _

theorem plain_zero : Plain ['0'] := ⟨by simp, by simp⟩

theorem shownState_plain (m : Option (MotorState F)) (x : StateQuantity) : Plain (shownState m x) := by
  cases m with
  | none => exact plain_zero
  | some m => exact m.shown_plain x

theorem shownCmd_plain (m : Option (MotorCmd F)) (x : CmdQuantity) : Plain (shownCmd m x) := by
  cases m with
  | none => exact plain_zero
  | some m => exact m.shown_plain x

theorem StateQuantity.name_plain (x : StateQuantity) : Plain ('_' :: x.name) := by
  cases x <;> exact ⟨by simp [name], by simp [name]⟩

theorem CmdQuantity.name_plain (x : CmdQuantity) : Plain ('_' :: x.name) := by
  cases x <;> exact ⟨by simp [name], by simp [name]⟩

theorem MotorState.length_shown_le (m : MotorState F) (x : StateQuantity) : (m.shown x).length ≤ 13 := by
  cases x <;> exact Floats7.length_le _

theorem MotorCmd.length_shown_le (m : MotorCmd F) (x : CmdQuantity) : (m.shown x).length ≤ 13 := by
  cases x with
  | mode => exact Nat.le_trans (length_unsigned _) (by decide)
  | q | dq | tau | kp | kd => exact Floats7.length_le _

theorem MotorState.length_text_le (m : MotorState F) : m.text.length ≤ 56 := by
  rw [text_eq]
  refine length_fields_le (n := 13) fun x hx => ?_
  obtain ⟨y, -, rfl⟩ := List.mem_map.mp hx
  exact m.length_shown_le y

theorem MotorCmd.length_text_le (m : MotorCmd F) : m.text.length ≤ 84 := by
  rw [text_eq]
  refine length_fields_le (n := 13) fun x hx => ?_
  obtain ⟨y, -, rfl⟩ := List.mem_map.mp hx
  exact m.length_shown_le y

theorem length_stateText_le (m : Option (MotorState F)) : (stateText m).length ≤ 56 := by
  cases m with
  | none => exact (by decide : ",0,0,0,0".toList.length ≤ 56)
  | some m => exact m.length_text_le

theorem length_cmdText_le (m : Option (MotorCmd F)) : (cmdText m).length ≤ 84 := by
  cases m with
  | none => exact (by decide : ",0,0,0,0,0,0".toList.length ≤ 84)
  | some m => exact m.length_text_le

theorem length_stateNames (p : List Char) : (stateNames p).length = 4 * p.length + 17 := by
  simp [stateNames]
  omega

theorem length_cmdNames (p : List Char) : (cmdNames p).length = 6 * p.length + 26 := by
  simp [cmdNames]
  omega

end Kist
