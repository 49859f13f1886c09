import KistCollector.Rows.Motor

/-!
# Rows of the Dex3 hands

State and command rows show seven motors, state rows also nine pads of twelve pressure channels. The
messages hold motors and pads as vectors of any length: a missing one is printed as zeros, what is beyond
the fixed width is ignored (`dex3Row_take`, `dex3CmdRow_take`).
-/

namespace Kist

open Text Scanf

def kDex3Motors : Nat := 7
def kDex3PressPads : Nat := 9
def kDex3PressChannel : Nat := 12
def kDex3CmdMotors : Nat := 7

structure PressSensorState (F : Type) where
  pressure : Vector F kDex3PressChannel

structure HandState (F : Type) where
  motorState : List (MotorState F)
  pressSensorState : List (PressSensorState F)

structure HandCmd (F : Type) where
  motorCmd : List (MotorCmd F)

/-! ## Headers and rows as they are printed -/

def dex3HeaderPrints : List Print :=
  (List.finRange kDex3Motors).map (fun i => ⟨64, stateNames ('f' :: decimal i.val)⟩) ++
  (List.finRange kDex3PressPads).flatMap fun p => (List.finRange kDex3PressChannel).map fun c =>
    ⟨64, fields ["press".toList ++ decimal p.val ++ '_' :: decimal c.val]⟩

def dex3Header : List Char := "recv_ns".toList ++ Print.append dex3HeaderPrints

def dex3CmdHeaderPrints : List Print :=
  (List.finRange kDex3CmdMotors).map fun i => ⟨80, cmdNames ('f' :: decimal i.val)⟩

def dex3CmdHeader : List Char := "recv_ns".toList ++ Print.append dex3CmdHeaderPrints

variable {F : Type} [Floats7 F]

/-- The pressure of a channel, zero if the message has no such pad. -/
def HandState.pressureAt (s : HandState F) (p : Fin kDex3PressPads) (c : Fin kDex3PressChannel) : F :=
  match s.pressSensorState[p.val]? with
  | some pad => pad.pressure[c]
  | none => Floats7.zero

def dex3RowPrints (s : HandState F) (recvNs : Int64) : List Print :=
  ⟨96, integer recvNs.toInt⟩ ::
  (List.finRange kDex3Motors).map (fun i => ⟨96, stateText s.motorState[i.val]?⟩) ++
  (List.finRange kDex3PressPads).flatMap fun p => (List.finRange kDex3PressChannel).map fun c =>
    ⟨96, fields [Floats7.format (s.pressureAt p c)]⟩

def dex3Row : RowFn (HandState F) := fun s recvNs => Print.append (dex3RowPrints s recvNs)

def dex3CmdRowPrints (c : HandCmd F) (recvNs : Int64) : List Print :=
  ⟨160, integer recvNs.toInt⟩ ::
  (List.finRange kDex3CmdMotors).map fun i => ⟨160, cmdText c.motorCmd[i.val]?⟩

def dex3CmdRow : RowFn (HandCmd F) := fun c recvNs => Print.append (dex3CmdRowPrints c recvNs)

/-! ## Columns -/

inductive Dex3Column where
  | recvNs
  | motor (i : Fin kDex3Motors) (x : StateQuantity)
  | press (p : Fin kDex3PressPads) (c : Fin kDex3PressChannel)

inductive Dex3CmdColumn where
  | recvNs
  | motor (i : Fin kDex3CmdMotors) (x : CmdQuantity)

namespace Dex3Column

def all : List Dex3Column :=
  .recvNs :: (List.finRange kDex3Motors).flatMap (fun i => StateQuantity.all.map (.motor i)) ++
  (List.finRange kDex3PressPads).flatMap fun p => (List.finRange kDex3PressChannel).map (.press p)

def name : Dex3Column → List Char
  | .recvNs => ['r', 'e', 'c', 'v', '_', 'n', 's']
  | .motor i x => 'f' :: decimal i.val ++ '_' :: x.name
  | .press p c => ['p', 'r', 'e', 's', 's'] ++ decimal p.val ++ '_' :: decimal c.val

/-- The quantity a column shows, `0` beyond the end of a vector. -/
def field (s : HandState F) (recvNs : Int64) : Dex3Column → List Char
  | .recvNs => integer recvNs.toInt
  | .motor i x => shownState s.motorState[i.val]? x
  | .press p c => (s.pressSensorState[p.val]?).elim ['0'] (Floats7.format ·.pressure[c])

end Dex3Column

namespace Dex3CmdColumn

def all : List Dex3CmdColumn :=
  .recvNs :: (List.finRange kDex3CmdMotors).flatMap fun i => CmdQuantity.all.map (.motor i)

def name : Dex3CmdColumn → List Char
  | .recvNs => ['r', 'e', 'c', 'v', '_', 'n', 's']
  | .motor i x => 'f' :: decimal i.val ++ '_' :: x.name

/-- The quantity a column shows, `0` beyond the end of the vector. -/
def field (c : HandCmd F) (recvNs : Int64) : Dex3CmdColumn → List Char
  | .recvNs => integer recvNs.toInt
  | .motor i x => shownCmd c.motorCmd[i.val]? x

end Dex3CmdColumn

namespace Dex3Column

theorem mem_all (c : Dex3Column) : c ∈ all := by
  rw [all, List.mem_append, List.mem_cons, List.mem_flatMap, List.mem_flatMap]
  cases c with
  | recvNs => exact .inl (.inl rfl)
  | motor i x =>
    exact .inl (.inr ⟨i, List.mem_finRange i, List.mem_map.mpr ⟨x, x.mem_all, rfl⟩⟩)
  | press p c =>
    exact .inr ⟨p, List.mem_finRange p, List.mem_map.mpr ⟨c, List.mem_finRange c, rfl⟩⟩

theorem nodup_all : all.Nodup := by
  rw [all, List.cons_append, List.nodup_cons, List.nodup_append]
  refine ⟨by simp, ?_, ?_, ?_⟩
  · apply nodup_flatMap_map (List.nodup_finRange _) StateQuantity.nodup_all
    intro i x j y h
    cases h
    exact ⟨rfl, rfl⟩
  · apply nodup_flatMap_map (List.nodup_finRange _) (List.nodup_finRange _)
    intro p c q d h
    cases h
    exact ⟨rfl, rfl⟩
  · intro a ha b hb hab
    obtain ⟨i, -, ha⟩ := List.mem_flatMap.mp ha
    obtain ⟨x, -, rfl⟩ := List.mem_map.mp ha
    obtain ⟨p, -, hb⟩ := List.mem_flatMap.mp hb
    obtain ⟨c, -, rfl⟩ := List.mem_map.mp hb
    cases hab

theorem name_injective : Function.Injective name := by
  intro a b h
  cases a with
  | recvNs =>
    cases b with
    | recvNs => rfl
    | motor | press => simp [name] at h
  | motor i x =>
    cases b with
    | recvNs | press => simp [name] at h
    | motor j y =>
      obtain ⟨hij, hxy⟩ := underscore_inj (List.cons.inj h).2 (fun _ => isDigit_of_mem_decimal)
        fun _ => isDigit_of_mem_decimal
      rw [Fin.ext (decimal_injective hij), StateQuantity.name_injective hxy]
  | press p c =>
    cases b with
    | recvNs | motor => simp [name] at h
    | press q d =>
      simp only [name, List.append_assoc, List.append_cancel_left_eq] at h
      obtain ⟨hpq, hcd⟩ := underscore_inj h (fun _ => isDigit_of_mem_decimal)
        fun _ => isDigit_of_mem_decimal
      rw [Fin.ext (decimal_injective hpq), Fin.ext (decimal_injective hcd)]

theorem name_plain (c : Dex3Column) : Plain c.name := by
  cases c with
  | recvNs => exact ⟨by simp [name], by simp [name]⟩
  | motor i x =>
    exact ((plain_decimal i.val).cons (by decide)).append x.name_plain
  | press p c =>
    have hpress : Plain ['p', 'r', 'e', 's', 's'] := ⟨by simp, by simp⟩
    exact (hpress.append (plain_decimal p.val)).append ((plain_decimal c.val).cons (by decide))

theorem field_plain (s : HandState F) (recvNs : Int64) (c : Dex3Column) :
    Plain (c.field s recvNs) := by
  cases c with
  | recvNs => exact plain_integer _
  | motor i x => exact shownState_plain _ x
  | press p c =>
    rw [field]
    cases s.pressSensorState[p.val]? with
    | none => exact plain_zero
    | some pad => exact Floats7.plain _

end Dex3Column

namespace Dex3CmdColumn

theorem mem_all (c : Dex3CmdColumn) : c ∈ all := by
  rw [all, List.mem_cons, List.mem_flatMap]
  cases c with
  | recvNs => exact .inl rfl
  | motor i x => exact .inr ⟨i, List.mem_finRange i, List.mem_map.mpr ⟨x, x.mem_all, rfl⟩⟩

theorem nodup_all : all.Nodup := by
  rw [all, List.nodup_cons]
  refine ⟨by simp, ?_⟩
  apply nodup_flatMap_map (List.nodup_finRange _) CmdQuantity.nodup_all
  intro i x j y h
  cases h
  exact ⟨rfl, rfl⟩

theorem name_injective : Function.Injective name := by
  intro a b h
  cases a with
  | recvNs =>
    cases b with
    | recvNs => rfl
    | motor => simp [name] at h
  | motor i x =>
    cases b with
    | recvNs => simp [name] at h
    | motor j y =>
      obtain ⟨hij, hxy⟩ := underscore_inj (List.cons.inj h).2 (fun _ => isDigit_of_mem_decimal)
        fun _ => isDigit_of_mem_decimal
      rw [Fin.ext (decimal_injective hij), CmdQuantity.name_injective hxy]

theorem name_plain (c : Dex3CmdColumn) : Plain c.name := by
  cases c with
  | recvNs => exact ⟨by simp [name], by simp [name]⟩
  | motor i x =>
    exact ((plain_decimal i.val).cons (by decide)).append x.name_plain

theorem field_plain (c : HandCmd F) (recvNs : Int64) (col : Dex3CmdColumn) :
    Plain (col.field c recvNs) := by
  cases col with
  | recvNs => exact plain_integer _
  | motor i x => exact shownCmd_plain _ x

end Dex3CmdColumn

def dex3Schema (F : Type) [Floats7 F] : Schema (HandState F) Dex3Column where
  columns := Dex3Column.all
  name := Dex3Column.name
  field := Dex3Column.field
  mem_columns := Dex3Column.mem_all
  columns_nodup := Dex3Column.nodup_all
  columns_ne_nil := fun h => absurd (Dex3Column.mem_all .recvNs) (by simp [h])
  name_injective := Dex3Column.name_injective
  name_plain := Dex3Column.name_plain
  field_plain := Dex3Column.field_plain

def dex3CmdSchema (F : Type) [Floats7 F] : Schema (HandCmd F) Dex3CmdColumn where
  columns := Dex3CmdColumn.all
  name := Dex3CmdColumn.name
  field := Dex3CmdColumn.field
  mem_columns := Dex3CmdColumn.mem_all
  columns_nodup := Dex3CmdColumn.nodup_all
  columns_ne_nil := fun h => absurd (Dex3CmdColumn.mem_all .recvNs) (by simp [h])
  name_injective := Dex3CmdColumn.name_injective
  name_plain := Dex3CmdColumn.name_plain
  field_plain := Dex3CmdColumn.field_plain

/-! ## Agreement -/

theorem dex3HeaderPrints_fit : ∀ p ∈ dex3HeaderPrints, p.Fits := by
  simp only [dex3HeaderPrints, List.forall_mem_append, List.forall_mem_map, List.forall_mem_flatMap,
    Print.Fits]
  constructor
  · intro i _
    have hi : (decimal i.val).length ≤ 1 := length_decimal_le (by decide) (Nat.lt_trans i.isLt (by decide))
    rw [length_stateNames, List.length_cons]
    omega
  · intro p _ c _
    have hp : (decimal p.val).length ≤ 1 := length_decimal_le (by decide) (Nat.lt_trans p.isLt (by decide))
    have hc : (decimal c.val).length ≤ 2 := length_decimal_le (by decide) (Nat.lt_trans c.isLt (by decide))
    simp
    omega

theorem dex3CmdHeaderPrints_fit : ∀ p ∈ dex3CmdHeaderPrints, p.Fits := by
  simp only [dex3CmdHeaderPrints, List.forall_mem_map, Print.Fits]
  intro i _
  have hi : (decimal i.val).length ≤ 1 := length_decimal_le (by decide) (Nat.lt_trans i.isLt (by decide))
  rw [length_cmdNames, List.length_cons]
  omega

theorem dex3RowPrints_fit (s : HandState F) (recvNs : Int64) : ∀ p ∈ dex3RowPrints s recvNs, p.Fits := by
  simp only [dex3RowPrints, List.forall_mem_append, List.forall_mem_cons, List.forall_mem_map,
    List.forall_mem_flatMap, Print.Fits]
  refine ⟨⟨Nat.lt_of_le_of_lt (length_lld recvNs) (by decide), ?_⟩, ?_⟩
  · intro i _
    exact Nat.lt_of_le_of_lt (length_stateText_le _) (by decide)
  · intro p _ c _
    rw [fields_cons, fields_nil, List.append_nil, List.length_cons]
    exact Nat.lt_of_le_of_lt (Nat.succ_le_succ (Floats7.length_le _)) (by decide)

theorem dex3CmdRowPrints_fit (c : HandCmd F) (recvNs : Int64) :
    ∀ p ∈ dex3CmdRowPrints c recvNs, p.Fits := by
  simp only [dex3CmdRowPrints, List.forall_mem_cons, List.forall_mem_map, Print.Fits]
  refine ⟨Nat.lt_of_le_of_lt (length_lld recvNs) (by decide), ?_⟩
  intro i _
  exact Nat.lt_of_le_of_lt (length_cmdText_le _) (by decide)

theorem format_pressureAt (s : HandState F) (recvNs : Int64) (p : Fin kDex3PressPads)
    (c : Fin kDex3PressChannel) :
    Floats7.format (s.pressureAt p c) = Dex3Column.field s recvNs (.press p c) := by
  rw [HandState.pressureAt, Dex3Column.field]
  cases s.pressSensorState[p.val]? with
  | none => exact Floats7.format_zero
  | some pad => rfl

/-- **Hand states.** -/
theorem dex3_agrees : (dex3Schema F).Agrees dex3Header dex3HeaderPrints dex3Row dex3RowPrints := by
  apply Schema.agrees_of_text _ dex3HeaderPrints_fit dex3RowPrints_fit
  · simp only [dex3Schema, Dex3Column.all, List.map_append, List.map_cons, List.cons_append,
      intercalate_cons_fields, fields_append, List.map_flatMap, List.map_map, fields_flatMap, fields_map,
      dex3HeaderPrints, List.flatMap_append, List.flatMap_map, List.flatMap_assoc, stateNames_eq]
    rfl
  · intro s recvNs
    simp only [dex3Schema, Dex3Column.all, List.map_append, List.map_cons, List.cons_append,
      intercalate_cons_fields, fields_append, List.map_flatMap, List.map_map, fields_flatMap, fields_map,
      dex3RowPrints, List.flatMap_append, List.flatMap_cons, List.flatMap_map, List.flatMap_assoc,
      stateText_eq, format_pressureAt s recvNs]
    rfl

/-- **Hand commands.** -/
theorem dex3Cmd_agrees :
    (dex3CmdSchema F).Agrees dex3CmdHeader dex3CmdHeaderPrints dex3CmdRow dex3CmdRowPrints := by
  apply Schema.agrees_of_text _ dex3CmdHeaderPrints_fit dex3CmdRowPrints_fit
  · simp only [dex3CmdSchema, Dex3CmdColumn.all, List.map_cons, intercalate_cons_fields,
      List.map_flatMap, List.map_map, fields_flatMap, fields_map, dex3CmdHeaderPrints,
      List.flatMap_map, cmdNames_eq]
    rfl
  · intro c recvNs
    simp only [dex3CmdSchema, Dex3CmdColumn.all, List.map_cons, intercalate_cons_fields,
      List.map_flatMap, List.map_map, fields_flatMap, fields_map, dex3CmdRowPrints,
      List.flatMap_cons, List.flatMap_map, cmdText_eq]
    rfl

/-- Motors and pads beyond the fixed width do not change a row. -/
theorem dex3Row_take (s : HandState F) (recvNs : Int64) :
    dex3Row s recvNs = dex3Row ⟨s.motorState.take kDex3Motors, s.pressSensorState.take kDex3PressPads⟩
      recvNs := by
  have hmotor : ∀ i : Fin kDex3Motors, (s.motorState.take kDex3Motors)[i.val]? = s.motorState[i.val]? :=
    fun i => List.getElem?_take_of_lt i.isLt
  have hpad : ∀ p : Fin kDex3PressPads,
      (s.pressSensorState.take kDex3PressPads)[p.val]? = s.pressSensorState[p.val]? :=
    fun p => List.getElem?_take_of_lt p.isLt
  simp only [dex3Row, dex3RowPrints, HandState.pressureAt, hmotor, hpad]

theorem dex3CmdRow_take (c : HandCmd F) (recvNs : Int64) :
    dex3CmdRow c recvNs = dex3CmdRow ⟨c.motorCmd.take kDex3CmdMotors⟩ recvNs := by
  have hmotor : ∀ i : Fin kDex3CmdMotors,
      (c.motorCmd.take kDex3CmdMotors)[i.val]? = c.motorCmd[i.val]? :=
    fun i => List.getElem?_take_of_lt i.isLt
  simp only [dex3CmdRow, dex3CmdRowPrints, hmotor]

end Kist
