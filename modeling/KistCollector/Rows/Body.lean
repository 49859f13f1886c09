import KistCollector.Rows.Motor

/-!
# Rows of the body streams

`lowstate` and `lowcmd` show the 35 motors of the messages' arrays after a few columns of their own.
-/

namespace Kist

open Text Scanf

def kLowstateMotors : Nat := 35
def kLowcmdMotors : Nat := 35

structure IMUState (F : Type) where
  quaternion : Vector F 4
  gyroscope : Vector F 3
  accelerometer : Vector F 3
  rpy : Vector F 3
  temperature : Int32

structure LowState (F : Type) where
  tick : UInt32
  modeMachine : UInt32
  modePr : UInt32
  imuState : IMUState F
  motorState : Vector (MotorState F) kLowstateMotors

structure LowCmd (F : Type) where
  modePr : UInt32
  modeMachine : UInt32
  motorCmd : Vector (MotorCmd F) kLowcmdMotors

/-! ## Headers and rows as they are printed -/

def lowstateHeaderPrints : List Print :=
  (List.finRange kLowstateMotors).map fun i => ⟨64, stateNames ('m' :: zeroPadded i.val)⟩

def lowstateHeader : List Char :=
  ("recv_ns,tick,mode_machine,mode_pr," ++
    "quat_w,quat_x,quat_y,quat_z," ++
    "gyro_x,gyro_y,gyro_z,accel_x,accel_y,accel_z," ++
    "rpy_roll,rpy_pitch,rpy_yaw,imu_temp").toList ++ Print.append lowstateHeaderPrints

def lowcmdHeaderPrints : List Print :=
  (List.finRange kLowcmdMotors).map fun i => ⟨80, cmdNames ('m' :: zeroPadded i.val)⟩

def lowcmdHeader : List Char :=
  "recv_ns,mode_pr,mode_machine".toList ++ Print.append lowcmdHeaderPrints

variable {F : Type} [Floats7 F]

/-- `for (float v : vs)`, one print for each. -/
def floatPrints (size : Nat) (vs : Vector F n) : List Print :=
  vs.toList.map fun v => ⟨size, fields [Floats7.format v]⟩

def lowstateRowPrints (s : LowState F) (recvNs : Int64) : List Print :=
  ⟨128, integer recvNs.toInt ++
    fields [unsigned s.tick, unsigned s.modeMachine, unsigned s.modePr]⟩ ::
  floatPrints 128 s.imuState.quaternion ++
  floatPrints 128 s.imuState.gyroscope ++
  floatPrints 128 s.imuState.accelerometer ++
  floatPrints 128 s.imuState.rpy ++
  ⟨128, fields [integer s.imuState.temperature.toInt]⟩ ::
  s.motorState.toList.map fun m => ⟨128, m.text⟩

def lowstateRow : RowFn (LowState F) := fun s recvNs => Print.append (lowstateRowPrints s recvNs)

def lowcmdRowPrints (c : LowCmd F) (recvNs : Int64) : List Print :=
  ⟨160, integer recvNs.toInt ++ fields [unsigned c.modePr, unsigned c.modeMachine]⟩ ::
  c.motorCmd.toList.map fun m => ⟨160, m.text⟩

def lowcmdRow : RowFn (LowCmd F) := fun c recvNs => Print.append (lowcmdRowPrints c recvNs)

/-! ## Columns -/

inductive LowstateColumn where
  | recvNs
  | tick
  | modeMachine
  | modePr
  | quat (i : Fin 4)
  | gyro (i : Fin 3)
  | accel (i : Fin 3)
  | rpy (i : Fin 3)
  | imuTemp
  | motor (i : Fin kLowstateMotors) (x : StateQuantity)

inductive LowcmdColumn where
  | recvNs
  | modePr
  | modeMachine
  | motor (i : Fin kLowcmdMotors) (x : CmdQuantity)

namespace LowstateColumn

/-- The columns before those of the motors. -/
def fixed : List LowstateColumn :=
  [.recvNs, .tick, .modeMachine, .modePr] ++ (List.finRange 4).map .quat ++ (List.finRange 3).map .gyro ++
    (List.finRange 3).map .accel ++ (List.finRange 3).map .rpy ++ [.imuTemp]

def all : List LowstateColumn :=
  fixed ++ (List.finRange kLowstateMotors).flatMap fun i => StateQuantity.all.map (.motor i)

def name : LowstateColumn → List Char
  | .recvNs => ['r', 'e', 'c', 'v', '_', 'n', 's']
  | .tick => ['t', 'i', 'c', 'k']
  | .modeMachine => ['m', 'o', 'd', 'e', '_', 'm', 'a', 'c', 'h', 'i', 'n', 'e']
  | .modePr => ['m', 'o', 'd', 'e', '_', 'p', 'r']
  | .quat i => ['q', 'u', 'a', 't', '_', ['w', 'x', 'y', 'z'][i]]
  | .gyro i => ['g', 'y', 'r', 'o', '_', ['x', 'y', 'z'][i]]
  | .accel i => ['a', 'c', 'c', 'e', 'l', '_', ['x', 'y', 'z'][i]]
  | .rpy i => ['r', 'p', 'y', '_'] ++
    [['r', 'o', 'l', 'l'], ['p', 'i', 't', 'c', 'h'], ['y', 'a', 'w']][i]
  | .imuTemp => ['i', 'm', 'u', '_', 't', 'e', 'm', 'p']
  | .motor i x => 'm' :: zeroPadded i.val ++ '_' :: x.name

/-- The quantity a column shows. -/
def field (s : LowState F) (recvNs : Int64) : LowstateColumn → List Char
  | .recvNs => integer recvNs.toInt
  | .tick => unsigned s.tick
  | .modeMachine => unsigned s.modeMachine
  | .modePr => unsigned s.modePr
  | .quat i => Floats7.format s.imuState.quaternion[i]
  | .gyro i => Floats7.format s.imuState.gyroscope[i]
  | .accel i => Floats7.format s.imuState.accelerometer[i]
  | .rpy i => Floats7.format s.imuState.rpy[i]
  | .imuTemp => integer s.imuState.temperature.toInt
  | .motor i x => s.motorState[i].shown x

theorem mem_all (c : LowstateColumn) : c ∈ all := by
  rw [all, List.mem_append, List.mem_flatMap]
  cases c with
  | motor i x => exact .inr ⟨i, List.mem_finRange i, List.mem_map.mpr ⟨x, x.mem_all, rfl⟩⟩
  | recvNs | tick | modeMachine | modePr | quat | gyro | accel | rpy | imuTemp => simp [fixed]

/-- Only the columns of the motors are numbered. -/
theorem eq_motor_of_notMem {c : LowstateColumn} (h : c ∉ fixed) : ∃ i x, c = .motor i x := by
  cases c with
  | motor i x => exact ⟨i, x, rfl⟩
  | recvNs | tick | modeMachine | modePr | quat | gyro | accel | rpy | imuTemp => simp [fixed] at h

theorem name_injective : Function.Injective name := by
  apply injective_of_numbered fixed
  · decide +kernel
  · decide +kernel
  · intro c hc
    obtain ⟨i, x, rfl⟩ := eq_motor_of_notMem hc
    exact numbered_of_cons zeroPadded_ne_nil (fun _ => isDigit_of_mem_zeroPadded) _
  · intro a ha b hb h
    obtain ⟨i, x, rfl⟩ := eq_motor_of_notMem ha
    obtain ⟨j, y, rfl⟩ := eq_motor_of_notMem hb
    obtain ⟨hij, hxy⟩ := underscore_inj (List.cons.inj h).2 (fun _ => isDigit_of_mem_zeroPadded)
      fun _ => isDigit_of_mem_zeroPadded
    rw [Fin.ext (zeroPadded_injective hij), StateQuantity.name_injective hxy]

theorem nodup_all : all.Nodup := by
  rw [all, List.nodup_append]
  refine ⟨?_, ?_, ?_⟩
  · exact List.Nodup.of_map name (by decide +kernel)
  · apply nodup_flatMap_map (List.nodup_finRange _) StateQuantity.nodup_all
    intro i x j y h
    cases h
    exact ⟨rfl, rfl⟩
  · intro a ha b hb hab
    obtain ⟨i, -, hb⟩ := List.mem_flatMap.mp hb
    obtain ⟨x, -, rfl⟩ := List.mem_map.mp hb
    simp [hab, fixed] at ha

theorem name_plain (c : LowstateColumn) : Plain c.name := by
  cases c with
  | motor i x =>
    exact ((plain_zeroPadded i.val).cons (by decide)).append x.name_plain
  | quat i => revert i; decide
  | gyro i => revert i; decide
  | accel i => revert i; decide
  | rpy i => revert i; decide
  | recvNs | tick | modeMachine | modePr | imuTemp => exact ⟨by simp [name], by simp [name]⟩

theorem field_plain (s : LowState F) (recvNs : Int64) (c : LowstateColumn) :
    Plain (c.field s recvNs) := by
  cases c with
  | recvNs | imuTemp => exact plain_integer _
  | tick | modeMachine | modePr => exact plain_decimal _
  | quat | gyro | accel | rpy => exact Floats7.plain _
  | motor i x => exact s.motorState[i].shown_plain x

end LowstateColumn

namespace LowcmdColumn

/-- The columns before those of the motors. -/
def fixed : List LowcmdColumn := [.recvNs, .modePr, .modeMachine]

def all : List LowcmdColumn :=
  fixed ++ (List.finRange kLowcmdMotors).flatMap fun i => CmdQuantity.all.map (.motor i)

def name : LowcmdColumn → List Char
  | .recvNs => ['r', 'e', 'c', 'v', '_', 'n', 's']
  | .modePr => ['m', 'o', 'd', 'e', '_', 'p', 'r']
  | .modeMachine => ['m', 'o', 'd', 'e', '_', 'm', 'a', 'c', 'h', 'i', 'n', 'e']
  | .motor i x => 'm' :: zeroPadded i.val ++ '_' :: x.name

/-- The quantity a column shows. -/
def field (c : LowCmd F) (recvNs : Int64) : LowcmdColumn → List Char
  | .recvNs => integer recvNs.toInt
  | .modePr => unsigned c.modePr
  | .modeMachine => unsigned c.modeMachine
  | .motor i x => c.motorCmd[i].shown x

theorem mem_all (c : LowcmdColumn) : c ∈ all := by
  rw [all, List.mem_append, List.mem_flatMap]
  cases c with
  | motor i x => exact .inr ⟨i, List.mem_finRange i, List.mem_map.mpr ⟨x, x.mem_all, rfl⟩⟩
  | recvNs | modePr | modeMachine => simp [fixed]

/-- Only the columns of the motors are numbered. -/
theorem eq_motor_of_notMem {c : LowcmdColumn} (h : c ∉ fixed) : ∃ i x, c = .motor i x := by
  cases c with
  | motor i x => exact ⟨i, x, rfl⟩
  | recvNs | modePr | modeMachine => simp [fixed] at h

theorem name_injective : Function.Injective name := by
  apply injective_of_numbered fixed
  · decide +kernel
  · decide +kernel
  · intro c hc
    obtain ⟨i, x, rfl⟩ := eq_motor_of_notMem hc
    exact numbered_of_cons zeroPadded_ne_nil (fun _ => isDigit_of_mem_zeroPadded) _
  · intro a ha b hb h
    obtain ⟨i, x, rfl⟩ := eq_motor_of_notMem ha
    obtain ⟨j, y, rfl⟩ := eq_motor_of_notMem hb
    obtain ⟨hij, hxy⟩ := underscore_inj (List.cons.inj h).2 (fun _ => isDigit_of_mem_zeroPadded)
      fun _ => isDigit_of_mem_zeroPadded
    rw [Fin.ext (zeroPadded_injective hij), CmdQuantity.name_injective hxy]

theorem nodup_all : all.Nodup := by
  rw [all, List.nodup_append]
  refine ⟨?_, ?_, ?_⟩
  · exact List.Nodup.of_map name (by decide +kernel)
  · apply nodup_flatMap_map (List.nodup_finRange _) CmdQuantity.nodup_all
    intro i x j y h
    cases h
    exact ⟨rfl, rfl⟩
  · intro a ha b hb hab
    obtain ⟨i, -, hb⟩ := List.mem_flatMap.mp hb
    obtain ⟨x, -, rfl⟩ := List.mem_map.mp hb
    simp [hab, fixed] at ha

theorem name_plain (c : LowcmdColumn) : Plain c.name := by
  cases c with
  | motor i x =>
    exact ((plain_zeroPadded i.val).cons (by decide)).append x.name_plain
  | recvNs | modePr | modeMachine => exact ⟨by simp [name], by simp [name]⟩

theorem field_plain (c : LowCmd F) (recvNs : Int64) (col : LowcmdColumn) :
    Plain (col.field c recvNs) := by
  cases col with
  | recvNs => exact plain_integer _
  | modePr | modeMachine => exact plain_decimal _
  | motor i x => exact c.motorCmd[i].shown_plain x

end LowcmdColumn

def lowstateSchema (F : Type) [Floats7 F] : Schema (LowState F) LowstateColumn where
  columns := LowstateColumn.all
  name := LowstateColumn.name
  field := LowstateColumn.field
  mem_columns := LowstateColumn.mem_all
  columns_nodup := LowstateColumn.nodup_all
  columns_ne_nil := List.ne_nil_of_mem (LowstateColumn.mem_all .recvNs)
  name_injective := LowstateColumn.name_injective
  name_plain := LowstateColumn.name_plain
  field_plain := LowstateColumn.field_plain

def lowcmdSchema (F : Type) [Floats7 F] : Schema (LowCmd F) LowcmdColumn where
  columns := LowcmdColumn.all
  name := LowcmdColumn.name
  field := LowcmdColumn.field
  mem_columns := LowcmdColumn.mem_all
  columns_nodup := LowcmdColumn.nodup_all
  columns_ne_nil := List.ne_nil_of_mem (LowcmdColumn.mem_all .recvNs)
  name_injective := LowcmdColumn.name_injective
  name_plain := LowcmdColumn.name_plain
  field_plain := LowcmdColumn.field_plain

/-! ## Agreement -/

theorem lowstateHeaderPrints_fit : ∀ p ∈ lowstateHeaderPrints, p.Fits := by
  simp only [lowstateHeaderPrints, List.forall_mem_map, Print.Fits]
  intro i _
  have hi := length_zeroPadded (Nat.lt_trans i.isLt (by decide : kLowstateMotors < 100))
  rw [length_stateNames, List.length_cons]
  omega

theorem lowcmdHeaderPrints_fit : ∀ p ∈ lowcmdHeaderPrints, p.Fits := by
  simp only [lowcmdHeaderPrints, List.forall_mem_map, Print.Fits]
  intro i _
  have hi := length_zeroPadded (Nat.lt_trans i.isLt (by decide : kLowcmdMotors < 100))
  rw [length_cmdNames, List.length_cons]
  omega

theorem floatPrints_fit (h : 14 < size) (vs : Vector F n) : ∀ p ∈ floatPrints size vs, p.Fits := by
  simp only [floatPrints, List.forall_mem_map, Print.Fits]
  intro v _
  have hv := Floats7.length_le v
  simp
  omega

theorem lowstateRowPrints_fit (s : LowState F) (recvNs : Int64) :
    ∀ p ∈ lowstateRowPrints s recvNs, p.Fits := by
  have hfloats : ∀ {n} (vs : Vector F n), ∀ p ∈ floatPrints 128 vs, p.Fits :=
    floatPrints_fit (by decide)
  simp only [lowstateRowPrints, List.forall_mem_append, List.forall_mem_cons]
  refine ⟨⟨⟨⟨⟨?_, hfloats _⟩, hfloats _⟩, hfloats _⟩, hfloats _⟩, ?_, ?_⟩
  · have h1 := length_lld recvNs
    have h2 := length_unsigned s.tick
    have h3 := length_unsigned s.modeMachine
    have h4 := length_unsigned s.modePr
    simp [Print.Fits]
    omega
  · have h := length_d s.imuState.temperature
    simp [Print.Fits]
    omega
  · simp only [List.forall_mem_map, Print.Fits]
    intro m _
    exact Nat.lt_of_le_of_lt m.length_text_le (by decide)

theorem lowcmdRowPrints_fit (c : LowCmd F) (recvNs : Int64) :
    ∀ p ∈ lowcmdRowPrints c recvNs, p.Fits := by
  simp only [lowcmdRowPrints, List.forall_mem_cons, List.forall_mem_map, Print.Fits]
  constructor
  · have h1 := length_lld recvNs
    have h2 := length_unsigned c.modePr
    have h3 := length_unsigned c.modeMachine
    simp
    omega
  · intro m _
    exact Nat.lt_of_le_of_lt m.length_text_le (by decide)

theorem floatPrints_text (size : Nat) (vs : Vector F n) :
    (floatPrints size vs).flatMap (·.text) =
      (List.finRange n).flatMap fun i => fields [Floats7.format (vs.get i)] := by
  rw [floatPrints, toList_eq_map_finRange, List.map_map, List.flatMap_map]
  rfl

/-- **The body's state.** -/
theorem lowstate_agrees :
    (lowstateSchema F).Agrees lowstateHeader lowstateHeaderPrints lowstateRow lowstateRowPrints := by
  apply Schema.agrees_of_text _ lowstateHeaderPrints_fit lowstateRowPrints_fit
  · have hfixed : ("recv_ns,tick,mode_machine,mode_pr," ++
        "quat_w,quat_x,quat_y,quat_z," ++
        "gyro_x,gyro_y,gyro_z,accel_x,accel_y,accel_z," ++
        "rpy_roll,rpy_pitch,rpy_yaw,imu_temp").toList =
        [','].intercalate (LowstateColumn.fixed.map LowstateColumn.name) := by decide +kernel
    simp only [hfixed, lowstateSchema, LowstateColumn.all, List.map_append]
    rw [intercalate_append_fields (by simp [LowstateColumn.fixed])]
    simp only [List.map_flatMap, List.map_map, fields_flatMap, lowstateHeaderPrints, List.flatMap_map,
      stateNames_eq]
    rfl
  · intro s recvNs
    simp only [lowstateSchema, LowstateColumn.all, LowstateColumn.fixed, List.map_append, List.map_cons,
      List.cons_append, List.nil_append, List.append_nil, List.append_assoc, intercalate_cons_fields,
      fields_append, fields_cons, fields_nil, fields_map, fields_flatMap, List.map_flatMap, List.map_map,
      lowstateRowPrints, floatPrints_text, List.flatMap_append, List.flatMap_cons, List.flatMap_map,
      toList_eq_map_finRange, MotorState.text_eq]
    rfl

/-- **The body's command.** -/
theorem lowcmd_agrees :
    (lowcmdSchema F).Agrees lowcmdHeader lowcmdHeaderPrints lowcmdRow lowcmdRowPrints := by
  apply Schema.agrees_of_text _ lowcmdHeaderPrints_fit lowcmdRowPrints_fit
  · simp only [lowcmdSchema, LowcmdColumn.all, LowcmdColumn.fixed, List.map_cons, List.cons_append,
      List.nil_append, intercalate_cons_fields, fields_cons, List.map_flatMap, List.map_map,
      fields_flatMap, lowcmdHeaderPrints, List.flatMap_map, cmdNames_eq]
    rfl
  · intro c recvNs
    simp only [lowcmdSchema, LowcmdColumn.all, LowcmdColumn.fixed, List.map_cons, List.cons_append,
      List.nil_append, intercalate_cons_fields, fields_cons, fields_nil, List.map_flatMap, List.map_map,
      fields_flatMap, lowcmdRowPrints, List.flatMap_cons, List.flatMap_map, List.append_assoc,
      List.append_nil, toList_eq_map_finRange, MotorCmd.text_eq]
    rfl

end Kist
