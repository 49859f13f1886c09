import KistCollector.Rows.Hand
import KistCollector.Rows.Body

/-!
# Rows of the motion tokens and of the position fixes, and all row streams

`csv_agrees`: header and rows of all six row streams agree with their schemas.
-/

namespace Kist

open Text Scanf

def kMotionTokenDim : Nat := 64

structure MotionTokenState (F : Type) where
  seq : UInt64
  stampNs : Int64
  tokenState : Vector F kMotionTokenDim
  arbiterMode : UInt8
  encoderMode : UInt8

structure UwbPosition (F : Type) where
  stampNs : Int64
  x : F
  y : F
  z : F

/-! ## Headers and rows as they are printed -/

def motionTokenHeaderPrints : List Print :=
  (List.finRange kMotionTokenDim).map fun i => ⟨16, fields ['t' :: zeroPadded i.val]⟩

def motionTokenHeader : List Char :=
  "recv_ns,stamp_ns,seq,arbiter_mode,encoder_mode".toList ++ Print.append motionTokenHeaderPrints

def kUwbCsvHeader : List Char := "recv_ns,stamp_ns,x,y,z".toList

variable {F : Type} [Floats7 F]

def motionTokenRowPrints (m : MotionTokenState F) (recvNs : Int64) : List Print :=
  ⟨96, integer recvNs.toInt ++ fields [integer m.stampNs.toInt, decimal m.seq.toNat,
    unsigned m.arbiterMode.toUInt32, unsigned m.encoderMode.toUInt32]⟩ ::
  (List.finRange kMotionTokenDim).map fun i => ⟨96, fields [Floats7.format m.tokenState[i]]⟩

def motionTokenRow : RowFn (MotionTokenState F) := fun m recvNs =>
  Print.append (motionTokenRowPrints m recvNs)

def uwbRowPrints (fix : UwbPosition F) (recvNs : Int64) : List Print :=
  [⟨128, integer recvNs.toInt ++ fields [integer fix.stampNs.toInt, Floats7.format fix.x,
    Floats7.format fix.y, Floats7.format fix.z]⟩]

def uwbRow : RowFn (UwbPosition F) := fun fix recvNs => Print.append (uwbRowPrints fix recvNs)

/-! ## Columns -/

inductive MotionTokenColumn where
  | recvNs
  | stampNs
  | seq
  | arbiterMode
  | encoderMode
  | token (i : Fin kMotionTokenDim)

inductive UwbColumn where
  | recvNs
  | stampNs
  | x
  | y
  | z

namespace MotionTokenColumn

/-- The columns before those of the token. -/
def fixed : List MotionTokenColumn := [.recvNs, .stampNs, .seq, .arbiterMode, .encoderMode]

def all : List MotionTokenColumn := fixed ++ (List.finRange kMotionTokenDim).map .token

def name : MotionTokenColumn → List Char
  | .recvNs => ['r', 'e', 'c', 'v', '_', 'n', 's']
  | .stampNs => ['s', 't', 'a', 'm', 'p', '_', 'n', 's']
  | .seq => ['s', 'e', 'q']
  | .arbiterMode => ['a', 'r', 'b', 'i', 't', 'e', 'r', '_', 'm', 'o', 'd', 'e']
  | .encoderMode => ['e', 'n', 'c', 'o', 'd', 'e', 'r', '_', 'm', 'o', 'd', 'e']
  | .token i => 't' :: zeroPadded i.val

/-- The quantity a column shows. -/
def field (m : MotionTokenState F) (recvNs : Int64) : MotionTokenColumn → List Char
  | .recvNs => integer recvNs.toInt
  | .stampNs => integer m.stampNs.toInt
  | .seq => decimal m.seq.toNat
  | .arbiterMode => decimal m.arbiterMode.toNat
  | .encoderMode => decimal m.encoderMode.toNat
  | .token i => Floats7.format m.tokenState[i]

theorem mem_all (c : MotionTokenColumn) : c ∈ all := by
  rw [all, List.mem_append, List.mem_map]
  cases c with
  | token i => exact .inr ⟨i, List.mem_finRange i, rfl⟩
  | recvNs | stampNs | seq | arbiterMode | encoderMode => simp [fixed]

/-- Only the columns of the token are numbered. -/
theorem eq_token_of_notMem {c : MotionTokenColumn} (h : c ∉ fixed) : ∃ i, c = .token i := by
  cases c with
  | token i => exact ⟨i, rfl⟩
  | recvNs | stampNs | seq | arbiterMode | encoderMode => simp [fixed] at h

theorem name_injective : Function.Injective name := by
  apply injective_of_numbered fixed
  · decide +kernel
  · decide +kernel
  · intro c hc
    obtain ⟨i, rfl⟩ := eq_token_of_notMem hc
    have hnum := numbered_of_cons (c := 't') zeroPadded_ne_nil
      (fun _ => isDigit_of_mem_zeroPadded (n := i.val)) []
    rwa [List.append_nil] at hnum
  · intro a ha b hb h
    obtain ⟨i, rfl⟩ := eq_token_of_notMem ha
    obtain ⟨j, rfl⟩ := eq_token_of_notMem hb
    rw [Fin.ext (zeroPadded_injective (List.cons.inj h).2)]

theorem nodup_all : all.Nodup := by
  rw [all, List.nodup_append]
  refine ⟨List.Nodup.of_map name (by decide +kernel), ?_, ?_⟩
  · apply (List.nodup_finRange _).map
    intro i j h
    cases h
    rfl
  · intro a ha b hb hab
    obtain ⟨i, -, rfl⟩ := List.mem_map.mp hb
    simp [hab, fixed] at ha

theorem name_plain (c : MotionTokenColumn) : Plain c.name := by
  cases c with
  | token i => exact (plain_zeroPadded i.val).cons (by decide)
  | recvNs | stampNs | seq | arbiterMode | encoderMode => exact ⟨by simp [name], by simp [name]⟩

theorem field_plain (m : MotionTokenState F) (recvNs : Int64) (c : MotionTokenColumn) :
    Plain (c.field m recvNs) := by
  cases c with
  | recvNs | stampNs => exact plain_integer _
  | seq | arbiterMode | encoderMode => exact plain_decimal _
  | token i => exact Floats7.plain _

end MotionTokenColumn

namespace UwbColumn

def all : List UwbColumn := [.recvNs, .stampNs, .x, .y, .z]

def name : UwbColumn → List Char
  | .recvNs => ['r', 'e', 'c', 'v', '_', 'n', 's']
  | .stampNs => ['s', 't', 'a', 'm', 'p', '_', 'n', 's']
  | .x => ['x']
  | .y => ['y']
  | .z => ['z']

/-- The quantity a column shows. -/
def field (fix : UwbPosition F) (recvNs : Int64) : UwbColumn → List Char
  | .recvNs => integer recvNs.toInt
  | .stampNs => integer fix.stampNs.toInt
  | .x => Floats7.format fix.x
  | .y => Floats7.format fix.y
  | .z => Floats7.format fix.z

theorem mem_all (c : UwbColumn) : c ∈ all := by cases c <;> simp [all]

theorem name_injective : Function.Injective name := by
  have hnodup : (all.map name).Nodup := by decide +kernel
  exact fun a b h => List.inj_on_of_nodup_map hnodup (mem_all a) (mem_all b) h

theorem name_plain (c : UwbColumn) : Plain c.name := by
  cases c <;> exact ⟨by simp [name], by simp [name]⟩

theorem field_plain (fix : UwbPosition F) (recvNs : Int64) (c : UwbColumn) :
    Plain (c.field fix recvNs) := by
  cases c with
  | recvNs | stampNs => exact plain_integer _
  | x | y | z => exact Floats7.plain _

end UwbColumn

def motionTokenSchema (F : Type) [Floats7 F] : Schema (MotionTokenState F) MotionTokenColumn where
  columns := MotionTokenColumn.all
  name := MotionTokenColumn.name
  field := MotionTokenColumn.field
  mem_columns := MotionTokenColumn.mem_all
  columns_nodup := MotionTokenColumn.nodup_all
  columns_ne_nil := List.ne_nil_of_mem (MotionTokenColumn.mem_all .recvNs)
  name_injective := MotionTokenColumn.name_injective
  name_plain := MotionTokenColumn.name_plain
  field_plain := MotionTokenColumn.field_plain

def uwbSchema (F : Type) [Floats7 F] : Schema (UwbPosition F) UwbColumn where
  columns := UwbColumn.all
  name := UwbColumn.name
  field := UwbColumn.field
  mem_columns := UwbColumn.mem_all
  columns_nodup := by simp [UwbColumn.all]
  columns_ne_nil := List.ne_nil_of_mem (UwbColumn.mem_all .recvNs)
  name_injective := UwbColumn.name_injective
  name_plain := UwbColumn.name_plain
  field_plain := UwbColumn.field_plain

/-! ## Agreement -/

theorem motionTokenHeaderPrints_fit : ∀ p ∈ motionTokenHeaderPrints, p.Fits := by
  simp only [motionTokenHeaderPrints, List.forall_mem_map, Print.Fits]
  intro i _
  have hi := length_zeroPadded (Nat.lt_trans i.isLt (by decide : kMotionTokenDim < 100))
  simp
  omega

theorem motionTokenRowPrints_fit (m : MotionTokenState F) (recvNs : Int64) :
    ∀ p ∈ motionTokenRowPrints m recvNs, p.Fits := by
  simp only [motionTokenRowPrints, List.forall_mem_cons, List.forall_mem_map, Print.Fits]
  constructor
  · have h1 := length_lld recvNs
    have h2 := length_lld m.stampNs
    have h3 := length_llu m.seq
    have h4 := length_unsigned m.arbiterMode.toUInt32
    have h5 := length_unsigned m.encoderMode.toUInt32
    simp
    omega
  · intro i _
    rw [fields_cons, fields_nil, List.append_nil, List.length_cons]
    exact Nat.lt_of_le_of_lt (Nat.succ_le_succ (Floats7.length_le _)) (by decide)

theorem uwbRowPrints_fit (fix : UwbPosition F) (recvNs : Int64) :
    ∀ p ∈ uwbRowPrints fix recvNs, p.Fits := by
  have h1 := length_lld recvNs
  have h2 := length_lld fix.stampNs
  have h3 := Floats7.length_le fix.x
  have h4 := Floats7.length_le fix.y
  have h5 := Floats7.length_le fix.z
  simp [uwbRowPrints, Print.Fits]
  omega

/-- **Motion tokens.** -/
theorem motionToken_agrees : (motionTokenSchema F).Agrees motionTokenHeader motionTokenHeaderPrints
    motionTokenRow motionTokenRowPrints := by
  apply Schema.agrees_of_text _ motionTokenHeaderPrints_fit motionTokenRowPrints_fit
  · simp only [motionTokenSchema, MotionTokenColumn.all, MotionTokenColumn.fixed, List.map_cons,
      List.cons_append, List.nil_append, intercalate_cons_fields, fields_cons, fields_map, List.map_map,
      motionTokenHeaderPrints, List.flatMap_map]
    rfl
  · intro m recvNs
    simp only [motionTokenSchema, MotionTokenColumn.all, MotionTokenColumn.fixed, List.map_cons,
      List.cons_append, List.nil_append, intercalate_cons_fields, fields_cons, fields_nil, fields_map,
      List.map_map, motionTokenRowPrints, List.flatMap_cons, List.flatMap_map, List.append_assoc,
      List.append_nil]
    rfl

/-- **Position fixes.** -/
theorem uwb_agrees : (uwbSchema F).Agrees kUwbCsvHeader [] uwbRow uwbRowPrints := by
  have H : (uwbSchema F).Agrees (kUwbCsvHeader ++ Print.append []) [] uwbRow uwbRowPrints := by
    apply Schema.agrees_of_text _ (by simp) uwbRowPrints_fit
    · rfl
    · intro fix recvNs
      simp only [uwbSchema, UwbColumn.all, List.map_cons, List.map_nil, intercalate_cons_fields,
        uwbRowPrints, List.flatMap_cons, List.flatMap_nil, List.append_nil]
      rfl
  rwa [Print.append, List.flatMap_nil, List.append_nil] at H

/-- **Rows and headers agree.** For every stream of rows no buffer cuts the header or a row, and split at
the commas both are the columns of the schema, in its order; the vectors of the hand messages are padded
with zeros and cut to the fixed width. -/
theorem csv_agrees :
    (dex3Schema F).Agrees dex3Header dex3HeaderPrints dex3Row dex3RowPrints ∧
    (dex3CmdSchema F).Agrees dex3CmdHeader dex3CmdHeaderPrints dex3CmdRow dex3CmdRowPrints ∧
    (lowstateSchema F).Agrees lowstateHeader lowstateHeaderPrints lowstateRow lowstateRowPrints ∧
    (lowcmdSchema F).Agrees lowcmdHeader lowcmdHeaderPrints lowcmdRow lowcmdRowPrints ∧
    (motionTokenSchema F).Agrees motionTokenHeader motionTokenHeaderPrints motionTokenRow
      motionTokenRowPrints ∧
    (uwbSchema F).Agrees kUwbCsvHeader [] uwbRow uwbRowPrints ∧
    (∀ (s : HandState F) (recvNs : Int64), dex3Row s recvNs =
      dex3Row ⟨s.motorState.take kDex3Motors, s.pressSensorState.take kDex3PressPads⟩ recvNs) ∧
    (∀ (c : HandCmd F) (recvNs : Int64), dex3CmdRow c recvNs =
      dex3CmdRow ⟨c.motorCmd.take kDex3CmdMotors⟩ recvNs) := by
  refine ⟨dex3_agrees, dex3Cmd_agrees, lowstate_agrees, lowcmd_agrees, motionToken_agrees, uwb_agrees,
    ?_, ?_⟩
  · exact dex3Row_take
  · exact dex3CmdRow_take

example : uwbRow (⟨-5, 1, 0, 2⟩ : UwbPosition (Fin 10)) 7 = ['7', ',', '-', '5', ',', '1', ',', '0', ',', '2'] := by
  decide

end Kist
