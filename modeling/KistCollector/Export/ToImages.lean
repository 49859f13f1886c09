import KistCollector.Export.ReadBack
import KistCollector.Lib.Folder

/-!
# Exporting frames as images

`ExportDepthToImages.run` writes one png for each index row, `ExportColorToImages.run` one jpg for each
frame that the decoder returns. The file name is the sequence number, so two rows with one number share a
file and the later one replaces the earlier; the success flag does not see it (`export_images_iff`).

A depth row whose payload cannot be held, or that the decoder or OpenCV refuses, throws, and a color row
whose size is narrowed on its way to libav is read past the end of its packet. The worker does not live on
after either (`died`).
-/

namespace Kist

open Text Scanf

/-- What `seekg` and `read` give. An offset or a size from `2 ^ 63` on is negative as a `streamoff`. -/
def readSlice (blob : List UInt8) (offset size : UInt64) : Option (List UInt8) :=
  if offset.toNat < 2 ^ 63 ∧ size.toNat < 2 ^ 63 ∧ (slice blob offset size).length = size.toNat then
    some (slice blob offset size)
  else none

/-- The bytes that `seekg` and `read` can deliver. An offset from `2 ^ 63` on is negative as a `streamoff`
and the seek fails; a size from `2 ^ 63` on is negative as a `streamsize` and nothing is read. -/
def available (blob : List UInt8) (offset size : UInt64) : Nat :=
  if 2 ^ 63 ≤ offset.toNat ∨ 2 ^ 63 ≤ size.toNat then 0 else blob.length - offset.toNat

/-- `%010llu` -/
def tenDigits (n : Nat) : List Char := List.replicate (10 - (decimal n).length) '0' ++ decimal n

/-- `%010llu.%s` -/
def seqName (seq : UInt64) (ext : List Char) : List Char :=
  snprintf 32 (tenDigits seq.toNat ++ '.' :: ext)

theorem readSlice_eq (h : readSlice blob offset size = some data) : data = slice blob offset size := by
  unfold readSlice at h
  split at h <;> cases h
  rfl

/-- Where a slice is read, all of its bytes are there. -/
theorem readSlice_eq_some_iff {blob data : List UInt8} {offset size : UInt64} :
    readSlice blob offset size = some data ↔ data = slice blob offset size ∧ offset.toNat < 2 ^ 63 ∧
      size.toNat < 2 ^ 63 ∧ (slice blob offset size).length = size.toNat := by
  unfold readSlice
  split
  · rename_i hread
    rw [and_iff_left hread, Option.some.injEq, eq_comm]
  · rename_i hread
    exact iff_of_false nofun fun h => hread h.2

theorem ofDigitChars_zeros (k : Nat) (cs : List Char) :
    Nat.ofDigitChars 10 (List.replicate k '0' ++ cs) 0 = Nat.ofDigitChars 10 cs 0 := by
  induction k with
  | zero => rfl
  | succ k ih =>
    rw [List.replicate_succ, List.cons_append]
    simpa [Nat.ofDigitChars] using ih

theorem tenDigits_injective : Function.Injective tenDigits := by
  intro m n h
  have hvalue := congrArg (fun cs => Nat.ofDigitChars 10 cs 0) h
  simpa [tenDigits, ofDigitChars_zeros, decimal] using hvalue

/-- No name is cut by its buffer. -/
theorem seqName_eq (seq : UInt64) {ext : List Char} (h : ext.length ≤ 3) :
    seqName seq ext = tenDigits seq.toNat ++ '.' :: ext := by
  refine snprintf_eq ?_
  have := length_llu seq
  simp only [tenDigits, List.length_append, List.length_replicate, List.length_cons]
  omega

theorem seqName_injective {ext : List Char} (h : ext.length ≤ 3) :
    Function.Injective (seqName · ext) := by
  intro seq seq' heq
  have heq : seqName seq ext = seqName seq' ext := heq
  rw [seqName_eq seq h, seqName_eq seq' h, List.append_cancel_right_eq] at heq
  exact UInt64.toNat_inj.mp (tenDigits_injective heq)

/-- `cancel_` at the head of turn `i` and after the loop, and whether image `i` can be written. For depth,
whether there is memory for the payload of turn `i`, and whether the decoder and OpenCV take its row
without an exception. -/
structure ImagesEnv where
  cancelled : Nat → Bool
  cancelledAfter : Bool
  imwrite : Nat → Bool
  memory : Nat → Bool
  decodes : Nat → Bool

/-- Nothing is cancelled and nothing fails. -/
def ImagesEnv.smooth : ImagesEnv :=
  ⟨fun _ => false, false, fun _ => true, fun _ => true, fun _ => true⟩

/-! ## Depth -/

/-- What the depth decoder is given of a row. -/
structure RvlInput (F : Type) where
  width : Int32
  height : Int32
  depthScale : F
  data : List UInt8
  deriving DecidableEq

/-- What comes of a row up to its picture. -/
inductive Load where
  | threw
  | failed
  | data (data : List UInt8)
  deriving DecidableEq

/-- `f.data.resize(row.size)` throws past the `max_size` of a vector and without memory; then the payload
is read, and given to the decoder and to OpenCV. -/
def load (memory decodes : Bool) (size : UInt64) (read : Option (List UInt8)) : Load :=
  if 2 ^ 63 ≤ size.toNat ∨ memory = false then .threw
  else
    match read with
    | none => .failed
    | some data => if decodes then .data data else .threw

theorem load_eq_data {memory decodes : Bool} {read : Option (List UInt8)} :
    load memory decodes size read = .data data ↔
      size.toNat < 2 ^ 63 ∧ memory = true ∧ decodes = true ∧ read = some data := by
  unfold load
  split
  · rename_i h
    refine iff_of_false nofun fun H => ?_
    rcases h with h | h
    · omega
    · cases h.symm.trans H.2.1
  · rename_i h
    simp only [not_or, Nat.not_le, Bool.not_eq_false] at h
    rw [and_iff_right h.1, and_iff_right h.2]
    cases read with
    | none => simp
    | some data' => cases decodes <;> simp

theorem load_eq_threw {memory decodes : Bool} {read : Option (List UInt8)}
    (h : load memory decodes size read = .threw) :
    2 ^ 63 ≤ size.toNat ∨ memory = false ∨ decodes = false := by
  unfold load at h
  split at h
  · rename_i hwhy
    exact hwhy.imp_right .inl
  · split at h
    · cases h
    · split at h
      · cases h
      · rename_i hdecodes
        exact .inr (.inr (Bool.eq_false_iff.mpr hdecodes))

theorem load_of_none (memory decodes : Bool) (size : UInt64) :
    load memory decodes size none = .threw ∨ load memory decodes size none = .failed := by
  unfold load
  split
  · exact .inl rfl
  · exact .inr rfl

theorem load_of_readSlice (h : readSlice blob offset size = some data) :
    load true true size (readSlice blob offset size) = .data data :=
  load_eq_data.mpr ⟨(readSlice_eq_some_iff.mp h).2.2.1, rfl, rfl, h⟩

namespace ExportDepthToImages

variable {F ι : Type} [Floats F]

/-- `died`: an exception has left `run`. -/
structure Exported (ι : Type) where
  folder : Folder (List Char) ι
  written : Nat := 0
  ioOk : Bool := true
  died : Bool := false

/-- The loop over the rows. An image that fails to write is not counted, and nothing is said of its
file. -/
def writeRows (decode : RvlInput F → ι) (env : ImagesEnv) (rvl : List UInt8) :
    List (Row F) → Exported ι → Exported ι
  | [], s => s
  | row :: rows, s =>
    if env.cancelled s.written then s
    else
      match load (env.memory s.written) (env.decodes s.written) row.size
        (readSlice rvl row.offset row.size) with
      | .threw => { s with ioOk := false, died := true }
      | .failed => { s with ioOk := false }
      | .data data =>
        let z16 := decode ⟨row.width, row.height, row.scale, data⟩
        if env.imwrite s.written then
          writeRows decode env rvl rows { s with
            folder := s.folder.put (seqName row.seq "png".toList, z16)
            written := s.written + 1 }
        else { s with ioOk := false }

/-- The folder `depth_png` after the run, and `succeeded()`, which stays false where the worker dies.
`none` is a blob that does not open. -/
def run (decode : RvlInput F → ι) (env : ImagesEnv) (index : List Char) (rvl : Option (List UInt8))
    (folder : Folder (List Char) ι) : Folder (List Char) ι × Bool :=
  match readIndex F index, rvl with
  | row :: rows, some rvl =>
    let s := writeRows decode env rvl (row :: rows) { folder := folder }
    (s.folder, s.ioOk && !env.cancelledAfter && s.written == (row :: rows).length)
  | _, _ => (folder, false)

/-- A row's file and its decoded frame. -/
def image (decode : RvlInput F → ι) (rvl : List UInt8) (row : Row F) : List Char × ι :=
  (seqName row.seq "png".toList,
    decode ⟨row.width, row.height, row.scale, slice rvl row.offset row.size⟩)

omit [Floats F] in
/-- Where every row is counted and nothing failed, the images of the rows were written one after the
other. -/
theorem writeRows_complete {decode : RvlInput F → ι} {env : ImagesEnv} {rvl : List UInt8}
    {rows : List (Row F)} {s : Exported ι} (hok : (writeRows decode env rvl rows s).ioOk = true)
    (hcount : (writeRows decode env rvl rows s).written = s.written + rows.length) :
    (writeRows decode env rvl rows s).folder = s.folder.putAll (rows.map (image decode rvl)) := by
  fun_induction writeRows decode env rvl rows s with
  | case1 s => rfl
  | case2 row rows s hcancel => simp at hcount
  | case3 row rows s hcancel hload | case4 row rows s hcancel hload => cases hok
  | case5 row rows s hcancel data hload z16 hwrite ih =>
    rw [ih hok (by simpa [Nat.add_assoc, Nat.add_comm 1] using hcount), List.map_cons]
    cases readSlice_eq (load_eq_data.mp hload).2.2.2
    rfl
  | case6 row rows s hcancel data hload hwrite => cases hok

/-- A run that succeeds has written the images of all rows. -/
theorem run_folder {decode : RvlInput F → ι} {env : ImagesEnv} {index : List Char}
    {rvl : Option (List UInt8)} {folder : Folder (List Char) ι}
    (h : (run decode env index rvl folder).2 = true) : ∃ blob, rvl = some blob ∧
      (run decode env index rvl folder).1 =
        folder.putAll ((readIndex F index).map (image decode blob)) := by
  unfold run at h ⊢
  split at h
  · rename_i row rows blob hrows
    simp only [Bool.and_eq_true, beq_iff_eq] at h
    refine ⟨blob, rfl, ?_⟩
    rw [hrows]
    exact writeRows_complete h.1.1 (by simpa using h.2)
  · cases h

end ExportDepthToImages

/-! ## Color -/

namespace ExportColorToImages

/-- A compressed frame on its way to the decoder. -/
structure AVPacket where
  data : List UInt8
  pts : Int64
  deriving DecidableEq

/-- A decoded frame. -/
structure AVFrame (ι : Type) where
  pts : Int64
  image : ι
  deriving DecidableEq

/-- libav's decoder: `avcodec_send_packet`, where `none` flushes it, with whether it took the packet, and
the frames that `avcodec_receive_frame` returns until it has no more. -/
structure H264Decoder (ι : Type) where
  State : Type
  init : State
  send : State → Option AVPacket → Bool × State
  receive : State → List (AVFrame ι) × State

/-- `AV_NOPTS_VALUE` -/
def noPts : Int64 := -2 ^ 63

/-- The largest size of a packet: with 64 bytes of padding it has to be less than `INT_MAX`. -/
def maxPacket : Nat := 2 ^ 31 - 1 - 64 - 1

/-- The packet that `av_new_packet` allocates for a size narrowed to an `int` is shorter than what is
read into it. -/
def overflows (blob : List UInt8) (row : Row) : Bool :=
  let n := (Int32.ofNat row.size.toNat).toInt
  0 ≤ n ∧ n ≤ maxPacket ∧ n.toNat + 64 < min row.size.toNat (available blob row.offset row.size)

/-- A size that a packet can have is not narrowed. -/
theorem overflows_eq_false {blob : List UInt8} {row : Row} (h : row.size.toNat ≤ maxPacket) :
    overflows blob row = false := by
  unfold maxPacket at h
  have hn : (Int32.ofNat row.size.toNat).toInt = row.size.toNat :=
    Int32.toInt_ofNat_of_lt (by omega)
  rw [overflows, hn, decide_eq_false_iff_not]
  rintro ⟨-, -, hlt⟩
  omega

/-- The decoder, the packets it was sent, the frames handed to `imwrite`, and the folder. `died`: the
worker has read past the end of a packet. -/
structure Exported {ι : Type} (D : H264Decoder ι) where
  decoder : D.State
  sent : List AVPacket := []
  writes : List (AVFrame ι) := []
  folder : Folder (List Char) ι
  ioOk : Bool := true
  died : Bool := false

variable {ι : Type} {D : H264Decoder ι}

/-- A frame's file and its image. -/
def image (f : AVFrame ι) : List Char × ι := (seqName f.pts.toUInt64 "jpg".toList, f.image)

/-- One turn of `drain`. Nothing is said of a file that fails to write, and `imwrite` throws nothing. -/
def drainFrame (env : ImagesEnv) (s : Exported D) (f : AVFrame ι) : Exported D :=
  if f.pts = noPts then s
  else if env.imwrite s.writes.length then
    { s with folder := s.folder.put (image f), writes := s.writes ++ [f] }
  else { s with ioOk := false, writes := s.writes ++ [f] }

def drain (env : ImagesEnv) (s : Exported D) : Exported D :=
  let (frames, decoder) := D.receive s.decoder
  frames.foldl (drainFrame env) { s with decoder := decoder }

/-- Send one packet, and drain the decoder if it takes it. -/
def sendPacket (env : ImagesEnv) (s : Exported D) (pkt : AVPacket) : Exported D :=
  let (ok, decoder) := D.send s.decoder (some pkt)
  let s := { s with decoder := decoder, sent := s.sent ++ [pkt] }
  if ok then drain env s else s

/-- The loop over the rows from the first key frame on, from turn `i` on. For a payload that is too large
there is no packet, and `read` delivers nothing, or one that is too short; the run ends there. -/
def sendRows (env : ImagesEnv) (blob : List UInt8) : List Row → Nat → Exported D → Exported D
  | [], _, s => s
  | row :: rows, i, s =>
    if env.cancelled i then s
    else if overflows blob row then { s with ioOk := false, died := true }
    else if maxPacket < row.size.toNat then { s with ioOk := false }
    else
      match readSlice blob row.offset row.size with
      | none => { s with ioOk := false }
      | some data => sendRows env blob rows (i + 1) (sendPacket env s ⟨data, row.seq.toInt64⟩)

/-- The run, and `succeeded()`. `none` is a blob that does not open. -/
def run (D : H264Decoder ι) (env : ImagesEnv) (index : List Char) (blob : Option (List UInt8))
    (folder : Folder (List Char) ι) : Exported D × Bool :=
  match readIndex index, blob with
  | (rows, some k), some blob =>
    let s := sendRows env blob (rows.drop k) 0 { decoder := D.init, folder := folder }
    let s := drain env { s with decoder := (D.send s.decoder none).2 }
    (s, s.ioOk && !env.cancelledAfter)
  | _, _ => ({ decoder := D.init, folder := folder }, false)

/-- What failed once stays failed. -/
theorem ioOk_of_drain {env : ImagesEnv} {s : Exported D} (h : (drain env s).ioOk = true) :
    s.ioOk = true := by
  have hfold : ∀ (frames : List (AVFrame ι)) (s : Exported D),
      (frames.foldl (drainFrame env) s).ioOk = true → s.ioOk = true := by
    intro frames
    induction frames with
    | nil => exact fun _ h => h
    | cons f frames ih =>
      intro s h
      have hframe := ih _ h
      unfold drainFrame at hframe
      split at hframe
      · exact hframe
      · split at hframe
        · exact hframe
        · cases hframe
  exact hfold (D.receive s.decoder).1 { s with decoder := (D.receive s.decoder).2 } h

/-- As long as no image failed, the folder has the images of the frames handed to `imwrite`. -/
def Written (folder : Folder (List Char) ι) (s : Exported D) : Prop :=
  s.ioOk = true → s.folder = folder.putAll (s.writes.map image)

theorem Written.drainFrame {s : Exported D} (H : Written folder s) (env : ImagesEnv) (f : AVFrame ι) :
    Written folder (ExportColorToImages.drainFrame env s f) := by
  unfold ExportColorToImages.drainFrame
  split
  · exact H
  · split
    · intro hok
      dsimp only
      rw [List.map_append, List.map_singleton, Folder.putAll_concat, H hok]
    · exact fun hok => Bool.noConfusion hok

theorem Written.drain {s : Exported D} (H : Written folder s) (env : ImagesEnv) :
    Written folder (ExportColorToImages.drain env s) := by
  have hfold : ∀ (frames : List (AVFrame ι)) (s : Exported D), Written folder s →
      Written folder (frames.foldl (ExportColorToImages.drainFrame env) s) := by
    intro frames
    induction frames with
    | nil => exact fun _ H => H
    | cons f frames ih => exact fun s H => ih _ (H.drainFrame env f)
  exact hfold _ _ H

theorem Written.sendPacket {s : Exported D} (H : Written folder s) (env : ImagesEnv) (pkt : AVPacket) :
    Written folder (ExportColorToImages.sendPacket env s pkt) := by
  unfold ExportColorToImages.sendPacket
  dsimp only
  split
  · exact Written.drain (by exact H) env
  · exact H

theorem Written.sendRows {s : Exported D} (H : Written folder s) (env : ImagesEnv) (blob : List UInt8)
    (rows : List Row) (i : Nat) :
    Written folder (ExportColorToImages.sendRows env blob rows i s) := by
  fun_induction ExportColorToImages.sendRows env blob rows i s with
  | case1 | case2 => exact H
  | case3 | case4 | case5 => exact nofun
  | case6 row rows i s hcancel hover hsize data hread ih => exact ih (H.sendPacket env _)

/-- A run that succeeds has written the images of the frames handed to `imwrite`. -/
theorem run_folder {env : ImagesEnv} {index : List Char} {blob : Option (List UInt8)}
    (h : (run D env index blob folder).2 = true) : (run D env index blob folder).1.folder =
      folder.putAll ((run D env index blob folder).1.writes.map image) := by
  unfold run at h ⊢
  split at h
  · rename_i rows k blob hrows
    have hstart : Written folder { decoder := D.init, folder := folder : Exported D } := fun _ => rfl
    exact Written.drain (by exact hstart.sendRows env blob (rows.drop k) 0) env
      (Bool.and_eq_true_iff.mp h).1
  · cases h

/-- The decoder stamps the time stamp of a packet onto the frame it produces, if it produces one:
`pending` are the packets it took and has not returned. -/
structure H264Decoder.Stamps (D : H264Decoder ι) (pending : D.State → List Int64) : Prop where
  init : pending D.init = []
  send : ∀ st pkt, (pending (D.send st pkt).2).Subperm ((pkt.map (·.pts)).toList ++ pending st)
  receive : ∀ st, ((D.receive st).1.map (·.pts) ++ pending (D.receive st).2).Subperm (pending st)

/-- Every packet sent has come out at most once. -/
def Stamped (pending : D.State → List Int64) (s : Exported D) : Prop :=
  (s.writes.map (·.pts) ++ pending s.decoder).Subperm (s.sent.map (·.pts))

theorem foldl_drainFrame (env : ImagesEnv) (frames : List (AVFrame ι)) (s : Exported D) :
    (frames.foldl (drainFrame env) s).decoder = s.decoder ∧
      (frames.foldl (drainFrame env) s).sent = s.sent ∧
      (frames.foldl (drainFrame env) s).writes =
        s.writes ++ frames.filter fun f => f.pts ≠ noPts := by
  induction frames generalizing s with
  | nil => simp
  | cons f frames ih =>
    obtain ⟨hdecoder, hsent, hwrites⟩ := ih (drainFrame env s f)
    rw [List.foldl_cons, hdecoder, hsent, hwrites]
    unfold drainFrame
    split
    · rename_i hno
      exact ⟨rfl, rfl, by simp [hno]⟩
    · rename_i hpts
      split <;> exact ⟨rfl, rfl, by simp [hpts]⟩

theorem sent_drain (env : ImagesEnv) (s : Exported D) : (drain env s).sent = s.sent :=
  (foldl_drainFrame env _ _).2.1

variable {pending : D.State → List Int64}

theorem Stamped.drain {s : Exported D} (hD : D.Stamps pending) (H : Stamped pending s)
    (env : ImagesEnv) : Stamped pending (ExportColorToImages.drain env s) := by
  obtain ⟨hdecoder, hsent, hwrites⟩ := foldl_drainFrame env (D.receive s.decoder).1
    { s with decoder := (D.receive s.decoder).2 }
  have hfilter : (((D.receive s.decoder).1.filter fun f => f.pts ≠ noPts).map (·.pts) ++
      pending (D.receive s.decoder).2).Subperm (pending s.decoder) :=
    (((List.filter_sublist.map _).append_right _).subperm).trans (hD.receive s.decoder)
  unfold Stamped ExportColorToImages.drain
  dsimp only
  rw [hdecoder, hsent, hwrites, List.map_append, List.append_assoc]
  exact ((List.subperm_append_left _).mpr hfilter).trans H

theorem Stamped.sendPacket {s : Exported D} (hD : D.Stamps pending) (H : Stamped pending s)
    (env : ImagesEnv) (pkt : AVPacket) :
    Stamped pending (ExportColorToImages.sendPacket env s pkt) := by
  have hsend : Stamped pending { s with
      decoder := (D.send s.decoder (some pkt)).2
      sent := s.sent ++ [pkt] : Exported D } := by
    have hpending : (s.writes.map (·.pts) ++ pending (D.send s.decoder (some pkt)).2).Subperm
        (s.writes.map (·.pts) ++ pkt.pts :: pending s.decoder) :=
      (List.subperm_append_left _).mpr (hD.send s.decoder (some pkt))
    have hsent : (pkt.pts :: s.sent.map (·.pts)).Perm (s.sent.map (·.pts) ++ [pkt.pts]) :=
      (List.perm_append_singleton ..).symm
    unfold Stamped
    rw [List.map_append]
    refine (hpending.trans List.perm_middle.subperm).trans (.trans ?_ hsent.subperm)
    exact (List.subperm_cons _).mpr H
  unfold ExportColorToImages.sendPacket
  dsimp only
  split
  · exact hsend.drain hD env
  · exact hsend

theorem Stamped.sendRows {s : Exported D} (hD : D.Stamps pending) (H : Stamped pending s)
    (env : ImagesEnv) (blob : List UInt8) (rows : List Row) (i : Nat) :
    Stamped pending (ExportColorToImages.sendRows env blob rows i s) := by
  fun_induction ExportColorToImages.sendRows env blob rows i s with
  | case1 | case2 | case3 | case4 | case5 => exact H
  | case6 row rows i s hcancel hover hsize data hread ih => exact ih (H.sendPacket hD env _)

theorem sent_sendPacket (env : ImagesEnv) (s : Exported D) (pkt : AVPacket) :
    (sendPacket env s pkt).sent = s.sent ++ [pkt] := by
  unfold sendPacket
  dsimp only
  split
  · rw [sent_drain]
  · rfl

theorem died_foldl_drainFrame (env : ImagesEnv) (frames : List (AVFrame ι)) (s : Exported D) :
    (frames.foldl (drainFrame env) s).died = s.died := by
  induction frames generalizing s with
  | nil => rfl
  | cons f frames ih =>
    rw [List.foldl_cons, ih]
    unfold drainFrame
    split
    · rfl
    · split <;> rfl

theorem died_sendPacket (env : ImagesEnv) (s : Exported D) (pkt : AVPacket) :
    (sendPacket env s pkt).died = s.died := by
  unfold sendPacket
  dsimp only
  split
  · exact died_foldl_drainFrame env _ _
  · rfl

/-- The packets sent are those of the first rows. -/
theorem sent_sendRows (env : ImagesEnv) (blob : List UInt8) (rows : List Row) (i : Nat)
    (s : Exported D) : ∃ n, (sendRows env blob rows i s).sent.map (·.pts) =
      s.sent.map (·.pts) ++ (rows.take n).map fun row => row.seq.toInt64 := by
  fun_induction sendRows env blob rows i s with
  | case1 s => exact ⟨0, by simp⟩
  | case2 row rows i s | case3 row rows i s | case4 row rows i s | case5 row rows i s =>
    exact ⟨0, by simp⟩
  | case6 row rows i s hcancel hover hsize data hread ih =>
    obtain ⟨n, hn⟩ := ih
    exact ⟨n + 1, by rw [hn, sent_sendPacket]; simp⟩

/-- Without cancellation, rows that can be read are all sent. -/
theorem sent_sendRows_complete {env : ImagesEnv} (hcancel : ∀ i, env.cancelled i = false)
    {blob : List UInt8} (content : Row → List UInt8) {rows : List Row}
    (h : ∀ row ∈ rows, row.size.toNat ≤ maxPacket ∧
      readSlice blob row.offset row.size = some (content row)) (i : Nat) (s : Exported D) :
    (sendRows env blob rows i s).sent =
      s.sent ++ rows.map fun row => ⟨content row, row.seq.toInt64⟩ := by
  induction rows generalizing i s with
  | nil => simp [sendRows]
  | cons row rows ih =>
    obtain ⟨⟨hsize, hread⟩, hrows⟩ := List.forall_mem_cons.mp h
    rw [sendRows, hcancel, if_neg nofun, overflows_eq_false hsize, if_neg nofun,
      if_neg (Nat.not_lt.mpr hsize), hread]
    dsimp only
    rw [ih hrows, sent_sendPacket]
    simp

/-- The packets of a run are those of its loop. -/
theorem sent_run (env : ImagesEnv) {index : List Char} (h : (readIndex index).2 = some k)
    (blob : List UInt8) (folder : Folder (List Char) ι) :
    (run D env index (some blob) folder).1.sent =
      (sendRows env blob ((readIndex index).1.drop k) 0
        { decoder := D.init, folder := folder : Exported D }).sent := by
  unfold run
  rcases hindex : readIndex index with ⟨rows, first⟩
  rw [hindex] at h
  cases h
  exact sent_drain ..

/-- The frames handed to `imwrite` carry sequence numbers of different rows from the first key frame
on. -/
theorem run_writes (hD : D.Stamps pending) (env : ImagesEnv) (index : List Char)
    (blob : Option (List UInt8)) (folder : Folder (List Char) ι) :
    ((run D env index blob folder).1.writes.map (·.pts)).Subperm
      (((readIndex index).1.drop ((readIndex index).2.getD 0)).map fun row => row.seq.toInt64) := by
  unfold run
  split
  · rename_i rows k blob hrows
    have hstart : Stamped pending { decoder := D.init, folder := folder : Exported D } := by
      simp [Stamped, hD.init]
    have hrun := hstart.sendRows hD env blob (rows.drop k) 0
    obtain ⟨n, hn⟩ := sent_sendRows env blob (rows.drop k) 0
      { decoder := D.init, folder := folder : Exported D }
    generalize sendRows env blob (rows.drop k) 0 { decoder := D.init, folder := folder } = s at hrun hn
    have hflush : Stamped pending { s with decoder := (D.send s.decoder none).2 } :=
      ((List.subperm_append_left _).mpr (hD.send s.decoder none)).trans hrun
    have hdrain := hflush.drain hD env
    have hsent : (ExportColorToImages.drain env
        { s with decoder := (D.send s.decoder none).2 }).sent = s.sent := sent_drain ..
    unfold Stamped at hdrain
    rw [hsent, hn] at hdrain
    refine ((List.sublist_append_left ..).subperm.trans hdrain).trans ?_
    rw [hrows]
    exact ((List.take_sublist n _).map _).subperm
  · exact (List.nil_sublist _).subperm

/-! ## What the decoder returns -/

section

variable (D : H264Decoder ι)

/-- The packets of the rows that the loop reads from turn `i` on. -/
def packets (env : ImagesEnv) (blob : List UInt8) : List Row → Nat → List AVPacket
  | [], _ => []
  | row :: rows, i =>
    if env.cancelled i ∨ overflows blob row ∨ maxPacket < row.size.toNat then []
    else
      match readSlice blob row.offset row.size with
      | none => []
      | some data => ⟨data, row.seq.toInt64⟩ :: packets env blob rows (i + 1)

/-- The decoder after it was sent packets and drained after each that it took, and the frames it returned
until then. -/
def H264Decoder.decode : List AVPacket → D.State → List (AVFrame ι) × D.State
  | [], st => ([], st)
  | pkt :: pkts, st =>
    match D.send st (some pkt) with
    | (true, st) =>
      let (frames, st) := D.receive st
      let (rest, st) := H264Decoder.decode pkts st
      (frames ++ rest, st)
    | (false, st) => H264Decoder.decode pkts st

/-- What the decoder returns for packets and the flush. -/
def H264Decoder.frames (pkts : List AVPacket) : List (AVFrame ι) :=
  let (frames, st) := D.decode pkts D.init
  frames ++ (D.receive (D.send st none).2).1

/-- The frames of an index and a blob that carry a time stamp. -/
def stampedFrames (env : ImagesEnv) (index : List Char) (blob : Option (List UInt8)) :
    List (AVFrame ι) :=
  match readIndex index, blob with
  | (rows, some k), some blob =>
    (D.frames (packets env blob (rows.drop k) 0)).filter fun f => f.pts ≠ noPts
  | _, _ => []

end

theorem sendRows_decode (env : ImagesEnv) (blob : List UInt8) (rows : List Row) (i : Nat)
    (s : Exported D) :
    (sendRows env blob rows i s).decoder = (D.decode (packets env blob rows i) s.decoder).2 ∧
      (sendRows env blob rows i s).writes = s.writes ++
        (D.decode (packets env blob rows i) s.decoder).1.filter fun f => f.pts ≠ noPts := by
  fun_induction sendRows env blob rows i s with
  | case1 i s => simp [packets, H264Decoder.decode]
  | case2 row rows i s hcancel => simp [packets, H264Decoder.decode, hcancel]
  | case3 row rows i s hcancel hover => simp [packets, H264Decoder.decode, hover]
  | case4 row rows i s hcancel hover hsize => simp [packets, H264Decoder.decode, hsize]
  | case5 row rows i s hcancel hover hsize hread =>
    simp [packets, H264Decoder.decode, hcancel, hover, hsize, hread]
  | case6 row rows i s hcancel hover hsize data hread ih =>
    rw [ih.1, ih.2, packets, if_neg (by simp [hcancel, hover, hsize]), hread]
    dsimp only
    unfold sendPacket
    rw [H264Decoder.decode]
    rcases D.send s.decoder (some ⟨data, row.seq.toInt64⟩) with ⟨ok | ok, st⟩
    · exact ⟨rfl, rfl⟩
    · have hdrain := foldl_drainFrame env (D.receive st).1
        { s with decoder := (D.receive st).2, sent := s.sent ++ [⟨data, row.seq.toInt64⟩] }
      simp only [if_true, drain]
      rw [hdrain.1, hdrain.2.2, List.filter_append, List.append_assoc]
      exact ⟨rfl, rfl⟩

/-- A run hands the frames that the decoder returns with a time stamp to `imwrite`. -/
theorem run_stampedFrames (env : ImagesEnv) (index : List Char) (blob : Option (List UInt8))
    (folder : Folder (List Char) ι) :
    (run D env index blob folder).1.writes = stampedFrames D env index blob := by
  unfold run stampedFrames
  rcases readIndex index with ⟨rows, _ | k⟩
  · rfl
  · cases blob with
    | none => rfl
    | some blob =>
      have hrows := sendRows_decode env blob (rows.drop k) 0
        { decoder := D.init, folder := folder : Exported D }
      simp only [drain]
      rw [(foldl_drainFrame ..).2.2, hrows.1, hrows.2, H264Decoder.frames, List.filter_append]
      rfl

end ExportColorToImages

/-! ## Lost images -/

/-- The images are all in the folder exactly if rows with one number have one image. -/
theorem holds_images_iff {d : Folder (List Char) ι} {ext : List Char} (hext : ext.length ≤ 3)
    {seq : α → UInt64} {content : α → ι} (xs : List α) :
    (d.putAll (xs.map fun x => (seqName (seq x) ext, content x))).Holds
        (xs.map fun x => (seqName (seq x) ext, content x)) ↔
      ∀ x ∈ xs, ∀ y ∈ xs, seq x = seq y → content x = content y := by
  rw [Folder.holds_iff]
  simp only [List.forall_mem_map, (seqName_injective hext).eq_iff]

section

variable {F ι κ γ : Type} {D : ExportColorToImages.H264Decoder κ}
  (shown : ExportColorToImages.AVFrame κ → γ) (held : ExportDepthToImages.Row F → γ)

end

/-- Images of depth rows that share a file are all still there exactly if they are equal. -/
theorem depth_images_held_iff {F ι : Type} [Floats F] {decode : RvlInput F → ι} {env : ImagesEnv}
    {index : List Char} {blob : List UInt8} {folder : Folder (List Char) ι}
    (h : (ExportDepthToImages.run decode env index (some blob) folder).2 = true) :
    (ExportDepthToImages.run decode env index (some blob) folder).1.Holds
        ((ExportDepthToImages.readIndex F index).map (ExportDepthToImages.image decode blob)) ↔
      ∀ r ∈ ExportDepthToImages.readIndex F index, ∀ r' ∈ ExportDepthToImages.readIndex F index,
        r.seq = r'.seq → (ExportDepthToImages.image decode blob r).2 =
          (ExportDepthToImages.image decode blob r').2 := by
  obtain ⟨_, heq, hfolder⟩ := ExportDepthToImages.run_folder h
  cases heq
  rw [hfolder]
  exact holds_images_iff (by decide) _

/-- With a decoder that stamps, rows of distinct numbers from the first key frame on give frames of distinct
numbers. -/
theorem nodup_stampedFrames {ι : Type} {D : ExportColorToImages.H264Decoder ι}
    {pending : D.State → List Int64} (hD : D.Stamps pending) (env : ImagesEnv) (index : List Char)
    (blob : Option (List UInt8))
    (h : (((ExportColorToImages.readIndex index).1.drop
      ((ExportColorToImages.readIndex index).2.getD 0)).map (·.seq)).Nodup) :
    ((ExportColorToImages.stampedFrames D env index blob).map (·.pts.toUInt64)).Nodup := by
  obtain ⟨pts, hperm, hsub⟩ := ExportColorToImages.run_writes hD env index blob fun _ => none
  have hseqs := hsub.map Int64.toUInt64
  rw [List.map_map, funext (f := Int64.toUInt64 ∘ _) fun row => UInt64.toUInt64_toInt64 _] at hseqs
  have hnames := (hperm.map Int64.toUInt64).nodup_iff.mp (h.sublist hseqs)
  rwa [List.map_map, ExportColorToImages.run_stampedFrames] at hnames

/-- A decoder whose image of a packet is its payload. -/
def ExportColorToImages.H264Decoder.payload : ExportColorToImages.H264Decoder (List UInt8) where
  State := List (AVFrame (List UInt8))
  init := []
  send st pkt := (true, st ++ pkt.toList.map fun p => ⟨p.pts, p.data⟩)
  receive st := (st, [])

end Kist
