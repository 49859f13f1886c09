import KistCollector.Export.ColorToMp4
import KistCollector.Export.DepthToMp4
import KistCollector.Export.Exporter

/-!
# The four exporters

Each exporter is an `Exporter` over the loop of its `run`. A worker that is not cancelled does what the
function `run` of its class says (the `final` theorems), so where `succeeded()` is true the loop went
through all rows and nothing failed (`exporters_sound`).
-/

namespace Kist

/-- The files of a stream in a camera's folder; `none` is a blob that does not open. -/
structure StreamFiles where
  index : List Char
  blob : Option (List UInt8)

/-- What the depth and image loops read from: the blob, and the number of rows. -/
structure Opened where
  blob : List UInt8
  total : Nat

/-- The reads of these slices, given by offset and size, were all complete: the file system served read
`j`, and the blob has the slice. -/
def AllRead (readOk : Nat → Bool) (blob : List UInt8) (slices : List (UInt64 × UInt64)) : Prop :=
  (∀ j < slices.length, readOk j = true) ∧ ∀ p ∈ slices, (readSlice blob p.1 p.2).isSome = true

theorem AllRead.nil : AllRead readOk blob [] := by simp [AllRead]

theorem AllRead.snoc (H : AllRead readOk blob slices) (hok : readOk slices.length = true)
    (hslice : (readSlice blob p.1 p.2).isSome = true) : AllRead readOk blob (slices ++ [p]) := by
  constructor
  · intro j hj
    rw [List.length_append, List.length_singleton] at hj
    rcases Nat.lt_succ_iff_lt_or_eq.mp hj with hj | rfl
    · exact H.1 j hj
    · exact hok
  · intro q hq
    rcases List.mem_append.mp hq with hq | hq
    · exact H.2 q hq
    · cases List.mem_singleton.mp hq
      exact hslice

namespace ExportDepthToMp4

variable {F ι κ : Type} (V : VideoWriter κ) (decode : RvlInput F → Picture ι) (colorize : ι → F → κ)
  (env : Env)

/-- The environment of a run that is not cancelled. -/
def Env.uncancelled (env : Env) : Env :=
  { env with cancelled := fun _ => false, cancelledAfter := false }

/-- Where a row's depth image is in the blob. -/
def Row.slice (row : Row F) : UInt64 × UInt64 := (row.offset, row.size)

/-- The loop over the rows, of which `opened` has the number. -/
def loop : Loop (Loop.Over Opened (Row F) (Written V)) :=
  .overList fun opened => writeRow decode colorize env opened.blob

/-- All that comes before the loop. -/
def setup [Floats F] (files : StreamFiles) : Option (Loop.Over Opened (Row F) (Written V)) :=
  match readIndex F files.index, files.blob with
  | first :: second :: rows, some rvl =>
    if env.openWriter then
      some ⟨⟨rvl, (first :: second :: rows).length⟩, first :: second :: rows,
        { writer := V.opened first.width first.height }⟩
    else none
  | _, _ => none

/-- `ExportDepthToMp4` as a worker. -/
def exporter [Floats F] : Exporter StreamFiles (Loop.Over Opened (Row F) (Written V)) where
  blobName := "depth.rvl".toList
  indexName := "depth.idx.csv".toList
  setup := setup V env
  loop := loop V decode colorize env
  died x := x.acc.died
  finish x := x
  good x := x.acc.written == x.ctx.total

variable {V decode colorize env}

theorem writeRow_true {s s' : Written V} (h : writeRow decode colorize env rvl s row = (s', true)) :
    env.readOk s.written = true ∧ (readSlice rvl row.slice.1 row.slice.2).isSome = true ∧
      s'.written = s.written + 1 := by
  unfold writeRow at h
  split at h <;> cases h
  rename_i data hload
  have hread := (load_eq_data.mp hload).2.2.2
  split at hread
  · rename_i hok
    refine ⟨hok, ?_, rfl⟩
    rw [Row.slice, hread]
    rfl
  · cases hread

theorem writeRow_false {s s' : Written V}
    (h : writeRow decode colorize env rvl s row = (s', false)) : s'.written = s.written := by
  unfold writeRow at h
  split at h <;> cases h <;> rfl

/-- The rows `done` were read and turned into `acc`, as `writeRows` does it. -/
structure Wrote (decode : RvlInput F → Picture ι) (colorize : ι → F → κ) (env : Env)
    (rvl : List UInt8) (s₀ : Written V) (done : List (Row F)) (acc : Written V) : Prop where
  written : acc.written = done.length
  read : AllRead env.readOk rvl (done.map (·.slice))
  eq : ∀ rest, writeRows decode colorize env.uncancelled rvl (done ++ rest) s₀ =
    writeRows decode colorize env.uncancelled rvl rest acc

theorem Wrote.snoc {s₀ acc acc' : Written V} (H : Wrote decode colorize env rvl s₀ done acc)
    (h : writeRow decode colorize env rvl acc row = (acc', true)) :
    Wrote decode colorize env rvl s₀ (done ++ [row]) acc' := by
  obtain ⟨hok, hslice, hwritten⟩ := writeRow_true h
  constructor
  case written => simp [hwritten, H.written]
  case read =>
    rw [List.map_append]
    exact H.read.snoc (by rw [List.length_map, ← H.written]; exact hok) hslice
  case eq =>
    intro rest
    have hturn : writeRow decode colorize env.uncancelled rvl acc row = (acc', true) := h
    rw [List.append_assoc, H.eq, List.singleton_append, writeRows, hturn]
    rfl

/-- A loop that is not cancelled and counts all rows has read them all, and did what `writeRows` does. -/
theorem loop_final {rows : List (Row F)} {s₀ : Written V} (hs₀ : s₀.written = 0)
    (h : (loop V decode colorize env).Final ⟨⟨rvl, rows.length⟩, rows, s₀⟩ n x) :
    x.ctx.total = rows.length ∧ (x.acc.written = rows.length → n = rows.length ∧
      AllRead env.readOk rvl (rows.map (·.slice)) ∧
      x.acc = writeRows decode colorize env.uncancelled rvl rows s₀) := by
  obtain ⟨hctx, ⟨rfl, H⟩ | ⟨done, row, rest, acc, hrest, H, hturn⟩⟩ :=
    h.overList_rule (P := Wrote decode colorize env rvl s₀) ⟨hs₀, .nil, fun _ => rfl⟩ .snoc
  · refine ⟨by rw [hctx], fun _ => ⟨rfl, H.read, ?_⟩⟩
    have hall := H.eq []
    rw [List.append_nil, writeRows] at hall
    exact hall.symm
  · refine ⟨by rw [hctx], fun hall => ?_⟩
    -- a row that cannot be read is not counted
    rw [writeRow_false hturn, H.written] at hall
    have hlen := congrArg List.length hrest
    simp only [List.length_append, List.length_cons] at hlen
    omega

/-- A worker that is not cancelled and finds its export good has read all rows, and is a run that
succeeds. -/
theorem final [Floats F] {files : StreamFiles} (hsetup : setup V env files = some x₀)
    (hfinal : (loop V decode colorize env).Final x₀ n x) (hgood : x.acc.written = x.ctx.total) :
    n = (readIndex F files.index).length ∧
      (∃ blob, files.blob = some blob ∧
        AllRead env.readOk blob ((readIndex F files.index).map (·.slice))) ∧
      (run V decode colorize env.uncancelled files.index files.blob).2 = true := by
  unfold setup at hsetup
  split at hsetup
  · rename_i first second rows rvl hrows hblob
    split at hsetup <;> cases hsetup
    rename_i hopen
    obtain ⟨htotal, hall⟩ := loop_final rfl hfinal
    have hwritten : x.acc.written = (first :: second :: rows).length := hgood.trans htotal
    obtain ⟨hn, hread, hacc⟩ := hall hwritten
    rw [hrows, hblob]
    refine ⟨hn, ⟨rvl, rfl, hread⟩, ?_⟩
    have hopen' : env.uncancelled.openWriter = true := hopen
    simp only [run, hrows, hopen', if_true, ← hacc, hwritten]
    simp [Env.uncancelled]
  · cases hsetup

end ExportDepthToMp4
/-- The environment of a run that is not cancelled. -/
def ImagesEnv.uncancelled (env : ImagesEnv) : ImagesEnv :=
  { env with cancelled := fun _ => false, cancelledAfter := false }

namespace ExportDepthToImages

variable {F ι : Type} (decode : RvlInput F → ι) (env : ImagesEnv) (readOk : Nat → Bool)

/-- Where a row's depth image is in the blob. -/
def Row.slice (row : Row F) : UInt64 × UInt64 := (row.offset, row.size)

/-- The body of the loop over the rows; it is left where a row cannot be read or an image not be
written. -/
def writeRow (opened : Opened) (s : Exported ι) (row : Row F) : Exported ι × Bool :=
  match load (env.memory s.written) (env.decodes s.written) row.size
    (if readOk s.written then readSlice opened.blob row.offset row.size else none) with
  | .threw => ({ s with ioOk := false, died := true }, false)
  | .failed => ({ s with ioOk := false }, false)
  | .data data =>
    let z16 := decode ⟨row.width, row.height, row.scale, data⟩
    if env.imwrite s.written then
      ({ s with
        folder := s.folder.put (seqName row.seq "png".toList, z16)
        written := s.written + 1 }, true)
    else ({ s with ioOk := false }, false)

/-- All that comes before the loop. -/
def setup [Floats F] (folder : Folder (List Char) ι) (files : StreamFiles) :
    Option (Loop.Over Opened (Row F) (Exported ι)) :=
  match readIndex F files.index, files.blob with
  | row :: rows, some rvl => some ⟨⟨rvl, (row :: rows).length⟩, row :: rows, { folder := folder }⟩
  | _, _ => none

/-- `ExportDepthToImages` as a worker, with what the folder `depth_png` holds before. -/
def exporter [Floats F] (folder : Folder (List Char) ι) :
    Exporter StreamFiles (Loop.Over Opened (Row F) (Exported ι)) where
  blobName := "depth.rvl".toList
  indexName := "depth.idx.csv".toList
  setup := setup folder
  loop := .overList (writeRow decode env readOk)
  died x := x.acc.died
  finish x := x
  good x := x.acc.ioOk && x.acc.written == x.ctx.total

variable {decode env readOk}

theorem writeRow_true {s s' : Exported ι}
    (h : writeRow decode env readOk opened s row = (s', true)) :
    readOk s.written = true ∧ (readSlice opened.blob row.slice.1 row.slice.2).isSome = true ∧
      env.imwrite s.written = true ∧ s'.written = s.written + 1 ∧
      ∀ rows, writeRows decode env.uncancelled opened.blob (row :: rows) s =
        writeRows decode env.uncancelled opened.blob rows s' := by
  unfold writeRow at h
  split at h
  · cases h
  · cases h
  · rename_i data hload
    obtain ⟨hsize, hmemory, hdecodes, hread⟩ := load_eq_data.mp hload
    split at hread
    · rename_i hok
      dsimp only at h
      split at h <;> cases h
      rename_i hwrite
      refine ⟨hok, by rw [Row.slice, hread]; rfl, hwrite, rfl, fun rows => ?_⟩
      have hwrite' : env.uncancelled.imwrite s.written = true := hwrite
      have hload' : load (env.uncancelled.memory s.written) (env.uncancelled.decodes s.written) row.size
          (readSlice opened.blob row.offset row.size) = .data data :=
        load_eq_data.mpr ⟨hsize, hmemory, hdecodes, hread⟩
      rw [writeRows, hload']
      simp only [hwrite', if_true]
      rfl
    · cases hread

theorem writeRow_false {s s' : Exported ι}
    (h : writeRow decode env readOk opened s row = (s', false)) : s'.ioOk = false := by
  unfold writeRow at h
  split at h
  · cases h
    rfl
  · cases h
    rfl
  · dsimp only at h
    split at h <;> cases h
    rfl

/-- The rows `done` were read and turned into `acc`, as `writeRows` does it. -/
structure Wrote (decode : RvlInput F → ι) (env : ImagesEnv) (readOk : Nat → Bool) (opened : Opened)
    (s₀ : Exported ι) (done : List (Row F)) (acc : Exported ι) : Prop where
  written : acc.written = done.length
  read : AllRead readOk opened.blob (done.map (·.slice))
  imwrite : ∀ j < done.length, env.imwrite j = true
  eq : ∀ rest, writeRows decode env.uncancelled opened.blob (done ++ rest) s₀ =
    writeRows decode env.uncancelled opened.blob rest acc

theorem Wrote.snoc {s₀ acc acc' : Exported ι}
    (H : Wrote decode env readOk opened s₀ done acc)
    (h : writeRow decode env readOk opened acc row = (acc', true)) :
    Wrote decode env readOk opened s₀ (done ++ [row]) acc' := by
  obtain ⟨hok, hslice, hwrite, hwritten, hrows⟩ := writeRow_true h
  constructor
  case written => simp [hwritten, H.written]
  case read =>
    rw [List.map_append]
    exact H.read.snoc (by rw [List.length_map, ← H.written]; exact hok) hslice
  case imwrite =>
    intro j hj
    rw [List.length_append, List.length_singleton] at hj
    rcases Nat.lt_succ_iff_lt_or_eq.mp hj with hj | rfl
    · exact H.imwrite j hj
    · exact H.written ▸ hwrite
  case eq =>
    intro rest
    rw [List.append_assoc, H.eq, List.singleton_append, hrows]

/-- A worker that is not cancelled and finds its export good has read and written all rows, and is a run
that succeeds. -/
theorem final [Floats F] {files : StreamFiles} {folder : Folder (List Char) ι}
    (hsetup : setup (F := F) folder files = some x₀)
    (hfinal : (Loop.overList (writeRow decode env readOk)).Final x₀ n x)
    (hgood : x.acc.ioOk = true) (hall : x.acc.written = x.ctx.total) :
    n = (readIndex F files.index).length ∧
      (∃ blob, files.blob = some blob ∧
        AllRead readOk blob ((readIndex F files.index).map (·.slice))) ∧
      (∀ j < (readIndex F files.index).length, env.imwrite j = true) ∧
      (run decode env.uncancelled files.index files.blob folder).2 = true := by
  unfold setup at hsetup
  split at hsetup <;> cases hsetup
  rename_i row rows rvl hrows hblob
  obtain ⟨hctx, ⟨rfl, H⟩ | ⟨done, r, rest, acc, -, -, hturn⟩⟩ :=
    hfinal.overList_rule (P := Wrote decode env readOk ⟨rvl, _⟩ { folder := folder })
      ⟨rfl, .nil, nofun, fun _ => rfl⟩ .snoc
  · rw [hrows, hblob]
    refine ⟨rfl, ⟨rvl, rfl, H.read⟩, H.imwrite, ?_⟩
    have heq : writeRows decode env.uncancelled rvl (row :: rows) { folder := folder } = x.acc := by
      have heq := H.eq []
      rwa [List.append_nil, writeRows] at heq
    unfold run
    rw [hrows]
    dsimp only
    rw [heq, hgood, hall, hctx]
    simp [ImagesEnv.uncancelled]
  · exact absurd (hgood.symm.trans (writeRow_false hturn)) nofun

end ExportDepthToImages

namespace ExportColorToImages

variable {ι : Type} (D : H264Decoder ι) (env : ImagesEnv) (codecOpens : Bool) (readOk : Nat → Bool)

/-- Where a row's access unit is in the blob. -/
def Row.slice (row : Row) : UInt64 × UInt64 := (row.offset, row.size)

/-- The body of the loop over the rows, which has sent one packet in each turn so far. -/
def sendRow {D : H264Decoder ι} (opened : Opened) (s : Exported D) (row : Row) : Exported D × Bool :=
  if readOk s.sent.length && overflows opened.blob row then ({ s with ioOk := false, died := true }, false)
  else if maxPacket < row.size.toNat then ({ s with ioOk := false }, false)
  else
    match if readOk s.sent.length then readSlice opened.blob row.offset row.size else none with
    | none => ({ s with ioOk := false }, false)
    | some data => (sendPacket env s ⟨data, row.seq.toInt64⟩, true)

/-- All that comes before the loop. -/
def setup (folder : Folder (List Char) ι) (files : StreamFiles) :
    Option (Loop.Over Opened Row (Exported D)) :=
  match readIndex files.index, files.blob with
  | (rows, some k), some blob =>
    if codecOpens then some ⟨⟨blob, (rows.drop k).length⟩, rows.drop k, { decoder := D.init, folder }⟩
    else none
  | _, _ => none

/-- The decoder is flushed and drained once more. -/
def flush {D : H264Decoder ι} (s : Exported D) : Exported D :=
  drain env { s with decoder := (D.send s.decoder none).2 }

/-- `ExportColorToImages` as a worker, with what the folder `color_jpg` holds before. -/
def exporter (folder : Folder (List Char) ι) :
    Exporter StreamFiles (Loop.Over Opened Row (Exported D)) where
  blobName := "color.h264".toList
  indexName := "color.idx.csv".toList
  setup := setup D codecOpens folder
  loop := .overList (sendRow env readOk)
  died x := x.acc.died
  finish x := { x with acc := flush env x.acc }
  good x := x.acc.ioOk

variable {D env codecOpens readOk}

/-- Where no image failed so far, every `imwrite` has succeeded. -/
def NoneFailed (env : ImagesEnv) (s : Exported D) : Prop :=
  s.ioOk = true → ∀ j < s.writes.length, env.imwrite j = true

theorem NoneFailed.drain {s : Exported D} (H : NoneFailed env s) :
    NoneFailed env (drain env s) := by
  have hframe : ∀ (s : Exported D) f, NoneFailed env s → NoneFailed env (drainFrame env s f) := by
    intro s f H
    unfold drainFrame
    split
    · exact H
    · split
      · rename_i hwrite
        intro hok j hj
        rw [List.length_append, List.length_singleton] at hj
        rcases Nat.lt_succ_iff_lt_or_eq.mp hj with hj | rfl
        · exact H hok j hj
        · exact hwrite
      · intro hok
        cases hok
  have hfold : ∀ (frames : List (AVFrame ι)) (s : Exported D), NoneFailed env s →
      NoneFailed env (frames.foldl (drainFrame env) s) := by
    intro frames
    induction frames with
    | nil => exact fun _ H => H
    | cons f frames ih => exact fun s H => ih _ (hframe s f H)
  exact hfold _ _ H

theorem NoneFailed.sendPacket {s : Exported D} (H : NoneFailed env s) (pkt : AVPacket) :
    NoneFailed env (sendPacket env s pkt) := by
  unfold ExportColorToImages.sendPacket
  dsimp only
  split
  · exact NoneFailed.drain (by exact H)
  · exact H

theorem ioOk_of_flush {s : Exported D} (h : (flush env s).ioOk = true) : s.ioOk = true := by
  have hdrained := ioOk_of_drain h
  exact hdrained

theorem sendRow_true {s s' : Exported D} (h : sendRow env readOk opened s row = (s', true)) :
    readOk s.sent.length = true ∧ (readSlice opened.blob row.slice.1 row.slice.2).isSome = true ∧
      s'.sent.length = s.sent.length + 1 ∧ (NoneFailed env s → NoneFailed env s') ∧
      ∀ rows i, sendRows env.uncancelled opened.blob (row :: rows) i s =
        sendRows env.uncancelled opened.blob rows (i + 1) s' := by
  unfold sendRow at h
  split at h
  · cases h
  rename_i hover
  split at h
  · cases h
  rename_i hsize
  split at h
  · cases h
  · rename_i data hread
    cases h
    split at hread
    · rename_i hok
      rw [hok, Bool.true_and] at hover
      refine ⟨hok, by rw [Row.slice, hread]; rfl, ?_, fun H => H.sendPacket _, fun rows i => ?_⟩
      · rw [sent_sendPacket, List.length_append, List.length_singleton]
      · rw [sendRows, if_neg (by simp [ImagesEnv.uncancelled]), if_neg hover, if_neg hsize, hread]
        rfl
    · cases hread

theorem sendRow_false {s s' : Exported D} (h : sendRow env readOk opened s row = (s', false)) :
    s'.ioOk = false := by
  unfold sendRow at h
  split at h
  · cases h
    rfl
  · split at h
    · cases h
      rfl
    · split at h <;> cases h
      rfl

/-- The rows `done` were read and sent, as `sendRows` does it. -/
structure Sent (env : ImagesEnv) (readOk : Nat → Bool) (opened : Opened) (s₀ : Exported D)
    (done : List Row) (acc : Exported D) : Prop where
  sent : acc.sent.length = done.length
  read : AllRead readOk opened.blob (done.map (·.slice))
  imwrite : NoneFailed env acc
  eq : ∀ rest, sendRows env.uncancelled opened.blob (done ++ rest) 0 s₀ =
    sendRows env.uncancelled opened.blob rest done.length acc

theorem Sent.snoc {s₀ acc acc' : Exported D} (H : Sent env readOk opened s₀ done acc)
    (h : sendRow env readOk opened acc row = (acc', true)) :
    Sent env readOk opened s₀ (done ++ [row]) acc' := by
  obtain ⟨hok, hslice, hsent, hwrite, hrows⟩ := sendRow_true h
  constructor
  case sent => simp [hsent, H.sent]
  case read =>
    rw [List.map_append]
    exact H.read.snoc (by rw [List.length_map, ← H.sent]; exact hok) hslice
  case imwrite => exact hwrite H.imwrite
  case eq =>
    intro rest
    rw [List.append_assoc, H.eq, List.singleton_append, hrows, List.length_append,
      List.length_singleton]

/-- The rows from the first key frame on. -/
def keyRows (index : List Char) : List Row := (readIndex index).1.drop ((readIndex index).2.getD 0)

/-- A worker that is not cancelled and finds its export good has read all rows from the first key frame
on and written every frame, and is a run that succeeds. -/
theorem final {files : StreamFiles} {folder : Folder (List Char) ι}
    (hsetup : setup D codecOpens folder files = some x₀)
    (hfinal : (Loop.overList (sendRow env readOk)).Final x₀ n x)
    (hgood : (flush env x.acc).ioOk = true) :
    n = (keyRows files.index).length ∧
      (∃ blob, files.blob = some blob ∧
        AllRead readOk blob ((keyRows files.index).map (·.slice))) ∧
      (∀ j < (run D env.uncancelled files.index files.blob folder).1.writes.length,
        env.imwrite j = true) ∧
      (run D env.uncancelled files.index files.blob folder).2 = true := by
  unfold setup at hsetup
  split at hsetup
  · rename_i rows k blob hindex hblob
    split at hsetup <;> cases hsetup
    have hrows : keyRows files.index = rows.drop k := by rw [keyRows, hindex]; rfl
    obtain ⟨hctx, ⟨rfl, H⟩ | ⟨done, r, rest, acc, -, -, hturn⟩⟩ :=
      hfinal.overList_rule (P := Sent env readOk ⟨blob, _⟩ { decoder := D.init, folder := folder })
        ⟨rfl, .nil, fun _ _ hj => absurd hj (Nat.not_lt_zero _), fun _ => rfl⟩ .snoc
    · have heq := H.eq []
      rw [List.append_nil, sendRows] at heq
      have hrun : run D env.uncancelled files.index files.blob folder =
          (flush env x.acc, (flush env x.acc).ioOk && !false) := by
        unfold run
        rw [hindex, hblob]
        dsimp only
        rw [heq]
        rfl
      rw [Bool.not_false, Bool.and_true] at hrun
      rw [hrun, hrows, hblob]
      refine ⟨rfl, ⟨blob, rfl, H.read⟩, ?_, hgood⟩
      exact NoneFailed.drain (by exact H.imwrite) hgood
    · have hok : x.acc.ioOk = true := ioOk_of_flush hgood
      simp [sendRow_false hturn] at hok
  · cases hsetup

end ExportColorToImages
namespace ExportColorToMp4

variable (R : Rescale) (env : Env)

/-- The environment of a run that is not cancelled. -/
def Env.uncancelled (env : Env) : Env :=
  { env with cancelled := fun _ => false, cancelledAfter := false }

/-- Where the loop over the packets stands: the access units not yet demuxed, the rows from `k + i` on,
the locals of `run`, and the packets handed to the muxer. -/
structure Remuxing where
  t0 : Int64
  total : Nat
  units : List (List UInt8)
  rows : List Row
  i : Nat := 0
  lastPts : Int := -2 ^ 63
  packets : List Packet := []
  writeOk : Bool := true

/-- All that comes before the loop. -/
def setup (files : StreamFiles) : Option Remuxing :=
  let idx := readIndex files.index
  match idx.firstKey, files.blob with
  | some k, some blob =>
    if idx.rows.length < 2 ∨ 2 ^ 63 ≤ idx.cutOffset.toNat then none
    else
      match env.demux (blob.drop idx.cutOffset.toNat), idx.rows.drop k with
      | some units, key :: rows =>
        if env.openOutput then
          some { t0 := key.recvNs, total := idx.rows.length - k, units := units, rows := key :: rows }
        else none
      | _, _ => none
  | _, _ => none

/-- One turn of the loop over the packets; it is left where the muxer fails. -/
def turn (x : Remuxing) : Remuxing × Bool :=
  match x.units, x.rows with
  | unit :: units, row :: rows =>
    let pts := rowUs x.t0 row
    let next := match rows with
      | row' :: _ => rowUs x.t0 row'
      | [] => pts + 33333
    let ts := if (R.rescale pts).toInt ≤ x.lastPts then x.lastPts + 1 else (R.rescale pts).toInt
    let pkt : Packet := ⟨unit, ts, ts, (R.rescale (next - pts)).toInt⟩
    let x := { x with units := units, lastPts := ts, packets := x.packets ++ [pkt] }
    if env.writeFrame x.i then ({ x with rows := rows, i := x.i + 1 }, true)
    else ({ x with writeOk := false }, false)
  | _, _ => (x, false)

def loop : Loop Remuxing where
  more x := !x.units.isEmpty && !x.rows.isEmpty
  turn := turn R env

/-- `ExportColorToMp4` as a worker. It does not read the slices of the rows; the demuxer reads the blob
from the first key frame on. -/
def exporter : Exporter StreamFiles Remuxing where
  blobName := "color.h264".toList
  indexName := "color.idx.csv".toList
  setup := setup env
  loop := loop R env
  died _ := false
  finish x := x
  good x := x.writeOk && x.i == x.total

variable {R env}

/-- What `remuxFrom` gives from here on, put behind the packets so far. -/
def Remuxing.rest (R : Rescale) (env : Env) (x : Remuxing) : Remuxed :=
  let out := remuxFrom R env x.t0 x.units x.rows x.i x.lastPts
  { out with packets := x.packets ++ out.packets }

theorem turn_true {x x' : Remuxing} (h : turn R env x = (x', true)) :
    env.writeFrame x.i = true ∧ x'.i = x.i + 1 ∧ x'.writeOk = x.writeOk ∧ x'.total = x.total ∧
      x'.rows.length + 1 = x.rows.length ∧ x'.packets.length = x.packets.length + 1 ∧
      x'.rest R env.uncancelled = x.rest R env.uncancelled := by
  unfold turn at h
  split at h
  · rename_i unit units row rows hunits hrows
    dsimp only at h
    split at h <;> cases h
    rename_i hwrite
    have hwrite' : env.uncancelled.writeFrame x.i = true := hwrite
    refine ⟨hwrite, rfl, rfl, rfl, by rw [hrows]; rfl, by simp, ?_⟩
    simp only [Remuxing.rest, hunits, hrows]
    conv_rhs => rw [remuxFrom]
    simp only [hwrite', if_true]
    cases rows <;> simp [Env.uncancelled]
  · cases h

theorem turn_false {x x' : Remuxing} (hmore : (loop R env).more x = true)
    (h : turn R env x = (x', false)) : x'.writeOk = false := by
  unfold turn at h
  split at h
  · dsimp only at h
    split at h <;> cases h
    rfl
  · rename_i hne
    cases hunits : x.units with
    | nil => simp [loop, hunits] at hmore
    | cons unit units =>
      cases hrows : x.rows with
      | nil => simp [loop, hrows] at hmore
      | cons row rows => exact absurd hrows (hne _ _ _ _ hunits)

/-- After `n` turns: as many packets were written, and what `remuxFrom` makes of the rest completes what
it makes of all. -/
structure Remuxes (R : Rescale) (env : Env) (x₀ : Remuxing) (n : Nat) (x : Remuxing) : Prop where
  i : x.i = n
  total : x.total = x₀.total
  writeOk : x.writeOk = true
  written : ∀ j < n, env.writeFrame j = true
  rows : n + x.rows.length = x₀.rows.length
  packets : x.packets.length = n
  rest : x.rest R env.uncancelled = x₀.rest R env.uncancelled

theorem Remuxes.next {x₀ x x' : Remuxing} (H : Remuxes R env x₀ n x)
    (h : turn R env x = (x', true)) : Remuxes R env x₀ (n + 1) x' := by
  obtain ⟨hwrite, hi, hok, htotal, hrows, hpackets, hrest⟩ := turn_true h
  constructor
  case i => rw [hi, H.i]
  case total => rw [htotal, H.total]
  case writeOk => rw [hok, H.writeOk]
  case written =>
    intro j hj
    rcases Nat.lt_succ_iff_lt_or_eq.mp hj with hj | rfl
    · exact H.written j hj
    · exact H.i ▸ hwrite
  case rows =>
    have := H.rows
    omega
  case packets => rw [hpackets, H.packets]
  case rest => rw [hrest, H.rest]

/-- A loop that has no more to do leaves `remuxFrom` nothing to do. -/
theorem rest_eq {x : Remuxing} (h : (loop R env).more x = false) :
    x.rest R env.uncancelled = ⟨x.packets, x.i, true⟩ := by
  rw [Remuxing.rest]
  cases hunits : x.units with
  | nil => simp [remuxFrom]
  | cons unit units =>
    cases hrows : x.rows with
    | nil => simp [remuxFrom]
    | cons row rows => simp [loop, hunits, hrows] at h

theorem loop_final {x₀ x : Remuxing} (h : (loop R env).Final x₀ n x) (hi : x₀.i = 0)
    (hok : x₀.writeOk = true) (hpackets : x₀.packets = []) :
    x.writeOk = false ∨
      (x.total = x₀.total ∧ x.i = n ∧ n ≤ x₀.rows.length ∧ (∀ j < n, env.writeFrame j = true) ∧
        x.packets.length = n ∧ x₀.rest R env.uncancelled = ⟨x.packets, n, true⟩) := by
  refine h.rule (P := Remuxes R env x₀)
    (Q := fun n x => x.writeOk = false ∨ (x.total = x₀.total ∧ x.i = n ∧ n ≤ x₀.rows.length ∧
      (∀ j < n, env.writeFrame j = true) ∧ x.packets.length = n ∧
      x₀.rest R env.uncancelled = ⟨x.packets, n, true⟩))
    ⟨hi, rfl, hok, nofun, Nat.zero_add _, by rw [hpackets]; rfl, rfl⟩ ?succ ?exhausted ?leaves
  case succ => exact fun H _ hturn => H.next hturn
  case exhausted =>
    intro n x H hmore
    refine .inr ⟨H.total, H.i, Nat.le.intro H.rows, H.written, H.packets, ?_⟩
    rw [← H.rest, rest_eq hmore, H.i]
  case leaves => exact fun _ hmore hturn => .inl (turn_false hmore hturn)

/-- The rows from the first key frame on. -/
def keyRows (index : List Char) : List Row :=
  (readIndex index).rows.drop ((readIndex index).firstKey.getD 0)

/-- A worker that is not cancelled and finds its export good has written a packet for each row from the
first key frame on, and is a run that succeeds. -/
theorem final {files : StreamFiles} (hsetup : setup env files = some x₀)
    (hfinal : (loop R env).Final x₀ n x) (hok : x.writeOk = true) (hall : x.i = x.total) :
    n = (keyRows files.index).length ∧
      (run R env.uncancelled files.index files.blob).1.length = (keyRows files.index).length ∧
      (∀ j < (keyRows files.index).length, env.writeFrame j = true) ∧
      (run R env.uncancelled files.index files.blob).2 = true := by
  unfold setup at hsetup
  dsimp only at hsetup
  split at hsetup
  · rename_i k blob hkey hblob
    split at hsetup
    · cases hsetup
    rename_i hguard
    split at hsetup
    · rename_i units key rows hdemux hdrop
      split at hsetup <;> cases hsetup
      rename_i hopen
      rcases loop_final hfinal rfl rfl rfl with hbad | ⟨htotal, hi, -, hwritten, hpackets, hrest⟩
      · exact absurd (hok.symm.trans hbad) nofun
      have hrows : keyRows files.index = key :: rows := by rw [keyRows, hkey]; exact hdrop
      have hlen : (keyRows files.index).length = (readIndex files.index).rows.length - k := by
        rw [keyRows, hkey, List.length_drop]
        rfl
      have hn : n = (keyRows files.index).length := by
        rw [hlen, ← hi, hall, htotal]
      have hremux : remux R env.uncancelled units (key :: rows) = ⟨x.packets, n, true⟩ := by
        rw [← hrest]
        simp [Remuxing.rest, remux]
      have hdemux' : env.uncancelled.demux
          (blob.drop (readIndex files.index).cutOffset.toNat) = some units := hdemux
      have hopen' : env.uncancelled.openOutput = true := hopen
      have hrun : run R env.uncancelled files.index files.blob = (x.packets, true) := by
        unfold run
        simp only [hkey, hblob, if_neg hguard, hdemux', hdrop, hremux, hopen', if_true]
        rw [List.take_of_length_le (Nat.le_of_eq hpackets), ← hlen, hn]
        simp [Env.uncancelled]
      rw [hrun]
      exact ⟨hn, hpackets.trans hn, hn ▸ hwritten, rfl⟩
    · cases hsetup
  · cases hsetup

end ExportColorToMp4
/-- **The life of an exporter.** For each of the four exporters, in any order of calls and steps of its
worker: no thread is assigned over a joinable one, at most one worker runs, and `running()` is false once
all workers have ended, exactly if `start` (with the input files in place) never comes between the end of
a worker and its join. -/
theorem exporters_safe_iff {F ι κ : Type} [Floats F] :
    (∀ R env ls s es, (ExportColorToMp4.exporter R env).machine.run {} ls = some (s, es) →
      ((ExportColorToMp4.exporter R env).machine.Throughout Exporter.Safe {} ls ↔
        (ExportColorToMp4.exporter R env).machine.Along
          (Exporter.JoinsFirst (ExportColorToMp4.exporter R env)) {} ls)) ∧
    (∀ (D : ExportColorToImages.H264Decoder ι) env codecOpens readOk folder ls s es,
      (ExportColorToImages.exporter D env codecOpens readOk folder).machine.run {} ls =
        some (s, es) →
      ((ExportColorToImages.exporter D env codecOpens readOk folder).machine.Throughout
          Exporter.Safe {} ls ↔
        (ExportColorToImages.exporter D env codecOpens readOk folder).machine.Along
          (Exporter.JoinsFirst (ExportColorToImages.exporter D env codecOpens readOk folder))
          {} ls)) ∧
    (∀ (V : VideoWriter κ) (decode : RvlInput F → Picture ι) (colorize : ι → F → κ) env ls s es,
      (ExportDepthToMp4.exporter V decode colorize env).machine.run {} ls = some (s, es) →
      ((ExportDepthToMp4.exporter V decode colorize env).machine.Throughout Exporter.Safe {} ls ↔
        (ExportDepthToMp4.exporter V decode colorize env).machine.Along
          (Exporter.JoinsFirst (ExportDepthToMp4.exporter V decode colorize env)) {} ls)) ∧
    (∀ (decode : RvlInput F → ι) env readOk folder ls s es,
      (ExportDepthToImages.exporter decode env readOk folder).machine.run {} ls = some (s, es) →
      ((ExportDepthToImages.exporter decode env readOk folder).machine.Throughout
          Exporter.Safe {} ls ↔
        (ExportDepthToImages.exporter decode env readOk folder).machine.Along
          (Exporter.JoinsFirst (ExportDepthToImages.exporter decode env readOk folder)) {} ls)) :=
  ⟨fun _ _ _ _ _ h => Exporter.safe_iff_along h,
    fun _ _ _ _ _ _ _ _ h => Exporter.safe_iff_along h,
    fun _ _ _ _ _ _ _ h => Exporter.safe_iff_along h,
    fun _ _ _ _ _ _ _ h => Exporter.safe_iff_along h⟩

/-- An exporter whose worker has ended by itself is started again. -/
def startedTwice (files : StreamFiles) : List (Exporter.Label StreamFiles) :=
  [.start (fun _ => true) files, .work, .work, .work, .start (fun _ => true) files]

theorem exporters_safe_iff_twice : ∃ s es,
    (ExportDepthToImages.exporter (F := TwoFloats) (·.data) .smooth
        (fun _ => true) fun _ => none).machine.run {} (startedTwice ⟨[], none⟩) = some (s, es) ∧
    ((ExportDepthToImages.exporter (F := TwoFloats) (·.data) .smooth
          (fun _ => true) fun _ => none).machine.Throughout Exporter.Safe {}
        (startedTwice ⟨[], none⟩) ↔
      (ExportDepthToImages.exporter (F := TwoFloats) (·.data) .smooth
          (fun _ => true) fun _ => none).machine.Along
        (Exporter.JoinsFirst (ExportDepthToImages.exporter (F := TwoFloats) (·.data)
          .smooth (fun _ => true) fun _ => none))
        {} (startedTwice ⟨[], none⟩)) := by
  refine Machine.exists_run (P := fun _ => True) (by decide) ?_
  intro s es h _
  exact (exporters_safe_iff (F := TwoFloats) (κ := Unit)).2.2.2 _ _ _ _ _ _ _ h

/-- The second `start` finds `running()` false and the thread joinable: the process is terminated. -/
theorem exporters_safe_fails : ∃ s es,
    (ExportDepthToImages.exporter (F := TwoFloats) (·.data) .smooth
        (fun _ => true) fun _ => none).machine.run {} (startedTwice ⟨[], none⟩) = some (s, es) ∧
    .terminated ∈ es ∧
    ¬ (ExportDepthToImages.exporter (F := TwoFloats) (·.data) .smooth
          (fun _ => true) fun _ => none).machine.Throughout Exporter.Safe {}
        (startedTwice ⟨[], none⟩) := by
  refine Machine.exists_run (P := fun p => .terminated ∈ p.2) (by decide) ?_
  intro s es h hterm
  exact ⟨hterm, fun H => (H.last h).not_terminated hterm⟩

/-- **What `succeeded()` says.** For each of the four exporters, whatever the files hold, whatever the
reads, the decoder and the writes answer, and wherever the owner's calls fall between the steps of the
worker: where `succeeded()` is true the loop took every row (for color from the first key frame on), every
read of a row's slice was complete, no write reported a failure, and the output is that of a run that is
not cancelled; where `cancel_` was set before the last row was taken it is false. `ExportColorToMp4` reads
no slices. -/
theorem exporters_sound {F ι κ : Type} [Floats F] :
    (∀ R env files, (ExportColorToMp4.exporter R env).Sound files
      (ExportColorToMp4.keyRows files.index).length
      ((ExportColorToMp4.run R env.uncancelled files.index files.blob).1.length =
          (ExportColorToMp4.keyRows files.index).length ∧
        (∀ j < (ExportColorToMp4.keyRows files.index).length, env.writeFrame j = true) ∧
        (ExportColorToMp4.run R env.uncancelled files.index files.blob).2 = true)) ∧
    (∀ (D : ExportColorToImages.H264Decoder ι) env codecOpens readOk folder files,
      (ExportColorToImages.exporter D env codecOpens readOk folder).Sound files
        (ExportColorToImages.keyRows files.index).length
        ((∃ blob, files.blob = some blob ∧
            AllRead readOk blob ((ExportColorToImages.keyRows files.index).map (·.slice))) ∧
          (∀ j < (ExportColorToImages.run D env.uncancelled files.index files.blob
            folder).1.writes.length, env.imwrite j = true) ∧
          (ExportColorToImages.run D env.uncancelled files.index files.blob folder).2 = true)) ∧
    (∀ (V : VideoWriter κ) (decode : RvlInput F → Picture ι) (colorize : ι → F → κ) env files,
      (ExportDepthToMp4.exporter V decode colorize env).Sound files
        (ExportDepthToMp4.readIndex F files.index).length
        ((∃ blob, files.blob = some blob ∧
            AllRead env.readOk blob ((ExportDepthToMp4.readIndex F files.index).map (·.slice))) ∧
          (ExportDepthToMp4.run V decode colorize env.uncancelled files.index files.blob).2 = true)) ∧
    (∀ (decode : RvlInput F → ι) env readOk folder files,
      (ExportDepthToImages.exporter decode env readOk folder).Sound files
        (ExportDepthToImages.readIndex F files.index).length
        ((∃ blob, files.blob = some blob ∧
            AllRead readOk blob ((ExportDepthToImages.readIndex F files.index).map (·.slice))) ∧
          (∀ j < (ExportDepthToImages.readIndex F files.index).length, env.imwrite j = true) ∧
          (ExportDepthToImages.run decode env.uncancelled files.index files.blob folder).2 =
            true)) := by
  refine ⟨fun R env files => ?_, fun D env codecOpens readOk folder files => ?_,
    fun V decode colorize env files => ?_, fun decode env readOk folder files => ?_⟩ <;>
    apply Exporter.sound_of_final
  · intro x₀ n x hsetup hfinal hgood
    obtain ⟨hok, hall⟩ := Bool.and_eq_true_iff.mp hgood
    exact ExportColorToMp4.final hsetup hfinal hok (beq_iff_eq.mp hall)
  · intro x₀ n x hsetup hfinal hgood
    exact ExportColorToImages.final hsetup hfinal hgood
  · intro x₀ n x hsetup hfinal hgood
    exact ExportDepthToMp4.final hsetup hfinal (beq_iff_eq.mp hgood)
  · intro x₀ n x hsetup hfinal hgood
    obtain ⟨hok, hall⟩ := Bool.and_eq_true_iff.mp hgood
    exact ExportDepthToImages.final hsetup hfinal hok (beq_iff_eq.mp hall)

/-- The schedule of an export of two rows that its owner waits for. -/
def waitedFor (files : StreamFiles) : List (Exporter.Label StreamFiles) :=
  .start (fun _ => true) files :: .wait :: List.replicate 10 .work ++ [.join]

/-- The schedule of an export that its owner stops after the first row. -/
def stoppedAfterOne (files : StreamFiles) : List (Exporter.Label StreamFiles) :=
  .start (fun _ => true) files :: List.replicate 3 .work ++ .stop :: List.replicate 5 .work ++ [.join]

/-- The stream of one depth frame, received at time 5. -/
def oneDepthFrame (f : RvlDepthFrame TwoFloats) : StreamFiles :=
  ⟨BlobSink.indexOf depthIdxHeader 0 [BlobRecorder.entry depthRow (f, 5)], some f.data⟩

/-- The stream of two depth frames. -/
def twoDepthFrames : StreamFiles :=
  let frames : List (RvlDepthFrame TwoFloats × Int64) :=
    [(⟨7, -1, 640, 480, .milli, .vga, .vga, .vga, .vga, [9]⟩, 5),
      (⟨8, -1, 640, 480, .milli, .vga, .vga, .vga, .vga, [6, 4]⟩, 6)]
  ⟨BlobSink.indexOf depthIdxHeader 0 (frames.map (BlobRecorder.entry depthRow)),
    some (frames.flatMap (·.1.data))⟩

/-- The depth images of two rows: the export that is waited for takes both, and the one that is stopped after
the first has not succeeded. -/
theorem exporters_sound_two :
    (∃ s es, (ExportDepthToImages.exporter (F := TwoFloats) (·.data) .smooth
        (fun _ => true) fun _ => none).machine.run {} (waitedFor twoDepthFrames) = some (s, es) ∧
      s.thread.isNone = true ∧ s.ok = true ∧ Exporter.taken es.tail = 2) ∧
    ∃ s es, (ExportDepthToImages.exporter (F := TwoFloats) (·.data) .smooth
        (fun _ => true) fun _ => none).machine.run {} (stoppedAfterOne twoDepthFrames) = some (s, es) ∧
      s.thread.isNone = true ∧ s.ok = false := by
  have hlen : (ExportDepthToImages.readIndex TwoFloats twoDepthFrames.index).length = 2 := by decide +kernel
  have hsound := (exporters_sound (F := TwoFloats) (κ := Unit)).2.2.2 (·.data)
    .smooth (fun _ => true) (fun _ => none) twoDepthFrames {}
  constructor
  · refine Machine.exists_run (P := fun p => p.1.thread.isNone = true ∧ p.1.ok = true ∧
      p.2 = .started true :: p.2.tail) (by decide +kernel) ?_
    rintro s es h ⟨hthread, hok, hes⟩
    rw [show es = .started true :: es.tail from hes] at h
    have hall := ((hsound _ _ s es.tail rfl (by simp [Exporter.Label.noStart]) h).1 hok).1
    exact ⟨hthread, hok, hall.trans hlen⟩
  · refine Machine.exists_run (P := fun p => p.1.thread.isNone = true ∧
      p.2 = [.started true, .took, .cancelled, .ended]) (by decide +kernel) ?_
    rintro s es h ⟨hthread, hes⟩
    rw [show es = [.started true, .took, .cancelled, .ended] from hes] at h
    have hstopped := (hsound _ _ s _ rfl (by simp [Exporter.Label.noStart]) h).2 [.took] [.ended] rfl
    exact ⟨hthread, hstopped (by rw [hlen]; decide)⟩

end Kist
