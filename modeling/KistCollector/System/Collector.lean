import KistCollector.Common.Counters
import KistCollector.System.DataCollector

/-!
# The collector over its sessions

`DataCollector` with the counters of its recorders and what `print_report` remembers of them, under any
sequence of `start`, `print_report` and `stop` with any numbers of records in between
(`Collector.machine`). Forgetting the counters gives the collector whose `start` is
`DataCollector.start` (`Collector.forget_start`). In every phase `start` and `stop` handle every kind of
stream (`Collector.lifecycle`).
-/

namespace Kist

/-- One entry of the summary that `session_finalize_meta` appends. -/
structure StreamSummary where
  source : List Char
  stream : List Char
  stats : StreamStats
  deriving DecidableEq

deriving instance DecidableEq for SessionInfo

/-- A camera that records. -/
structure CameraRecorder where
  attempt : Attempt
  name : List Char
  color : StreamStats := {}
  depth : StreamStats := {}

/-- A recorder of rows that records. The label of a hand is its side, that of a body command the stem of
its file; the others have none. -/
structure StreamRecorder where
  attempt : Attempt
  label : List Char := []
  stats : StreamStats := {}

def CameraRecorder.grow (r : CameraRecorder) (color depth : StreamStats) : CameraRecorder :=
  { r with color := r.color.add color, depth := r.depth.add depth }

def StreamRecorder.grow (r : StreamRecorder) (d : StreamStats) : StreamRecorder :=
  { r with stats := r.stats.add d }

structure CamLast where
  cRx : UInt64 := 0
  cWr : UInt64 := 0
  dRx : UInt64 := 0
  dWr : UInt64 := 0

/-- The counters of a stream in the previous window. -/
structure Last where
  rx : UInt64 := 0
  wr : UInt64 := 0
  deriving DecidableEq, Repr

def CamLast.color (l : CamLast) : Last := ⟨l.cRx, l.cWr⟩

def CamLast.depth (l : CamLast) : Last := ⟨l.dRx, l.dWr⟩

def CamLast.of (r : CameraRecorder) : CamLast where
  cRx := .ofNat r.color.received
  cWr := .ofNat r.color.written
  dRx := .ofNat r.depth.received
  dWr := .ofNat r.depth.written

def Last.of (stats : StreamStats) : Last where
  rx := .ofNat stats.received
  wr := .ofNat stats.written

/-- Where a collector keeps a recorder of rows. -/
inductive Row where
  | lowstate
  | hand (i : Nat)
  | uwb
  | bodyCmd (i : Nat)
  | handCmd (i : Nat)
  | motionToken
  deriving DecidableEq, Repr

inductive Place where
  | camera (i : Nat)
  | row (x : Row)
  deriving DecidableEq, Repr

inductive Stream where
  | color (i : Nat)
  | depth (i : Nat)
  | row (x : Row)
  deriving DecidableEq, Repr

/-- The recorder of a stream. -/
def Stream.place : Stream → Place
  | .color i => .camera i
  | .depth i => .camera i
  | .row x => .row x

def Stream.isRow : Stream → Bool
  | .row _ => true
  | _ => false

/-- What one report shows of a stream: the differences, and the counters they were taken of. `last` is
what it subtracted. -/
structure ReportLine where
  name : List Char
  stream : Stream
  rx : UInt64
  wr : UInt64
  last : Last
  stats : StreamStats
  deriving DecidableEq, Repr

structure Collector where
  running : Bool := false
  session : SessionInfo := {}
  cameras : List CameraRecorder := []
  lowstate : Option StreamRecorder := none
  hands : List StreamRecorder := []
  uwb : Option StreamRecorder := none
  bodyCmds : List StreamRecorder := []
  handCmds : List StreamRecorder := []
  motionToken : Option StreamRecorder := none
  lastCam : List CamLast := []
  lastLs : Last := {}
  lastUw : Last := {}
  lastHand : List Last := []
  lastBodyCmd : List Last := []
  lastHandCmd : List Last := []
  lastMt : Last := {}

namespace Collector

open DataCollector (Env Settings sides startCameras startLowstate startHands startUwb startBodyCmds
  startHandCmds startMotionToken attempts creates sessionPath)

/-- What is seen from outside. `started` comes with the names of the cameras that started. -/
inductive Event where
  | started (session : SessionInfo) (cameras : List (List Char))
  | reported (lines : List ReportLine)
  | outOfRange
  | stopped (p : Place)
  | read (x : Stream) (stats : StreamStats)
  | finalized (session : SessionInfo) (summary : List StreamSummary)
  deriving DecidableEq

def Event.read? : Event → Option (Stream × StreamStats)
  | .read x stats => some (x, stats)
  | _ => none

/-! ## `start` -/

/-- The attempts that succeeded, each with its name. -/
def kept (names : List (List Char)) (as : List Attempt) : List (List Char × Attempt) :=
  (names.zip as).filter (·.2.started)

def labelled (names : List (List Char)) (as : List Attempt) : List StreamRecorder :=
  (kept names as).map fun (label, a) => { attempt := a, label := label }

def unlabelled (as : List Attempt) : Option StreamRecorder :=
  (as.filter (·.started)).head?.map fun a => { attempt := a }

/-- The labels of the body commands that are enabled. -/
def bodyCmdLabels (settings : Settings) : List (List Char) :=
  [(settings.lowcmdEnabled, "lowcmd.csv".toList), (settings.armSdkEnabled, "arm_sdk.csv".toList)].filter
    Prod.fst |>.map fun (_, csv) => PosixPath.stem csv

def hasStreams (s : Collector) : Bool :=
  !(s.cameras.isEmpty && s.lowstate.isNone && s.hands.isEmpty && s.uwb.isNone &&
    s.bodyCmds.isEmpty && s.handCmds.isEmpty && s.motionToken.isNone)

def keepStarted (env : Env) (settings : Settings) (sessionDir : PosixPath) (s : Collector) :
    Collector :=
  { s with
    cameras := s.cameras ++ (kept settings.cameras (startCameras env settings sessionDir)).map
      fun (name, a) => { attempt := a, name := name }
    lowstate := if settings.lowstateEnabled then
      unlabelled (startLowstate env settings sessionDir) else s.lowstate
    hands := s.hands ++ labelled sides (startHands env settings sessionDir)
    uwb := if settings.uwbEnabled then unlabelled (startUwb env settings sessionDir) else s.uwb
    bodyCmds := s.bodyCmds ++
      labelled (bodyCmdLabels settings) (startBodyCmds env settings sessionDir)
    handCmds := s.handCmds ++ labelled sides (startHandCmds env settings sessionDir)
    motionToken := if settings.motionTokenEnabled then
      unlabelled (startMotionToken env settings sessionDir) else s.motionToken }

/-- The end of a `start` that succeeds. The remembered counters of `lowstate`, `uwb` and `motion_token`
stay. -/
def resetLast (s : Collector) : Collector :=
  { s with
    lastCam := List.replicate s.cameras.length {}
    lastHand := List.replicate s.hands.length {}
    lastBodyCmd := List.replicate s.bodyCmds.length {}
    lastHandCmd := List.replicate s.handCmds.length {} }

def start (env : Env) (settings : Settings) (s : Collector) : Bool × Collector × List Event :=
  if s.running then (true, s, [])
  else if settings.recordsNothing then (false, s, [])
  else
    let session :=
      sessionCreate env.localtime env.createDirectories env.nowNs settings.outputDir
    let s := { s with session := session }
    if session.dir.isEmpty then (false, s, [])
    else
      let s := s.keepStarted env settings session.dir
      if s.hasStreams then
        let started := (kept settings.cameras (startCameras env settings session.dir)).map Prod.fst
        (true, { s.resetLast with running := true }, [.started session started])
      else (false, s, [])

/-! ## `print_report` -/

def line (name : List Char) (x : Stream) (stats : StreamStats) (last : Last) : ReportLine where
  name := name
  stream := x
  rx := .ofNat stats.received - last.rx
  wr := .ofNat stats.written - last.wr
  last := last
  stats := stats

def cameraLines (i : Nat) (r : CameraRecorder) (l : CamLast) : List ReportLine :=
  [line r.name (.color i) r.color l.color, line r.name (.depth i) r.depth l.depth]

def rowLines (x : Row) (name : List Char) (r : StreamRecorder) (l : Last) : List ReportLine :=
  [line name (.row x) r.stats l]

/-- The loop over a list of recorders from index `i` on, with what was remembered of them: the lines
shown, and what is remembered now. `none`: it indexes past the end. -/
def reportLoop {ρ τ : Type} (lines : Nat → ρ → τ → List ReportLine) (now : ρ → τ) (i : Nat) :
    List ρ → List τ → Option (List ReportLine × List τ)
  | [], last => some ([], last)
  | _ :: _, [] => none
  | r :: rs, l :: last => do
    let (shown, last) ← reportLoop lines now (i + 1) rs last
    some (lines i r l ++ shown, now r :: last)

/-- The same for a recorder that need not be there. -/
def reportOne (x : Row) (name : List Char) : Option StreamRecorder → Last → List ReportLine × Last
  | none, l => ([], l)
  | some r, l => (rowLines x name r l, .of r.stats)

/-- The lines of a report, and the collector afterwards. `none`: an index is out of range. -/
def printReport (s : Collector) : Option (List ReportLine × Collector) := do
  let (camera, lastCam) ← reportLoop cameraLines CamLast.of 0 s.cameras s.lastCam
  let (lowstate, lastLs) := reportOne .lowstate "lowstate".toList s.lowstate s.lastLs
  let (uwb, lastUw) := reportOne .uwb "uwb".toList s.uwb s.lastUw
  let (hand, lastHand) ← reportLoop (fun i r => rowLines (.hand i) ("hand_".toList ++ r.label) r)
    (fun r => .of r.stats) 0 s.hands s.lastHand
  let (bodyCmd, lastBodyCmd) ← reportLoop (fun i r => rowLines (.bodyCmd i) r.label r)
    (fun r => .of r.stats) 0 s.bodyCmds s.lastBodyCmd
  let (handCmd, lastHandCmd) ← reportLoop (fun i r => rowLines (.handCmd i) ("cmd_".toList ++ r.label) r)
    (fun r => .of r.stats) 0 s.handCmds s.lastHandCmd
  let (motionToken, lastMt) :=
    reportOne .motionToken "motion_token".toList s.motionToken s.lastMt
  some (camera ++ (lowstate ++ uwb ++ hand ++ bodyCmd ++ handCmd ++ motionToken),
    { s with
      lastCam := lastCam
      lastLs := lastLs
      lastUw := lastUw
      lastHand := lastHand
      lastBodyCmd := lastBodyCmd
      lastHandCmd := lastHandCmd
      lastMt := lastMt })

/-! ## `stop` -/

/-- The recorders of rows, in the order in which `stop` takes them. -/
def rows (s : Collector) : List (Row × StreamRecorder) :=
  s.lowstate.toList.map (.lowstate, ·) ++ s.hands.mapIdx (.hand ·, ·) ++
    s.uwb.toList.map (.uwb, ·) ++ s.bodyCmds.mapIdx (.bodyCmd ·, ·) ++
    s.handCmds.mapIdx (.handCmd ·, ·) ++ s.motionToken.toList.map (.motionToken, ·)

/-- Source and stream of a recorder of rows in the summary. -/
def summaryKey : Row → List Char → List Char × List Char
  | .lowstate, _ => ("unitree".toList, "lowstate".toList)
  | .hand _, side => ("dex3".toList, "hand_".toList ++ side)
  | .uwb, _ => ("uwb".toList, "position".toList)
  | .bodyCmd _, label => ("unitree".toList, label)
  | .handCmd _, side => ("dex3".toList, "hand_cmd_".toList ++ side)
  | .motionToken, _ => ("gearsonic".toList, "motion_token".toList)

/-- A recorder whose `stop` has returned, and the entries then made of its counters. -/
structure Stopped where
  place : Place
  entries : List (Stream × StreamSummary)

def Stopped.events (t : Stopped) : List Event :=
  .stopped t.place :: t.entries.map fun p => .read p.1 p.2.stats

section

variable (drain : Stream → StreamStats)

/-- Until its `stop` returns, a recorder goes on counting what is in its queues. -/
def stopCamera (i : Nat) (r : CameraRecorder) : Stopped :=
  let r := r.grow (drain (.color i)) (drain (.depth i))
  { place := .camera i
    entries := [(.color i, ⟨r.name, "color".toList, r.color⟩),
      (.depth i, ⟨r.name, "depth".toList, r.depth⟩)] }

def stopRow (p : Row × StreamRecorder) : Stopped :=
  let r := p.2.grow (drain (.row p.1))
  let key := summaryKey p.1 r.label
  { place := .row p.1
    entries := [(.row p.1, ⟨key.1, key.2, r.stats⟩)] }

def stopAll (s : Collector) : List Stopped :=
  s.cameras.mapIdx (stopCamera drain) ++ s.rows.map (stopRow drain)

def stop (s : Collector) : Collector × List Event :=
  if s.running then
    let stopped := s.stopAll drain
    let summary := (stopped.flatMap Stopped.entries).map Prod.snd
    ({ s with
        cameras := []
        lowstate := none
        hands := []
        uwb := none
        bodyCmds := []
        handCmds := []
        motionToken := none
        running := false },
      stopped.flatMap Stopped.events ++ [.finalized s.session summary])
  else (s, [])

end

/-! ## Runs -/

/-- Every recorder counts some more. -/
def arrive (more : Stream → StreamStats) (s : Collector) : Collector :=
  { s with
    cameras := s.cameras.mapIdx fun i r => r.grow (more (.color i)) (more (.depth i))
    lowstate := s.lowstate.map (·.grow (more (.row .lowstate)))
    hands := s.hands.mapIdx fun i r => r.grow (more (.row (.hand i)))
    uwb := s.uwb.map (·.grow (more (.row .uwb)))
    bodyCmds := s.bodyCmds.mapIdx fun i r => r.grow (more (.row (.bodyCmd i)))
    handCmds := s.handCmds.mapIdx fun i r => r.grow (more (.row (.handCmd i)))
    motionToken := s.motionToken.map (·.grow (more (.row .motionToken))) }

/-- `arrive` stands for whatever the recorders do between two calls, and what they do while a report
reads one after another. -/
inductive Label where
  | start (env : Env) (settings : Settings)
  | arrive (more : Stream → StreamStats)
  | report
  | stop (drain : Stream → StreamStats)

/-- One collector under any sequence of calls. -/
def machine : Machine Collector Label Event where
  step s
    | .start env settings => some (s.start env settings).2
    | .arrive more => some (s.arrive more, [])
    | .report =>
      match s.printReport with
      | some (lines, s') => some (s', [.reported lines])
      | none => some (s, [.outOfRange])
    | .stop drain => some (s.stop drain)

/-- What one step of a collector can do. -/
inductive Step (s : Collector) : Label → Collector → List Event → Prop
  | start : Step s (.start env settings) (s.start env settings).2.1 (s.start env settings).2.2
  | arrive : Step s (.arrive more) (s.arrive more) []
  | report : s.printReport = some (lines, s') → Step s .report s' [.reported lines]
  | outOfRange : s.printReport = none → Step s .report s [.outOfRange]
  | stop : Step s (.stop drain) (s.stop drain).1 (s.stop drain).2

variable {s s' : Collector}

theorem Step.of_step (h : machine.step s l = some (s', es)) : Step s l s' es := by
  cases l with
  | start env settings =>
    obtain ⟨rfl, rfl⟩ := Prod.mk.inj (Option.some.inj h)
    exact .start
  | arrive more =>
    obtain ⟨rfl, rfl⟩ := Prod.mk.inj (Option.some.inj h)
    exact .arrive
  | report =>
    cases hr : s.printReport with
    | none =>
      simp only [machine, hr] at h
      cases h
      exact .outOfRange hr
    | some p =>
      simp only [machine, hr] at h
      cases h
      exact .report hr
  | stop drain =>
    obtain ⟨rfl, rfl⟩ := Prod.mk.inj (Option.some.inj h)
    exact .stop

/-! ## What is alive -/

def row? (s : Collector) : Row → Option StreamRecorder
  | .lowstate => s.lowstate
  | .hand i => s.hands[i]?
  | .uwb => s.uwb
  | .bodyCmd i => s.bodyCmds[i]?
  | .handCmd i => s.handCmds[i]?
  | .motionToken => s.motionToken

/-- The counters of a stream; `none` where no recorder has it. -/
def stats? (s : Collector) : Stream → Option StreamStats
  | .color i => s.cameras[i]?.map (·.color)
  | .depth i => s.cameras[i]?.map (·.depth)
  | .row x => (s.row? x).map (·.stats)

/-- No recorder is alive. -/
structure Dead (s : Collector) : Prop where
  cameras : s.cameras = []
  lowstate : s.lowstate = none
  hands : s.hands = []
  uwb : s.uwb = none
  bodyCmds : s.bodyCmds = []
  handCmds : s.handCmds = []
  motionToken : s.motionToken = none

theorem Dead.stats? (h : Dead s) (x : Stream) : s.stats? x = none := by
  obtain ⟨h1, h2, h3, h4, h5, h6, h7⟩ := h
  rcases x with i | i | x
  · simp [Collector.stats?, h1]
  · simp [Collector.stats?, h1]
  · cases x <;> simp [Collector.stats?, row?, h2, h3, h4, h5, h6, h7]

theorem dead_of_not_hasStreams (h : s.hasStreams = false) : Dead s := by
  simp only [hasStreams, Bool.not_eq_false', Bool.and_eq_true, List.isEmpty_iff,
    Option.isNone_iff_eq_none] at h
  obtain ⟨⟨⟨⟨⟨⟨h1, h2⟩, h3⟩, h4⟩, h5⟩, h6⟩, h7⟩ := h
  exact ⟨h1, h2, h3, h4, h5, h6, h7⟩

/-! ## Without the counters -/

def forget (s : Collector) : DataCollector where
  running := s.running
  session := s.session
  cameras := s.cameras.map (·.attempt)
  lowstate := s.lowstate.map (·.attempt)
  hands := s.hands.map (·.attempt)
  uwb := s.uwb.map (·.attempt)
  bodyCmds := s.bodyCmds.map (·.attempt)
  handCmds := s.handCmds.map (·.attempt)
  motionToken := s.motionToken.map (·.attempt)

theorem map_kept (h : as.length ≤ names.length) :
    (kept names as).map Prod.snd = as.filter (·.started) := by
  conv_rhs => rw [← List.map_snd_zip h, List.filter_map]
  rfl

theorem map_labelled (h : as.length ≤ names.length) :
    (labelled names as).map (·.attempt) = as.filter (·.started) := by
  rw [labelled, List.map_map, ← map_kept h]
  rfl

theorem map_unlabelled (as : List Attempt) :
    (unlabelled as).map (·.attempt) = (as.filter (·.started)).head? := by
  rw [unlabelled, Option.map_map]
  exact Option.map_id'

@[simp] theorem hasStreams_forget (s : Collector) : s.forget.hasStreams = s.hasStreams := by
  simp [forget, hasStreams, DataCollector.hasStreams]

section

variable {env : Env} {settings : Settings} {sessionDir : PosixPath}

theorem length_startHands_le : (startHands env settings sessionDir).length ≤ sides.length := by
  unfold startHands; split <;> simp

theorem length_startHandCmds_le :
    (startHandCmds env settings sessionDir).length ≤ sides.length := by
  unfold startHandCmds; split <;> simp

theorem length_startBodyCmds :
    (startBodyCmds env settings sessionDir).length = (bodyCmdLabels settings).length := by
  simp [startBodyCmds, bodyCmdLabels]

theorem forget_keepStarted (s : Collector) :
    (s.keepStarted env settings sessionDir).forget =
      s.forget.keepStarted env settings sessionDir := by
  have hcameras : (startCameras env settings sessionDir).length ≤ settings.cameras.length := by
    simp [startCameras]
  simp only [keepStarted, forget, DataCollector.keepStarted, List.map_append,
    map_labelled length_startHands_le, map_labelled length_startHandCmds_le,
    map_labelled length_startBodyCmds.le, apply_ite (Option.map _), map_unlabelled,
    ← map_kept hcameras, List.map_map]
  rfl

end

/-- `start` with its counters forgotten is `start`. -/
theorem forget_start (env : Env) (settings : Settings) (s : Collector) :
    (s.start env settings).1 = (s.forget.start env settings).1 ∧
    (s.start env settings).2.1.forget = (s.forget.start env settings).2.1 := by
  have hsession (session : SessionInfo) :
      { s.forget with session := session } = forget { s with session := session } := rfl
  simp only [start, DataCollector.start, hsession, ← forget_keepStarted, hasStreams_forget]
  have hrunning : s.forget.running = s.running := rfl
  rw [hrunning]
  split_ifs <;> exact ⟨rfl, rfl⟩

/-- What a `start` on an idle collector returns, and what runs afterwards. -/
theorem start_idle (env : Env) (settings : Settings) (session : SessionInfo) :
    ((DataCollector.start env settings { session := session }).1 = true ↔
      creates env settings = true ∧
        ∃ a ∈ attempts env settings (sessionPath env settings), a.started = true) ∧
    (creates env settings = true →
      (DataCollector.start env settings { session := session }).2.1.recorders =
        (attempts env settings (sessionPath env settings)).filter (·.started)) := by
  have hsame : (DataCollector.start env settings { session := session }).1 =
      (DataCollector.start env settings {}).1 := by
    simp only [DataCollector.start]
    split_ifs <;> rfl
  rw [hsame]
  cases hc : creates env settings with
  | false => simp [(DataCollector.start_of_not_creates hc).2.2]
  | true =>
    refine ⟨by simp [(DataCollector.start_of_creates hc).2.2], fun _ => ?_⟩
    simp only [creates, Bool.and_eq_true, Bool.not_eq_true'] at hc
    have hdir := DataCollector.sessionCreate_dir env settings
    rw [if_pos hc.2] at hdir
    have hne : (sessionPath env settings).isEmpty = false := by
      simpa using DataCollector.sessionPath_ne_nil env settings
    simp only [DataCollector.start, hc.1, hdir, hne, Bool.false_eq_true, if_false]
    split_ifs <;> exact DataCollector.recorders_keepStarted env settings _ _

/-! ## The invariant -/

/-- A collector that does not run has no recorder, and its recorders are the ones it knows. -/
structure Inv (s : Collector) : Prop where
  dead : s.running = false → Dead s
  hands : (s.hands.map (·.label)).Sublist sides
  bodyCmds : (s.bodyCmds.map (·.label)).Sublist ["lowcmd".toList, "arm_sdk".toList]
  handCmds : (s.handCmds.map (·.label)).Sublist sides

theorem Inv.of_dead (h : Dead s) : Inv s where
  dead _ := h
  hands := by simp [h.hands]
  bodyCmds := by simp [h.bodyCmds]
  handCmds := by simp [h.handCmds]

theorem kept_sublist (names : List (List Char)) (as : List Attempt) :
    ((kept names as).map Prod.fst).Sublist names := by
  have hzip : ((names.zip as).map Prod.fst).Sublist names := by
    induction names generalizing as with
    | nil => simp
    | cons n names ih =>
      cases as with
      | nil => simp
      | cons a as => exact (ih as).cons_cons n
  exact (List.filter_sublist.map _).trans hzip

theorem labels_sublist (names : List (List Char)) (as : List Attempt) :
    ((labelled names as).map (·.label)).Sublist names := by
  rw [labelled, List.map_map]
  exact kept_sublist names as

theorem bodyCmdLabels_sublist (settings : Settings) :
    (bodyCmdLabels settings).Sublist ["lowcmd".toList, "arm_sdk".toList] := by
  have hall : ∀ a b, ([(a, "lowcmd.csv".toList), (b, "arm_sdk.csv".toList)].filter Prod.fst |>.map
      fun (_, csv) => PosixPath.stem csv).Sublist ["lowcmd".toList, "arm_sdk".toList] := by
    decide
  exact hall _ _

/-- What a `start` can do: nothing on a collector that runs; fail, with nothing alive; or begin. -/
theorem start_cases (env : Env) (settings : Settings) (s : Collector) :
    (s.running = true ∧ s.start env settings = (true, s, [])) ∨
    (s.running = false ∧ ∃ s', s.start env settings = (false, s', []) ∧ s'.running = false ∧
      (Dead s → Dead s')) ∨
    (s.running = false ∧ ∃ session started, s.start env settings =
      (true, { (keepStarted env settings session.dir
          { s with session := session }).resetLast with running := true },
        [.started session started])) := by
  cases h1 : s.running with
  | true => exact .inl ⟨rfl, if_pos h1⟩
  | false =>
    simp only [start]
    rw [if_neg (by simp [h1])]
    split_ifs with h2 h3 h4
    · exact .inr (.inl ⟨trivial, s, rfl, h1, id⟩)
    · exact .inr (.inl ⟨trivial, _, rfl, h1, fun ⟨a, b, c, d, e, f, g⟩ => ⟨a, b, c, d, e, f, g⟩⟩)
    · exact .inr (.inr ⟨trivial, _, _, rfl⟩)
    · exact .inr (.inl ⟨trivial, _, rfl, h1, fun _ => dead_of_not_hasStreams (by simpa using h4)⟩)

theorem Inv.start (h : Inv s) (env : Env) (settings : Settings) :
    Inv (s.start env settings).2.1 := by
  obtain ⟨-, heq⟩ | ⟨hrun, s', heq, -, hdead⟩ | ⟨hrun, session, started, heq⟩ :=
    start_cases env settings s
  · rw [heq]
    exact h
  · rw [heq]
    exact .of_dead (hdead (h.dead hrun))
  · rw [heq]
    have hd := h.dead hrun
    refine ⟨nofun, ?_, ?_, ?_⟩
    · simpa [resetLast, keepStarted, hd.hands] using labels_sublist _ _
    · simpa [resetLast, keepStarted, hd.bodyCmds] using
        (labels_sublist _ _).trans (bodyCmdLabels_sublist settings)
    · simpa [resetLast, keepStarted, hd.handCmds] using labels_sublist _ _

theorem map_label_mapIdx (f : Nat → StreamStats) (rs : List StreamRecorder) :
    (rs.mapIdx fun i r => r.grow (f i)).map (·.label) = rs.map (·.label) := by
  apply List.ext_getElem <;> simp [StreamRecorder.grow]

theorem Dead.arrive (h : Dead s) (more : Stream → StreamStats) : Dead (s.arrive more) := by
  obtain ⟨h1, h2, h3, h4, h5, h6, h7⟩ := h
  constructor <;> simp [Collector.arrive, *]

theorem Inv.arrive (h : Inv s) (more : Stream → StreamStats) : Inv (s.arrive more) where
  dead hr := (h.dead hr).arrive more
  hands := by simpa only [Collector.arrive, map_label_mapIdx] using h.hands
  bodyCmds := by simpa only [Collector.arrive, map_label_mapIdx] using h.bodyCmds
  handCmds := by simpa only [Collector.arrive, map_label_mapIdx] using h.handCmds

/-- A report changes what is remembered, and nothing else. -/
theorem printReport_frame (h : s.printReport = some (lines, s')) :
    ∃ cam ls uw hand bodyCmd handCmd mt, s' =
      { s with
        lastCam := cam
        lastLs := ls
        lastUw := uw
        lastHand := hand
        lastBodyCmd := bodyCmd
        lastHandCmd := handCmd
        lastMt := mt } := by
  simp only [printReport, Option.bind_eq_bind, Option.bind_eq_some_iff, Option.some.injEq,
    Prod.mk.injEq] at h
  obtain ⟨_, -, _, -, _, -, _, -, -, rfl⟩ := h
  exact ⟨_, _, _, _, _, _, _, rfl⟩

theorem stop_of_running (h : s.running = true) (drain : Stream → StreamStats) :
    (s.stop drain).2 = (s.stopAll drain).flatMap Stopped.events ++ [.finalized s.session
      (((s.stopAll drain).flatMap Stopped.entries).map Prod.snd)] ∧
    Dead (s.stop drain).1 ∧ (s.stop drain).1.running = false := by
  rw [stop, if_pos h]
  exact ⟨rfl, ⟨rfl, rfl, rfl, rfl, rfl, rfl, rfl⟩, rfl⟩

theorem stop_of_not_running (h : s.running = false) (drain : Stream → StreamStats) :
    s.stop drain = (s, []) := if_neg (by simp [h])

theorem Inv.step (h : Inv s) (hs : Step s l s' es) : Inv s' := by
  cases hs with
  | start => exact h.start _ _
  | arrive => exact h.arrive _
  | report hr =>
    obtain ⟨_, _, _, _, _, _, _, rfl⟩ := printReport_frame hr
    refine ⟨fun hrun => ?_, h.hands, h.bodyCmds, h.handCmds⟩
    obtain ⟨h1, h2, h3, h4, h5, h6, h7⟩ := h.dead hrun
    exact ⟨h1, h2, h3, h4, h5, h6, h7⟩
  | outOfRange => exact h
  | stop =>
    cases hrun : s.running with
    | true => exact .of_dead (stop_of_running hrun _).2.1
    | false =>
      rw [stop_of_not_running hrun]
      exact h

theorem Inv.of_run (h : machine.run {} ls = some (s, es)) : Inv s :=
  Machine.invariant (P := fun _ s => Inv s) (.of_dead ⟨rfl, rfl, rfl, rfl, rfl, rfl, rfl⟩)
    (fun hi hs => hi.step (.of_step hs)) h

/-! ## The summary -/

theorem map_mapIdx {f : Nat → α → β} {g : β → γ} {h : Nat → γ} (H : ∀ i a, g (f i a) = h i)
    (as : List α) : (as.mapIdx f).map g = (List.range as.length).map h := by
  apply List.ext_getElem <;> simp [H]

theorem mem_rows {x : Row} {r : StreamRecorder} : (x, r) ∈ s.rows ↔ s.row? x = some r := by
  simp only [rows, List.mem_append, List.mem_map, List.mem_mapIdx, Option.mem_toList,
    Prod.mk.injEq]
  cases x <;> simp [row?, List.getElem?_eq_some_iff]

theorem map_fst_rows (s : Collector) : s.rows.map Prod.fst =
    s.lowstate.toList.map (fun _ => .lowstate) ++ (List.range s.hands.length).map .hand ++
      s.uwb.toList.map (fun _ => .uwb) ++ (List.range s.bodyCmds.length).map .bodyCmd ++
      (List.range s.handCmds.length).map .handCmd ++ s.motionToken.toList.map fun _ => .motionToken := by
  have hlist (f : Nat → Row) (rs : List StreamRecorder) :
      (rs.mapIdx (f ·, ·)).map Prod.fst = (List.range rs.length).map f :=
    map_mapIdx (f := fun i r => (f i, r)) (fun _ _ => rfl) rs
  simp only [rows, List.map_append, List.map_map, hlist]
  rfl

/-- `stop` takes every recorder of rows once. -/
theorem nodup_rows (s : Collector) : (s.rows.map Prod.fst).Nodup := by
  have hone (o : Option StreamRecorder) (x : Row) : (o.toList.map fun _ => x).Nodup := by
    cases o <;> simp
  have hlist (f : Nat → Row) (hf : Function.Injective f) (n : Nat) :
      ((List.range n).map f).Nodup := List.nodup_range.map hf
  rw [map_fst_rows]
  simp only [List.nodup_append, hone, hlist Row.hand (fun _ _ => Row.hand.inj),
    hlist Row.bodyCmd (fun _ _ => Row.bodyCmd.inj), hlist Row.handCmd (fun _ _ => Row.handCmd.inj),
    List.mem_append, List.mem_map]
  grind

/-- The summary has no two entries of rows for one source and stream. -/
theorem nodup_summaryKey (h : Inv s) :
    (s.rows.map fun p => summaryKey p.1 p.2.label).Nodup := by
  let key (source pre : String) (label : List Char) := (source.toList, pre.toList ++ label)
  have hlist (f : Nat → Row) (source pre : String) (rs : List StreamRecorder)
      (names : List (List Char)) (hkey : ∀ i l, summaryKey (f i) l = key source pre l)
      (hrs : (rs.map (·.label)).Sublist names) :
      ((rs.mapIdx (f ·, ·)).map fun p => summaryKey p.1 p.2.label).Sublist
        (names.map (key source pre)) := by
    have hmap : (rs.mapIdx (f ·, ·)).map (fun p => summaryKey p.1 p.2.label) =
        (rs.map (·.label)).map (key source pre) := by
      apply List.ext_getElem <;> simp [hkey]
    rw [hmap]
    exact hrs.map _
  have hone (x : Row) (k : List Char × List Char) (hkey : ∀ l, summaryKey x l = k)
      (o : Option StreamRecorder) :
      ((o.toList.map (x, ·)).map fun p => summaryKey p.1 p.2.label).Sublist [k] := by
    cases o <;> simp [hkey]
  have hall := ((((hone .lowstate _ (fun _ => rfl) s.lowstate).append
    (hlist .hand "dex3" "hand_" s.hands _ (fun _ _ => rfl) h.hands)).append
    (hone .uwb _ (fun _ => rfl) s.uwb)).append
    (hlist .bodyCmd "unitree" "" s.bodyCmds _ (fun _ _ => rfl) h.bodyCmds)).append
    (hlist .handCmd "dex3" "hand_cmd_" s.handCmds _ (fun _ _ => rfl) h.handCmds) |>.append
    (hone .motionToken _ (fun _ => rfl) s.motionToken)
  simp only [rows, List.map_append]
  exact hall.nodup (by decide)

/-- All streams, in the order of the summary. -/
def streams (s : Collector) : List Stream :=
  (List.range s.cameras.length).flatMap (fun i => [.color i, .depth i]) ++
    s.rows.map fun p => .row p.1

theorem mem_streams {x : Stream} : x ∈ s.streams ↔ (s.stats? x).isSome = true := by
  rcases x with i | i | x
  · simp [streams, stats?]
  · simp [streams, stats?]
  · simp [streams, stats?, mem_rows, Option.isSome_iff_exists]

theorem nodup_streams (s : Collector) : s.streams.Nodup := by
  rw [streams, List.nodup_append]
  refine ⟨?_, ?_, ?_⟩
  · rw [List.nodup_flatMap]
    refine ⟨fun i _ => by simp, List.nodup_range.imp fun {i j} hij => ?_⟩
    simp [Function.onFun, hij.symm]
  · have hrows := s.nodup_rows.map (f := Stream.row) fun _ _ => Stream.row.inj
    rw [List.map_map] at hrows
    exact hrows
  · simp only [List.mem_flatMap, List.mem_map]
    rintro a ⟨i, -, ha⟩ b ⟨p, -, rfl⟩ rfl
    simp at ha

theorem entries_stopAll (drain : Stream → StreamStats) (s : Collector) :
    ((s.stopAll drain).flatMap Stopped.entries).map Prod.fst = s.streams := by
  have hcameras : (s.cameras.mapIdx (stopCamera drain)).map (fun t => t.entries.map Prod.fst) =
      (List.range s.cameras.length).map fun i => [.color i, .depth i] :=
    map_mapIdx (f := stopCamera drain) (fun _ _ => rfl) s.cameras
  have hrows : (s.rows.map (stopRow drain)).flatMap (fun t => t.entries.map Prod.fst) =
      s.rows.map fun p => .row p.1 := by
    rw [List.flatMap_map]
    exact List.map_eq_flatMap.symm
  rw [List.map_flatMap, stopAll, List.flatMap_append, hrows, List.flatMap_def, hcameras, streams,
    List.flatMap_def]

/-- The streams of a recorder that is alive: two of a camera, one of any other. -/
def streamsAt (s : Collector) : Place → List Stream
  | .camera i => if i < s.cameras.length then [.color i, .depth i] else []
  | .row x => if (s.row? x).isSome then [.row x] else []

theorem mem_streamsAt {x : Stream} {p : Place} :
    x ∈ s.streamsAt p ↔ (s.stats? x).isSome = true ∧ x.place = p := by
  cases p with
  | camera i =>
    simp only [streamsAt, List.mem_ite_nil_right, List.mem_cons, List.not_mem_nil, or_false]
    rcases x with j | j | x <;> simp [stats?, Stream.place] <;> grind
  | row y =>
    simp only [streamsAt, List.mem_ite_nil_right, List.mem_singleton]
    rcases x with j | j | x <;> simp [stats?, Stream.place]
    grind

theorem streams_filter (s : Collector) (p : Place) :
    (s.streams.filter (·.place = p)).Perm (s.streamsAt p) := by
  have hnodup : (s.streamsAt p).Nodup := by
    cases p <;> simp only [streamsAt] <;> split <;> simp
  rw [List.perm_ext_iff_of_nodup (s.nodup_streams.filter _) hnodup]
  intro x
  rw [List.mem_filter, mem_streams, decide_eq_true_iff, mem_streamsAt]

/-- The entries that a `stop` makes: for every recorder that is alive those of its streams, with the
counters they have when that recorder is stopped; and for no two recorders of rows one source and
stream. `es` is what happens before the summary is written. -/
structure Summarizes (s : Collector) (drain : Stream → StreamStats) (es : List Event)
    (entries : List (Stream × StreamSummary)) : Prop where
  streams : ∀ p, ((entries.map Prod.fst).filter (·.place = p)).Perm (s.streamsAt p)
  final : ∀ p ∈ entries, (s.stats? p.1).map (·.add (drain p.1)) = some p.2.stats
  keys : ((entries.filter (·.1.isRow)).map fun p => (p.2.source, p.2.stream)).Nodup
  reads : seen Event.read? es = entries.map fun p => (p.1, p.2.stats)
  order : ∀ p ∈ entries, [.stopped p.1.place, .read p.1 p.2.stats].Sublist es

/-- What stands in the summary: two entries of a camera, one of a recorder of rows, made of the counters
after its own drain. -/
theorem mem_stopAll {drain : Stream → StreamStats} (ht : t ∈ s.stopAll drain) (hp : p ∈ t.entries) :
    (∃ i r, s.cameras[i]? = some r ∧ t.place = .camera i ∧
      (p = (.color i, ⟨r.name, "color".toList, r.color.add (drain (.color i))⟩) ∨
        p = (.depth i, ⟨r.name, "depth".toList, r.depth.add (drain (.depth i))⟩))) ∨
    ∃ x r, s.row? x = some r ∧ t.place = .row x ∧
      p = (.row x, ⟨(summaryKey x r.label).1, (summaryKey x r.label).2,
        r.stats.add (drain (.row x))⟩) := by
  rcases List.mem_append.mp ht with ht | ht
  · obtain ⟨i, hi, rfl⟩ := List.mem_mapIdx.mp ht
    simp only [stopCamera, List.mem_cons, List.not_mem_nil, or_false] at hp
    exact .inl ⟨i, s.cameras[i], List.getElem?_eq_getElem hi, rfl, hp⟩
  · obtain ⟨⟨x, r⟩, hr, rfl⟩ := List.mem_map.mp ht
    exact .inr ⟨x, r, mem_rows.mp hr, rfl, List.mem_singleton.mp hp⟩

theorem map_key_stopAll (drain : Stream → StreamStats) (s : Collector) :
    (((s.stopAll drain).flatMap Stopped.entries).filter (·.1.isRow)).map
      (fun p => (p.2.source, p.2.stream)) = s.rows.map fun p => summaryKey p.1 p.2.label := by
  have hcameras : ((s.cameras.mapIdx (stopCamera drain)).flatMap Stopped.entries).filter
      (·.1.isRow) = [] := by
    rw [List.filter_eq_nil_iff]
    intro p hp
    obtain ⟨t, ht, hp⟩ := List.mem_flatMap.mp hp
    obtain ⟨i, hi, rfl⟩ := List.mem_mapIdx.mp ht
    simp only [stopCamera, List.mem_cons, List.not_mem_nil, or_false] at hp
    rcases hp with rfl | rfl <;> simp [Stream.isRow]
  rw [stopAll, List.flatMap_append, List.filter_append, hcameras, List.nil_append,
    List.flatMap_map, List.filter_flatMap, List.map_flatMap]
  exact List.map_eq_flatMap.symm

/-- A recorder stops before its counters are read. -/
theorem stopped_read_sublist {t : Stopped} (hp : p ∈ t.entries) :
    [.stopped t.place, .read p.1 p.2.stats].Sublist t.events :=
  .cons_cons _ (List.singleton_sublist.mpr (List.mem_map.mpr ⟨p, hp, rfl⟩))

theorem reads_events (t : Stopped) :
    seen Event.read? t.events = t.entries.map fun p => (p.1, p.2.stats) := by
  rw [seen, Stopped.events, List.filterMap_cons_none rfl, List.filterMap_map]
  exact congrFun (List.filterMap_eq_map (f := fun p => (p.1, p.2.stats))) t.entries

theorem summarizes_stopAll (h : Inv s) (drain : Stream → StreamStats) :
    Summarizes s drain ((s.stopAll drain).flatMap Stopped.events)
      ((s.stopAll drain).flatMap Stopped.entries) where
  streams p := by
    rw [entries_stopAll]
    exact s.streams_filter p
  final := by
    intro p hp
    obtain ⟨t, ht, hp⟩ := List.mem_flatMap.mp hp
    obtain ⟨i, r, hr, -, rfl | rfl⟩ | ⟨x, r, hr, -, rfl⟩ := mem_stopAll ht hp <;> simp [stats?, hr]
  keys := by
    rw [map_key_stopAll]
    exact nodup_summaryKey h
  reads := by
    rw [seen, List.filterMap_flatMap, List.map_flatMap]
    exact congrArg (List.flatMap · _) (funext reads_events)
  order := by
    intro p hp
    obtain ⟨t, ht, hp⟩ := List.mem_flatMap.mp hp
    have hplace : t.place = p.1.place := by
      obtain ⟨i, r, -, ht, rfl | rfl⟩ | ⟨x, r, -, ht, rfl⟩ := mem_stopAll ht hp <;> exact ht
    have hone := stopped_read_sublist hp
    rw [hplace] at hone
    exact hone.trans (List.sublist_flatten_of_mem (List.mem_map.mpr ⟨t, ht, rfl⟩))

theorem Dead.forget (h : Dead s) (hrun : s.running = false) :
    s.forget = { session := s.session } := by
  obtain ⟨h1, h2, h3, h4, h5, h6, h7⟩ := h
  simp [Collector.forget, *]

/-- **Every kind of stream in every phase.** After any sequence of calls, whatever fails: what `start`
returns, what then runs, and that nothing does where it fails; what `stop` on a running collector stops
and hands to the summary, and that nothing runs afterwards; that any other `stop` does nothing. -/
theorem lifecycle (h : machine.run {} ls = some (s, es)) :
    (∀ env settings,
      ((s.start env settings).1 = true ↔ s.running = true ∨ creates env settings = true ∧
        ∃ a ∈ attempts env settings (sessionPath env settings), a.started = true) ∧
      (s.running = false → creates env settings = true →
        (s.start env settings).2.1.forget.recorders =
          (attempts env settings (sessionPath env settings)).filter (·.started)) ∧
      ((s.start env settings).1 = false → Dead (s.start env settings).2.1)) ∧
    (s.running = true → ∀ drain,
      (∃ before entries, Summarizes s drain before entries ∧
        (s.stop drain).2 = before ++ [.finalized s.session (entries.map Prod.snd)]) ∧
      Dead (s.stop drain).1 ∧ (s.stop drain).1.running = false) ∧
    (s.running = false → ∀ drain, s.stop drain = (s, [])) := by
  have hinv := Inv.of_run h
  refine ⟨fun env settings => ?_, fun hrun drain => ?_, stop_of_not_running⟩
  · obtain ⟨hok, hforget⟩ := forget_start env settings s
    refine ⟨?_, fun hrun hc => ?_, fun hfail => ?_⟩
    · cases hrun : s.running with
      | true => simp [start, hrun]
      | false =>
        rw [hok, (hinv.dead hrun).forget hrun, (start_idle env settings s.session).1]
        simp
    · rw [hforget, (hinv.dead hrun).forget hrun]
      exact (start_idle env settings s.session).2 hc
    · obtain ⟨-, heq⟩ | ⟨hrun, s', heq, -, hdead⟩ | ⟨-, session, started, heq⟩ :=
        start_cases env settings s
      · rw [heq] at hfail
        cases hfail
      · rw [heq]
        exact hdead (hinv.dead hrun)
      · rw [heq] at hfail
        cases hfail
  · obtain ⟨hes, hdead, hstop⟩ := stop_of_running hrun drain
    exact ⟨⟨_, _, summarizes_stopAll hinv drain, hes⟩, hdead, hstop⟩

/-- A session of one hand, whose other hand does not start. -/
def oneHand (localtime : Int64 → Tm) : List Label :=
  let works := Env.works localtime 0
  let env : Env := { works with hand := fun side => ⟨(works.hand side).openFile, side == "left".toList⟩ }
  [.start env { dex3Enabled := true }, .arrive fun _ => { received := 3, written := 2 }, .report]

theorem lifecycle_oneHand : ∃ s es,
    machine.run {} (oneHand fun _ => ⟨2024, 0, 1, 0, 0, 0⟩) = some (s, es) ∧
    ∃ before entries, Summarizes s (fun _ => { written := 1 }) before entries ∧
      (s.stop fun _ => { written := 1 }).2 =
        before ++ [.finalized s.session (entries.map Prod.snd)] := by
  refine Machine.exists_run (P := fun p => p.1.running = true) (by decide) ?_
  intro s es h hrun
  exact ((lifecycle h).2.1 hrun _).1

end Collector
end Kist
