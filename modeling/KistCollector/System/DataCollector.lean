import KistCollector.Common.RowRecorder
import KistCollector.Common.Session
import KistCollector.Lib.Ownership
import KistCollector.Realsense.RealsenseRecorder
import KistCollector.System.Settings

/-!
# The whole collector

`DataCollector::start` creates the session directory and starts every enabled recorder in it, one after
another; one that fails is skipped. What a start does to the files is its `Attempt`. Each recorder has
files of its own exactly as long as no two cameras lead to the same directory
(`DataCollector.own_files_iff`).
-/

namespace Kist

/-- What a recorder's `start` did to the files of the directory `dir`: the names it opened, truncating
them; those that each writer thread it ran writes; and whether it succeeded. When it fails, the writer
threads have ended by its return. -/
structure Attempt where
  dir : PosixPath
  opened : List (List Char)
  writers : List (List (List Char))
  started : Bool

namespace RealsenseRecorder

def colorFiles : List (List Char) := ["color.h264".toList, "color.idx.csv".toList]

def depthFiles : List (List Char) := ["depth.rvl".toList, "depth.idx.csv".toList]

/-- The color recorder opens. -/
def opensColor (env : CameraEnv) (dir : PosixPath) : Bool :=
  env.createDirectories dir && colorFiles.all fun n => (env.openFile (dir.join n)).isSome

/-- The depth recorder opens too. -/
def opensDepth (env : CameraEnv) (dir : PosixPath) : Bool :=
  opensColor env dir && depthFiles.all fun n => (env.openFile (dir.join n)).isSome

/-- Everything `start` asks of the system works. -/
def starts (env : CameraEnv) (dir : PosixPath) : Bool :=
  opensDepth env dir && env.colorReader && env.depthReader

def attempt (env : CameraEnv) (name sessionDir : PosixPath) : Attempt :=
  let dir := sessionDir.join name
  let tried :=
    if opensColor env dir then colorFiles ++ depthFiles
    else if env.createDirectories dir then colorFiles
    else []
  { dir := dir
    opened := tried.filter fun n => (env.openFile (dir.join n)).isSome
    writers := (if opensColor env dir then [colorFiles] else []) ++
      (if opensDepth env dir then [depthFiles] else [])
    started := starts env dir }

/-- The attempt of a camera succeeds exactly when `start` on a new recorder does. -/
theorem attempt_started (env : CameraEnv) (name sessionDir : PosixPath) (cap : Nat) (b : Bool) :
    (attempt env name sessionDir).started =
      ((new : RealsenseRecorder MC MD F).start env name sessionDir cap b).isSome := by
  have hnew (F : Type) (data index : Option Device) (header : List Char) :
      ∃ r : BlobRecorder F, BlobRecorder.new.open data index header cap =
        (data.isSome && index.isSome, r) := by
    cases data <;> cases index <;> exact ⟨_, rfl⟩
  let dir := sessionDir.join name
  obtain ⟨c, hc⟩ := hnew H264ColorFrame (env.openFile (dir.join "color.h264".toList))
    (env.openFile (dir.join "color.idx.csv".toList)) colorIdxHeader
  obtain ⟨d, hd⟩ := hnew (RvlDepthFrame F) (env.openFile (dir.join "depth.rvl".toList))
    (env.openFile (dir.join "depth.idx.csv".toList)) depthIdxHeader
  simp only [start, new, attempt, starts, opensDepth, opensColor, colorFiles, depthFiles,
    List.all_cons, List.all_nil, Bool.and_true, hc, hd, dir, ReliableSubscriber.start]
  cases env.createDirectories (sessionDir.join name)
  · rfl
  · cases (env.openFile ((sessionDir.join name).join "color.h264".toList)).isSome &&
      (env.openFile ((sessionDir.join name).join "color.idx.csv".toList)).isSome
    · rfl
    · cases (env.openFile ((sessionDir.join name).join "depth.rvl".toList)).isSome &&
        (env.openFile ((sessionDir.join name).join "depth.idx.csv".toList)).isSome
      · rfl
      · cases env.colorReader <;> cases env.depthReader <;> rfl

end RealsenseRecorder

/-- What the system answers while a row recorder starts: the device behind a file that can be opened,
and whether the subscription works. -/
structure RowEnv where
  openFile : PosixPath → Option Device
  subscribes : Bool

/-- `start` of a row recorder: open the file, then subscribe. -/
def RowRecorder.attempt (env : RowEnv) (sessionDir : PosixPath) (csvName : List Char) : Attempt :=
  let opens := (env.openFile (sessionDir.join csvName)).isSome
  { dir := sessionDir
    opened := if opens then [csvName] else []
    writers := if opens then [[csvName]] else []
    started := opens && env.subscribes }

/-- A row recorder runs a writer thread exactly when its file opens. -/
theorem RowRecorder.attempt_writers (env : RowEnv) (sessionDir : PosixPath) (csvName header : List Char)
    (cap : Nat) : (attempt env sessionDir csvName).writers ≠ [] ↔
      ((new : RowRecorder R).open (env.openFile (sessionDir.join csvName)) header cap).1 = true := by
  rw [attempt]
  cases env.openFile (sessionDir.join csvName) <;> simp [RowRecorder.open, openFile, new,
    Recorder.openWith, Recorder.init, OStream.open, OStream.init]

def LowstateRecorder.start (env : RowEnv) (sessionDir : PosixPath) : Attempt :=
  RowRecorder.attempt env sessionDir "lowstate.csv".toList

def Dex3Recorder.start (env : RowEnv) (sessionDir : PosixPath) (side : List Char) : Attempt :=
  RowRecorder.attempt env sessionDir ("hand_".toList ++ side ++ ".csv".toList)

def UwbRecorder.start (env : RowEnv) (sessionDir : PosixPath) : Attempt :=
  RowRecorder.attempt env sessionDir "uwb.csv".toList

def LowcmdRecorder.start (env : RowEnv) (sessionDir : PosixPath) (csvName : List Char) : Attempt :=
  RowRecorder.attempt env sessionDir csvName

def Dex3CmdRecorder.start (env : RowEnv) (sessionDir : PosixPath) (side : List Char) : Attempt :=
  RowRecorder.attempt env sessionDir ("hand_cmd_".toList ++ side ++ ".csv".toList)

def MotionTokenRecorder.start (env : RowEnv) (sessionDir : PosixPath) : Attempt :=
  RowRecorder.attempt env sessionDir "motion_token.csv".toList

/-- The recorders that run, by kind. -/
structure DataCollector where
  running : Bool := false
  session : SessionInfo := {}
  cameras : List Attempt := []
  lowstate : Option Attempt := none
  hands : List Attempt := []
  uwb : Option Attempt := none
  bodyCmds : List Attempt := []
  handCmds : List Attempt := []
  motionToken : Option Attempt := none

namespace DataCollector

/-- What the system answers while a collector starts: the clock and the time zone, which session
directories can be created, and what each recorder meets. `camera i` is met by the `i`th camera. -/
structure Env where
  localtime : Int64 → Tm
  nowNs : Int64
  createDirectories : PosixPath → Bool
  camera : Nat → CameraEnv
  lowstate : RowEnv
  hand : List Char → RowEnv
  uwb : RowEnv
  bodyCmd : List Char → RowEnv
  handCmd : List Char → RowEnv
  motionToken : RowEnv

def sides : List (List Char) := ["left".toList, "right".toList]

section

variable (env : Env) (settings : Settings) (sessionDir : PosixPath)

def startCameras : List Attempt :=
  settings.cameras.zipIdx.map fun (name, i) =>
    RealsenseRecorder.attempt (env.camera i) name sessionDir

def startLowstate : List Attempt :=
  if settings.lowstateEnabled then [LowstateRecorder.start env.lowstate sessionDir] else []

def startHands : List Attempt :=
  if settings.dex3Enabled then
    sides.map fun side => Dex3Recorder.start (env.hand side) sessionDir side
  else []

def startUwb : List Attempt :=
  if settings.uwbEnabled then [UwbRecorder.start env.uwb sessionDir] else []

def startBodyCmds : List Attempt :=
  [(settings.lowcmdEnabled, "lowcmd.csv".toList), (settings.armSdkEnabled, "arm_sdk.csv".toList)].filter
    Prod.fst |>.map fun (_, csv) => LowcmdRecorder.start (env.bodyCmd csv) sessionDir csv

def startHandCmds : List Attempt :=
  if settings.dex3CmdEnabled then
    sides.map fun side => Dex3CmdRecorder.start (env.handCmd side) sessionDir side
  else []

def startMotionToken : List Attempt :=
  if settings.motionTokenEnabled then [MotionTokenRecorder.start env.motionToken sessionDir] else []

/-- All recorders of a session, in the order in which they are started. -/
def attempts : List Attempt :=
  startCameras env settings sessionDir ++ (startLowstate env settings sessionDir ++
    startHands env settings sessionDir ++ startUwb env settings sessionDir ++
    startBodyCmds env settings sessionDir ++ startHandCmds env settings sessionDir ++
    startMotionToken env settings sessionDir)

end

def Settings.recordsNothing (settings : Settings) : Bool :=
  settings.cameras.isEmpty && !settings.lowstateEnabled && !settings.dex3Enabled &&
    !settings.uwbEnabled && !settings.lowcmdEnabled && !settings.armSdkEnabled &&
    !settings.dex3CmdEnabled && !settings.motionTokenEnabled

def hasStreams (s : DataCollector) : Bool :=
  !(s.cameras.isEmpty && s.lowstate.isNone && s.hands.isEmpty && s.uwb.isNone &&
    s.bodyCmds.isEmpty && s.handCmds.isEmpty && s.motionToken.isNone)

/-- The collector with the recorders of a session that started. -/
def keepStarted (env : Env) (settings : Settings) (sessionDir : PosixPath) (s : DataCollector) :
    DataCollector :=
  let ok (as : List Attempt) := as.filter (·.started)
  { s with
    cameras := s.cameras ++ ok (startCameras env settings sessionDir)
    lowstate := if settings.lowstateEnabled then
      (ok (startLowstate env settings sessionDir)).head? else s.lowstate
    hands := s.hands ++ ok (startHands env settings sessionDir)
    uwb := if settings.uwbEnabled then (ok (startUwb env settings sessionDir)).head? else s.uwb
    bodyCmds := s.bodyCmds ++ ok (startBodyCmds env settings sessionDir)
    handCmds := s.handCmds ++ ok (startHandCmds env settings sessionDir)
    motionToken := if settings.motionTokenEnabled then
      (ok (startMotionToken env settings sessionDir)).head? else s.motionToken }

/-- Whether `start` succeeds, the collector afterwards, and the attempts it made. Where it succeeds and
made any, it has also written `meta.yaml`. -/
def start (env : Env) (settings : Settings) (s : DataCollector) :
    Bool × DataCollector × List Attempt :=
  if s.running then (true, s, [])
  else if settings.recordsNothing then (false, s, [])
  else
    let session :=
      sessionCreate env.localtime env.createDirectories env.nowNs settings.outputDir
    let s := { s with session := session }
    if session.dir.isEmpty then (false, s, [])
    else
      let s := s.keepStarted env settings session.dir
      if s.hasStreams then (true, { s with running := true }, attempts env settings session.dir)
      else (false, s, attempts env settings session.dir)

/-- Everything that runs. -/
def recorders (s : DataCollector) : List Attempt :=
  s.cameras ++ (s.lowstate.toList ++ s.hands ++ s.uwb.toList ++ s.bodyCmds ++ s.handCmds ++
    s.motionToken.toList)

/-- A collector that records nothing keeps exactly the recorders that start. -/
theorem recorders_keepStarted (env : Env) (settings : Settings) (sessionDir : PosixPath)
    (session : SessionInfo) :
    (keepStarted env settings sessionDir { session := session }).recorders =
      (attempts env settings sessionDir).filter (·.started) := by
  have hone (enabled : Bool) (a : Attempt) :
      (if enabled then ((if enabled then [a] else []).filter (·.started)).head? else none).toList =
        (if enabled then [a] else []).filter (·.started) := by
    cases enabled
    · rfl
    · cases h : a.started <;> simp [h]
  simp only [recorders, keepStarted, attempts, List.filter_append, List.nil_append, startLowstate,
    startUwb, startMotionToken, hone]

theorem hasStreams_iff (s : DataCollector) : s.hasStreams = true ↔ s.recorders ≠ [] := by
  simp only [hasStreams, recorders, Bool.not_eq_true', Bool.and_eq_false_iff, ne_eq,
    List.append_eq_nil_iff, Option.toList_eq_nil_iff, List.isEmpty_eq_false_iff,
    Option.isNone_eq_false_iff, Option.isSome_iff_ne_none]
  tauto

/-- The session directory that `start` asks for. -/
def sessionPath (env : Env) (settings : Settings) : PosixPath :=
  settings.outputDir.join (formatTime env.localtime env.nowNs "%Y%m%d_%H%M%S".toList)

/-- A session directory is asked for and created. -/
def creates (env : Env) (settings : Settings) : Bool :=
  !settings.recordsNothing && env.createDirectories (sessionPath env settings)

theorem sessionCreate_dir (env : Env) (settings : Settings) :
    (sessionCreate env.localtime env.createDirectories env.nowNs settings.outputDir).dir =
      if env.createDirectories (sessionPath env settings) then sessionPath env settings else [] := by
  rw [sessionCreate, apply_ite SessionInfo.dir, sessionPath]

theorem sessionPath_ne_nil (env : Env) (settings : Settings) : sessionPath env settings ≠ [] := by
  have hplain := plain_formatTime env.localtime env.nowNs
  rw [sessionPath, PosixPath.join_of_plain hplain.2.2.2]
  exact fun h => hplain.1 (List.append_eq_nil_iff.mp h).2

/-- A collector as constructed that creates its session starts every recorder in it. -/
theorem start_of_creates {env : Env} {settings : Settings} (h : creates env settings = true) :
    (start env settings {}).2.1.session.dir = sessionPath env settings ∧
    (start env settings {}).2.2 = attempts env settings (sessionPath env settings) ∧
    ((start env settings {}).1 = true ↔
      ∃ a ∈ attempts env settings (sessionPath env settings), a.started = true) := by
  simp only [creates, Bool.and_eq_true, Bool.not_eq_true'] at h
  have hdir := sessionCreate_dir env settings
  rw [if_pos h.2] at hdir
  have hstreams (session : SessionInfo) :
      (keepStarted env settings (sessionPath env settings) { session := session }).hasStreams = true ↔
        ∃ a ∈ attempts env settings (sessionPath env settings), a.started = true := by
    rw [hasStreams_iff, recorders_keepStarted, ne_eq, List.filter_eq_nil_iff]
    push Not
    rfl
  simp only [start, h.1, hdir]
  rw [if_neg nofun, if_neg nofun, if_neg (by simpa using sessionPath_ne_nil env settings)]
  split
  · rename_i hs
    exact ⟨hdir, rfl, iff_of_true rfl ((hstreams _).mp hs)⟩
  · rename_i hs
    exact ⟨hdir, rfl, iff_of_false nofun fun ha => hs ((hstreams _).mpr ha)⟩

theorem start_of_not_creates {env : Env} {settings : Settings} (h : creates env settings = false) :
    (start env settings {}).2.1.session.dir = [] ∧ (start env settings {}).2.2 = [] ∧
    (start env settings {}).1 = false := by
  rw [start, if_neg nofun]
  cases hset : settings.recordsNothing with
  | true => exact ⟨rfl, rfl, rfl⟩
  | false =>
    have hdir := sessionCreate_dir env settings
    rw [creates, hset, Bool.not_false, Bool.true_and] at h
    rw [if_neg (by simp [h])] at hdir
    rw [if_neg nofun]
    simp [hdir]

end DataCollector

/-! ## Whose files -/

/-- The names its writer threads wrote. -/
def Attempt.names (a : Attempt) : List (List Char) := a.writers.flatten

/-- A recorder takes the files of its writer threads, and keeps them when its start succeeds. -/
def Attempt.take (dir : PosixPath → δ) (a : Attempt) : Take (δ × List Char) where
  resources := a.names.map fun n => (a.dir.join n).entry dir
  keeps := a.started

section

variable {dir : PosixPath → δ} {a b : Attempt}

theorem Attempt.mem_take (ha : ∀ n ∈ a.names, '/' ∉ n) {x : δ × List Char} :
    x ∈ (a.take dir).resources ↔ x.1 = dir a.dir.asParent ∧ x.2 ∈ a.names :=
  PosixPath.mem_map_entry_join ha

/-- A recorder whose names differ takes no file twice. -/
theorem Attempt.nodup_take (ha : ∀ n ∈ a.names, '/' ∉ n) (hnodup : a.names.Nodup) :
    (a.take dir).resources.Nodup := by
  refine (List.nodup_map_iff_inj_on hnodup).mpr fun m hm n hn heq => ?_
  rw [PosixPath.entry_join dir (ha m hm), PosixPath.entry_join dir (ha n hn)] at heq
  exact congrArg Prod.snd heq

/-- Recorders without a common name have no common file. -/
theorem Attempt.disjoint_take (ha : ∀ n ∈ a.names, '/' ∉ n) (hb : ∀ n ∈ b.names, '/' ∉ n)
    (h : a.names.Disjoint b.names) : (a.take dir).resources.Disjoint (b.take dir).resources :=
  fun _ hx hx' => h ((mem_take ha).mp hx).2 ((mem_take hb).mp hx').2

end

namespace RealsenseRecorder

theorem slash_not_mem_files : ∀ n ∈ colorFiles ++ depthFiles, '/' ∉ n := by decide

theorem names_attempt (env : CameraEnv) (name sessionDir : PosixPath) :
    (attempt env name sessionDir).names =
      (if opensColor env (sessionDir.join name) then colorFiles else []) ++
        if opensDepth env (sessionDir.join name) then depthFiles else [] := by
  simp only [Attempt.names, attempt]
  split <;> split <;> simp

theorem names_attempt_sublist (env : CameraEnv) (name sessionDir : PosixPath) :
    (attempt env name sessionDir).names.Sublist (colorFiles ++ depthFiles) := by
  rw [names_attempt]
  refine List.Sublist.append ?_ ?_ <;> split <;> simp

theorem slash_not_mem_names (env : CameraEnv) (name sessionDir : PosixPath) :
    ∀ n ∈ (attempt env name sessionDir).names, '/' ∉ n := fun n hn =>
  slash_not_mem_files n ((names_attempt_sublist env name sessionDir).subset hn)

theorem opensColor_of_starts (h : starts env dir = true) : opensColor env dir = true := by
  simp only [starts, opensDepth, Bool.and_eq_true] at h
  exact h.1.1.1

/-- A camera runs a writer thread exactly when its color recorder opens. -/
theorem color_mem_names {env : CameraEnv} {name sessionDir : PosixPath}
    (h : opensColor env (sessionDir.join name) = true) :
    "color.h264".toList ∈ (attempt env name sessionDir).names := by
  rw [names_attempt, if_pos h]
  simp [colorFiles]

theorem mem_names_attempt {env : CameraEnv} {name sessionDir : PosixPath}
    (h : n ∈ (attempt env name sessionDir).names) :
    opensColor env (sessionDir.join name) = true := by
  rw [names_attempt] at h
  by_cases hc : opensColor env (sessionDir.join name) = true
  · exact hc
  · simp [opensDepth, hc] at h

end RealsenseRecorder

/-- The files of the row recorders. -/
def rowFiles : List (List Char) :=
  ["lowstate.csv".toList, "hand_left.csv".toList, "hand_right.csv".toList, "uwb.csv".toList,
    "lowcmd.csv".toList, "arm_sdk.csv".toList, "hand_cmd_left.csv".toList,
    "hand_cmd_right.csv".toList, "motion_token.csv".toList]

theorem slash_not_mem_rowFiles : ∀ n ∈ rowFiles, '/' ∉ n := by decide

theorem RowRecorder.names_attempt_sublist (env : RowEnv) (sessionDir : PosixPath)
    (csvName : List Char) : (attempt env sessionDir csvName).names.Sublist [csvName] := by
  simp only [Attempt.names, attempt]
  split <;> simp

theorem RowRecorder.names_attempts_sublist (sessionDir : PosixPath)
    (rs : List (RowEnv × List Char)) :
    ((rs.map fun r => attempt r.1 sessionDir r.2).flatMap Attempt.names).Sublist
      (rs.map Prod.snd) := by
  induction rs with
  | nil => exact List.Sublist.refl _
  | cons r rs ih => exact (names_attempt_sublist r.1 sessionDir r.2).append ih

namespace DataCollector

section

variable {env : Env} {settings : Settings} {sessionDir : PosixPath}

/-- The recorders that write rows. -/
def rowAttempts (env : Env) (settings : Settings) (sessionDir : PosixPath) : List Attempt :=
  startLowstate env settings sessionDir ++ startHands env settings sessionDir ++
    startUwb env settings sessionDir ++ startBodyCmds env settings sessionDir ++
    startHandCmds env settings sessionDir ++ startMotionToken env settings sessionDir

theorem attempts_eq : attempts env settings sessionDir =
    startCameras env settings sessionDir ++ rowAttempts env settings sessionDir := rfl

/-- No two row recorders have a name in common. -/
theorem names_rowAttempts_sublist :
    ((rowAttempts env settings sessionDir).flatMap Attempt.names).Sublist rowFiles := by
  have hone (e : RowEnv) (csv : List Char) :
      ([RowRecorder.attempt e sessionDir csv].flatMap Attempt.names).Sublist [csv] :=
    RowRecorder.names_attempts_sublist sessionDir [(e, csv)]
  have htwo (e e' : RowEnv) (csv csv' : List Char) :
      ([RowRecorder.attempt e sessionDir csv, RowRecorder.attempt e' sessionDir csv'].flatMap
        Attempt.names).Sublist [csv, csv'] :=
    RowRecorder.names_attempts_sublist sessionDir [(e, csv), (e', csv')]
  have hlowstate : ((startLowstate env settings sessionDir).flatMap Attempt.names).Sublist
      ["lowstate.csv".toList] := by
    unfold startLowstate; split <;> [exact hone ..; simp]
  have hhands : ((startHands env settings sessionDir).flatMap Attempt.names).Sublist
      ["hand_left.csv".toList, "hand_right.csv".toList] := by
    unfold startHands; split <;> [exact htwo ..; simp]
  have huwb : ((startUwb env settings sessionDir).flatMap Attempt.names).Sublist
      ["uwb.csv".toList] := by
    unfold startUwb; split <;> [exact hone ..; simp]
  have hbody : ((startBodyCmds env settings sessionDir).flatMap Attempt.names).Sublist
      ["lowcmd.csv".toList, "arm_sdk.csv".toList] := by
    unfold startBodyCmds
    cases settings.lowcmdEnabled <;> cases settings.armSdkEnabled
    · simp
    · exact (hone ..).cons _
    · exact (hone ..).trans (by simp)
    · exact htwo ..
  have hhandCmds : ((startHandCmds env settings sessionDir).flatMap Attempt.names).Sublist
      ["hand_cmd_left.csv".toList, "hand_cmd_right.csv".toList] := by
    unfold startHandCmds; split <;> [exact htwo ..; simp]
  have htoken : ((startMotionToken env settings sessionDir).flatMap Attempt.names).Sublist
      ["motion_token.csv".toList] := by
    unfold startMotionToken; split <;> [exact hone ..; simp]
  simp only [rowAttempts, List.flatMap_append]
  exact ((((hlowstate.append hhands).append huwb).append hbody).append hhandCmds).append htoken

theorem exists_of_mem_rowAttempts (h : a ∈ rowAttempts env settings sessionDir) :
    ∃ e csvName, a = RowRecorder.attempt e sessionDir csvName := by
  simp only [rowAttempts, startLowstate, startHands, startUwb, startBodyCmds, startHandCmds,
    startMotionToken, List.mem_append, List.mem_ite_nil_right, List.mem_map, List.mem_singleton] at h
  rcases h with ((((⟨-, rfl⟩ | ⟨-, _, -, rfl⟩) | ⟨-, rfl⟩) | ⟨_, -, rfl⟩) | ⟨-, _, -, rfl⟩) | ⟨-, rfl⟩ <;>
    exact ⟨_, _, rfl⟩

theorem exists_of_mem_startCameras (h : a ∈ startCameras env settings sessionDir) :
    ∃ e name, a = RealsenseRecorder.attempt e name sessionDir := by
  obtain ⟨⟨name, i⟩, -, rfl⟩ := List.mem_map.mp h
  exact ⟨_, _, rfl⟩

/-- Camera and row recorders have no name in common. -/
theorem names_disjoint (ha : a ∈ startCameras env settings sessionDir)
    (hb : b ∈ rowAttempts env settings sessionDir) : a.names.Disjoint b.names := by
  obtain ⟨e, name, rfl⟩ := exists_of_mem_startCameras ha
  intro n hn hn'
  have h1 := (RealsenseRecorder.names_attempt_sublist e name sessionDir).subset hn
  have h2 := names_rowAttempts_sublist.subset (List.mem_flatMap.mpr ⟨b, hb, hn'⟩)
  have hdis : ∀ m ∈ RealsenseRecorder.colorFiles ++ RealsenseRecorder.depthFiles, m ∉ rowFiles := by
    decide
  exact hdis n h1 h2

theorem slash_not_mem_names (ha : a ∈ attempts env settings sessionDir) :
    ∀ n ∈ a.names, '/' ∉ n := by
  intro n hn
  rcases List.mem_append.mp (attempts_eq ▸ ha) with ha | ha
  · obtain ⟨e, name, rfl⟩ := exists_of_mem_startCameras ha
    exact RealsenseRecorder.slash_not_mem_names e name sessionDir n hn
  · exact slash_not_mem_rowFiles n
      (names_rowAttempts_sublist.subset (List.mem_flatMap.mpr ⟨a, ha, hn⟩))

/-- Two cameras in turn: a camera whose color recorder opens leads to no directory of an earlier one
that started. -/
theorem disjoint_cameras (dir : PosixPath → δ) (e e' : CameraEnv) (name name' : PosixPath) :
    ((RealsenseRecorder.attempt e name sessionDir).started = true →
      ((RealsenseRecorder.attempt e name sessionDir).take dir).resources.Disjoint
        ((RealsenseRecorder.attempt e' name' sessionDir).take dir).resources) ↔
    (RealsenseRecorder.starts e (sessionDir.join name) = true →
      RealsenseRecorder.opensColor e' (sessionDir.join name') = true →
      dir (sessionDir.join name).asParent ≠ dir (sessionDir.join name').asParent) := by
  have hmem (e : CameraEnv) (name : PosixPath) (x : δ × List Char) :
      x ∈ ((RealsenseRecorder.attempt e name sessionDir).take dir).resources ↔
        x.1 = dir (sessionDir.join name).asParent ∧
          x.2 ∈ (RealsenseRecorder.attempt e name sessionDir).names :=
    Attempt.mem_take (RealsenseRecorder.slash_not_mem_names e name sessionDir)
  refine imp_congr_right fun hs => ⟨fun H ho heq => ?_, fun H x hx hx' => ?_⟩
  · have hcolor := RealsenseRecorder.color_mem_names (RealsenseRecorder.opensColor_of_starts hs)
    have hcolor' := RealsenseRecorder.color_mem_names ho
    exact H ((hmem e name (_, _)).mpr ⟨rfl, hcolor⟩) ((hmem e' name' (_, _)).mpr ⟨heq, hcolor'⟩)
  · obtain ⟨h1, -⟩ := (hmem e name x).mp hx
    obtain ⟨h2, hn⟩ := (hmem e' name' x).mp hx'
    exact H (RealsenseRecorder.mem_names_attempt hn) (h1.symm.trans h2)

theorem names_nodup (ha : a ∈ attempts env settings sessionDir) : a.names.Nodup := by
  rcases List.mem_append.mp (attempts_eq ▸ ha) with ha | ha
  · obtain ⟨e, name, rfl⟩ := exists_of_mem_startCameras ha
    refine List.Nodup.sublist (RealsenseRecorder.names_attempt_sublist e name sessionDir) ?_
    decide
  · obtain ⟨e, csvName, rfl⟩ := exists_of_mem_rowAttempts ha
    exact (List.nodup_singleton csvName).sublist
      (RowRecorder.names_attempt_sublist e sessionDir csvName)

/-- The recorders of one session keep to files of their own exactly as long as its cameras keep to
directories of their own. -/
theorem exclusive_attempts (dir : PosixPath → δ) :
    Take.Exclusive ((attempts env settings sessionDir).map (Attempt.take dir)) ↔
    settings.cameras.zipIdx.Pairwise fun a b =>
      RealsenseRecorder.starts (env.camera a.2) (sessionDir.join a.1) = true →
      RealsenseRecorder.opensColor (env.camera b.2) (sessionDir.join b.1) = true →
      dir (sessionDir.join a.1).asParent ≠ dir (sessionDir.join b.1).asParent := by
  have hdisjoint {a b : Attempt} (ha : a ∈ attempts env settings sessionDir)
      (hb : b ∈ attempts env settings sessionDir) (h : a.names.Disjoint b.names) :
      (a.take dir).resources.Disjoint (b.take dir).resources :=
    Attempt.disjoint_take (slash_not_mem_names ha) (slash_not_mem_names hb) h
  have hcam {a : Attempt} (h : a ∈ startCameras env settings sessionDir) :
      a ∈ attempts env settings sessionDir := List.mem_append_left _ h
  have hrow {a : Attempt} (h : a ∈ rowAttempts env settings sessionDir) :
      a ∈ attempts env settings sessionDir := List.mem_append_right _ h
  have hnodup : ∀ t ∈ (attempts env settings sessionDir).map (Attempt.take dir),
      t.resources.Nodup := by
    intro t ht
    obtain ⟨a, ha, rfl⟩ := List.mem_map.mp ht
    exact Attempt.nodup_take (slash_not_mem_names ha) (names_nodup ha)
  have hrows : (rowAttempts env settings sessionDir).Pairwise fun a b =>
      a.started = true → (a.take dir).resources.Disjoint (b.take dir).resources := by
    have hnames : ((rowAttempts env settings sessionDir).flatMap Attempt.names).Nodup :=
      names_rowAttempts_sublist.nodup (by decide)
    refine (List.nodup_flatMap.mp hnames).2.imp_of_mem fun ha hb h _ => ?_
    exact hdisjoint (hrow ha) (hrow hb) h
  rw [Take.exclusive_iff, and_iff_right hnodup, List.pairwise_map, attempts_eq,
    List.pairwise_append]
  refine Iff.trans ⟨fun h => h.1, fun h => ⟨h, hrows, fun a ha b hb _ => ?_⟩⟩ ?_
  · exact hdisjoint (hcam ha) (hrow hb) (names_disjoint ha hb)
  · rw [startCameras, List.pairwise_map]
    exact ⟨fun H => H.imp fun {a b} h => (disjoint_cameras dir _ _ a.1 b.1).mp h,
      fun H => H.imp fun {a b} h => (disjoint_cameras dir _ _ a.1 b.1).mpr h⟩

end

/-- In the session that `start` creates, a camera whose color files open does not lead to the directory
of an earlier camera that started. -/
def CamerasApart (dir : PosixPath → δ) (env : Env) (settings : Settings) : Prop :=
  creates env settings = true → settings.cameras.zipIdx.Pairwise fun a b =>
    RealsenseRecorder.starts (env.camera a.2) ((sessionPath env settings).join a.1) = true →
    RealsenseRecorder.opensColor (env.camera b.2) ((sessionPath env settings).join b.1) = true →
    dir ((sessionPath env settings).join a.1).asParent ≠
      dir ((sessionPath env settings).join b.1).asParent

/-- **Each file has one writer thread.** Whatever the settings, and whatever fails while the recorders
start: at no time two running recorders have a file in common, exactly as long as the cameras are
apart. Files are told apart by directory and name, so links between files are outside (`PosixPath.entry`). -/
theorem own_files_iff (dir : PosixPath → δ) (env : Env) (settings : Settings) :
    Take.Exclusive ((start env settings {}).2.2.map (Attempt.take dir)) ↔
      CamerasApart dir env settings := by
  cases h : creates env settings with
  | true =>
    rw [(start_of_creates h).2.1, CamerasApart, imp_iff_right h]
    exact exclusive_attempts dir
  | false =>
    rw [(start_of_not_creates h).2.1, CamerasApart, h]
    exact iff_of_true (fun pre t post h => by simp at h) nofun

/-- A system on which everything works, at the time `nowNs` of the clock. -/
def Env.works (localtime : Int64 → Tm) (nowNs : Int64) : Env :=
  let file : PosixPath → Option Device := fun _ => some ⟨1000, 64, by decide⟩
  { localtime := localtime
    nowNs := nowNs
    createDirectories := fun _ => true
    camera := fun _ => ⟨fun _ => true, file, true, true⟩
    lowstate := ⟨file, true⟩
    hand := fun _ => ⟨file, true⟩
    uwb := ⟨file, true⟩
    bodyCmd := fun _ => ⟨file, true⟩
    handCmd := fun _ => ⟨file, true⟩
    motionToken := ⟨file, true⟩ }

/-- A configuration that lists the camera `head` twice. -/
def headTwice : ConfigNode :=
  let head : ConfigNode := .map [("name".toList, .scalar "head".toList)]
  .map [("realsense_cameras".toList, .map [("cameras".toList, .sequence [head, head])])]

/-- Both recorders of a camera that is listed twice run, on the same files. -/
theorem own_files_fails : ∃ settings, Settings.fromYaml headTwice = some settings ∧
    ¬ Take.Exclusive ((start (.works (fun _ => ⟨2024, 0, 1, 0, 0, 0⟩) 0) settings {}).2.2.map
      (Attempt.take id)) := by
  refine ⟨{ cameras := ["head".toList, "head".toList] }, rfl, fun H => ?_⟩
  have hnodup := H [_] _ [] rfl
  revert hnodup
  decide

end DataCollector
end Kist
