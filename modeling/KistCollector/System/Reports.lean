import KistCollector.System.Collector

/-!
# What a report shows

`print_report` shows how far each counter has come since the previous report, as the difference to a
remembered value. The remembered values of cameras, hands and commands start anew with each session;
those of lowstate, uwb and motion_token do not, so that the first report of a later session is wrong
for them exactly when the last report before it left a value other than zero
(`Collector.true_reports_iff`). No report indexes out of range (`Collector.in_range`).
-/

namespace Kist

/-- A difference that is shown of a counter: how far it has come, without the subtraction having wrapped
where the counter has not. -/
def TrueDelta (before now : Nat) (last shown : UInt64) : Prop :=
  before ≤ now ∧ shown = .ofNat (now - before) ∧ (now < 2 ^ 64 → last ≤ .ofNat now)

instance : Decidable (TrueDelta before now last shown) :=
  inferInstanceAs (Decidable (_ ∧ _ ∧ _))

/-- Against the counters `before` of the previous report. -/
def ReportLine.Correct (before : StreamStats) (l : ReportLine) : Prop :=
  TrueDelta before.received l.stats.received l.last.rx l.rx ∧
    TrueDelta before.written l.stats.written l.last.wr l.wr

instance (before : StreamStats) (l : ReportLine) : Decidable (l.Correct before) :=
  inferInstanceAs (Decidable (_ ∧ _))

/-- The collector has one recorder of the kind, and not a list of them. -/
def Stream.isSingle : Stream → Bool
  | .row .lowstate | .row .uwb | .row .motionToken => true
  | _ => false

namespace Collector

def lastRow? (s : Collector) : Row → Option Last
  | .lowstate => some s.lastLs
  | .hand i => s.lastHand[i]?
  | .uwb => some s.lastUw
  | .bodyCmd i => s.lastBodyCmd[i]?
  | .handCmd i => s.lastHandCmd[i]?
  | .motionToken => some s.lastMt

/-- What is remembered of a stream. -/
def last? (s : Collector) : Stream → Option Last
  | .color i => s.lastCam[i]?.map (·.color)
  | .depth i => s.lastCam[i]?.map (·.depth)
  | .row x => s.lastRow? x

/-- The counters of each stream in the previous report of the session, after one more event. -/
def Event.next (previous : Stream → Option StreamStats) : Event → Stream → Option StreamStats
  | .started .. => fun _ => none
  | .reported lines => fun x =>
    ((lines.find? (·.stream = x)).map (·.stats)).or (previous x)
  | _ => previous

/-- The counters of a stream in the previous report of the same session. -/
def previous (es : List Event) : Stream → Option StreamStats :=
  es.foldl Event.next fun _ => none

/-- The counters against which the next report is to be taken: at the start of a session all are
zero. -/
def baseline (es : List Event) (x : Stream) : StreamStats := (previous es x).getD {}

def Event.TrueAfter (es : List Event) : Event → Prop
  | .reported lines => ∀ l ∈ lines, l.Correct (baseline es l.stream)
  | .outOfRange => False
  | _ => True

/-- Every report shows true differences, and no index is out of range. -/
def TrueReports (es : List Event) : Prop :=
  ∀ pre e post, es = pre ++ e :: post → e.TrueAfter pre

/-- In the first report of a session, what is remembered of each single stream that records is zero. -/
def SinglesZero (es : List Event) (s : Collector) (l : Label) : Prop :=
  l = .report → ∀ x, x.isSingle = true → (s.stats? x).isSome = true →
    previous es x = none → s.last? x = some {}

/-! ## One report -/

variable {s s' : Collector}

section

variable {ρ τ : Type} {rs : List ρ} {last : List τ}

theorem reportLoop_spec (lines : Nat → ρ → τ → List ReportLine) (now : ρ → τ)
    (h : rs.length ≤ last.length) (i : Nat) :
    ∃ shown, reportLoop lines now i rs last = some (shown, rs.map now ++ last.drop rs.length) ∧
      ∀ l, l ∈ shown ↔ ∃ j r t, rs[j]? = some r ∧ last[j]? = some t ∧ l ∈ lines (i + j) r t := by
  induction rs generalizing last i with
  | nil => exact ⟨[], rfl, by simp⟩
  | cons r rs ih =>
    cases last with
    | nil => simp at h
    | cons t last =>
      obtain ⟨shown, heq, hmem⟩ := ih (by simpa using h) (i + 1)
      refine ⟨lines i r t ++ shown, by simp [reportLoop, heq], fun l => ?_⟩
      rw [List.mem_append, hmem]
      constructor
      · rintro (hl | ⟨j, r', t', hr, ht, hl⟩)
        · exact ⟨0, r, t, rfl, rfl, hl⟩
        · exact ⟨j + 1, r', t', hr, ht, by rwa [← Nat.add_assoc, Nat.add_right_comm]⟩
      · rintro ⟨j, r', t', hr, ht, hl⟩
        cases j with
        | zero =>
          cases hr
          cases ht
          exact .inl hl
        | succ j => exact .inr ⟨j, r', t', hr, ht, by rwa [Nat.add_right_comm, Nat.add_assoc]⟩

theorem getElem?_remembered {now : ρ → τ} {i : Nat} (h : rs[i]? = some r) :
    (rs.map now ++ last.drop rs.length)[i]? = some (now r) := by
  have hi : i < (rs.map now).length := by
    rw [List.length_map]
    exact (List.getElem?_eq_some_iff.mp h).1
  rw [List.getElem?_append_left hi, List.getElem?_map, h]
  rfl

end

/-- `lines` shows the streams of a group: each line is made of a stream's counters and what is
remembered of it, and every stream of the group that is there has one. -/
structure Shows (s : Collector) (group : Stream → Prop) (lines : List ReportLine) : Prop where
  sound : ∀ l ∈ lines, ∃ name x stats last, l = line name x stats last ∧
    s.stats? x = some stats ∧ s.last? x = some last
  complete : ∀ x, group x → (s.stats? x).isSome = true → ∃ l ∈ lines, l.stream = x

theorem Shows.append (h : Shows s group lines) (h' : Shows s group' lines') :
    Shows s (fun x => group x ∨ group' x) (lines ++ lines') where
  sound l hl := (List.mem_append.mp hl).elim (h.sound l) (h'.sound l)
  complete x hx hs := by
    rcases hx with hx | hx
    · obtain ⟨l, hl, rfl⟩ := h.complete x hx hs
      exact ⟨l, List.mem_append_left _ hl, rfl⟩
    · obtain ⟨l, hl, rfl⟩ := h'.complete x hx hs
      exact ⟨l, List.mem_append_right _ hl, rfl⟩

theorem shows_cameras (h : s.cameras.length ≤ s.lastCam.length) : ∃ shown,
    reportLoop cameraLines CamLast.of 0 s.cameras s.lastCam =
      some (shown, s.cameras.map CamLast.of ++ s.lastCam.drop s.cameras.length) ∧
    Shows s (fun x => x.isRow = false) shown := by
  obtain ⟨shown, heq, hmem⟩ := reportLoop_spec cameraLines CamLast.of h 0
  refine ⟨shown, heq, fun l hl => ?_, fun x hx hs => ?_⟩
  · obtain ⟨j, r, t, hr, ht, hl⟩ := (hmem l).mp hl
    simp only [cameraLines, List.mem_cons, List.not_mem_nil, or_false, Nat.zero_add] at hl
    rcases hl with rfl | rfl
    · exact ⟨r.name, .color j, r.color, t.color, rfl, by simp [stats?, hr], by simp [last?, ht]⟩
    · exact ⟨r.name, .depth j, r.depth, t.depth, rfl, by simp [stats?, hr], by simp [last?, ht]⟩
  · have hlines {i : Nat} (hi : i < s.cameras.length) :
        ∃ t, ∀ l ∈ cameraLines i s.cameras[i] t, l ∈ shown :=
      ⟨_, fun l hl => (hmem l).mpr ⟨i, _, _, List.getElem?_eq_getElem hi,
        List.getElem?_eq_getElem (hi.trans_le h), by rwa [Nat.zero_add]⟩⟩
    rcases x with i | i | x
    · obtain ⟨t, ht⟩ := hlines (i := i) (by simpa [stats?] using hs)
      exact ⟨_, ht _ (List.mem_cons_self ..), rfl⟩
    · obtain ⟨t, ht⟩ := hlines (i := i) (by simpa [stats?] using hs)
      exact ⟨_, ht _ (List.mem_cons_of_mem _ (List.mem_cons_self ..)), rfl⟩
    · cases hx

theorem shows_list {f : Nat → Row} {rs : List StreamRecorder} {last : List Last}
    (hstats : ∀ i, s.row? (f i) = rs[i]?) (hlast : ∀ i, s.lastRow? (f i) = last[i]?)
    (name : StreamRecorder → List Char) (h : rs.length ≤ last.length) : ∃ shown,
    reportLoop (fun i r => rowLines (f i) (name r) r) (fun r => Last.of r.stats) 0 rs last =
      some (shown, rs.map (fun r => Last.of r.stats) ++ last.drop rs.length) ∧
    Shows s (fun x => ∃ i, x = .row (f i)) shown := by
  obtain ⟨shown, heq, hmem⟩ := reportLoop_spec (fun i r => rowLines (f i) (name r) r)
    (fun r => Last.of r.stats) h 0
  refine ⟨shown, heq, fun l hl => ?_, ?_⟩
  · obtain ⟨j, r, t, hr, ht, hl⟩ := (hmem l).mp hl
    simp only [rowLines, List.mem_singleton, Nat.zero_add] at hl
    exact ⟨name r, .row (f j), r.stats, t, hl, by simp [stats?, hstats, hr],
      by simp [last?, hlast, ht]⟩
  · rintro _ ⟨i, rfl⟩ hs
    have hi : i < rs.length := by simpa [stats?, hstats] using hs
    exact ⟨_, (hmem _).mpr ⟨i, rs[i], last[i], List.getElem?_eq_getElem hi,
      List.getElem?_eq_getElem (hi.trans_le h), List.mem_singleton.mpr rfl⟩, by simp [line]⟩

theorem shows_single {x : Row} {o : Option StreamRecorder} {last : Last} (hstats : s.row? x = o)
    (hlast : s.lastRow? x = some last) (name : List Char) :
    Shows s (fun y => y = .row x) (reportOne x name o last).1 := by
  cases o with
  | none =>
    refine ⟨fun l hl => (nomatch hl), ?_⟩
    rintro _ rfl hs
    simp [stats?, hstats] at hs
  | some r =>
    refine ⟨fun l hl => ?_, fun y hy _ => ⟨_, List.mem_singleton.mpr rfl, hy.symm⟩⟩
    exact ⟨name, .row x, r.stats, last, List.mem_singleton.mp hl, by simp [stats?, hstats], hlast⟩

/-- Something is remembered of every recorder in a list. -/
structure Covered (s : Collector) : Prop where
  cameras : s.cameras.length ≤ s.lastCam.length
  hands : s.hands.length ≤ s.lastHand.length
  bodyCmds : s.bodyCmds.length ≤ s.lastBodyCmd.length
  handCmds : s.handCmds.length ≤ s.lastHandCmd.length

/-- The collector that remembers the counters it has. -/
def remember (s : Collector) : Collector :=
  let single (o : Option StreamRecorder) (last : Last) := (o.map fun r => .of r.stats).getD last
  let list (rs : List StreamRecorder) (last : List Last) :=
    rs.map (fun r => .of r.stats) ++ last.drop rs.length
  { s with
    lastCam := s.cameras.map CamLast.of ++ s.lastCam.drop s.cameras.length
    lastLs := single s.lowstate s.lastLs
    lastUw := single s.uwb s.lastUw
    lastHand := list s.hands s.lastHand
    lastBodyCmd := list s.bodyCmds s.lastBodyCmd
    lastHandCmd := list s.handCmds s.lastHandCmd
    lastMt := single s.motionToken s.lastMt }

theorem stats?_remember (s : Collector) (x : Stream) : s.remember.stats? x = s.stats? x := by
  rcases x with i | i | x
  · rfl
  · rfl
  · cases x <;> rfl

theorem last?_remember (h : s.stats? x = some stats) : s.remember.last? x = some (.of stats) := by
  rcases x with i | i | x
  · obtain ⟨r, hr, rfl⟩ := Option.map_eq_some_iff.mp h
    rw [last?, remember, getElem?_remembered hr]
    rfl
  · obtain ⟨r, hr, rfl⟩ := Option.map_eq_some_iff.mp h
    rw [last?, remember, getElem?_remembered hr]
    rfl
  · obtain ⟨r, hr, rfl⟩ := Option.map_eq_some_iff.mp h
    have hlist {rs : List StreamRecorder} {last : List Last} {i : Nat} (hi : rs[i]? = some r) :
        (rs.map (fun r => Last.of r.stats) ++ last.drop rs.length)[i]? = some (.of r.stats) :=
      getElem?_remembered hi
    cases x with
    | lowstate | uwb | motionToken =>
      simp only [row?] at hr
      simp [last?, lastRow?, remember, hr]
    | hand i | bodyCmd i | handCmd i => exact hlist hr

theorem covered_remember (s : Collector) : Covered s.remember := by
  constructor <;> simp [Collector.remember]

theorem reportOne_snd (x : Row) (name : List Char) (o : Option StreamRecorder) (last : Last) :
    (reportOne x name o last).2 = (o.map fun r => .of r.stats).getD last := by
  cases o <;> rfl

/-- What a report does: it shows every stream, and remembers the counters it has read. -/
theorem printReport_spec (h : Covered s) : ∃ lines, s.printReport = some (lines, s.remember) ∧
    Shows s (fun _ => True) lines := by
  obtain ⟨camera, hcamera, h1⟩ := shows_cameras h.cameras
  obtain ⟨hand, hhand, h2⟩ := shows_list (f := Row.hand) (fun _ => rfl) (fun _ => rfl)
    (fun r => "hand_".toList ++ r.label) h.hands
  obtain ⟨bodyCmd, hbodyCmd, h3⟩ := shows_list (f := Row.bodyCmd) (fun _ => rfl) (fun _ => rfl)
    (fun r => r.label) h.bodyCmds
  obtain ⟨handCmd, hhandCmd, h4⟩ := shows_list (f := Row.handCmd) (fun _ => rfl) (fun _ => rfl)
    (fun r => "cmd_".toList ++ r.label) h.handCmds
  have h5 := shows_single (s := s) (x := .lowstate) rfl rfl "lowstate".toList
  have h6 := shows_single (s := s) (x := .uwb) rfl rfl "uwb".toList
  have h7 := shows_single (s := s) (x := .motionToken) rfl rfl "motion_token".toList
  have hall := h1.append (((((h5.append h6).append h2).append h3).append h4).append h7)
  refine ⟨_, ?_, hall.sound, fun x _ => hall.complete x ?_⟩
  · simp only [printReport, hcamera, hhand, hbodyCmd, hhandCmd, reportOne_snd]
    rfl
  · rcases x with i | i | x
    · exact .inl rfl
    · exact .inl rfl
    · cases x <;> simp

/-! ## The start of a session -/

theorem stats?_keepStarted {env : DataCollector.Env} {settings : DataCollector.Settings}
    (h : Dead s) (hs : (keepStarted env settings dir s).stats? x = some stats) : stats = {} := by
  have hlist {names : List (List Char)} {as : List Attempt} {i : Nat}
      (hr : ((labelled names as)[i]?).map (·.stats) = some stats) : stats = {} := by
    obtain ⟨r, hget, rfl⟩ := Option.map_eq_some_iff.mp hr
    obtain ⟨p, -, rfl⟩ := List.mem_map.mp (List.mem_of_getElem? hget)
    rfl
  have hsingle {enabled : Bool} {as : List Attempt}
      (hr : (if enabled then unlabelled as else none).map (·.stats) = some stats) : stats = {} := by
    obtain ⟨r, hget, rfl⟩ := Option.map_eq_some_iff.mp hr
    simp only [Option.ite_none_right_eq_some, unlabelled, Option.map_eq_some_iff] at hget
    obtain ⟨-, a, -, rfl⟩ := hget
    rfl
  have hcamera (f : CameraRecorder → StreamStats) (hf : ∀ name a, f ⟨a, name, {}, {}⟩ = {}) {i : Nat}
      (hr : ((keepStarted env settings dir s).cameras[i]?).map f = some stats) : stats = {} := by
    obtain ⟨r, hget, rfl⟩ := Option.map_eq_some_iff.mp hr
    have hmem := List.mem_of_getElem? hget
    rw [keepStarted, h.cameras] at hmem
    obtain ⟨p, -, rfl⟩ := List.mem_map.mp hmem
    exact hf p.1 p.2
  rcases x with i | i | x
  · exact hcamera _ (fun _ _ => rfl) hs
  · exact hcamera _ (fun _ _ => rfl) hs
  · simp only [stats?, keepStarted, h.lowstate, h.hands, h.uwb, h.bodyCmds, h.handCmds,
      h.motionToken, List.nil_append] at hs
    cases x with
    | lowstate | uwb | motionToken => exact hsingle hs
    | hand i | bodyCmd i | handCmd i => exact hlist hs

theorem last?_resetLast (hs : s.stats? x = some stats) (hx : x.isSingle = false) :
    s.resetLast.last? x = some {} := by
  have hlist {α β : Type} {rs : List α} {f : α → StreamStats} {i : Nat} {b : β}
      (hr : rs[i]?.map f = some stats) : (List.replicate rs.length b)[i]? = some b := by
    obtain ⟨r, hr, -⟩ := Option.map_eq_some_iff.mp hr
    rw [List.getElem?_replicate, if_pos (List.getElem?_eq_some_iff.mp hr).1]
  rcases x with i | i | x
  · rw [last?, resetLast, hlist hs]
    rfl
  · rw [last?, resetLast, hlist hs]
    rfl
  · cases x with
    | lowstate | uwb | motionToken => cases hx
    | hand i | bodyCmd i | handCmd i => exact hlist hs

theorem covered_resetLast (s : Collector) : Covered s.resetLast := by
  constructor <;> simp [resetLast]

/-! ## Any run -/

theorem previous_append (es es' : List Event) :
    previous (es ++ es') = es'.foldl Event.next (previous es) := List.foldl_append

/-- What is remembered follows the reports: the counters are past those of the previous report of the
session, which are the ones remembered; and until there is one, zero is remembered of every stream that
is not single. -/
structure Tracks (es : List Event) (s : Collector) : Prop where
  inv : Inv s
  covered : Covered s
  grown : ∀ x stats, s.stats? x = some stats →
    (baseline es x).received ≤ stats.received ∧ (baseline es x).written ≤ stats.written
  known : ∀ x stats before, s.stats? x = some stats → previous es x = some before →
    s.last? x = some (.of before)
  zero : ∀ x stats, s.stats? x = some stats → x.isSingle = false → previous es x = none →
    s.last? x = some {}

theorem Tracks.of_dead (hi : Inv s) (h : Dead s) (es : List Event) : Tracks es s where
  inv := hi
  covered := by constructor <;> simp [h.cameras, h.hands, h.bodyCmds, h.handCmds]
  grown x stats hs := by simp [h.stats?] at hs
  known x stats before hs := by simp [h.stats?] at hs
  zero x stats hs := by simp [h.stats?] at hs

theorem stats?_running (s : Collector) (x : Stream) :
    stats? { s.resetLast with running := true } x = s.stats? x := by
  rcases x with i | i | x
  · rfl
  · rfl
  · cases x <;> rfl

theorem last?_running (s : Collector) (x : Stream) :
    last? { s with running := true } x = s.last? x := by
  rcases x with i | i | x
  · rfl
  · rfl
  · cases x <;> rfl

theorem Tracks.start (h : Tracks es s) (env : DataCollector.Env)
    (settings : DataCollector.Settings) :
    Tracks (es ++ (s.start env settings).2.2) (s.start env settings).2.1 := by
  have hinv := h.inv.start env settings
  obtain ⟨-, heq⟩ | ⟨hrun, s', heq, -, hdead⟩ | ⟨hrun, session, started, heq⟩ :=
    start_cases env settings s
  · simpa [heq] using h
  · rw [heq] at hinv ⊢
    exact .of_dead hinv (hdead (h.inv.dead hrun)) _
  · rw [heq] at hinv ⊢
    have hnone (x : Stream) : previous (es ++ [.started session started]) x = none := by
      rw [previous_append]
      rfl
    refine ⟨hinv, ?_, fun x stats hs => ?_, fun x stats before hs hb => ?_, fun x stats hs hx _ => ?_⟩
    · obtain ⟨h1, h2, h3, h4⟩ := covered_resetLast
        (keepStarted env settings session.dir { s with session := session })
      exact ⟨h1, h2, h3, h4⟩
    · rw [baseline, hnone]
      exact ⟨Nat.zero_le _, Nat.zero_le _⟩
    · rw [hnone] at hb
      cases hb
    · rw [stats?_running] at hs
      rw [last?_running]
      exact last?_resetLast hs hx

theorem stats?_arrive (more : Stream → StreamStats) (s : Collector) (x : Stream) :
    (s.arrive more).stats? x = (s.stats? x).map (·.add (more x)) := by
  rcases x with i | i | x
  · simp [stats?, Collector.arrive, CameraRecorder.grow, Function.comp_def]
  · simp [stats?, Collector.arrive, CameraRecorder.grow, Function.comp_def]
  · cases x <;> simp [stats?, row?, Collector.arrive, StreamRecorder.grow, Function.comp_def]

theorem last?_arrive (more : Stream → StreamStats) (s : Collector) (x : Stream) :
    (s.arrive more).last? x = s.last? x := by
  rcases x with i | i | x
  · rfl
  · rfl
  · cases x <;> rfl

theorem Tracks.arrive (h : Tracks es s) (more : Stream → StreamStats) :
    Tracks es (s.arrive more) where
  inv := h.inv.arrive more
  covered := by
    obtain ⟨h1, h2, h3, h4⟩ := h.covered
    constructor <;> simpa [Collector.arrive]
  grown x stats hs := by
    rw [stats?_arrive, Option.map_eq_some_iff] at hs
    obtain ⟨stats, hs, rfl⟩ := hs
    have hgrown := h.grown x stats hs
    exact ⟨hgrown.1.trans (Nat.le_add_right ..), hgrown.2.trans (Nat.le_add_right ..)⟩
  known x stats before hs hb := by
    rw [stats?_arrive, Option.map_eq_some_iff] at hs
    obtain ⟨stats, hs, -⟩ := hs
    rw [last?_arrive]
    exact h.known x stats before hs hb
  zero x stats hs hx hb := by
    rw [stats?_arrive, Option.map_eq_some_iff] at hs
    obtain ⟨stats, hs, -⟩ := hs
    rw [last?_arrive]
    exact h.zero x stats hs hx hb

/-- After a report, the counters of a stream in it are those the stream has. -/
theorem previous_reported (h : Shows s (fun _ => True) lines) (hs : s.stats? x = some stats) :
    previous (es ++ [.reported lines]) x = some stats := by
  obtain ⟨l, hl, hx⟩ := h.complete x trivial (by rw [hs]; rfl)
  have hsome : (lines.find? (·.stream = x)).isSome = true :=
    List.find?_isSome.mpr ⟨l, hl, by simpa using hx⟩
  obtain ⟨l', hfind⟩ := Option.isSome_iff_exists.mp hsome
  have hx' : l'.stream = x := by simpa using List.find?_some hfind
  obtain ⟨_, x', _, _, rfl, hs', -⟩ := h.sound l' (List.mem_of_find?_eq_some hfind)
  cases (show x' = x from hx')
  cases hs.symm.trans hs'
  rw [previous_append]
  simp only [List.foldl_cons, List.foldl_nil, Event.next, hfind]
  rfl

theorem Tracks.report (h : Tracks es s) (hr : s.printReport = some (lines, s')) :
    Tracks (es ++ [.reported lines]) s' ∧ Shows s (fun _ => True) lines := by
  obtain ⟨_, heq, hshows⟩ := printReport_spec h.covered
  rw [heq] at hr
  cases hr
  refine ⟨⟨h.inv.step (.report heq), s.covered_remember, fun x stats hs => ?_,
    fun x stats before hs hb => ?_, fun x stats hs _ hb => ?_⟩, hshows⟩
  all_goals rw [stats?_remember] at hs
  · rw [baseline, previous_reported hshows hs]
    exact ⟨le_rfl, le_rfl⟩
  · rw [previous_reported hshows hs] at hb
    cases hb
    exact last?_remember hs
  · rw [previous_reported hshows hs] at hb
    cases hb

theorem Tracks.step (h : Tracks es s) (hs : Step s l s' e) : Tracks (es ++ e) s' := by
  cases hs with
  | start => exact h.start _ _
  | arrive => rw [List.append_nil]; exact h.arrive _
  | report hr => exact (h.report hr).1
  | outOfRange hr =>
    obtain ⟨_, heq, -⟩ := printReport_spec h.covered
    rw [heq] at hr
    cases hr
  | @stop drain =>
    cases hrun : s.running with
    | true =>
      have hdead := (stop_of_running hrun drain).2.1
      exact .of_dead (.of_dead hdead) hdead _
    | false =>
      rw [stop_of_not_running hrun, List.append_nil]
      exact h

theorem Tracks.of_run (h : machine.run {} ls = some (s, es)) : Tracks es s :=
  Machine.invariant (P := Tracks) (.of_dead (.of_dead ⟨rfl, rfl, rfl, rfl, rfl, rfl, rfl⟩)
    ⟨rfl, rfl, rfl, rfl, rfl, rfl, rfl⟩ _) (fun ht hs => ht.step (.of_step hs)) h

/-! ## True reports -/

theorem trueReports_snoc {e : Event} :
    TrueReports (es ++ [e]) ↔ TrueReports es ∧ e.TrueAfter es := by
  refine ⟨fun H => ⟨fun pre e' post heq => ?_, H es e [] rfl⟩, fun ⟨H, he⟩ pre e' post heq => ?_⟩
  · exact H pre e' (post ++ [e]) (by simp [heq])
  · rcases List.eq_nil_or_concat post with rfl | ⟨post, d, rfl⟩
    · obtain ⟨rfl, hlast⟩ := List.append_inj' heq rfl
      cases hlast
      exact he
    · have hcut : es ++ [e] = (pre ++ e' :: post) ++ [d] := by simpa using heq
      exact H pre e' post (List.append_inj' hcut rfl).1

/-- An event that is not of a report. -/
def Event.isQuiet : Event → Bool
  | .reported _ | .outOfRange => false
  | _ => true

theorem trueReports_quiet {es' : List Event} (h : ∀ e ∈ es', e.isQuiet = true) :
    TrueReports (es ++ es') ↔ TrueReports es := by
  induction es' using List.reverseRecOn with
  | nil => rw [List.append_nil]
  | append_singleton es' e ih =>
    have he : e.TrueAfter (es ++ es') := by
      have hquiet := h e (by simp)
      cases e with
      | reported | outOfRange => cases hquiet
      | _ => trivial
    rw [← List.append_assoc, trueReports_snoc, ih fun e he => h e (by simp [he])]
    exact and_iff_left he

theorem quiet_start (env : DataCollector.Env) (settings : DataCollector.Settings) :
    ∀ e ∈ (s.start env settings).2.2, e.isQuiet = true := by
  obtain ⟨-, heq⟩ | ⟨-, s', heq, -⟩ | ⟨-, session, started, heq⟩ := start_cases env settings s
  · simp [heq]
  · simp [heq]
  · simp [heq, Event.isQuiet]

theorem quiet_stop (drain : Stream → StreamStats) :
    ∀ e ∈ (s.stop drain).2, e.isQuiet = true := by
  cases hrun : s.running with
  | false => simp [stop_of_not_running hrun]
  | true =>
    rw [(stop_of_running hrun drain).1]
    intro e he
    rcases List.mem_append.mp he with he | he
    · obtain ⟨t, -, he⟩ := List.mem_flatMap.mp he
      rcases List.mem_cons.mp he with rfl | he
      · rfl
      · obtain ⟨p, -, rfl⟩ := List.mem_map.mp he
        rfl
    · rw [List.mem_singleton.mp he]
      rfl

/-- A difference to the remembered counter is true exactly when what is remembered is the counter of the
previous report. -/
theorem trueDelta_iff (h : before ≤ now) (last : UInt64) :
    TrueDelta before now last (.ofNat now - last) ↔ last = .ofNat before := by
  rw [TrueDelta, UInt64.ofNat_sub h, UInt64.sub_right_inj]
  refine ⟨fun H => H.2.1, fun heq => ⟨h, heq, fun hlt => ?_⟩⟩
  rw [heq]
  exact (UInt64.ofNat_le_iff_le (h.trans_lt hlt) hlt).mpr h

theorem line_true_iff {before stats : StreamStats} (h : before.received ≤ stats.received ∧
    before.written ≤ stats.written) (name : List Char) (x : Stream) (last : Last) :
    (line name x stats last).Correct before ↔ last = .of before := by
  rw [ReportLine.Correct]
  simp only [line, trueDelta_iff h.1, trueDelta_iff h.2]
  cases last
  simp [Last.of]

/-- A report is true exactly when zero is remembered of the single streams that it shows first. -/
theorem reported_true_iff (h : Tracks es s) (hshows : Shows s (fun _ => True) lines) :
    (Event.reported lines).TrueAfter es ↔ SinglesZero es s .report := by
  constructor
  · rintro H - x - hs hb
    obtain ⟨_, hl, rfl⟩ := hshows.complete x trivial hs
    obtain ⟨name, x, stats, last, rfl, hstats, hlast⟩ := hshows.sound _ hl
    have htrue : (line name x stats last).Correct (baseline es x) := H _ hl
    rw [line_true_iff (h.grown x stats hstats), baseline,
      show previous es x = none from hb] at htrue
    rw [htrue] at hlast
    exact hlast
  · intro H l hl
    obtain ⟨name, x, stats, last, rfl, hstats, hlast⟩ := hshows.sound l hl
    refine (line_true_iff (h.grown x stats hstats) name x last).mpr ?_
    cases hb : previous es x with
    | some before =>
      rw [h.known x stats before hstats hb, Option.some.injEq] at hlast
      rw [baseline, hb, ← hlast]
      rfl
    | none =>
      have hzero : s.last? x = some {} := by
        cases hx : x.isSingle with
        | true => exact H rfl x hx (by rw [hstats]; rfl) hb
        | false => exact h.zero x stats hstats hx hb
      rw [hlast, Option.some.injEq] at hzero
      rw [baseline, hb, hzero]
      rfl

/-- Step by step: a report adds the condition on what is remembered, no other step adds any. -/
theorem trueReports_step (h : Tracks es s) (hs : Step s l s' e) :
    TrueReports (es ++ e) ↔ TrueReports es ∧ SinglesZero es s l := by
  have hother {es' : List Event} (hq : ∀ e ∈ es', e.isQuiet = true) (hl : l ≠ .report) :
      TrueReports (es ++ es') ↔ TrueReports es ∧ SinglesZero es s l := by
    rw [trueReports_quiet hq, and_iff_left (show SinglesZero es s l from fun h => absurd h hl)]
  cases hs with
  | start => exact hother (quiet_start _ _) nofun
  | arrive => exact hother nofun nofun
  | report hr => rw [trueReports_snoc, reported_true_iff h (h.report hr).2]
  | outOfRange hr =>
    obtain ⟨_, heq, -⟩ := printReport_spec h.covered
    rw [heq] at hr
    cases hr
  | stop => exact hother (quiet_stop _) nofun

/-- No report reads a remembered value that is not there. -/
theorem in_range (h : machine.run {} ls = some (s, es)) : .outOfRange ∉ es := by
  refine Machine.run_induction (P := fun _ es _ => .outOfRange ∉ es) List.not_mem_nil ?_ h
  intro ls es s l s' e hrun ih hs
  have hquiet {es' : List Event} (hq : ∀ e ∈ es', e.isQuiet = true) : .outOfRange ∉ es ++ es' := by
    intro hmem
    rcases List.mem_append.mp hmem with hmem | hmem
    · exact ih hmem
    · cases hq _ hmem
  cases Step.of_step hs with
  | start => exact hquiet (quiet_start _ _)
  | arrive => exact hquiet nofun
  | report => simpa using ih
  | outOfRange hr =>
    obtain ⟨_, heq, -⟩ := printReport_spec (Tracks.of_run hrun).covered
    rw [heq] at hr
    cases hr
  | stop => exact hquiet (quiet_stop _)

/-- The recorders of a new session count from zero. -/
theorem start_zero (hi : Inv s) (hrun : s.running = false) (env : DataCollector.Env)
    (settings : DataCollector.Settings) (x : Stream)
    (hs : (s.start env settings).2.1.stats? x = some stats) : stats = {} := by
  have hd := hi.dead hrun
  obtain ⟨hrun', -⟩ | ⟨-, s', heq, -, hdead⟩ | ⟨-, session, started, heq⟩ :=
    start_cases env settings s
  · simp [hrun] at hrun'
  · simp [heq, (hdead hd).stats?] at hs
  · rw [heq, stats?_running] at hs
    have hd' : Dead { s with session := session } :=
      ⟨hd.cameras, hd.lowstate, hd.hands, hd.uwb, hd.bodyCmds, hd.handCmds, hd.motionToken⟩
    exact stats?_keepStarted hd' hs

/-- **True reports.** In any sequence of sessions, with any settings and any numbers of records: no index
is out of range, each session counts from zero, and all reports are true exactly when at the first report
of each session zero is remembered of lowstate, uwb and motion_token, as far as these record. -/
theorem true_reports_iff (h : machine.run {} ls = some (s, es)) :
    .outOfRange ∉ es ∧
    (s.running = false → ∀ env settings x stats,
      (s.start env settings).2.1.stats? x = some stats → stats = {}) ∧
    (TrueReports es ↔ machine.Along SinglesZero {} ls) := by
  refine ⟨in_range h, fun hrun env settings x stats hs =>
    start_zero (Inv.of_run h) hrun env settings x hs, ?_⟩
  refine Machine.run_induction
    (P := fun ls es _ => TrueReports es ↔ machine.Along SinglesZero {} ls) ?_ ?_ h
  · exact iff_of_true (fun pre e post heq => by simp at heq) (fun pre l post heq => by simp at heq)
  · intro ls es s l s' e hrun ih hs
    rw [trueReports_step (.of_run hrun) (.of_step hs), Machine.along_snoc hrun, ih]

/-- Ten records of lowstate and a report, then a session with three and a report. -/
def twoSessions (localtime : Int64 → Tm) : List Label :=
  let env := DataCollector.Env.works localtime
  let settings : DataCollector.Settings := { lowstateEnabled := true }
  [.start (env 0) settings, .arrive fun _ => { received := 10, written := 10 }, .report,
    .stop fun _ => {}, .start (env 30000000000) settings, .arrive fun _ => { received := 3, written := 3 },
    .report]

theorem true_reports_twoSessions : ∃ s es,
    machine.run {} (twoSessions fun t => ⟨2024, 0, 1, 0, 0, if t = 0 then 0 else 30⟩) =
      some (s, es) ∧ .outOfRange ∉ es ∧
    (TrueReports es ↔ machine.Along SinglesZero {}
      (twoSessions fun t => ⟨2024, 0, 1, 0, 0, if t = 0 then 0 else 30⟩)) := by
  refine Machine.exists_run (P := fun p => p.1.running = true) (by decide) ?_
  intro s es h _
  exact ⟨(true_reports_iff h).1, (true_reports_iff h).2.2⟩

instance (es : List Event) (e : Event) : Decidable (e.TrueAfter es) :=
  match e with
  | .reported lines => inferInstanceAs (Decidable (∀ l ∈ lines, _))
  | .outOfRange => instDecidableFalse
  | .started .. | .stopped _ | .read .. | .finalized .. => instDecidableTrue

/-- The second session shows 3 - 10. -/
theorem true_reports_fails : ∃ s es,
    machine.run {} (twoSessions fun t => ⟨2024, 0, 1, 0, 0, if t = 0 then 0 else 30⟩) =
      some (s, es) ∧ ¬ TrueReports es := by
  refine Machine.exists_run
    (P := fun p => p.2.getLast?.any (fun e => !decide (e.TrueAfter p.2.dropLast)) = true)
    (by decide) ?_
  intro s es _ hlast H
  obtain ⟨e, hget, he⟩ := (Option.any_eq_true _ _).mp hlast
  obtain ⟨pre, rfl⟩ := List.getLast?_eq_some_iff.mp hget
  rw [List.dropLast_concat, Bool.not_eq_true', decide_eq_false_iff_not] at he
  exact he (H pre e [] rfl)

/-! ## One session -/

def Label.isStart : Label → Bool
  | .start .. => true
  | _ => false

/-- A collector that starts for the first time remembers zero of every single stream. -/
theorem singlesZero_start (env : DataCollector.Env) (settings : DataCollector.Settings) (es : List Event) :
    SinglesZero es (start env settings {}).2.1 .report := by
  rintro - x hx hsome -
  obtain ⟨hrun, -⟩ | ⟨-, s', heq, -, hdead⟩ | ⟨-, session, started, heq⟩ := start_cases env settings {}
  · cases hrun
  · rw [heq, (hdead ⟨rfl, rfl, rfl, rfl, rfl, rfl, rfl⟩).stats?] at hsome
    cases hsome
  · rw [heq, last?_running]
    rcases x with i | i | x
    · cases hx
    · cases hx
    · cases x with
      | lowstate | uwb | motionToken => rfl
      | hand i | bodyCmd i | handCmd i => cases hx

/-- Until the next `start`, what a report shows first of a single stream is taken of zero. -/
theorem SinglesZero.next (h : Tracks es s) (hz : SinglesZero es s .report) (hs : Step s l s' e)
    (hl : l.isStart = false) : SinglesZero (es ++ e) s' .report := by
  rintro - x hx hsome hnone
  cases hs with
  | start => cases hl
  | @arrive more =>
    rw [List.append_nil] at hnone
    rw [stats?_arrive, Option.isSome_map] at hsome
    rw [last?_arrive]
    exact hz rfl x hx hsome hnone
  | report hr =>
    obtain ⟨lines, heq, hshows⟩ := printReport_spec h.covered
    rw [heq] at hr
    cases hr
    rw [stats?_remember] at hsome
    obtain ⟨stats, hstats⟩ := Option.isSome_iff_exists.mp hsome
    rw [previous_reported hshows hstats] at hnone
    cases hnone
  | outOfRange hr =>
    obtain ⟨_, heq, -⟩ := printReport_spec h.covered
    rw [heq] at hr
    cases hr
  | @stop drain =>
    cases hrun : s.running with
    | true =>
      rw [(stop_of_running hrun drain).2.1.stats?] at hsome
      cases hsome
    | false =>
      rw [stop_of_not_running hrun] at hsome hnone ⊢
      rw [List.append_nil] at hnone
      exact hz rfl x hx hsome hnone

/-- All reports of a first session are true. -/
theorem trueReports_session (env : DataCollector.Env) (settings : DataCollector.Settings)
    (h : machine.run (start env settings {}).2.1 ls = some (s, es)) (hls : ∀ l ∈ ls, l.isStart = false) :
    TrueReports ((start env settings {}).2.2 ++ es) := by
  suffices H : (∀ l ∈ ls, l.isStart = false) →
      Tracks ((start env settings {}).2.2 ++ es) s ∧
        SinglesZero ((start env settings {}).2.2 ++ es) s .report ∧
        TrueReports ((start env settings {}).2.2 ++ es) from (H hls).2.2
  refine Machine.run_induction (P := fun ls es s => (∀ l ∈ ls, l.isStart = false) →
    Tracks ((start env settings {}).2.2 ++ es) s ∧
      SinglesZero ((start env settings {}).2.2 ++ es) s .report ∧
      TrueReports ((start env settings {}).2.2 ++ es)) ?nil ?snoc h
  case nil =>
    intro _
    have hdead : Dead {} := ⟨rfl, rfl, rfl, rfl, rfl, rfl, rfl⟩
    have htracks := (Tracks.of_dead (.of_dead hdead) hdead []).start env settings
    rw [List.append_nil]
    have hquiet : TrueReports ([] ++ (start env settings {}).2.2) ↔ TrueReports [] :=
      trueReports_quiet (quiet_start env settings)
    exact ⟨htracks, singlesZero_start env settings _, hquiet.mpr fun pre e post heq => by simp at heq⟩
  case snoc =>
    intro ls es s l s' e _ ih hs hls
    obtain ⟨htracks, hz, htrue⟩ := ih fun l hl => hls l (List.mem_append_left _ hl)
    have hstep := Step.of_step hs
    have hl := hls l (by simp)
    rw [← List.append_assoc]
    refine ⟨htracks.step hstep, hz.next htracks hstep hl, (trueReports_step htracks hstep).mpr ⟨htrue, ?_⟩⟩
    rintro rfl
    exact hz rfl

end Collector
end Kist
