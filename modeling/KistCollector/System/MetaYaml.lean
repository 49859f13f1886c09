import KistCollector.Lib.BlockYamlText
import KistCollector.System.Collector

/-!
# `meta.yaml`

`session_write_meta` puts the effective DDS URI and the names of the cameras into the file as plain scalars
and the task between double quotes, all without escapes, and `session_finalize_meta` and
`session_append_result` append to it. `meta_faithful_iff` says for which strings the file reads back as these
strings, at once and after each append, and `Collector.Files.of_run` that every summary a collector appends
is one of streams of the file's own cameras.
-/

namespace Kist

open Text BlockYaml

/-! ## Writing -/

/-- What `session_write_meta` says about the other files. -/
def formatLines : List (List Char) :=
  ["format:",
    "  # per camera: <name>/\x7bcolor.h264,color.idx.csv,depth.rvl,depth.idx.csv\x7d",
    "  color: Annex-B H.264 NAL units, frames appended verbatim; idx csv maps",
    "         seq/stamp_ns/recv_ns -> byte (offset,size); is_keyframe marks IDR.",
    "  depth: RVL bitstreams (lossless Z16, kist-ext-sensor-io codec) appended",
    "         verbatim; idx csv adds width/height/depth_scale per frame.",
    "  lowstate.csv: one row per rt/lowstate msg (~1 kHz) — recv_ns, tick",
    "         (robot ms counter), mode_machine/mode_pr, IMU (quaternion wxyz,",
    "         gyro, accel, rpy, temp), body motors m00..m34 x q/dq/ddq/tau_est.",
    "  hand_\x7bleft,right\x7d.csv: one row per rt/dex3/<side>/state msg — recv_ns,",
    "         finger motors f0..f6 x q/dq/ddq/tau_est (f0 = thumb rotation),",
    "         press pads press0..8 x 12 pressure channels.",
    "  uwb.csv: one row per rt/kist/uwb/pose fix — recv_ns, stamp_ns, x, y, z",
    "         (UWB local frame, m); time gaps = no fix, not loss.",
    "  lowcmd.csv / arm_sdk.csv: one row per rt/lowcmd / rt/arm_sdk msg —",
    "         recv_ns, mode_pr/mode_machine, body motors m00..m34 x",
    "         mode/q/dq/tau/kp/kd (q = absolute joint target); time gaps =",
    "         no controller publishing, not loss.",
    "  hand_cmd_\x7bleft,right\x7d.csv: one row per rt/dex3/<side>/cmd msg —",
    "         recv_ns, finger motors f0..f6 x mode/q/dq/tau/kp/kd; time",
    "         gaps = no commands, not loss.",
    "  motion_token.csv: one row per rt/kist/motion_token msg (50 Hz) —",
    "         recv_ns, stamp_ns (gearsonic tick clock), seq, arbiter_mode",
    "         (0 normal/1 teleop/2 vla/3 recovering), encoder_mode, token",
    "         t00..t63; seq/time gaps = robot outside CONTROL, not loss.",
    "         Training export keeps arbiter_mode == 1 (teleop) rows.",
    "  clocks: stamp_ns = transmitter capture clock (epoch ns);",
    "          recv_ns = this host's arrival clock (epoch ns) — the",
    "          cross-stream alignment column, shared by every file above."].map String.toList

/-- `toTm` is `gmtime_r`. -/
def headLines (toTm : Int64 → Tm) (session : SessionInfo) (domainId : Int32) : List (List Char) :=
  ["session:".toList,
    "  started_utc: ".toList ++ formatTime toTm session.startedNs "%Y-%m-%dT%H:%M:%SZ".toList,
    "  started_epoch_ns: ".toList ++ integer session.startedNs.toInt,
    "  domain_id: ".toList ++ integer domainId.toInt]

def sessionWriteMeta (toTm : Int64 → Tm) (session : SessionInfo) (domainId : Int32)
    (ddsConfig : List Char) (cameras : List (List Char)) (task : List Char) : List Char :=
  unlines (headLines toTm session domainId ++
    ["  dds_config: ".toList ++ ddsConfig, "  task: \"".toList ++ task ++ "\"".toList] ++
    "cameras:".toList :: cameras.map ("  - ".toList ++ ·) ++ formatLines)

def streamLines (s : StreamSummary) : List (List Char) :=
  ["  - source: ".toList ++ s.source,
    "    stream: ".toList ++ s.stream,
    "    received: ".toList ++ decimal s.stats.received,
    "    written: ".toList ++ decimal s.stats.written,
    "    dropped: ".toList ++ decimal s.stats.dropped,
    "    write_errors: ".toList ++ decimal s.stats.writeErrors,
    "    wire_gaps: ".toList ++ decimal s.stats.wireGaps.toNat,
    "    bytes: ".toList ++ decimal s.stats.bytes]

/-- What `session_finalize_meta` appends. -/
def sessionFinalizeMeta (toTm : Int64 → Tm) (endedNs : Int64) (streams : List StreamSummary) :
    List Char :=
  unlines (["ended_utc: ".toList ++ formatTime toTm endedNs "%Y-%m-%dT%H:%M:%SZ".toList,
    "ended_epoch_ns: ".toList ++ integer endedNs.toInt,
    "streams:".toList] ++ streams.flatMap streamLines)

/-- What `session_append_result` appends. -/
def sessionAppendResult (session : SessionInfo) (result : List Char) : List Char :=
  if result = [] || session.dir = [] then [] else unlines ["result: ".toList ++ result]

/-! ## Reading -/

/-- The strings of a session. -/
structure MetaStrings where
  ddsConfig : List Char
  task : List Char
  cameras : List (List Char)
  deriving DecidableEq

/-- The strings that a file gives back. -/
def readMeta (isString : List Char → Bool) (text : List Char) : Option MetaStrings := do
  let doc ← read text
  let session ← doc.get "session".toList
  let ddsConfig ← (session.get "dds_config".toList).bind (Node.string? isString)
  let task ← (session.get "task".toList).bind (Node.string? isString)
  let cameras ← (doc.get "cameras".toList).bind (Node.strings? isString)
  pure ⟨ddsConfig, task, cameras⟩

/-! ## Safe values -/

theorem plainRest_cons (hc : isNs c = true ∧ c ≠ ':' ∧ c ≠ '#') (h : plainRest false cs = true) :
    plainRest false (c :: cs) = true := by
  rw [plainRest, if_neg (by simp [not_white_of_isNs hc.1]), h]
  simp [hc]

/-- A colon inside a word. -/
theorem plainRest_colon (hc : isNs c = true) (h : plainRest false (c :: cs) = true) :
    plainRest false (':' :: c :: cs) = true := by
  rw [plainRest, if_neg (by decide), h]
  simp [hc]
  decide

theorem digit_ns (h : c.isDigit = true) : isNs c = true ∧ c ≠ ':' ∧ c ≠ '#' := by
  refine ⟨?_, ?_, ?_⟩
  · have hrange : 48 ≤ c.toNat ∧ c.toNat ≤ 57 := by
      simpa [Char.isDigit, UInt32.le_iff_toNat_le] using h
    simp only [isNs, Bool.and_eq_true, Bool.or_eq_true, decide_eq_true_eq]
    omega
  · rintro rfl
    cases h
  · rintro rfl
    cases h

theorem digit_not_mem_indicators (h : c.isDigit = true) : c ∉ indicators := by
  have hall : indicators.all (fun d => !d.isDigit) = true := rfl
  intro hc
  have hnot := List.all_eq_true.mp hall c hc
  rw [h] at hnot
  cases hnot

theorem plainRest_digits (hcs : ∀ c ∈ cs, c.isDigit = true) (h : plainRest false rest = true) :
    plainRest false (cs ++ rest) = true := by
  induction cs with
  | nil => exact h
  | cons c cs ih => exact plainRest_cons (digit_ns (hcs c (by simp))) (ih fun d hd => hcs d (by simp [hd]))

theorem plainSafe_integer_append (z : Int) (h : plainRest false rest = true) :
    plainSafe (integer z ++ rest) = true := by
  cases z with
  | ofNat n =>
    obtain ⟨c, cs, hn, hc⟩ := Scanf.decimal_eq_cons n
    have hcs : ∀ d ∈ cs, d.isDigit = true := fun d hd =>
      isDigit_of_mem_decimal (n := n) (by simp [hn, hd])
    change plainSafe (decimal n ++ rest) = true
    rw [hn, List.cons_append, plainSafe, if_neg (digit_not_mem_indicators hc), (digit_ns hc).1,
      plainRest_digits hcs h]
    rfl
  | negSucc n =>
    obtain ⟨c, cs, hn, hc⟩ := Scanf.decimal_eq_cons (n + 1)
    have hdigits : plainRest false (decimal (n + 1) ++ rest) = true :=
      plainRest_digits (fun _ => isDigit_of_mem_decimal) h
    change plainSafe ('-' :: (decimal (n + 1) ++ rest)) = true
    rw [plainSafe, hdigits, hn]
    simp [(digit_ns hc).1]
    decide

theorem plainSafe_integer (z : Int) : plainSafe (integer z) = true := by
  have h := plainSafe_integer_append z (show plainRest false [] = true from rfl)
  rwa [List.append_nil] at h

theorem plainSafe_decimal (n : Nat) : plainSafe (decimal n) = true := plainSafe_integer n

theorem twoDigits_digits (hn : n < 100) : ∀ c ∈ twoDigits n, c.isDigit = true := by
  have h : ∀ k : Fin 100, (twoDigits k).all Char.isDigit = true := by decide
  exact List.all_eq_true.mp (h ⟨n, hn⟩)

theorem plainRest_clock (hn : n < 100) (h : plainRest false rest = true) :
    plainRest false (':' :: (twoDigits n ++ rest)) = true := by
  have hdigits := plainRest_digits (twoDigits_digits hn) h
  have hhead : (n / 10).digitChar.isDigit = true :=
    twoDigits_digits hn _ (List.mem_cons_self ..)
  rw [twoDigits, List.cons_append] at hdigits ⊢
  exact plainRest_colon (digit_ns hhead).1 hdigits

theorem plainSafe_utc (toTm : Int64 → Tm) (ns : Int64) :
    plainSafe (formatTime toTm ns "%Y-%m-%dT%H:%M:%SZ".toList) = true := by
  rw [formatTime]
  generalize toTm (ns / 1000000000) = tm
  have hsec := plainRest_clock (n := tm.sec) (by omega) (show plainRest false ['Z'] = true by decide)
  have hmin := plainRest_clock (n := tm.min) (by omega) hsec
  have hhour := plainRest_digits (twoDigits_digits (n := tm.hour) (by omega)) hmin
  have hT := plainRest_cons (c := 'T') (by decide) hhour
  have hmday := plainRest_digits (twoDigits_digits (n := tm.mday) (by omega)) hT
  have hdash := plainRest_cons (c := '-') (by decide) hmday
  have hmon := plainRest_digits (twoDigits_digits (n := tm.mon + 1) (by omega)) hdash
  rw [strftime_utc]
  exact plainSafe_integer_append _ (plainRest_cons (c := '-') (by decide) hmon)

theorem format_scan : ((scan none formatLines).any fun es =>
    es.head? = some ⟨0, some "format".toList, none⟩ &&
      es.tail.all (fun e => e.col = 2 && e.value.isSome && e.key.isSome) &&
        decide (es.tail.map (·.key)).Nodup) = true := by
  simp only [formatLines, List.map]
  repeat rw [String.toList_ofList]
  decide +kernel

theorem exists_formatLines : ∃ ls, formatLines = "format:".toList :: ls ∧
    Closing 0 "format:".toList :=
  ⟨_, rfl, 0, 'f', "ormat:".toList, Nat.le_refl 0, rfl, by decide, rfl⟩

theorem scans_format : ∃ kids, Scans 0 formatLines (⟨0, some "format".toList, none⟩ :: kids) 0 ∧
    (∀ e ∈ kids, e.col = 2 ∧ e.value.isSome = true ∧ e.key.isSome = true) ∧
      (kids.map (·.key)).Nodup := by
  have h := format_scan
  cases hscan : scan none formatLines with
  | none =>
    rw [hscan] at h
    cases h
  | some es =>
    rw [hscan, Option.any_some] at h
    simp only [Bool.and_eq_true, decide_eq_true_eq, List.all_eq_true, and_assoc] at h
    obtain ⟨hhead, hkids, hnodup⟩ := h
    obtain ⟨kids, rfl⟩ : ∃ kids, es = ⟨0, some "format".toList, none⟩ :: kids := by
      cases es with
      | nil => cases hhead
      | cons e kids => exact ⟨kids, by rw [Option.some.inj hhead]⟩
    refine ⟨kids, ?_, hkids, hnodup⟩
    obtain ⟨⟨es, q⟩, hsteps, hes⟩ := Option.map_eq_some_iff.mp hscan
    obtain ⟨ls, hlines, hclosing⟩ := exists_formatLines
    rw [hlines] at hsteps ⊢
    rw [← hes]
    exact .of_steps hclosing hsteps fun p _ => Nat.zero_le p.col

/-! ## The file -/

section

variable (toTm : Int64 → Tm) (session : SessionInfo) (domainId : Int32)

def headLeaves : List Entry :=
  [⟨2, some "started_utc".toList,
      some (.plain (formatTime toTm session.startedNs "%Y-%m-%dT%H:%M:%SZ".toList))⟩,
    ⟨2, some "started_epoch_ns".toList, some (.plain (integer session.startedNs.toInt))⟩,
    ⟨2, some "domain_id".toList, some (.plain (integer domainId.toInt))⟩]

/-- The entry of a line `key: value`. -/
theorem scans_plain (n : Nat) (key : String) (hkey : KeySafe key.toList) (hv : plainSafe v = true)
    (hl : l = List.replicate n ' ' ++ (key.toList ++ ':' :: ' ' :: v)) :
    Scans n [l] [⟨n, some key.toList, some (.plain v)⟩] n := hl ▸ .plain hkey hv

theorem scans_head : Scans 0 (headLines toTm session domainId)
    (⟨0, some "session".toList, none⟩ :: headLeaves toTm session domainId) 2 := by
  have hsession : Scans 0 ["session:".toList] [⟨0, some "session".toList, none⟩] 2 :=
    .header (show KeySafe "session".toList by decide)
  have hutc := scans_plain 2 "started_utc" (by decide) (plainSafe_utc toTm session.startedNs) rfl
  have hns := scans_plain 2 "started_epoch_ns" (by decide) (plainSafe_integer session.startedNs.toInt) rfl
  have hdomain := scans_plain 2 "domain_id" (by decide) (plainSafe_integer domainId.toInt) rfl
  exact hsession.cons (hutc.cons (hns.cons hdomain (Nat.le_refl 2)) (Nat.le_refl 2)) (Nat.le_refl 2)

theorem scans_ddsConfig (hu : plainSafe ddsConfig = true) :
    Scans 0 (headLines toTm session domainId ++ ["  dds_config: ".toList ++ ddsConfig])
      (⟨0, some "session".toList, none⟩ :: (headLeaves toTm session domainId ++
        [⟨2, some "dds_config".toList, some (.plain ddsConfig)⟩])) 2 :=
  (scans_head toTm session domainId).append (scans_plain 2 "dds_config" (by decide) hu rfl)
    (Nat.le_refl 2)

def sessionLeaves (ddsConfig task : List Char) : List Entry :=
  headLeaves toTm session domainId ++
    [⟨2, some "dds_config".toList, some (.plain ddsConfig)⟩, ⟨2, some "task".toList, some (.quoted task)⟩]

theorem col_sessionLeaves (ddsConfig task : List Char) :
    ∀ e ∈ sessionLeaves toTm session domainId ddsConfig task, e.col = 2 := by
  simp [sessionLeaves, headLeaves]

theorem scans_session (hu : plainSafe ddsConfig = true) (ht : quotedSafe task = true) :
    Scans 0 (headLines toTm session domainId ++
        ["  dds_config: ".toList ++ ddsConfig, "  task: \"".toList ++ task ++ "\"".toList])
      (⟨0, some "session".toList, none⟩ :: sessionLeaves toTm session domainId ddsConfig task) 0 := by
  have htask : Scans 2 ["  task: \"".toList ++ task ++ "\"".toList]
      [⟨2, some "task".toList, some (.quoted task)⟩] 0 :=
    Scans.quoted (show KeySafe "task".toList by decide) ht
  have h := (scans_ddsConfig toTm session domainId hu).append htask (Nat.le_refl 2)
  simpa [sessionLeaves] using h

end

def cameraItems (cameras : List (List Char)) : List Entry :=
  cameras.map fun name => ⟨2, none, some (.plain name)⟩

theorem scans_cameras : Scans 0 ["cameras:".toList] [⟨0, some "cameras".toList, none⟩] 2 :=
  .header (show KeySafe "cameras".toList by decide)

/-- The entries of a stream's summary under its dash. -/
def streamLeaves (s : StreamSummary) : List Entry :=
  [⟨4, some "source".toList, some (.plain s.source)⟩,
    ⟨4, some "stream".toList, some (.plain s.stream)⟩,
    ⟨4, some "received".toList, some (.plain (decimal s.stats.received))⟩,
    ⟨4, some "written".toList, some (.plain (decimal s.stats.written))⟩,
    ⟨4, some "dropped".toList, some (.plain (decimal s.stats.dropped))⟩,
    ⟨4, some "write_errors".toList, some (.plain (decimal s.stats.writeErrors))⟩,
    ⟨4, some "wire_gaps".toList, some (.plain (decimal s.stats.wireGaps.toNat))⟩,
    ⟨4, some "bytes".toList, some (.plain (decimal s.stats.bytes))⟩]

theorem col_streamLeaves (s : StreamSummary) : ∀ e ∈ streamLeaves s, e.col = 4 := by
  simp [streamLeaves]

theorem scans_stream (hsource : plainSafe s.source = true) (hstream : plainSafe s.stream = true) :
    Scans 2 (streamLines s) (⟨2, none, none⟩ :: streamLeaves s) 2 := by
  have hitem : Scans 2 ["  - source: ".toList ++ s.source]
      [⟨2, none, none⟩, ⟨4, some "source".toList, some (.plain s.source)⟩] 4 :=
    Scans.item_key (show KeySafe "source".toList by decide) hsource
  have hname := scans_plain 4 "stream" (by decide) hstream rfl
  have hreceived := scans_plain 4 "received" (by decide) (plainSafe_decimal s.stats.received) rfl
  have hwritten := scans_plain 4 "written" (by decide) (plainSafe_decimal s.stats.written) rfl
  have hdropped := scans_plain 4 "dropped" (by decide) (plainSafe_decimal s.stats.dropped) rfl
  have herrors := scans_plain 4 "write_errors" (by decide) (plainSafe_decimal s.stats.writeErrors) rfl
  have hgaps := scans_plain 4 "wire_gaps" (by decide) (plainSafe_decimal s.stats.wireGaps.toNat) rfl
  have hbytes := scans_plain 4 "bytes" (by decide) (plainSafe_decimal s.stats.bytes) rfl
  have h4 : 4 ≤ 4 := Nat.le_refl 4
  have hall := hitem.cons (hname.cons (hreceived.cons (hwritten.cons (hdropped.cons (herrors.cons
    (hgaps.cons hbytes h4) h4) h4) h4) h4) h4) h4
  exact hall.weaken (Nat.le_of_ble_eq_true rfl)

def streamGroups (summary : List StreamSummary) : List (Entry × List Entry) :=
  summary.map fun s => (⟨2, none, none⟩, streamLeaves s)

theorem scans_streams {summary : List StreamSummary}
    (h : ∀ s ∈ summary, plainSafe s.source = true ∧ plainSafe s.stream = true) :
    Scans 2 (summary.flatMap streamLines) (ungroup (streamGroups summary)) 2 := by
  induction summary with
  | nil => exact .nil
  | cons s summary ih =>
    have hs := h s (by simp)
    have hrest := ih fun s hs => h s (by simp [hs])
    simpa [ungroup, streamGroups] using (scans_stream hs.1 hs.2).append hrest (Nat.le_refl 2)

theorem pos_streamGroups (summary : List StreamSummary) :
    ∀ e ∈ ungroup (streamGroups summary), 0 < e.col := by
  intro e he
  obtain ⟨g, hg, he⟩ := List.mem_flatMap.mp he
  obtain ⟨s, -, rfl⟩ := List.mem_map.mp hg
  rcases List.mem_cons.mp he with rfl | he
  · exact Nat.zero_lt_two
  · rw [col_streamLeaves s e he]
    exact Nat.zero_lt_succ 3

theorem block_streamGroups (d : Nat) (summary : List StreamSummary) :
    (block (d + 2) (ungroup (streamGroups summary))).isSome = true := by
  have hkeys (s : StreamSummary) : ((streamLeaves s).map fun e => e.key).Nodup := by
    change [some "source".toList, some "stream".toList, some "received".toList,
      some "written".toList, some "dropped".toList, some "write_errors".toList,
      some "wire_gaps".toList, some "bytes".toList].Nodup
    decide
  refine block_ungroup (c := 2) ?_ ?_ (.inl (by simp [streamGroups]))
  · simp [streamGroups, streamLeaves]
  · intro g hg
    obtain ⟨s, -, rfl⟩ := List.mem_map.mp hg
    exact .inr ⟨rfl, block_leaves (col_streamLeaves s) (by simp [streamLeaves]) (hkeys s)⟩

/-! ## Sections -/

/-- Lines that make up entries of the file with these keys. -/
structure Section (ls : List (List Char)) (gs : List (Entry × List Entry))
    (keys : List (List Char)) : Prop where
  scans : Scans 0 ls (ungroup gs) 0
  col : ∀ g ∈ gs, g.1.col = 0 ∧ ∀ e ∈ g.2, 0 < e.col
  good : ∀ d, ∀ g ∈ gs, Good (d + 2) g
  keyed : gs.map (fun g => g.1.key) = keys.map some

theorem Section.append (h : Section ls gs ks) (h' : Section ls' gs' ks') :
    Section (ls ++ ls') (gs ++ gs') (ks ++ ks') where
  scans := by
    rw [ungroup, List.flatMap_append]
    exact h.scans.append h'.scans (Nat.le_refl 0)
  col := List.forall_mem_append.mpr ⟨h.col, h'.col⟩
  good d := List.forall_mem_append.mpr ⟨h.good d, h'.good d⟩
  keyed := by rw [List.map_append, List.map_append, h.keyed, h'.keyed]

/-- A file whose keys differ is a mapping with a group of entries for each of them. -/
theorem Section.document (h : Section ls gs ks) (hks : ks.Nodup) (hlong : 2 < (ungroup gs).length) :
    ∃ d doc e es, BlockYaml.read (unlines ls) = some doc ∧ block (d + 2 + 1) (e :: es) = some doc ∧
      groups e.col (e :: es) = some ([], gs) := by
  obtain ⟨d, hd⟩ : ∃ d, (ungroup gs).length = d + 2 + 1 := ⟨(ungroup gs).length - 3, by omega⟩
  have hkeys : (∀ g ∈ gs, g.1.key.isSome = true) ∧ (gs.map fun g => g.1.key).Nodup := by
    rw [h.keyed]
    refine ⟨fun g hg => ?_, hks.map fun _ _ => Option.some.inj⟩
    have hmem : g.1.key ∈ ks.map some := h.keyed ▸ List.mem_map_of_mem hg
    obtain ⟨k, -, hk⟩ := List.mem_map.mp hmem
    rw [← hk]
    rfl
  obtain ⟨doc, hdoc⟩ := Option.isSome_iff_exists.mp (block_ungroup h.col (h.good d) (.inr hkeys))
  have hread : BlockYaml.read (unlines ls) = some doc := by rw [read_unlines h.scans, hd, hdoc]
  have hgroups := groups_ungroup h.col
  cases gs with
  | nil => exact absurd hlong (by simp [ungroup])
  | cons g gs =>
    have hcol : g.1.col = 0 := (h.col g (by simp)).1
    exact ⟨d, doc, g.1, g.2 ++ ungroup gs, hread, hdoc, hcol.symm ▸ hgroups⟩

/-- A key without a value on its line stands for the block of its deeper entries. -/
theorem Section.read (h : Section ls gs ks) (hks : ks.Nodup) (hlong : 2 < (ungroup gs).length) :
    ∃ d doc, BlockYaml.read (unlines ls) = some doc ∧ ∀ k kids, (⟨0, some k, none⟩, kids) ∈ gs →
      ∃ m, block (d + 2) kids = some m ∧ doc.get k = some m := by
  obtain ⟨d, doc, e, es, hread, hdoc, hgroups⟩ := h.document hks hlong
  exact ⟨d, doc, hread, fun k kids hg => block_of_get hdoc hgroups hg⟩

theorem section_nil : Section [] [] [] := ⟨.nil, by simp, by simp, rfl⟩

/-- A section of one entry with a value. -/
theorem section_leaf (key : String) (hkey : KeySafe key.toList) (hv : plainSafe v = true)
    (hl : l = key.toList ++ ':' :: ' ' :: v) :
    Section [l] [(⟨0, some key.toList, some (.plain v)⟩, [])] [key.toList] where
  scans := scans_plain 0 key hkey hv hl
  col := by simp
  good d := by simp [Good]
  keyed := rfl

/-- A section of one entry with a block. -/
theorem section_block (hscans : Scans 0 ls (⟨0, some k, none⟩ :: kids) b) (hkids : ∀ e ∈ kids, 0 < e.col)
    (hblock : ∀ d, (block (d + 2) kids).isSome = true) :
    Section ls [(⟨0, some k, none⟩, kids)] [k] where
  scans := by
    simpa [ungroup] using hscans.weaken (Nat.zero_le b)
  col := by simpa using hkids
  good d := by simpa [Good] using hblock d
  keyed := rfl

theorem section_session (toTm : Int64 → Tm) (session : SessionInfo) (domainId : Int32)
    (hu : plainSafe ddsConfig = true) (ht : quotedSafe task = true) :
    Section (headLines toTm session domainId ++
        ["  dds_config: ".toList ++ ddsConfig, "  task: \"".toList ++ task ++ "\"".toList])
      [(⟨0, some "session".toList, none⟩, sessionLeaves toTm session domainId ddsConfig task)]
      ["session".toList] := by
  have hcol := col_sessionLeaves toTm session domainId ddsConfig task
  have hkeys : ((sessionLeaves toTm session domainId ddsConfig task).map fun e => e.key).Nodup := by
    change [some "started_utc".toList, some "started_epoch_ns".toList, some "domain_id".toList,
      some "dds_config".toList, some "task".toList].Nodup
    decide
  refine section_block (scans_session toTm session domainId hu ht) (fun e he => ?_) fun d => ?_
  · rw [hcol e he]
    exact Nat.zero_lt_two
  · exact block_leaves hcol (by simp [sessionLeaves, headLeaves]) hkeys

theorem section_cameras {cameras : List (List Char)} (h : ∀ name ∈ cameras, plainSafe name = true) :
    Section ("cameras:".toList :: cameras.map ("  - ".toList ++ ·))
      [(⟨0, some "cameras".toList, none⟩, cameraItems cameras)] ["cameras".toList] := by
  have hitems : Scans 2 (cameras.map ("  - ".toList ++ ·)) (cameraItems cameras) 2 := .items h
  refine section_block (scans_cameras.cons hitems (Nat.le_refl 2)) (by simp [cameraItems]) fun d => ?_
  obtain ⟨m, hm, -⟩ := strings_of_items (c := 2) (d := d + 1) (fun _ => true) fun name _ => rfl
  exact Option.isSome_iff_exists.mpr ⟨m, hm⟩

theorem section_format : ∃ kids, Section formatLines [(⟨0, some "format".toList, none⟩, kids)]
    ["format".toList] := by
  obtain ⟨kids, hscans, hkids, hnodup⟩ := scans_format
  refine ⟨kids, section_block hscans (fun e he => ?_) fun d => ?_⟩
  · rw [(hkids e he).1]
    exact Nat.zero_lt_two
  · exact block_leaves (fun e he => (hkids e he).1) (fun e he => (hkids e he).2) hnodup

/-- The entries that `session_finalize_meta` appends. -/
def endGroups (toTm : Int64 → Tm) (endedNs : Int64) (summary : List StreamSummary) :
    List (Entry × List Entry) :=
  [(⟨0, some "ended_utc".toList, some (.plain (formatTime toTm endedNs "%Y-%m-%dT%H:%M:%SZ".toList))⟩, []),
    (⟨0, some "ended_epoch_ns".toList, some (.plain (integer endedNs.toInt))⟩, []),
    (⟨0, some "streams".toList, none⟩, ungroup (streamGroups summary))]

/-- What `session_finalize_meta` appends is a section of the file. -/
theorem section_end (toTm : Int64 → Tm) (endedNs : Int64) {summary : List StreamSummary}
    (h : ∀ s ∈ summary, plainSafe s.source = true ∧ plainSafe s.stream = true) :
    ∃ ls, sessionFinalizeMeta toTm endedNs summary = unlines ls ∧ Section ls (endGroups toTm endedNs summary)
      ["ended_utc".toList, "ended_epoch_ns".toList, "streams".toList] := by
  have hutc : Section
      ["ended_utc: ".toList ++ formatTime toTm endedNs "%Y-%m-%dT%H:%M:%SZ".toList] _ _ :=
    section_leaf "ended_utc" (by decide) (plainSafe_utc toTm endedNs) rfl
  have hns : Section ["ended_epoch_ns: ".toList ++ integer endedNs.toInt] _ _ :=
    section_leaf "ended_epoch_ns" (by decide) (plainSafe_integer endedNs.toInt) rfl
  have hheader : Scans 0 ["streams:".toList] [⟨0, some "streams".toList, none⟩] 2 :=
    .header (show KeySafe "streams".toList by decide)
  have hstreams := section_block (hheader.cons (scans_streams h) (Nat.le_refl 2))
    (pos_streamGroups summary) fun d => block_streamGroups d summary
  exact ⟨_, rfl, (hutc.append hns).append hstreams⟩

theorem section_finalize (toTm : Int64 → Tm) (endedNs : Int64) {summary : List StreamSummary}
    (h : ∀ s ∈ summary, plainSafe s.source = true ∧ plainSafe s.stream = true) :
    ∃ ls gs, sessionFinalizeMeta toTm endedNs summary = unlines ls ∧
      Section ls gs ["ended_utc".toList, "ended_epoch_ns".toList, "streams".toList] := by
  obtain ⟨ls, hls, hsection⟩ := section_end toTm endedNs h
  exact ⟨ls, _, hls, hsection⟩

theorem section_result (session : SessionInfo) {result : List Char}
    (h : result = [] ∨ plainSafe result = true) :
    ∃ ls gs ks, sessionAppendResult session result = unlines ls ∧ Section ls gs ks ∧
      ks.Sublist ["result".toList] := by
  unfold sessionAppendResult
  split
  · exact ⟨[], [], [], rfl, section_nil, List.nil_sublist _⟩
  · rename_i hne
    have hsafe : plainSafe result = true := h.resolve_left fun h => hne (by simp [h])
    exact ⟨_, _, _, rfl, section_leaf "result" (by decide) hsafe rfl, List.Sublist.refl _⟩

/-! ## The strings that come back -/

/-- What a file with safe strings gives back, whatever sections follow. -/
theorem readMeta_of_section {isString : List Char → Bool} {toTm : Int64 → Tm} {session : SessionInfo}
    {domainId : Int32} {ddsConfig task : List Char} {cameras : List (List Char)}
    (hu : plainSafe ddsConfig = true) (hustring : isString ddsConfig = true)
    (ht : quotedSafe task = true)
    (hcameras : ∀ name ∈ cameras, plainSafe name = true ∧ isString name = true)
    (h : Section ls gs ks)
    (hks : ("session".toList :: "cameras".toList :: "format".toList :: ks).Nodup) :
    readMeta isString (sessionWriteMeta toTm session domainId ddsConfig cameras task ++ unlines ls) =
      some ⟨ddsConfig, task, cameras⟩ := by
  obtain ⟨kids, hformat⟩ := section_format
  have hall := (((section_session toTm session domainId hu ht).append
    (section_cameras fun name hname => (hcameras name hname).1)).append hformat).append h
  obtain ⟨d, doc, hread, hget⟩ := hall.read hks (by
    simp only [ungroup, List.flatMap_append, List.length_append, List.flatMap_singleton,
      List.length_cons, sessionLeaves, headLeaves]
    omega)
  obtain ⟨leaves, hleaves, hsession⟩ := hget "session".toList
    (sessionLeaves toTm session domainId ddsConfig task) (by simp)
  obtain ⟨items, hitems, hcamera⟩ := hget "cameras".toList (cameraItems cameras) (by simp)
  obtain ⟨items', hitems', hstrings⟩ := strings_of_items (c := 2) (d := d + 1) isString
    fun name hname => (hcameras name hname).2
  obtain rfl : items = items' := Option.some.inj (hitems.symm.trans hitems')
  have hcol := col_sessionLeaves toTm session domainId ddsConfig task
  have hdds : leaves.get "dds_config".toList = some (.scalar (.plain ddsConfig)) :=
    get_leaf hleaves hcol (by simp [sessionLeaves])
  have htask : leaves.get "task".toList = some (.scalar (.quoted task)) :=
    get_leaf hleaves hcol (by simp [sessionLeaves])
  have hstring : Node.string? isString (.scalar (.plain ddsConfig)) = some ddsConfig := if_pos hustring
  have hquoted : Node.string? isString (.scalar (.quoted task)) = some task := rfl
  rw [sessionWriteMeta, ← unlines_append]
  simp only [readMeta, hread, hsession, hdds, htask, hcamera, hstrings, hstring, hquoted,
    Option.bind_eq_bind, Option.bind_some, Option.pure_def]

/-- The lines of a file, whose strings may hold line breaks. -/
theorem splitOn_sessionWriteMeta (toTm : Int64 → Tm) (session : SessionInfo) (domainId : Int32)
    (ddsConfig : List Char) (cameras : List (List Char)) (task : List Char) :
    (sessionWriteMeta toTm session domainId ddsConfig cameras task).splitOn '\n' =
      headLines toTm session domainId ++ (("  dds_config: ".toList ++ ddsConfig).splitOn '\n' ++
        (("  task: \"".toList ++ task ++ "\"".toList).splitOn '\n' ++ ("cameras:".toList ::
          (itemLines 2 cameras ++ (formatLines ++ [[]]))))) := by
  obtain ⟨kids, hformat, -⟩ := scans_format
  have hcameras : '\n' ∉ "cameras:".toList := by simp
  rw [sessionWriteMeta, splitOn_unlines]
  simp only [List.flatMap_append, List.flatMap_cons, List.flatMap_map,
    splitOn_lines (scans_head toTm session domainId).newline_not_mem,
    splitOn_lines hformat.newline_not_mem, List.splitOn_eq_singleton hcameras, List.append_assoc,
    List.cons_append, List.nil_append]
  rfl

section

variable {isString : List Char → Bool} {toTm : Int64 → Tm} {session : SessionInfo}
  {domainId : Int32} {ddsConfig task : List Char} {cameras : List (List Char)}

theorem ddsConfig_safe (hscan : scan none (headLines toTm session domainId ++
      (("  dds_config: ".toList ++ ddsConfig).splitOn '\n' ++ l :: ms)) = some E)
    (hl : Closing 2 l) (hblock : block d E = some doc) (hses : doc.get "session".toList = some ses)
    (hv : (ses.get "dds_config".toList).bind (Node.string? isString) = some ddsConfig) :
    plainSafe ddsConfig = true ∧ isString ddsConfig = true := by
  obtain ⟨l₁, ls, hsplit, hl₁⟩ := closing_splitOn 2 (c := 'd') rfl (by decide) (by decide)
    ("ds_config: ".toList ++ ddsConfig)
  have hline : "  dds_config: ".toList ++ ddsConfig =
      List.replicate 2 ' ' ++ 'd' :: ("ds_config: ".toList ++ ddsConfig) := rfl
  rw [hline, hsplit, List.cons_append, (scans_head toTm session domainId).scan hl₁] at hscan
  obtain ⟨E₁, hE₁, rfl⟩ := Option.map_eq_some_iff.mp hscan
  rw [← List.cons_append, ← hsplit] at hE₁
  obtain ⟨e, E', rfl, hcol, hkey, hvalue⟩ := scan_key (n := 2)
    (show KeySafe "dds_config".toList by decide) hl hE₁
  have hpre : ∀ x ∈ headLeaves toTm session domainId, x.col = e.col := by
    simp [headLeaves, hcol]
  obtain ⟨s, hs, hcontent, hstring⟩ :=
    reads_nested hblock (hcol.symm ▸ Nat.zero_lt_two) hpre hses hkey hv
  obtain ⟨rfl, hsafe⟩ := hvalue s hs hcontent
  exact ⟨hsafe, hstring rfl⟩

theorem task_safe (hu : plainSafe ddsConfig = true)
    (hscan : scan none ((headLines toTm session domainId ++ ["  dds_config: ".toList ++ ddsConfig]) ++
      (("  task: \"".toList ++ task ++ "\"".toList).splitOn '\n' ++ ms)) = some E)
    (hblock : block d E = some doc) (hses : doc.get "session".toList = some ses)
    (hv : (ses.get "task".toList).bind (Node.string? isString) = some task) :
    quotedSafe task = true := by
  obtain ⟨l₁, ls, hsplit, hl₁⟩ := closing_splitOn 2 (c := 't') rfl (by decide) (by decide)
    ("ask: \"".toList ++ task ++ "\"".toList)
  have hline : "  task: \"".toList ++ task ++ "\"".toList =
      List.replicate 2 ' ' ++ 't' :: ("ask: \"".toList ++ task ++ "\"".toList) := rfl
  rw [hline, hsplit, List.cons_append, (scans_ddsConfig toTm session domainId hu).scan hl₁] at hscan
  obtain ⟨E₁, hE₁, rfl⟩ := Option.map_eq_some_iff.mp hscan
  rw [← List.cons_append, ← hsplit] at hE₁
  obtain ⟨e, E', rfl, hcol, hkey, hvalue⟩ := scan_quoted (n := 2)
    (show KeySafe "task".toList by decide) hE₁
  have hpre : ∀ x ∈ headLeaves toTm session domainId ++
      [⟨2, some "dds_config".toList, some (.plain ddsConfig)⟩], x.col = e.col := by
    simp [headLeaves, hcol]
  obtain ⟨s, hs, hcontent, -⟩ := reads_nested hblock (hcol.symm ▸ Nat.zero_lt_two) hpre hses hkey hv
  exact (hvalue s hs hcontent).2

theorem cameras_safe (hu : plainSafe ddsConfig = true) (ht : quotedSafe task = true)
    (hscan : scan none ((headLines toTm session domainId ++
      ["  dds_config: ".toList ++ ddsConfig, "  task: \"".toList ++ task ++ "\"".toList]) ++
      ["cameras:".toList] ++ (itemLines 2 cameras ++ l :: ms)) = some E)
    (hl : Closing 0 l) (hblock : block d E = some doc)
    (hget : doc.get "cameras".toList = some items) (hv : items.strings? isString = some cameras) :
    ∀ name ∈ cameras, plainSafe name = true ∧ isString name = true := by
  have hscans := (scans_session toTm session domainId hu ht).append scans_cameras (Nat.le_refl 0)
  obtain ⟨l', ms', hrest, hl'⟩ := closing_items cameras (hl.mono (Nat.zero_le 2)) ms
  rw [hrest, hscans.scan hl', ← hrest] at hscan
  obtain ⟨E', hE', rfl⟩ := Option.map_eq_some_iff.mp hscan
  rw [List.append_assoc, List.cons_append, List.singleton_append] at hblock
  obtain ⟨d, gs, rfl, hgroups⟩ := exists_block hblock
  obtain ⟨own, after, hown, hmem⟩ := group_of_append (_ :: _) hgroups rfl
  obtain ⟨m, hm, hget'⟩ := block_of_get hblock hgroups hmem
  obtain rfl : items = m := Option.some.inj (hget.symm.trans hget')
  exact items_safe_of_block Nat.zero_lt_two (hl.mono (Nat.zero_le 2)) hE' hown hm hv

end

/-- The strings of a file that come back are safe. -/
theorem safe_of_readMeta {isString : List Char → Bool} {toTm : Int64 → Tm} {session : SessionInfo}
    {domainId : Int32} {ddsConfig task : List Char} {cameras : List (List Char)}
    (h : readMeta isString (sessionWriteMeta toTm session domainId ddsConfig cameras task) =
      some ⟨ddsConfig, task, cameras⟩) :
    (plainSafe ddsConfig = true ∧ isString ddsConfig = true) ∧ quotedSafe task = true ∧
      ∀ name ∈ cameras, plainSafe name = true ∧ isString name = true := by
  simp only [readMeta, Option.bind_eq_bind, Option.bind_eq_some_iff, Option.pure_def,
    Option.some.injEq, MetaStrings.mk.injEq] at h
  obtain ⟨doc, hread, ses, hses, u, hu, t, ht, names, hnames, rfl, rfl, rfl⟩ := h
  obtain ⟨E, hscan, hblock⟩ := Option.bind_eq_some_iff.mp hread
  rw [splitOn_sessionWriteMeta] at hscan
  obtain ⟨l₂, ls, hsplit, hl₂⟩ := closing_splitOn 2 (c := 't') rfl (by decide) (by decide)
    ("ask: \"".toList ++ t ++ "\"".toList)
  have hline : "  task: \"".toList ++ t ++ "\"".toList =
      List.replicate 2 ' ' ++ 't' :: ("ask: \"".toList ++ t ++ "\"".toList) := rfl
  have hdds : plainSafe u = true ∧ isString u = true := by
    have hfirst := hscan
    rw [hline, hsplit, List.cons_append] at hfirst
    exact ddsConfig_safe hfirst hl₂ hblock hses (Option.bind_eq_some_iff.mpr hu)
  have hddsLine : '\n' ∉ "  dds_config: ".toList ++ u :=
    (scans_ddsConfig toTm session domainId hdds.1).newline_not_mem _ (by simp)
  rw [List.splitOn_eq_singleton hddsLine, ← List.append_assoc] at hscan
  have htask : quotedSafe t = true :=
    task_safe hdds.1 hscan hblock hses (Option.bind_eq_some_iff.mpr ht)
  have htaskLine : '\n' ∉ "  task: \"".toList ++ t ++ "\"".toList :=
    (scans_session toTm session domainId hdds.1 htask).newline_not_mem _ (by simp)
  rw [List.splitOn_eq_singleton htaskLine] at hscan
  obtain ⟨item, hitem, hstrings⟩ := hnames
  obtain ⟨ls', hformat, hclosing⟩ := exists_formatLines
  have hlines : headLines toTm session domainId ++ ["  dds_config: ".toList ++ u] ++
      (["  task: \"".toList ++ t ++ "\"".toList] ++
        "cameras:".toList :: (itemLines 2 names ++ (formatLines ++ [[]]))) =
      (headLines toTm session domainId ++
        ["  dds_config: ".toList ++ u, "  task: \"".toList ++ t ++ "\"".toList]) ++
        ["cameras:".toList] ++ (itemLines 2 names ++ "format:".toList :: (ls' ++ [[]])) := by
    rw [hformat]
    simp only [List.append_assoc, List.cons_append, List.nil_append]
  rw [hlines] at hscan
  exact ⟨hdds, htask, cameras_safe hdds.1 htask hscan hclosing hblock hitem hstrings⟩

/-! ## What is appended -/

/-- Sources and streams of the recorders of rows in a summary. -/
def rowKeys : List (List Char × List Char) :=
  [Collector.summaryKey .lowstate [], Collector.summaryKey .uwb [],
    Collector.summaryKey .motionToken []] ++
    DataCollector.sides.map (Collector.summaryKey (.hand 0)) ++
    ["lowcmd".toList, "arm_sdk".toList].map (Collector.summaryKey (.bodyCmd 0)) ++
    DataCollector.sides.map (Collector.summaryKey (.handCmd 0))

/-- A summary of streams of these cameras and of recorders of rows. -/
def OfStreams (cameras : List (List Char)) (summary : List StreamSummary) : Prop :=
  ∀ r ∈ summary, r.source ∈ cameras ∧ (r.stream = "color".toList ∨ r.stream = "depth".toList) ∨
    (r.source, r.stream) ∈ rowKeys

theorem mem_rowKeys {k : List Char × List Char} :
    (k ∈ [Collector.summaryKey .lowstate [], Collector.summaryKey .uwb [],
        Collector.summaryKey .motionToken []] ∨
      k ∈ DataCollector.sides.map (Collector.summaryKey (.hand 0)) ∨
      k ∈ ["lowcmd".toList, "arm_sdk".toList].map (Collector.summaryKey (.bodyCmd 0)) ∨
      k ∈ DataCollector.sides.map (Collector.summaryKey (.handCmd 0))) → k ∈ rowKeys := by
  simp only [rowKeys, List.mem_append, or_assoc]
  exact id

theorem rowKeys_safe : ∀ k ∈ rowKeys, plainSafe k.1 = true ∧ plainSafe k.2 = true := by
  decide +kernel

theorem OfStreams.safe (h : OfStreams cameras summary)
    (hcameras : ∀ name ∈ cameras, plainSafe name = true) :
    ∀ r ∈ summary, plainSafe r.source = true ∧ plainSafe r.stream = true := by
  intro r hr
  rcases h r hr with ⟨hsource, hstream | hstream⟩ | hkey
  · exact ⟨hcameras _ hsource, by rw [hstream]; decide⟩
  · exact ⟨hcameras _ hsource, by rw [hstream]; decide⟩
  · exact rowKeys_safe _ hkey

namespace Collector

/-- What a `stop` summarizes are streams of its cameras and rows. -/
theorem ofStreams_stopAll (h : Inv s) (drain : Stream → StreamStats) :
    OfStreams (s.cameras.map (·.name)) (((s.stopAll drain).flatMap Stopped.entries).map Prod.snd) := by
  have hside {i : Nat} {rs : List StreamRecorder} {r : StreamRecorder} (hr : rs[i]? = some r)
      {names : List (List Char)} (hrs : (rs.map (·.label)).Sublist names) : r.label ∈ names :=
    hrs.subset (List.mem_map_of_mem (List.mem_of_getElem? hr))
  intro e he
  obtain ⟨p, hp, rfl⟩ := List.mem_map.mp he
  obtain ⟨t, ht, hp⟩ := List.mem_flatMap.mp hp
  obtain ⟨i, r, hr, -, rfl | rfl⟩ | ⟨x, r, hr, -, rfl⟩ := mem_stopAll ht hp
  · exact .inl ⟨List.mem_map_of_mem (List.mem_of_getElem? hr), .inl rfl⟩
  · exact .inl ⟨List.mem_map_of_mem (List.mem_of_getElem? hr), .inr rfl⟩
  · right
    cases x with
    | lowstate => exact mem_rowKeys (.inl (.head _))
    | uwb => exact mem_rowKeys (.inl (.tail _ (.head _)))
    | motionToken => exact mem_rowKeys (.inl (.tail _ (.tail _ (.head _))))
    | hand i => exact mem_rowKeys (.inr (.inl (List.mem_map_of_mem (hside hr h.hands))))
    | bodyCmd i => exact mem_rowKeys (.inr (.inr (.inl (List.mem_map_of_mem (hside hr h.bodyCmds)))))
    | handCmd i => exact mem_rowKeys (.inr (.inr (.inr (List.mem_map_of_mem (hside hr h.handCmds)))))

/-- The recorders of a collector that runs are those its file was begun with, and every summary that was
appended fits the file it was appended to. -/
structure Files (es : List Event) (s : Collector) : Prop where
  inv : Inv s
  running : s.running = true → .started s.session (s.cameras.map (·.name)) ∈ es
  finalized : ∀ session summary, .finalized session summary ∈ es →
    ∃ cameras, .started session cameras ∈ es ∧ OfStreams cameras summary

theorem Files.more (h : Files es s) (hi : Inv s')
    (hrun : s'.running = true → .started s'.session (s'.cameras.map (·.name)) ∈ es ++ new)
    (hnew : ∀ session summary, .finalized session summary ∈ new →
      ∃ cameras, .started session cameras ∈ es ∧ OfStreams cameras summary) : Files (es ++ new) s' where
  inv := hi
  running := hrun
  finalized session summary hmem := by
    have hone : ∃ cameras, .started session cameras ∈ es ∧ OfStreams cameras summary := by
      rcases List.mem_append.mp hmem with hmem | hmem
      · exact h.finalized session summary hmem
      · exact hnew session summary hmem
    obtain ⟨cameras, hstarted, hsummary⟩ := hone
    exact ⟨cameras, List.mem_append_left new hstarted, hsummary⟩

/-- A `start` that leaves the collector running has begun the file with the names of its cameras. -/
theorem names_start (hdead : Dead s) (hrun : s.running = false) (env : DataCollector.Env)
    (settings : DataCollector.Settings) (h : (s.start env settings).2.1.running = true) :
    (s.start env settings).2.2 = [.started (s.start env settings).2.1.session
      ((s.start env settings).2.1.cameras.map (·.name))] := by
  have hnot : ¬ s.running = true := by simp [hrun]
  simp only [start, if_neg hnot] at h ⊢
  split_ifs at h ⊢ with h2 h3 h4
  · exact absurd h hnot
  · exact absurd h hnot
  · simp [resetLast, keepStarted, hdead.cameras]
  · exact absurd h hnot

theorem Files.start (h : Files es s) (env : DataCollector.Env) (settings : DataCollector.Settings) :
    Files (es ++ (s.start env settings).2.2) (s.start env settings).2.1 := by
  cases hrun : s.running with
  | true =>
    have heq : s.start env settings = (true, s, []) := if_pos hrun
    rw [heq, List.append_nil]
    exact h
  | false =>
    refine h.more (h.inv.start env settings) (fun hstart => ?_) fun session summary hmem => ?_
    · rw [names_start (h.inv.dead hrun) hrun env settings hstart]
      exact List.mem_append_right es (List.mem_singleton_self _)
    · obtain ⟨hyes, -⟩ | ⟨-, s', heq, -⟩ | ⟨-, session', started, heq⟩ := start_cases env settings s
      · rw [hrun] at hyes
        cases hyes
      · rw [heq] at hmem
        cases hmem
      · rw [heq] at hmem
        simp at hmem

theorem Files.stop (h : Files es s) (drain : Stream → StreamStats)
    (hinv : Inv (s.stop drain).1) : Files (es ++ (s.stop drain).2) (s.stop drain).1 := by
  cases hrun : s.running with
  | true =>
    obtain ⟨hevents, -, hstopped⟩ := stop_of_running hrun drain
    refine h.more hinv (by simp [hstopped]) fun session summary hmem => ?_
    rw [hevents, List.mem_append, List.mem_singleton] at hmem
    rcases hmem with hmem | hmem
    · obtain ⟨t, -, ht⟩ := List.mem_flatMap.mp hmem
      simp [Stopped.events] at ht
    · cases hmem
      exact ⟨_, h.running hrun, ofStreams_stopAll h.inv drain⟩
  | false =>
    rw [stop_of_not_running hrun, List.append_nil]
    exact h

theorem Files.step (h : Files es s) (hs : Step s l s' new) : Files (es ++ new) s' := by
  have hinv := h.inv.step hs
  cases hs with
  | start => exact h.start _ _
  | arrive =>
    rename_i more
    have hnames : (s.arrive more).cameras.map (·.name) = s.cameras.map (·.name) := by
      apply List.ext_getElem <;> simp [Collector.arrive, CameraRecorder.grow]
    refine h.more hinv (fun hrun => ?_) (by simp)
    rw [hnames, List.append_nil]
    exact h.running hrun
  | report hr =>
    obtain ⟨cam, ls, uw, hand, bodyCmd, handCmd, mt, rfl⟩ := printReport_frame hr
    exact h.more hinv (fun hrun => List.mem_append_left _ (h.running hrun)) (by simp)
  | outOfRange => exact h.more hinv (fun hrun => List.mem_append_left _ (h.running hrun)) (by simp)
  | stop => exact h.stop _ hinv

theorem Files.of_run (h : machine.run {} ls = some (s, es)) : Files es s :=
  Machine.invariant (P := Files) ⟨.of_dead ⟨rfl, rfl, rfl, rfl, rfl, rfl, rfl⟩, by simp, by simp⟩
    (fun hf hs => hf.step (.of_step hs)) h

end Collector

/-! ## Faithful files -/

/-- The labels of `prompt_result`. -/
def results : List (List Char) := ["success".toList, "fail".toList, []]

/-- The file gives its strings back, at once and after each append. -/
def Faithful (isString : List Char → Bool) (toTm : Int64 → Tm) (session : SessionInfo)
    (domainId : Int32) (ddsConfig : List Char) (cameras : List (List Char)) (task : List Char) : Prop :=
  ∀ endedNs summary result, OfStreams cameras summary → result ∈ results →
    let written := sessionWriteMeta toTm session domainId ddsConfig cameras task
    let finalized := written ++ sessionFinalizeMeta toTm endedNs summary
    ∀ file ∈ [written, finalized, finalized ++ sessionAppendResult session result],
      readMeta isString file = some ⟨ddsConfig, task, cameras⟩

/-- The URI and the names need to be plain scalars that are strings as they stand, and the task to hold no
quotes, no backslashes and no control characters but the tab. -/
theorem meta_faithful_iff (isString : List Char → Bool) (toTm : Int64 → Tm) (session : SessionInfo)
    (domainId : Int32) (ddsConfig : List Char) (cameras : List (List Char)) (task : List Char) :
    Faithful isString toTm session domainId ddsConfig cameras task ↔
      (plainSafe ddsConfig = true ∧ isString ddsConfig = true) ∧ quotedSafe task = true ∧
        ∀ name ∈ cameras, plainSafe name = true ∧ isString name = true := by
  constructor
  · intro h
    exact safe_of_readMeta (h 0 [] [] (by simp [OfStreams]) (by simp [results]) _ (List.mem_cons_self ..))
  · rintro ⟨⟨hu, hustring⟩, ht, hcameras⟩ endedNs summary result hsummary hresult
    have hresultSafe : result = [] ∨ plainSafe result = true := by
      have hall : ∀ r ∈ results, r = [] ∨ plainSafe r = true := by decide +kernel
      exact hall result hresult
    obtain ⟨ls, gs, hls, hfinal⟩ := section_finalize toTm endedNs
      (hsummary.safe fun name hname => (hcameras name hname).1)
    obtain ⟨ls', gs', ks, hls', hlast, hks⟩ := section_result session hresultSafe
    have hkeys : ("session".toList :: "cameras".toList :: "format".toList ::
        (["ended_utc".toList, "ended_epoch_ns".toList, "streams".toList] ++ ["result".toList])).Nodup := by
      decide
    have hread (ls gs ks) (h : Section ls gs ks) (hks : ks.Sublist
        (["ended_utc".toList, "ended_epoch_ns".toList, "streams".toList] ++ ["result".toList])) :
        readMeta isString (sessionWriteMeta toTm session domainId ddsConfig cameras task ++ unlines ls) =
          some ⟨ddsConfig, task, cameras⟩ :=
      readMeta_of_section hu hustring ht hcameras h
        (hkeys.sublist (((hks.cons_cons _).cons_cons _).cons_cons _))
    have hwritten := hread [] [] [] section_nil (List.nil_sublist _)
    have hfinalized := hread ls gs _ hfinal (List.sublist_append_left _ _)
    have hresulted := hread (ls ++ ls') (gs ++ gs') _ (hfinal.append hlast) ((List.Sublist.refl _).append hks)
    rw [unlines_nil, List.append_nil] at hwritten
    rw [← hls] at hfinalized
    rw [unlines_append, ← hls, ← hls', ← List.append_assoc] at hresulted
    intro written finalized
    simp only [List.forall_mem_cons]
    exact ⟨hwritten, hfinalized, hresulted, by simp⟩

/-- A quoted word in the task ends its scalar. -/
theorem meta_quotes_unfaithful : ¬ Faithful (fun _ => true) (fun _ => ⟨2025, 0, 1, 0, 0, 0⟩)
    { dir := "sessions/20250101_000000".toList } 0 "file:///etc/cyclonedds.xml".toList
    ["head".toList] "open the \"red\" box".toList := by
  intro h
  have hsafe := safe_of_readMeta (h 0 [] [] (by simp [OfStreams]) (by simp [results]) _
    (List.mem_cons_self ..))
  exact absurd hsafe.2.1 (by decide)

end Kist
