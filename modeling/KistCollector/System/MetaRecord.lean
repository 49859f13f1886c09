import KistCollector.System.MetaYaml

/-!
# What `meta.yaml` records

Beside the strings, the file of a session says when it started and ended, in which DDS domain, what became of
every record of every stream, and how the operator labelled the episode. For safe strings all of it can be
read back, after each of the three writes (`meta_record`).
-/

namespace Kist

open Text BlockYaml

/-- When a session ended, and its summary. -/
structure MetaEnd where
  utc : List Char
  epochNs : Int
  streams : List StreamSummary
  deriving DecidableEq

/-- What the file of a session records. -/
structure MetaRecord where
  startedUtc : List Char
  startedEpochNs : Int
  domainId : Int
  strings : MetaStrings
  ended : Option MetaEnd
  result : Option (List Char)
  deriving DecidableEq

/-- What the writer knows of the end of a session. -/
def MetaEnd.of (toTm : Int64 → Tm) (endedNs : Int64) (summary : List StreamSummary) : MetaEnd :=
  ⟨formatTime toTm endedNs "%Y-%m-%dT%H:%M:%SZ".toList, endedNs.toInt, summary⟩

/-- What the writer knows of a session. -/
def MetaRecord.of (toTm : Int64 → Tm) (session : SessionInfo) (domainId : Int32) (strings : MetaStrings)
    (ended : Option MetaEnd) (result : Option (List Char)) : MetaRecord :=
  ⟨formatTime toTm session.startedNs "%Y-%m-%dT%H:%M:%SZ".toList, session.startedNs.toInt, domainId.toInt,
    strings, ended, result⟩

/-- A stream of the summary. -/
def readStream (n : Node) : Option StreamSummary := do
  let source ← (n.get "source".toList).bind Node.content?
  let stream ← (n.get "stream".toList).bind Node.content?
  let received ← (n.get "received".toList).bind Node.nat?
  let written ← (n.get "written".toList).bind Node.nat?
  let dropped ← (n.get "dropped".toList).bind Node.nat?
  let writeErrors ← (n.get "write_errors".toList).bind Node.nat?
  let wireGaps ← (n.get "wire_gaps".toList).bind Node.nat?
  let bytes ← (n.get "bytes".toList).bind Node.nat?
  pure ⟨source, stream, ⟨received, written, dropped, writeErrors, .ofNat wireGaps, bytes⟩⟩

def readEnd (doc streams : Node) : Option MetaEnd := do
  let utc ← (doc.get "ended_utc".toList).bind Node.content?
  let epochNs ← (doc.get "ended_epoch_ns".toList).bind Node.int?
  let streams ← streams.items? readStream
  pure ⟨utc, epochNs, streams⟩

/-- What a file gives back. -/
def readRecord (isString : List Char → Bool) (text : List Char) : Option MetaRecord := do
  let strings ← readMeta isString text
  let doc ← read text
  let session ← doc.get "session".toList
  let startedUtc ← (session.get "started_utc".toList).bind Node.content?
  let startedEpochNs ← (session.get "started_epoch_ns".toList).bind Node.int?
  let domainId ← (session.get "domain_id".toList).bind Node.int?
  let ended ← match doc.get "streams".toList with
    | none => pure none
    | some streams => (readEnd doc streams).map some
  pure ⟨startedUtc, startedEpochNs, domainId, strings, ended,
    (doc.get "result".toList).bind Node.content?⟩

/-! ## Streams -/

theorem readStream_leaves (d : Nat) (s : StreamSummary) :
    ∃ m, block (d + 1) (streamLeaves s) = some m ∧ readStream m = some s := by
  have hkeys : ((streamLeaves s).map fun e => e.key).Nodup := by
    change [some "source".toList, some "stream".toList, some "received".toList,
      some "written".toList, some "dropped".toList, some "write_errors".toList,
      some "wire_gaps".toList, some "bytes".toList].Nodup
    decide
  obtain ⟨m, hm⟩ := Option.isSome_iff_exists.mp
    (block_leaves (d := d) (col_streamLeaves s) (by simp [streamLeaves]) hkeys)
  have hget (k v : List Char) (hmem : ⟨4, some k, some (.plain v)⟩ ∈ streamLeaves s) :
      m.get k = some (.scalar (.plain v)) := get_leaf hm (col_streamLeaves s) hmem
  have hsource := hget "source".toList s.source (by simp [streamLeaves])
  have hstream := hget "stream".toList s.stream (by simp [streamLeaves])
  have hreceived := hget "received".toList (decimal s.stats.received) (by simp [streamLeaves])
  have hwritten := hget "written".toList (decimal s.stats.written) (by simp [streamLeaves])
  have hdropped := hget "dropped".toList (decimal s.stats.dropped) (by simp [streamLeaves])
  have herrors := hget "write_errors".toList (decimal s.stats.writeErrors) (by simp [streamLeaves])
  have hgaps := hget "wire_gaps".toList (decimal s.stats.wireGaps.toNat) (by simp [streamLeaves])
  have hbytes := hget "bytes".toList (decimal s.stats.bytes) (by simp [streamLeaves])
  refine ⟨m, hm, ?_⟩
  simp only [readStream, hsource, hstream, hreceived, hwritten, hdropped, herrors, hgaps, hbytes,
    Option.bind_eq_bind, Option.bind_some, Node.content?, Scalar.content, Node.nat?, number?_decimal,
    UInt64.ofNat_toNat, Option.pure_def]

theorem items_streams (d : Nat) (summary : List StreamSummary) :
    ∃ m, block (d + 2) (ungroup (streamGroups summary)) = some m ∧ m.items? readStream = some summary := by
  obtain ⟨m, hm, hitems⟩ := items_of_blocks readStream streamLeaves id (c := 2) summary
    (fun s _ e he => by rw [col_streamLeaves s e he]; decide) fun s _ => readStream_leaves d s
  exact ⟨m, hm, by simpa using hitems⟩

/-! ## The file -/

section

variable {isString : List Char → Bool} {toTm : Int64 → Tm} {session : SessionInfo} {domainId : Int32}
  {ddsConfig task : List Char} {cameras : List (List Char)}

/-- The document of a file that goes on with more sections, and what is read of it. -/
theorem readRecord_of_section (toTm : Int64 → Tm) (session : SessionInfo) (domainId : Int32)
    (hu : plainSafe ddsConfig = true) (hustring : isString ddsConfig = true)
    (ht : quotedSafe task = true)
    (hcameras : ∀ name ∈ cameras, plainSafe name = true ∧ isString name = true) (h : Section ls gs ks)
    (hks : ("session".toList :: "cameras".toList :: "format".toList :: ks).Nodup) :
    ∃ (d : Nat) (doc : Node), (∀ k kids, (⟨0, some k, none⟩, kids) ∈ gs →
        ∃ m, block (d + 2) kids = some m ∧ doc.get k = some m) ∧
      (∀ k s, (⟨0, some k, some s⟩, []) ∈ gs → doc.get k = some (.scalar s)) ∧
      (∀ k ∉ "session".toList :: "cameras".toList :: "format".toList :: ks, doc.get k = none) ∧
      readRecord isString (sessionWriteMeta toTm session domainId ddsConfig cameras task ++ unlines ls) =
        (match doc.get "streams".toList with
          | none => some none
          | some streams => (readEnd doc streams).map some).map fun ended =>
            .of toTm session domainId ⟨ddsConfig, task, cameras⟩ ended
              ((doc.get "result".toList).bind Node.content?) := by
  obtain ⟨kids, hformat⟩ := section_format
  have hall := (((section_session toTm session domainId hu ht).append
    (section_cameras fun name hname => (hcameras name hname).1)).append hformat).append h
  obtain ⟨d, doc, e, es, hread, hdoc, hgroups⟩ := hall.document hks (by
    simp only [ungroup, List.flatMap_append, List.length_append, List.flatMap_singleton,
      List.length_cons, sessionLeaves, headLeaves]
    omega)
  obtain ⟨leaves, hleaves, hsession⟩ := block_of_get hdoc hgroups
    (List.mem_append_left _ (List.mem_append_left _ (List.mem_append_left _ (List.mem_singleton_self _))))
  have hcol := col_sessionLeaves toTm session domainId ddsConfig task
  have hget (k v : List Char) (hmem : ⟨2, some k, some (.plain v)⟩ ∈ headLeaves toTm session domainId) :
      leaves.get k = some (.scalar (.plain v)) :=
    get_leaf hleaves hcol (by rw [sessionLeaves, List.mem_append]; exact .inl hmem)
  have hutc := hget "started_utc".toList (formatTime toTm session.startedNs "%Y-%m-%dT%H:%M:%SZ".toList)
    (by simp [headLeaves])
  have hns := hget "started_epoch_ns".toList (integer session.startedNs.toInt) (by simp [headLeaves])
  have hdomain := hget "domain_id".toList (integer domainId.toInt) (by simp [headLeaves])
  refine ⟨d, doc, fun k kids hg => block_of_get hdoc hgroups (List.mem_append_right _ hg),
    fun k s hg => leaf_of_get hdoc hgroups (List.mem_append_right _ hg),
    fun k hk => get_eq_none hdoc hgroups ?_, ?_⟩
  · intro g hg hkey
    have hmem : some k ∈ ("session".toList :: "cameras".toList :: "format".toList :: ks).map some :=
      hall.keyed ▸ hkey ▸ List.mem_map_of_mem hg
    obtain ⟨k', hk', heq⟩ := List.mem_map.mp hmem
    exact hk (Option.some.inj heq ▸ hk')
  · have hstrings : readMeta isString
        (sessionWriteMeta toTm session domainId ddsConfig cameras task ++ unlines ls) = _ :=
      readMeta_of_section hu hustring ht hcameras h hks
    rw [readRecord, hstrings, sessionWriteMeta, ← unlines_append]
    simp only [hread, hsession, hutc, hns, hdomain, Option.bind_eq_bind, Option.bind_some, Node.content?,
      Scalar.content, Node.int?, integer?_integer, Option.pure_def]
    cases doc.get "streams".toList with
    | none => rfl
    | some streams => exact (Option.map_eq_bind ..).symm

theorem readEnd_of_section (doc : Node) (endedNs : Int64) (summary : List StreamSummary)
    (hblock : ∀ k kids, (⟨0, some k, none⟩, kids) ∈ endGroups toTm endedNs summary →
      ∃ m, block (d + 2) kids = some m ∧ doc.get k = some m)
    (hleaf : ∀ k s, (⟨0, some k, some s⟩, []) ∈ endGroups toTm endedNs summary →
      doc.get k = some (.scalar s)) :
    ∃ streams, doc.get "streams".toList = some streams ∧ readEnd doc streams =
      some (.of toTm endedNs summary) := by
  have hutc := hleaf "ended_utc".toList _ (List.mem_cons_self ..)
  have hns := hleaf "ended_epoch_ns".toList _ (List.mem_cons_of_mem _ (List.mem_cons_self ..))
  obtain ⟨streams, hstreams, hget⟩ := hblock "streams".toList _
    (List.mem_cons_of_mem _ (List.mem_cons_of_mem _ (List.mem_singleton_self _)))
  obtain ⟨streams', hstreams', hitems⟩ := items_streams d summary
  obtain rfl : streams = streams' := Option.some.inj (hstreams.symm.trans hstreams')
  refine ⟨streams, hget, ?_⟩
  simp only [readEnd, hutc, hns, hitems, Option.bind_eq_bind, Option.bind_some, Node.content?,
    Scalar.content, Node.int?, integer?_integer, Option.pure_def, MetaEnd.of]

section

variable (toTm : Int64 → Tm) (session : SessionInfo) (domainId : Int32) (hu : plainSafe ddsConfig = true)
  (hustring : isString ddsConfig = true) (ht : quotedSafe task = true)
  (hcameras : ∀ name ∈ cameras, plainSafe name = true ∧ isString name = true)

include hu hustring ht hcameras

theorem readRecord_written :
    readRecord isString (sessionWriteMeta toTm session domainId ddsConfig cameras task) =
      some (.of toTm session domainId ⟨ddsConfig, task, cameras⟩ none none) := by
  obtain ⟨d, doc, -, -, hnone, hread⟩ :=
    readRecord_of_section toTm session domainId hu hustring ht hcameras section_nil (by decide)
  rw [hnone "streams".toList (by decide), hnone "result".toList (by decide), unlines_nil,
    List.append_nil] at hread
  exact hread

theorem readRecord_finalized (endedNs : Int64) (hsummary : OfStreams cameras summary) :
    readRecord isString (sessionWriteMeta toTm session domainId ddsConfig cameras task ++
      sessionFinalizeMeta toTm endedNs summary) =
        some (.of toTm session domainId ⟨ddsConfig, task, cameras⟩ (some (.of toTm endedNs summary)) none) := by
  obtain ⟨ls, hls, hend⟩ := section_end toTm endedNs (hsummary.safe fun name hname => (hcameras name hname).1)
  obtain ⟨d, doc, hblock, hleaf, hnone, hread⟩ :=
    readRecord_of_section toTm session domainId hu hustring ht hcameras hend (by decide)
  obtain ⟨streams, hget, hstreams⟩ := readEnd_of_section doc endedNs summary hblock hleaf
  rw [hls, hread, hget, hnone "result".toList (by decide)]
  simp only [hstreams, Option.map_some, Option.bind_none]

theorem readRecord_labelled (endedNs : Int64) (hsummary : OfStreams cameras summary)
    (hresult : result ∈ results) (hdir : session.dir ≠ []) :
    readRecord isString (sessionWriteMeta toTm session domainId ddsConfig cameras task ++
      sessionFinalizeMeta toTm endedNs summary ++ sessionAppendResult session result) =
        some (.of toTm session domainId ⟨ddsConfig, task, cameras⟩ (some (.of toTm endedNs summary))
          (if result = [] then none else some result)) := by
  by_cases hlabel : result = []
  · rw [sessionAppendResult, if_pos (by simp [hlabel]), List.append_nil, if_pos hlabel]
    exact readRecord_finalized toTm session domainId hu hustring ht hcameras endedNs hsummary
  · have hsafe : plainSafe result = true := by
      have hall : ∀ r ∈ results, r = [] ∨ plainSafe r = true := by decide +kernel
      exact (hall result hresult).resolve_left hlabel
    have hlabelled : Section ["result: ".toList ++ result]
        [(⟨0, some "result".toList, some (.plain result)⟩, [])] ["result".toList] :=
      section_leaf "result" (by decide) hsafe rfl
    obtain ⟨ls, hls, hend⟩ := section_end toTm endedNs (hsummary.safe fun name hname => (hcameras name hname).1)
    obtain ⟨d, doc, hblock, hleaf, -, hread⟩ :=
      readRecord_of_section toTm session domainId hu hustring ht hcameras (hend.append hlabelled) (by decide)
    obtain ⟨streams, hget, hstreams⟩ := readEnd_of_section doc endedNs summary
      (fun k kids hk => hblock k kids (List.mem_append_left _ hk))
      fun k s hk => hleaf k s (List.mem_append_left _ hk)
    have hlast := hleaf "result".toList (.plain result) (List.mem_append_right _ (List.mem_singleton_self _))
    rw [sessionAppendResult, if_neg (by simp [hlabel, hdir]), if_neg hlabel, hls, List.append_assoc,
      ← unlines_append, hread, hget, hlast]
    simp only [hstreams, Option.map_some, Option.bind_some, Node.content?, Scalar.content]

end

/-- **What `meta.yaml` records.** Any session whose URI, task and camera names are safe, any counters and
any times: the file written by `start` gives back when it began, its domain and its strings; once `stop` has
appended to it also when it ended and each stream with its six counters; and then, if the episode was
labelled, the label. -/
theorem meta_record (toTm : Int64 → Tm) (session : SessionInfo) (domainId : Int32) (endedNs : Int64)
    (summary : List StreamSummary) (result : List Char) (hu : plainSafe ddsConfig = true)
    (hustring : isString ddsConfig = true) (ht : quotedSafe task = true)
    (hcameras : ∀ name ∈ cameras, plainSafe name = true ∧ isString name = true)
    (hsummary : OfStreams cameras summary) (hresult : result ∈ results) (hdir : session.dir ≠ []) :
    let written := sessionWriteMeta toTm session domainId ddsConfig cameras task
    let finalized := written ++ sessionFinalizeMeta toTm endedNs summary
    let record := MetaRecord.of toTm session domainId ⟨ddsConfig, task, cameras⟩
    let ended := MetaEnd.of toTm endedNs summary
    readRecord isString written = some (record none none) ∧
      readRecord isString finalized = some (record (some ended) none) ∧
      readRecord isString (finalized ++ sessionAppendResult session result) =
        some (record (some ended) (if result = [] then none else some result)) :=
  ⟨readRecord_written toTm session domainId hu hustring ht hcameras,
    readRecord_finalized toTm session domainId hu hustring ht hcameras endedNs hsummary,
    readRecord_labelled toTm session domainId hu hustring ht hcameras endedNs hsummary hresult hdir⟩

end

/-- The streams of a camera that lost a frame, and of a recorder of rows. -/
def threeStreams : List StreamSummary :=
  [⟨['h'], "color".toList, ⟨3, 2, 1, 0, 1, 12⟩⟩, ⟨['h'], "depth".toList, ⟨4, 4, 0, 0, 0, 70⟩⟩,
    ⟨"unitree".toList, "lowstate".toList, ⟨900, 899, 0, 1, 0, 5000⟩⟩]

/-- Two cameras, of which one has no entry, labelled as a success. -/
theorem meta_record_three : readRecord (fun _ => true)
    (sessionWriteMeta (fun _ => ⟨2025, 0, 1, 0, 0, 0⟩) { dir := ['s'], startedNs := 5 } 0 ['u'] [['h'], ['i']]
        ['t'] ++
      sessionFinalizeMeta (fun _ => ⟨2025, 0, 1, 0, 0, 0⟩) 9 threeStreams ++
      sessionAppendResult { dir := ['s'], startedNs := 5 } "success".toList) =
    some (.of (fun _ => ⟨2025, 0, 1, 0, 0, 0⟩) { dir := ['s'], startedNs := 5 } 0
      ⟨['u'], ['t'], [['h'], ['i']]⟩ (some (.of (fun _ => ⟨2025, 0, 1, 0, 0, 0⟩) 9 threeStreams))
      (some "success".toList)) := by
  have hcameras : ∀ name ∈ [['h'], ['i']], plainSafe name = true ∧ (fun _ => true) name = true := by decide
  have hlowstate : ("unitree".toList, "lowstate".toList) ∈ rowKeys := by
    rw [rowKeys, List.append_assoc, List.append_assoc]
    exact List.mem_append_left _ (.head _)
  have hstreams : OfStreams [['h'], ['i']] threeStreams := by
    intro r hr
    rcases hr with _ | ⟨_, _ | ⟨_, _ | ⟨_, ⟨⟩⟩⟩⟩
    · exact .inl ⟨.head _, .inl rfl⟩
    · exact .inl ⟨.head _, .inr rfl⟩
    · exact .inr hlowstate
  have hresult : "success".toList ∈ results := by simp [results]
  exact (meta_record _ _ 0 9 threeStreams _ (by decide) rfl (by decide) hcameras hstreams hresult
    (by decide)).2.2

end Kist
