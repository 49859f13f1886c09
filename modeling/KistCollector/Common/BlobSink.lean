import KistCollector.Lib.OStream
import KistCollector.Lib.Text

/-!
# The blob file and its index

`BlobSink` appends payloads to one file and, for each, a row `prefix,offset,size` to another. What
a run of appends writes to the two files is `BlobSink.blobOf` and `BlobSink.indexOf`, with the
offsets running along (`BlobSink.rowsFrom`); `BlobSink.Carries` says that a sink has been given
that much since it was opened.

Each file fails on its own, so the index can outlive the blob: `BlobSink.consistent_iff` says exactly
when it does not.
-/

namespace Kist

open Text

/-- A blob file and its index. `offset` is a 64-bit count of payload bytes; no stream has `2 ^ 64`
of them. -/
structure BlobSink where
  data : OStream UInt8 := .init
  index : OStream Char := .init
  offset : Nat := 0
  deriving DecidableEq

namespace BlobSink

/-- Both files are opened with truncation. `none` is a file that cannot be opened. -/
def «open» (s : BlobSink) (data index : Option Device) (header : List Char) : Bool × BlobSink :=
  let s := { s with data := s.data.open data, index := s.index.open index }
  if !s.data.isOpen || !s.index.isOpen then (false, s)
  else (true, { s with index := (s.index.write header).write ['\n'] })

def good (s : BlobSink) : Bool := s.data.good && s.index.good

/-- Append a payload at the current offset and its index row. -/
def append (s : BlobSink) (payload : List UInt8) (rowPrefix : List Char) : Bool × BlobSink :=
  let data := s.data.write payload
  let index := ((s.index.write rowPrefix).write [',']).write (decimal s.offset)
  let index := ((index.write [',']).write (decimal payload.length)).write ['\n']
  let s := { data := data, index := index, offset := s.offset + payload.length }
  (s.good, s)

def flush (s : BlobSink) : BlobSink := { s with data := s.data.flush, index := s.index.flush }

def close (s : BlobSink) : BlobSink :=
  { s with
    data := if s.data.isOpen then s.data.close else s.data
    index := if s.index.isOpen then s.index.close else s.index }

/-! ## What a run of appends writes -/

/-- One append: the payload and the row prefix. -/
structure Entry where
  payload : List UInt8
  rowPrefix : List Char
  deriving DecidableEq

/-- The index row of an entry whose payload is at `offset`, without its line break. -/
def Entry.row (e : Entry) (offset : Nat) : List Char :=
  e.rowPrefix ++ ',' :: decimal offset ++ ',' :: decimal e.payload.length

def blobOf (es : List Entry) : List UInt8 := es.flatMap (·.payload)

/-- The rows of entries appended from `offset` on. -/
def rowsFrom (offset : Nat) : List Entry → List (List Char)
  | [] => []
  | e :: es => e.row offset :: rowsFrom (offset + e.payload.length) es

def indexOf (header : List Char) (offset : Nat) (es : List Entry) : List Char :=
  unlines (header :: rowsFrom offset es)

@[simp] theorem blobOf_nil : blobOf [] = [] := rfl

@[simp] theorem blobOf_cons (e : Entry) (es : List Entry) :
    blobOf (e :: es) = e.payload ++ blobOf es := List.flatMap_cons

@[simp] theorem blobOf_append (es es' : List Entry) :
    blobOf (es ++ es') = blobOf es ++ blobOf es' := List.flatMap_append

@[simp] theorem rowsFrom_append (offset : Nat) (es es' : List Entry) :
    rowsFrom offset (es ++ es') =
      rowsFrom offset es ++ rowsFrom (offset + (blobOf es).length) es' := by
  induction es generalizing offset with
  | nil => rfl
  | cons e es ih => simp [rowsFrom, ih, Nat.add_assoc]

@[simp] theorem length_rowsFrom (offset : Nat) (es : List Entry) :
    (rowsFrom offset es).length = es.length := by
  induction es generalizing offset with
  | nil => rfl
  | cons e es ih => simp [rowsFrom, ih]

theorem indexOf_append (header : List Char) (offset : Nat) (es es' : List Entry) :
    indexOf header offset (es ++ es') =
      indexOf header offset es ++ unlines (rowsFrom (offset + (blobOf es).length) es') := by
  simp [indexOf]

theorem indexOf_take (header : List Char) (es : List Entry) (j : Nat) :
    unlines ((header :: rowsFrom off es).take (j + 1)) = indexOf header off (es.take j) := by
  rw [List.take_succ_cons, indexOf]
  congr 2
  induction es generalizing off j with
  | nil => simp [rowsFrom]
  | cons e es ih => cases j <;> simp [rowsFrom, ih]

theorem rowsFrom_getElem? (off j : Nat) (es : List Entry) :
    (rowsFrom off es)[j]? = es[j]?.map (·.row (off + (blobOf (es.take j)).length)) := by
  induction es generalizing off j with
  | nil => rfl
  | cons e es ih => cases j <;> simp [rowsFrom, ih, Nat.add_assoc]

theorem Entry.no_newline {e : Entry} (h : '\n' ∉ e.rowPrefix) : '\n' ∉ e.row off := by
  have hd : ∀ n, '\n' ∉ decimal n := fun n => not_mem_decimal (by decide)
  simp [row, h, hd]

theorem rowsFrom_no_newline {es : List Entry} (h : ∀ e ∈ es, '\n' ∉ e.rowPrefix) :
    ∀ l ∈ rowsFrom off es, '\n' ∉ l := by
  induction es generalizing off with
  | nil => simp [rowsFrom]
  | cons e es ih =>
    rw [rowsFrom, List.forall_mem_cons]
    exact ⟨Entry.no_newline (h e (by simp)), ih fun e' he' => h e' (by simp [he'])⟩

/-! ## What a sink carries -/

/-- The sink is open on the devices `d` and `i` and has been given exactly `es`, its offset starting
at `off`. -/
structure Carries (d i : Device) (header : List Char) (off : Nat) (es : List Entry)
    (s : BlobSink) : Prop where
  data_dev : s.data.dev = d
  index_dev : s.index.dev = i
  data : s.data.Carries (blobOf es)
  index : s.index.Carries (indexOf header off es)
  offset : s.offset = off + (blobOf es).length

/-- The sink is closed and was given exactly `es`. -/
structure Left (d i : Device) (header : List Char) (off : Nat) (es : List Entry)
    (s : BlobSink) : Prop where
  data_dev : s.data.dev = d
  index_dev : s.index.dev = i
  data : s.data.Left (blobOf es)
  index : s.index.Left (indexOf header off es)
  offset : s.offset = off + (blobOf es).length

/-- The streams of the sink are both closed. -/
def Closed (s : BlobSink) : Prop := s.data.isOpen = false ∧ s.index.isOpen = false

theorem open_eq {s : BlobSink} (h : s.Closed) (d i : Device) (header : List Char) :
    s.open (some d) (some i) header = (true, { s with
      data := s.data.open (some d)
      index := ((s.index.open (some i)).write header).write ['\n'] }) := by
  simp [«open», OStream.open_some h.1, OStream.open_some h.2]

theorem Carries.opened {s : BlobSink} (h : s.Closed) (d i : Device) (header : List Char) :
    Carries d i header s.offset [] (s.open (some d) (some i) header).2 := by
  rw [open_eq h]
  refine ⟨by simp [OStream.open_some h.1], by simp [OStream.open_some h.2], .opened h.1 d, ?_, rfl⟩
  simpa [indexOf, rowsFrom] using ((OStream.Carries.opened h.2 i).write header).write ['\n']

theorem Carries.append {s : BlobSink} (H : Carries d i header off es s) (e : Entry) :
    Carries d i header off (es ++ [e]) (s.append e.payload e.rowPrefix).2 := by
  refine ⟨by simpa [BlobSink.append] using H.data_dev, by simpa [BlobSink.append] using H.index_dev,
    by simpa [BlobSink.append] using H.data.write e.payload, ?_, ?_⟩
  · simpa [BlobSink.append, indexOf_append, rowsFrom, Entry.row, H.offset] using
      H.index.write (e.row s.offset ++ ['\n'])
  · simp [BlobSink.append, H.offset, Nat.add_assoc]

theorem Carries.flush {s : BlobSink} (H : Carries d i header off es s) :
    Carries d i header off es s.flush :=
  ⟨by simpa [BlobSink.flush] using H.data_dev, by simpa [BlobSink.flush] using H.index_dev,
    H.data.flush.1, H.index.flush.1, H.offset⟩

theorem Carries.close {s : BlobSink} (H : Carries d i header off es s) :
    Left d i header off es s.close := by
  simp only [BlobSink.close, H.data.isOpen, H.index.isOpen, if_true]
  exact ⟨by simpa using H.data_dev, by simpa using H.index_dev, H.data.close, H.index.close, H.offset⟩

theorem good_eq_false {s : BlobSink} : s.good = false ↔ s.data.bad = true ∨ s.index.bad = true := by
  simp only [good, OStream.good, Bool.and_eq_false_iff, Bool.not_eq_false']

/-- A stream that has failed was given more than its device takes. -/
theorem Carries.of_not_good {s : BlobSink} (H : Carries d i header off es s) (h : s.good = false) :
    d.quota < (blobOf es).length ∨ i.quota < (indexOf header off es).length := by
  rcases good_eq_false.mp h with h | h
  · exact .inl (H.data_dev ▸ H.data.lt_of_bad h)
  · exact .inr (H.index_dev ▸ H.index.lt_of_bad h)

/-! ## Finding an entry in the files -/

theorem eq_take_append_cons {es : List α} (h : es[j]? = some e) :
    es = es.take j ++ e :: es.drop (j + 1) ∧ es.take (j + 1) = es.take j ++ [e] := by
  obtain ⟨hj, rfl⟩ := List.getElem?_eq_some_iff.mp h
  exact ⟨by simp, by simp⟩

/-- The payload of entry `j` is in the blob file exactly if the device takes the blob that far. -/
theorem Left.holds_payload {s : BlobSink} (H : Left d i header off es s) (h : es[j]? = some e) :
    HoldsAt s.data.file (blobOf (es.take j)).length e.payload ↔
      (blobOf (es.take (j + 1))).length ≤ d.quota := by
  obtain ⟨hes, htake⟩ := eq_take_append_cons h
  have hblob : blobOf es = blobOf (es.take j) ++ e.payload ++ blobOf (es.drop (j + 1)) := by
    conv_lhs => rw [hes]
    simp
  rw [H.data.file, H.data_dev, hblob, holdsAt_take, htake]
  simp

/-- The row of entry `j` is in the index file exactly if the device takes the index that far. -/
theorem Left.holds_row {s : BlobSink} (H : Left d i header off es s) (h : es[j]? = some e) :
    HoldsAt s.index.file (indexOf header off (es.take j)).length
        (e.row (off + (blobOf (es.take j)).length) ++ ['\n']) ↔
      (indexOf header off (es.take (j + 1))).length ≤ i.quota := by
  obtain ⟨hes, htake⟩ := eq_take_append_cons h
  have hindex : indexOf header off es = indexOf header off (es.take j) ++
      (e.row (off + (blobOf (es.take j)).length) ++ ['\n']) ++
      unlines (rowsFrom (off + (blobOf (es.take j)).length + e.payload.length)
        (es.drop (j + 1))) := by
    conv_lhs => rw [hes]
    simp [indexOf, rowsFrom]
  rw [H.index.file, H.index_dev, hindex, holdsAt_take, htake, indexOf_append]
  simp [rowsFrom]

/-! ## Index and blob when either file fails -/

/-- What the writer thread does to a sink between `open` and `close`. -/
inductive Op where
  | append (payload : List UInt8) (rowPrefix : Line)
  | flush

/-- Run the operations, with what each append returned. -/
def exec (s : BlobSink) : List Op → List Bool × BlobSink
  | [] => ([], s)
  | .append payload rowPrefix :: ops =>
    let (ok, s) := s.append payload rowPrefix.text
    let (oks, s) := exec s ops
    (ok :: oks, s)
  | .flush :: ops => exec s.flush ops

/-- The frames appended by a list of operations. -/
def appended : List Op → List Entry
  | [] => []
  | .append payload rowPrefix :: ops => ⟨payload, rowPrefix.text⟩ :: appended ops
  | .flush :: ops => appended ops

theorem appended_no_newline (ops : List Op) : ∀ e ∈ appended ops, '\n' ∉ e.rowPrefix := by
  fun_induction appended ops with
  | case1 => simp
  | case2 payload rowPrefix ops ih => simpa using ⟨rowPrefix.no_newline, ih⟩
  | case3 ops ih => exact ih

theorem Carries.exec {s : BlobSink} (H : Carries d i header off es s) (ops : List Op) :
    Carries d i header off (es ++ appended ops) (s.exec ops).2 := by
  induction ops generalizing es s with
  | nil => simpa [BlobSink.exec, appended] using H
  | cons op ops ih =>
    cases op with
    | append payload rowPrefix =>
      simpa [BlobSink.exec, appended] using ih (H.append ⟨payload, rowPrefix.text⟩)
    | flush => exact ih H.flush

/-- An append that reports failure has brought one of the files past what its device takes. -/
theorem Carries.of_failed {s : BlobSink} (H : Carries d i header off es s) (ops : List Op)
    (h : (s.exec ops).1[j]? = some false) :
    d.quota < (blobOf (es ++ (appended ops).take (j + 1))).length ∨
      i.quota < (indexOf header off (es ++ (appended ops).take (j + 1))).length := by
  induction ops generalizing es s j with
  | nil => simp [BlobSink.exec] at h
  | cons op ops ih =>
    cases op with
    | append payload rowPrefix =>
      have H' := H.append ⟨payload, rowPrefix.text⟩
      cases j with
      | zero =>
        have hbad : (s.append payload rowPrefix.text).1 = false := by
          simpa [BlobSink.exec] using h
        simpa [appended] using H'.of_not_good hbad
      | succ j => simpa [appended] using ih H' (by simpa [BlobSink.exec] using h)
    | flush => exact ih H.flush h

/-- The rows of an index file whose line is complete, the header line left out. -/
def completeRows (s : BlobSink) : List (List Char) := (completeLines s.index.file).tail

/-- The index never points at bytes the blob does not have. Every complete row denotes a range of the
blob file that holds exactly its frame's payload, and an append that reported failure has left no
complete row. -/
def Consistent (frames : List Entry) (oks : List Bool) (s : BlobSink) : Prop :=
  (∀ (j : Nat) (row : List Char), s.completeRows[j]? = some row →
    ∃ off size e, lastTwo? row = some (off, size) ∧ frames[j]? = some e ∧
      size = e.payload.length ∧ HoldsAt s.data.file off e.payload) ∧
  ∀ j : Nat, oks[j]? = some false → s.completeRows[j]? = none

/-- Row `j` is complete exactly if the index's device takes the index up to its end. -/
theorem Left.completeRows {s : BlobSink} (H : Left d i header off es s) (hh : '\n' ∉ header)
    (hes : ∀ e ∈ es, '\n' ∉ e.rowPrefix) (j : Nat) :
    s.completeRows[j]? = if (indexOf header off (es.take (j + 1))).length ≤ i.quota then
      es[j]?.map (·.row (off + (blobOf (es.take j)).length)) else none := by
  have hlines : ∀ l ∈ header :: rowsFrom off es, '\n' ∉ l :=
    List.forall_mem_cons.mpr ⟨hh, rowsFrom_no_newline hes⟩
  rw [BlobSink.completeRows, List.getElem?_tail, H.index.file, H.index_dev, indexOf,
    completeLines_take hlines, indexOf_take, List.getElem?_cons_succ, rowsFrom_getElem?]

/-- A fresh sink from its opening to its closing, with what each append returned. -/
def recorded (d i : Device) (header : Line) (ops : List Op) : List Bool × BlobSink :=
  let (oks, s) := (({} : BlobSink).open (some d) (some i) header.text).2.exec ops
  (oks, s.close)

/-- **When the index can be trusted.** Whatever is appended, flushed and closed, and whatever the two
devices take, index and blob are consistent exactly if the blob's device takes every payload up to
the end of each frame whose row the index's device takes. -/
theorem consistent_iff (d i : Device) (header : Line) (ops : List Op) :
    Consistent (appended ops) (recorded d i header ops).1 (recorded d i header ops).2 ↔
      ∀ j < (appended ops).length,
        (indexOf header.text 0 ((appended ops).take (j + 1))).length ≤ i.quota →
        (blobOf ((appended ops).take (j + 1))).length ≤ d.quota := by
  have hcar := Carries.opened (s := {}) ⟨rfl, rfl⟩ d i header.text
  have hleft : Left d i header.text 0 (appended ops) (recorded d i header ops).2 :=
    (hcar.exec ops).close
  have hrows := hleft.completeRows header.no_newline (appended_no_newline ops)
  constructor
  · rintro ⟨hpoint, -⟩ j hj hi
    have he := List.getElem?_eq_getElem hj
    have hrow := hrows j
    rw [if_pos hi, he, Option.map_some] at hrow
    obtain ⟨off, size, e', hlast, he', -, hholds⟩ := hpoint j _ hrow
    cases he.symm.trans he'
    rw [Entry.row, lastTwo?_append] at hlast
    cases hlast
    rw [Nat.zero_add] at hholds
    exact (hleft.holds_payload he).mp hholds
  · refine fun H => ⟨fun j row hrow => ?_, fun j hfail => ?_⟩
    · rw [hrows] at hrow
      split at hrow
      case isFalse => cases hrow
      case isTrue hi =>
        obtain ⟨e, he, rfl⟩ := Option.map_eq_some_iff.mp hrow
        refine ⟨_, _, e, by rw [Entry.row, lastTwo?_append], he, rfl, ?_⟩
        rw [Nat.zero_add]
        have hj := (List.getElem?_eq_some_iff.mp he).1
        exact (hleft.holds_payload he).mpr (H j hj hi)
    · have hfull := hcar.of_failed ops hfail
      simp only [List.nil_append] at hfull
      rw [hrows]
      by_cases hj : j < (appended ops).length
      · refine if_neg fun hi => ?_
        exact hfull.elim (Nat.not_lt.mpr (H j hj hi)) (Nat.not_lt.mpr hi)
      · rw [List.getElem?_eq_none (by omega), Option.map_none, ite_self]

/-- The blob's device is full from the start, the index's is not: the one complete row points at
bytes the blob does not have. -/
theorem consistent_fails :
    ¬ Consistent (appended [.append [7] ⟨"1".toList, by decide⟩])
      (recorded ⟨0, 4096, by decide⟩ ⟨4096, 4096, by decide⟩ ⟨"seq,offset,size".toList, by decide⟩
        [.append [7] ⟨"1".toList, by decide⟩]).1
      (recorded ⟨0, 4096, by decide⟩ ⟨4096, 4096, by decide⟩ ⟨"seq,offset,size".toList, by decide⟩
        [.append [7] ⟨"1".toList, by decide⟩]).2 := by
  rintro ⟨hpoint, -⟩
  obtain ⟨off, size, e, -, he, -, hlen, -⟩ := hpoint 0 "1,0,1".toList (by rfl)
  cases he
  exact absurd (Nat.le_trans (Nat.le_add_left _ _) hlen) (by decide)

end BlobSink
end Kist
