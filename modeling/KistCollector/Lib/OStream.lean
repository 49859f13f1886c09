import Mathlib.Algebra.Order.Ring.Nat
import Mathlib.Data.List.Basic

/-!
# Buffered output streams over files that may fill up

The standard library's output file stream, as far as a program that only appends can see it.
Bytes collect in a buffer that is handed to the file when it is full, at `flush` and at `close`.
The file may take only a part of what it is handed; the stream is then bad, and what is written
to it afterwards is ignored. So one stream's failures come down to one number, the bytes its file
takes before the first write that is cut short (`Device.quota`).

`OStream.Carries s c` says that `s` has been given exactly `c` since it was opened. It is kept by
every operation (`Carries.write`, `Carries.flush`), and `Carries.close` reads off what a closed
stream leaves behind: the first `quota` bytes of `c`.
-/

/-- The file behind an open stream: how many bytes it takes in all, and how many the stream
collects before it hands them over. No file grows past the largest file offset. -/
structure Device where
  quota : Nat
  bufsize : Nat
  quota_lt : quota < 2 ^ 63
  deriving DecidableEq

/-- An output file stream. `file` is what the file last opened has taken. -/
structure OStream (α : Type) where
  dev : Device
  file : List α
  buf : List α
  bad : Bool
  isOpen : Bool
  deriving DecidableEq

namespace OStream

variable {α : Type}

/-- A stream as it is constructed. -/
def init : OStream α := ⟨⟨0, 0, by decide⟩, [], [], false, false⟩

/-- Open with truncation; `none` is a file that cannot be opened. A stream that is already open
stays on its file. Either failure sets the fail bit, a success clears it. -/
def «open» (s : OStream α) (dev : Option Device) : OStream α :=
  match s.isOpen, dev with
  | false, some d => { dev := d, file := [], buf := [], bad := false, isOpen := true }
  | _, _ => { s with bad := true }

def good (s : OStream α) : Bool := !s.bad

/-- Hand the buffer to the file. -/
def handOver (s : OStream α) : OStream α :=
  { s with
    file := (s.file ++ s.buf).take s.dev.quota
    buf := []
    bad := decide (s.dev.quota < (s.file ++ s.buf).length) }

/-- Insert one byte. -/
def put (s : OStream α) (c : α) : OStream α :=
  if s.isOpen && !s.bad then
    let s := { s with buf := s.buf ++ [c] }
    if s.dev.bufsize ≤ s.buf.length then s.handOver else s
  else { s with bad := true }

def write (s : OStream α) (cs : List α) : OStream α := cs.foldl put s

def flush (s : OStream α) : OStream α := if s.isOpen && !s.bad then s.handOver else s

def close (s : OStream α) : OStream α :=
  if s.isOpen then { s.flush with isOpen := false } else { s with bad := true }

@[simp] theorem write_nil (s : OStream α) : s.write [] = s := rfl

theorem write_cons (s : OStream α) (c : α) (cs : List α) :
    s.write (c :: cs) = (s.put c).write cs := rfl

@[simp] theorem write_write (s : OStream α) (cs ds : List α) :
    (s.write cs).write ds = s.write (cs ++ ds) := List.foldl_append.symm

@[simp] theorem put_dev (s : OStream α) (c : α) : (s.put c).dev = s.dev := by
  unfold put; split
  · dsimp only; split <;> rfl
  · rfl

@[simp] theorem write_dev (s : OStream α) (cs : List α) : (s.write cs).dev = s.dev := by
  induction cs generalizing s with
  | nil => rfl
  | cons c cs ih => rw [write_cons, ih, put_dev]

@[simp] theorem flush_dev (s : OStream α) : s.flush.dev = s.dev := by unfold flush; split <;> rfl

@[simp] theorem close_dev (s : OStream α) : s.close.dev = s.dev := by
  unfold close; split
  · exact flush_dev s
  · rfl

/-! ## A bad stream stays bad -/

theorem put_of_bad {s : OStream α} (h : s.bad = true) : s.put c = s := by
  cases s; simp_all [put]

theorem put_of_good {s : OStream α} (ho : s.isOpen = true) (hb : s.bad = false) :
    s.put c = if s.dev.bufsize ≤ (s.buf ++ [c]).length then
      ({ s with buf := s.buf ++ [c] } : OStream α).handOver else { s with buf := s.buf ++ [c] } := by
  unfold put
  rw [if_pos (by simp [ho, hb])]

theorem put_bad {s : OStream α} (h : s.bad = true) : (s.put c).bad = true := by
  rw [put_of_bad h, h]

theorem write_bad {s : OStream α} (h : s.bad = true) : (s.write cs).bad = true := by
  induction cs generalizing s with
  | nil => exact h
  | cons c cs ih => exact ih (put_bad h)

theorem flush_bad {s : OStream α} (h : s.bad = true) : s.flush.bad = true := by simp [flush, h]

theorem close_bad {s : OStream α} (h : s.bad = true) : s.close.bad = true := by
  simp only [close, apply_ite bad, flush_bad h, ite_self]

/-! ## What a stream carries -/

/-- `s` is open and has been given exactly `c`. While it is good, file and buffer together hold
`c`; once it is bad, the file holds what fitted. -/
structure Carries (s : OStream α) (c : List α) : Prop where
  isOpen : s.isOpen = true
  of_good : s.bad = false → s.file ++ s.buf = c ∧ s.file.length ≤ s.dev.quota
  of_bad : s.bad = true → s.buf = [] ∧ s.file = c.take s.dev.quota ∧ s.dev.quota < c.length

/-- `s` is closed and was given exactly `c`. -/
structure Left (s : OStream α) (c : List α) : Prop where
  isOpen : s.isOpen = false
  file : s.file = c.take s.dev.quota
  bad_iff : s.bad = true ↔ s.dev.quota < c.length

theorem open_some {s : OStream α} (h : s.isOpen = false) (d : Device) :
    s.open (some d) = { dev := d, file := [], buf := [], bad := false, isOpen := true } := by
  simp [«open», h]

theorem Carries.opened {s : OStream α} (h : s.isOpen = false) (d : Device) :
    (s.open (some d)).Carries [] := by
  rw [open_some h]
  exact ⟨rfl, fun _ => ⟨rfl, Nat.zero_le _⟩, nofun⟩

/-- Handing over a good stream leaves nothing in its buffer. -/
theorem Carries.handOver {s : OStream α} (H : s.Carries c) (hb : s.bad = false) :
    s.handOver.Carries c ∧ s.handOver.buf = [] := by
  obtain ⟨rfl, hq⟩ := H.of_good hb
  refine ⟨⟨H.isOpen, fun h => ?_, fun h => ?_⟩, rfl⟩
  · have hle : (s.file ++ s.buf).length ≤ s.dev.quota := by simpa [OStream.handOver] using h
    simp only [OStream.handOver, List.append_nil]
    exact ⟨List.take_of_length_le hle, by rw [List.length_take]; omega⟩
  · exact ⟨rfl, rfl, by simpa [OStream.handOver] using h⟩

theorem Carries.put {s : OStream α} (H : s.Carries c) (x : α) : (s.put x).Carries (c ++ [x]) := by
  cases hb : s.bad with
  | false =>
    obtain ⟨hc, hq⟩ := H.of_good hb
    have H' : ({ s with buf := s.buf ++ [x] } : OStream α).Carries (c ++ [x]) :=
      ⟨H.isOpen, fun _ => ⟨by simp [← hc], hq⟩, fun h => absurd (hb.symm.trans h) nofun⟩
    rw [put_of_good H.isOpen hb]
    split
    · exact (H'.handOver hb).1
    · exact H'
  | true =>
    obtain ⟨hbuf, hf, hlt⟩ := H.of_bad hb
    rw [put_of_bad hb]
    refine ⟨H.isOpen, fun h => absurd (hb.symm.trans h) nofun, fun _ => ⟨hbuf, ?_, ?_⟩⟩
    · rw [List.take_append_of_le_length (Nat.le_of_lt hlt)]; exact hf
    · rw [List.length_append]; omega

theorem Carries.write {s : OStream α} (H : s.Carries c) (cs : List α) :
    (s.write cs).Carries (c ++ cs) := by
  induction cs generalizing s c with
  | nil => simpa using H
  | cons x cs ih => simpa [write_cons] using ih (H.put x)

theorem Carries.flush {s : OStream α} (H : s.Carries c) : s.flush.Carries c ∧ s.flush.buf = [] := by
  cases hb : s.bad with
  | false => simpa [OStream.flush, H.isOpen, hb] using H.handOver hb
  | true => simpa [OStream.flush, hb] using ⟨H, (H.of_bad hb).1⟩

/-- A stream whose buffer is empty has handed over what fits of what it was given. -/
theorem Carries.drained {s : OStream α} (H : s.Carries c) (hbuf : s.buf = []) :
    s.file = c.take s.dev.quota ∧ (s.bad = true ↔ s.dev.quota < c.length) := by
  cases hb : s.bad with
  | false =>
    obtain ⟨rfl, hq⟩ := H.of_good hb
    rw [hbuf, List.append_nil]
    exact ⟨(List.take_of_length_le hq).symm, by simp; omega⟩
  | true =>
    obtain ⟨-, hf, hlt⟩ := H.of_bad hb
    exact ⟨hf, by simp [hlt]⟩

/-- **What a closed stream leaves behind** is the part of its data that fits its file. -/
theorem Carries.close {s : OStream α} (H : s.Carries c) : s.close.Left c := by
  obtain ⟨H', hbuf⟩ := H.flush
  obtain ⟨hf, hb⟩ := H'.drained hbuf
  simp only [OStream.close, H.isOpen, if_true]
  exact ⟨rfl, hf, hb⟩

/-- A bad stream was given more than fits. -/
theorem Carries.lt_of_bad {s : OStream α} (H : s.Carries c) (h : s.bad = true) :
    s.dev.quota < c.length := (H.of_bad h).2.2

/-- A stream that is good when it is closed was given no more than fits. -/
theorem Left.length_le {s : OStream α} (H : s.Left c) (h : s.bad = false) :
    c.length ≤ s.dev.quota :=
  Nat.le_of_not_lt fun hlt => absurd (h.symm.trans (H.bad_iff.mpr hlt)) nofun

theorem Left.file_eq {s : OStream α} (H : s.Left c) (h : s.bad = false) : s.file = c := by
  rw [H.file]
  exact List.take_of_length_le (H.length_le h)

end OStream

/-! ## Finding data in a file -/

/-- The file holds `bs` at position `pos`. -/
def HoldsAt [DecidableEq α] (file : List α) (pos : Nat) (bs : List α) : Prop :=
  pos + bs.length ≤ file.length ∧ (file.drop pos).take bs.length = bs

instance [DecidableEq α] (file : List α) (pos : Nat) (bs : List α) :
    Decidable (HoldsAt file pos bs) := inferInstanceAs (Decidable (_ ∧ _))

/-- In the first `n` bytes of a file, `bs` is found exactly if it ends within them. -/
theorem holdsAt_take [DecidableEq α] {pre bs post : List α} {n : Nat} :
    HoldsAt ((pre ++ bs ++ post).take n) pre.length bs ↔ pre.length + bs.length ≤ n := by
  unfold HoldsAt
  constructor
  · rintro ⟨h, -⟩
    simp only [List.length_take, List.length_append] at h
    omega
  · intro h
    refine ⟨by simp only [List.length_take, List.length_append]; omega, ?_⟩
    rw [List.drop_take, List.append_assoc, List.drop_left, List.take_take,
      Nat.min_eq_left (by omega), List.take_left]
