import Mathlib.Data.List.Basic

/-!
# Paths

Paths as POSIX reads them: text with components between slashes. `PosixPath.join` is `operator/` of the
C++ library. A path names an entry of a directory: `entry` takes from outside which directory the text
before the last slash leads to (links, `..` and mounts included), and the rest of the path is the name
of the entry.
-/

abbrev PosixPath := List Char

namespace PosixPath

def isAbsolute (p : PosixPath) : Bool := p.head? == some '/'

def hasFilename (p : PosixPath) : Bool := p.getLast?.any (· != '/')

/-- `operator/`: an absolute path replaces, any other is appended behind a slash. -/
def join (p q : PosixPath) : PosixPath :=
  if q.isAbsolute then q
  else if p.hasFilename then p ++ '/' :: q
  else p ++ q

/-- The text up to the last slash. -/
def parent (p : PosixPath) : PosixPath := (p.reverse.dropWhile (· != '/')).reverse

/-- The text behind the last slash. -/
def filename (p : PosixPath) : PosixPath := (p.reverse.takeWhile (· != '/')).reverse

/-- The filename up to its last dot. A dot in front is not one that ends it, nor is one of `..`. -/
def stem (p : PosixPath) : PosixPath :=
  let name := p.filename
  let before := ((name.reverse.dropWhile (· != '.')).drop 1).reverse
  if before.isEmpty || name == ['.', '.'] then name else before

/-- A path as the parent of another. -/
def asParent (p : PosixPath) : PosixPath := if p.hasFilename then p ++ ['/'] else p

/-- The directory entry a path names, where `dir` is the directory that a parent leads to. Two entries are
two files here: links, by which two entries can be one file, are left out. -/
def entry (dir : PosixPath → δ) (p : PosixPath) : δ × List Char := (dir p.parent, p.filename)

theorem asParent_eq (p : PosixPath) : p.asParent = [] ∨ ∃ q, p.asParent = q ++ ['/'] := by
  unfold asParent
  split
  · exact .inr ⟨p, rfl⟩
  · rename_i h
    rcases List.eq_nil_or_concat p with rfl | ⟨q, c, rfl⟩
    · exact .inl rfl
    · have hc : c = '/' := by simpa [hasFilename] using h
      exact .inr ⟨q, by simp [hc]⟩

variable {p : PosixPath} {b : List Char}

theorem join_of_plain (hb : '/' ∉ b) : p.join b = p.asParent ++ b := by
  have habs : isAbsolute b = false := by
    cases b with
    | nil => rfl
    | cons c b =>
      have hc : c ≠ '/' := fun h => hb (h ▸ List.mem_cons_self ..)
      simp [isAbsolute, hc]
  unfold join asParent
  rw [habs, if_neg (by decide)]
  split <;> simp

/-- A name joined to a path is an entry of the directory the path leads to. -/
theorem parent_join (hb : '/' ∉ b) : (p.join b).parent = p.asParent := by
  rw [join_of_plain hb, parent, List.reverse_append, List.dropWhile_append_of_pos]
  · rcases p.asParent_eq with h | ⟨q, h⟩ <;> simp [h]
  · intro c hc
    simpa using fun h : c = '/' => hb (h ▸ List.mem_reverse.mp hc)

theorem filename_join (hb : '/' ∉ b) : (p.join b).filename = b := by
  rw [join_of_plain hb, filename, List.reverse_append, List.takeWhile_append_of_pos]
  · rcases p.asParent_eq with h | ⟨q, h⟩ <;> simp [h]
  · intro c hc
    simpa using fun h : c = '/' => hb (h ▸ List.mem_reverse.mp hc)

theorem entry_join (dir : PosixPath → δ) (hb : '/' ∉ b) :
    (p.join b).entry dir = (dir p.asParent, b) := by
  rw [entry, parent_join hb, filename_join hb]

/-- The entries that some names of one directory name. -/
theorem mem_map_entry_join {dir : PosixPath → δ} {ns : List (List Char)} {e : δ × List Char}
    (h : ∀ n ∈ ns, '/' ∉ n) :
    e ∈ ns.map (fun n => (p.join n).entry dir) ↔ e.1 = dir p.asParent ∧ e.2 ∈ ns := by
  simp only [List.mem_map]
  constructor
  · rintro ⟨n, hn, rfl⟩
    rw [entry_join dir (h n hn)]
    exact ⟨rfl, hn⟩
  · rintro ⟨hd, hn⟩
    exact ⟨e.2, hn, by rw [entry_join dir (h _ hn), ← hd]⟩

/-- The name of one entry of a directory, other than the directory itself and its parent. -/
def Plain (b : List Char) : Prop := b ≠ [] ∧ b ≠ ['.'] ∧ b ≠ ['.', '.'] ∧ '/' ∉ b

theorem asParent_join (hb : '/' ∉ b) (hne : b ≠ []) :
    (p.join b).asParent = p.asParent ++ b ++ ['/'] := by
  obtain ⟨a, c, rfl⟩ := (List.eq_nil_or_concat b).resolve_left hne
  have hc : c ≠ '/' := fun h => hb (by simp [h])
  rw [join_of_plain hb, asParent, if_pos (by simp [hasFilename, hc])]

end PosixPath

/-- Where the paths of a file system lead. Two names in the directory `root` lead to two directories, so
there are no links among these; where any other path leads, through links, `..` or mounts, is left
open. -/
structure DirLookup (δ : Type) (root : PosixPath) where
  dir : PosixPath → δ
  dir_inj : ∀ {b b'}, PosixPath.Plain b → PosixPath.Plain b' →
    dir (root.join b).asParent = dir (root.join b').asParent → b = b'

/-- Every path leads to a directory of its own. -/
def DirLookup.text (root : PosixPath) : DirLookup PosixPath root where
  dir := id
  dir_inj hb hb' h := by
    simp only [id, PosixPath.asParent_join hb.2.2.2 hb.1, PosixPath.asParent_join hb'.2.2.2 hb'.1,
      List.append_assoc] at h
    exact List.append_cancel_right (List.append_cancel_left h)
