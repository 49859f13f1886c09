import KistCollector.Lib.Machine

/-!
# Logs read in batches

The abstract form of a first-in first-out hand-off: a list that only grows, and a mark up to which
it has been read. A reader takes everything behind the mark at once. What has been read is a
prefix of what was appended, so nothing is lost, repeated or reordered, whatever the schedule.
-/

/-- Everything appended so far, and how much of it has been read. -/
structure Log (α : Type) where
  entries : List α
  read : Nat
  read_le : read ≤ entries.length

namespace Log

variable {α : Type}

def empty : Log α := ⟨[], 0, Nat.le_refl _⟩

/-- The entries behind the mark. -/
def unread (L : Log α) : List α := L.entries.drop L.read

def append (L : Log α) (x : α) : Log α where
  entries := L.entries ++ [x]
  read := L.read
  read_le := by have := L.read_le; simp only [List.length_append]; omega

def readAll (L : Log α) : Log α := ⟨L.entries, L.entries.length, Nat.le_refl _⟩

@[simp] theorem unread_append (L : Log α) (x : α) : (L.append x).unread = L.unread ++ [x] :=
  List.drop_append_of_le_length L.read_le

@[simp] theorem unread_readAll (L : Log α) : L.readAll.unread = [] := List.drop_length

inductive Label (α : Type) where
  | append (x : α)
  | readAll

inductive Event (α : Type) where
  | appended (x : α)
  | taken (batch : List α)

def machine : Machine (Log α) (Label α) (Event α) where
  step L
    | .append x => some (L.append x, [.appended x])
    | .readAll => some (L.readAll, [.taken L.unread])

@[simp] def Event.appended? : Event α → Option α
  | .appended x => some x
  | .taken _ => none

@[simp] def Event.taken? : Event α → Option (List α)
  | .appended _ => none
  | .taken batch => some batch

/-- What was appended is what was taken, followed by what is still unread. -/
theorem appended_eq_taken_append_unread {L : Log α}
    (h : machine.run empty ls = some (L, es)) :
    seen Event.appended? es = (seen Event.taken? es).flatten ++ L.unread := by
  refine Machine.invariant (P := fun es (L : Log α) =>
    seen Event.appended? es = (seen Event.taken? es).flatten ++ L.unread) rfl ?_ h
  intro es L l L' e ih hs
  cases l with
  | append x => cases hs; simp [ih]
  | readAll => cases hs; simp [ih]

end Log
