import KistCollector.Lib.PosixPath
import KistCollector.Lib.Strftime

/-!
# The session directory

`session_create` names a directory after the local time, to the second, and creates it with its parents.
-/

namespace Kist

structure SessionInfo where
  dir : PosixPath := []
  startedNs : Int64 := 0

/-- `toTm` is `localtime_r` or `gmtime_r`. -/
def formatTime (toTm : Int64 → Tm) (epochNs : Int64) (fmt : List Char) : List Char :=
  strftime fmt (toTm (epochNs / 1000000000))

/-- `createDirectories` says for which directories `create_directories` reports no error: those it
creates and those that exist already. -/
def sessionCreate (localtime : Int64 → Tm) (createDirectories : PosixPath → Bool) (nowNs : Int64)
    (outputDir : PosixPath) : SessionInfo :=
  let dir := outputDir.join (formatTime localtime nowNs "%Y%m%d_%H%M%S".toList)
  if createDirectories dir then { dir := dir, startedNs := nowNs }
  else { dir := [], startedNs := nowNs }

/-- The name of a session directory fits the buffer it is printed into. -/
theorem length_formatTime (localtime : Int64 → Tm) (nowNs : Int64) :
    (formatTime localtime nowNs "%Y%m%d_%H%M%S".toList).length < 64 := by
  have h := Scanf.length_d (localtime (nowNs / 1000000000)).year
  rw [formatTime, strftime_compact]
  simp only [List.length_append, List.length_cons, twoDigits, List.length_nil]
  omega

/-- The name of a session directory is a plain name. -/
theorem plain_formatTime (localtime : Int64 → Tm) (nowNs : Int64) :
    PosixPath.Plain (formatTime localtime nowNs "%Y%m%d_%H%M%S".toList) := by
  have hmem : '_' ∈ formatTime localtime nowNs "%Y%m%d_%H%M%S".toList := by
    rw [formatTime, strftime_compact]
    simp
  refine ⟨?_, ?_, ?_, slash_not_mem_strftime _⟩ <;>
    · intro h
      rw [h] at hmem
      simp at hmem

end Kist
