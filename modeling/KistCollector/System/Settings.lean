import KistCollector.Lib.PosixPath
import KistCollector.Lib.Text

/-!
# Settings from the configuration

`DataCollector::Settings::from_yaml` reads a YAML document through the node interface of the YAML
library (`Yaml`). `ConfigNode` is a small instance of that interface.
-/

namespace Kist

/-- The nodes of a YAML document. `get` is `none` where `operator[]` throws; a conversion is `none`
where it fails. -/
class Yaml (N : Type) where
  isDefined : N → Bool
  get : N → List Char → Option N
  isSequence : N → Bool
  items : N → List N
  asInt : N → Option Int32
  asSize : N → Option UInt64
  asBool : N → Option Bool
  asString : N → Option (List Char)

namespace DataCollector

structure Settings where
  domainId : Int32 := 0
  ddsUri : List Char := []
  outputDir : PosixPath := "sessions".toList
  task : List Char := []
  cameras : List (List Char) := []
  cameraQueueCapacity : UInt64 := 1024
  cameraReliable : Bool := true
  lowstateEnabled : Bool := false
  lowstateQueueCapacity : UInt64 := 8192
  dex3Enabled : Bool := false
  dex3QueueCapacity : UInt64 := 4096
  uwbEnabled : Bool := false
  uwbQueueCapacity : UInt64 := 256
  lowcmdEnabled : Bool := false
  lowcmdQueueCapacity : UInt64 := 8192
  armSdkEnabled : Bool := false
  armSdkQueueCapacity : UInt64 := 8192
  dex3CmdEnabled : Bool := false
  dex3CmdQueueCapacity : UInt64 := 4096
  motionTokenEnabled : Bool := false
  motionTokenQueueCapacity : UInt64 := 4096

namespace Settings

variable {N : Type} [Yaml N]

/-- `node[key].as<T>(fallback)`. -/
def field {α : Type} (as : N → Option α) (node : N) (key : String) (fallback : α) : Option α :=
  (Yaml.get node key.toList).map fun n => (as n).getD fallback

/-- The field of a section that may be absent. -/
def fieldOf {α : Type} (as : N → Option α) (root : N) (sec key : String) (fallback : α) : Option α := do
  let node ← Yaml.get root sec.toList
  if Yaml.isDefined node then field as node key fallback else pure fallback

/-- The names of the camera entries that are enabled and have one. -/
def cameraNames : List N → Option (List (List Char))
  | [] => pure []
  | cam :: cams => do
    let enabled ← field Yaml.asBool cam "enabled" true
    let name ← if enabled then field Yaml.asString cam "name" [] else pure []
    let names ← cameraNames cams
    pure (if name.isEmpty then names else name :: names)

/-- The camera names of the section `realsense_cameras`. -/
def sectionCameras (rs : N) : Option (List (List Char)) := do
  let enabled ← field Yaml.asBool rs "enabled" true
  let cameras ← Yaml.get rs "cameras".toList
  if enabled && Yaml.isDefined cameras && Yaml.isSequence cameras then
    cameraNames (Yaml.items cameras)
  else pure []

/-- `enabled` and `queue_capacity` of a stream's section. -/
def stream (root : N) (sec : String) (capacity : UInt64) : Option (Bool × UInt64) := do
  let enabled ← fieldOf Yaml.asBool root sec "enabled" false
  let queueCapacity ← fieldOf Yaml.asSize root sec "queue_capacity" capacity
  pure (enabled, queueCapacity)

/-- `none`: the document is rejected. -/
def fromYaml (root : N) : Option Settings := do
  let s : Settings := {}
  let domainId ← fieldOf Yaml.asInt root "unitree" "domain_id" 0
  let outputDir ← fieldOf Yaml.asString root "storage" "output_dir" "sessions".toList
  let rs ← Yaml.get root "realsense_cameras".toList
  let cameraQueueCapacity ←
    fieldOf Yaml.asSize root "realsense_cameras" "queue_capacity" s.cameraQueueCapacity
  let cameraReliable ← fieldOf Yaml.asBool root "realsense_cameras" "reliable" s.cameraReliable
  let cameras ← if Yaml.isDefined rs then sectionCameras rs else pure []
  let lowstate ← stream root "lowstate" s.lowstateQueueCapacity
  let dex3 ← stream root "dex3" s.dex3QueueCapacity
  let uwb ← stream root "uwb" s.uwbQueueCapacity
  let lowcmd ← stream root "lowcmd" s.lowcmdQueueCapacity
  let armSdk ← stream root "arm_sdk" s.armSdkQueueCapacity
  let dex3Cmd ← stream root "dex3_cmd" s.dex3CmdQueueCapacity
  let motionToken ← stream root "motion_token" s.motionTokenQueueCapacity
  let taskNode ← Yaml.get root "task".toList
  let task := if Yaml.isDefined taskNode then (Yaml.asString taskNode).getD [] else []
  pure { s with
    domainId := domainId
    outputDir := outputDir
    task := task
    cameras := cameras
    cameraQueueCapacity := cameraQueueCapacity
    cameraReliable := cameraReliable
    lowstateEnabled := lowstate.1
    lowstateQueueCapacity := lowstate.2
    dex3Enabled := dex3.1
    dex3QueueCapacity := dex3.2
    uwbEnabled := uwb.1
    uwbQueueCapacity := uwb.2
    lowcmdEnabled := lowcmd.1
    lowcmdQueueCapacity := lowcmd.2
    armSdkEnabled := armSdk.1
    armSdkQueueCapacity := armSdk.2
    dex3CmdEnabled := dex3Cmd.1
    dex3CmdQueueCapacity := dex3Cmd.2
    motionTokenEnabled := motionToken.1
    motionTokenQueueCapacity := motionToken.2 }

end Settings
end DataCollector

/-- Documents of mappings with text keys, sequences and scalars. Numbers are plain decimals. -/
inductive ConfigNode where
  | undefined
  | scalar (text : List Char)
  | sequence (items : List ConfigNode)
  | map (entries : List (List Char × ConfigNode))

instance : Yaml ConfigNode where
  isDefined
    | .undefined => false
    | _ => true
  get
    | .undefined, _ | .scalar _, _ => none
    | .sequence _, _ => some .undefined
    | .map entries, key => some ((entries.lookup key).getD .undefined)
  isSequence
    | .sequence _ => true
    | _ => false
  items
    | .sequence items => items
    | _ => []
  asInt
    | .scalar text => (Text.number? text).map Int32.ofNat
    | _ => none
  asSize
    | .scalar text => (Text.number? text).map UInt64.ofNat
    | _ => none
  asBool
    | .scalar text =>
      if text ∈ ["true".toList, "yes".toList, "on".toList, "y".toList] then some true
      else if text ∈ ["false".toList, "no".toList, "off".toList, "n".toList] then some false
      else none
    | _ => none
  asString
    | .scalar text => some text
    | _ => none

end Kist
