import KistCollector.Lib.Feeds
import KistCollector.System.Settings
import Mathlib.Data.List.Nodup

/-!
# Subscribers and recorders at the end of their lives

A recorder may be closed or destroyed only after the subscriber that feeds it has stopped. Every class sees
to that in `stop` and after a start that fails; the recorders of channels also in their destructor, which
is `stop`. `RealsenseRecorder`, `UwbRecorder` and `DataCollector` have no destructor: their members are
destroyed in the reverse order of declaration, and the recorders are declared last.
`subscriber_first_iff` says which lives keep the order.
-/

namespace Kist

/-- A subscriber with its recorder. -/
inductive Feed where
  | color
  | depth
  | row
  deriving DecidableEq

/-- The feeds of a recorder class, and what its `start`, `stop` and destructor do to them. `start` is told
which of its steps that can fail succeed, in the order of the code, and says whether it succeeds. A
subscriber whose start fails delivers nothing. -/
structure Lifetime where
  feeds : List Feed
  start : (Nat → Bool) → List (Act Feed) × Bool
  stop : List (Act Feed)
  destroy : List (Act Feed)

def RealsenseRecorder.stopActs : List (Act Feed) :=
  [.stops .color, .stops .depth, .closes .color, .closes .depth]

/-- The steps that can fail are `create_directories`, the two `open`s and the two subscribers. -/
def RealsenseRecorder.startActs (ok : Nat → Bool) : List (Act Feed) × Bool :=
  if !ok 0 then ([], false)
  else if !ok 1 then ([.closes .color, .closes .depth], false)
  else if !ok 2 then ([.opens .color, .closes .color, .closes .depth], false)
  else if !ok 3 then ([.opens .color, .opens .depth] ++ stopActs, false)
  else if !ok 4 then ([.opens .color, .opens .depth, .starts .color] ++ stopActs, false)
  else ([.opens .color, .opens .depth, .starts .color, .starts .depth], true)

/-- The members from the last to the first: `depth_rec_`, `color_rec_`, `depth_sub_`, `color_sub_`. -/
def RealsenseRecorder.lifetime : Lifetime where
  feeds := [.color, .depth]
  start := startActs
  stop := stopActs
  destroy := [.destroys .depth, .destroys .color, .stops .depth, .stops .color]

/-- The steps that can fail are `rec_.open` and `sub_.start`. The members are `sub_` and then `rec_`. -/
def UwbRecorder.lifetime : Lifetime where
  feeds := [.row]
  start ok :=
    if !ok 0 then ([], false)
    else if !ok 1 then ([.opens .row, .closes .row], false)
    else ([.opens .row, .starts .row], true)
  stop := [.stops .row, .closes .row]
  destroy := [.destroys .row, .stops .row]

/-- The recorders of channels. The steps that can fail are `rec_.open` and, in the `try`, what comes before
`sub_.reset` and what comes after it. The destructor is `stop`, and then the members go. -/
def Lifetime.channel : Lifetime where
  feeds := [.row]
  start ok :=
    if !ok 0 then ([], false)
    else if !ok 1 then ([.opens .row, .closes .row], false)
    else if !ok 2 then ([.opens .row, .stops .row, .closes .row], false)
    else ([.opens .row, .stops .row, .starts .row], true)
  stop := [.stops .row, .closes .row]
  destroy := [.stops .row, .closes .row, .destroys .row, .stops .row]

def LowstateRecorder.lifetime : Lifetime := .channel

def Dex3Recorder.lifetime : Lifetime := .channel

def LowcmdRecorder.lifetime : Lifetime := .channel

def Dex3CmdRecorder.lifetime : Lifetime := .channel

def MotionTokenRecorder.lifetime : Lifetime := .channel

/-- The recorder classes, in the order of the members of `DataCollector`. -/
inductive RecorderKind where
  | realsense
  | lowstate
  | dex3
  | uwb
  | lowcmd
  | dex3Cmd
  | motionToken
  deriving DecidableEq

def RecorderKind.lifetime : RecorderKind → Lifetime
  | .realsense => RealsenseRecorder.lifetime
  | .lowstate => LowstateRecorder.lifetime
  | .dex3 => Dex3Recorder.lifetime
  | .uwb => UwbRecorder.lifetime
  | .lowcmd => LowcmdRecorder.lifetime
  | .dex3Cmd => Dex3CmdRecorder.lifetime
  | .motionToken => MotionTokenRecorder.lifetime

/-! ## One recorder -/

namespace Lifetime

structure State where
  running : Bool := false
  gone : Bool := false

inductive Call where
  | start (ok : Nat → Bool)
  | stop
  | destroy

/-- A recorder on its own. -/
def owner (L : Lifetime) : FeedOwner Feed State Call where
  call k c :=
    if k.gone then none
    else match c with
    | .start ok =>
      if k.running then some ([], k)
      else some ((L.start ok).1, { k with running := (L.start ok).2 })
    | .stop => some (L.stop, { k with running := false })
    | .destroy => some (L.destroy, { k with gone := true })

/-- Between its calls: a recorder that is running has every subscriber delivering, one that is not has
none. -/
def At (L : Lifetime) (running : Bool) (F : Feeds Feed) : Prop :=
  ∀ i, F.delivering i = (running && decide (i ∈ L.feeds))

/-- `start`, `stop` and, of a recorder that is not running, the destructor keep the order. -/
structure Sound (L : Lifetime) : Prop where
  start : ∀ {F}, L.At false F → ∀ ok,
    F.Allows (L.start ok).1 ∧ L.At (L.start ok).2 (F.acts (L.start ok).1)
  stop : ∀ {F running}, L.At running F → F.Allows L.stop ∧ L.At false (F.acts L.stop)
  destroy : ∀ {F}, L.At false F → F.Allows L.destroy

end Lifetime

theorem RealsenseRecorder.sound : lifetime.Sound where
  start := by
    intro F H ok
    have hc := H .color
    have hd := H .depth
    have hr := H .row
    dsimp only [lifetime, startActs]
    refine ⟨?_, ?_⟩
    · split_ifs <;> simp_all [stopActs, Feeds.act, Feeds.Allowed]
    · split_ifs <;> intro i <;> cases i <;> simp_all [stopActs, Feeds.act, lifetime]
  stop := by
    intro F running H
    have hr := H .row
    dsimp only [lifetime, stopActs]
    refine ⟨?_, ?_⟩
    · simp [Feeds.act, Feeds.Allowed]
    · intro i
      cases i <;> simp_all [Feeds.act, lifetime]
  destroy := by
    intro F H
    have hc := H .color
    have hd := H .depth
    simp_all [lifetime, Feeds.act, Feeds.Allowed]

theorem UwbRecorder.sound : lifetime.Sound where
  start := by
    intro F H ok
    have hc := H .color
    have hd := H .depth
    have hr := H .row
    dsimp only [lifetime]
    refine ⟨?_, ?_⟩
    · split_ifs <;> simp_all [Feeds.act, Feeds.Allowed]
    · split_ifs <;> intro i <;> cases i <;> simp_all [Feeds.act, lifetime]
  stop := by
    intro F running H
    have hc := H .color
    have hd := H .depth
    dsimp only [lifetime]
    refine ⟨?_, ?_⟩
    · simp [Feeds.act, Feeds.Allowed]
    · intro i
      cases i <;> simp_all [Feeds.act, lifetime]
  destroy := by
    intro F H
    have hr := H .row
    simp_all [lifetime, Feeds.act, Feeds.Allowed]

namespace Lifetime

theorem channel_sound : channel.Sound where
  start := by
    intro F H ok
    have hc := H .color
    have hd := H .depth
    have hr := H .row
    dsimp only [channel]
    refine ⟨?_, ?_⟩
    · split_ifs <;> simp_all [Feeds.act, Feeds.Allowed]
    · split_ifs <;> intro i <;> cases i <;> simp_all [Feeds.act, channel]
  stop := by
    intro F running H
    have hc := H .color
    have hd := H .depth
    dsimp only [channel]
    refine ⟨?_, ?_⟩
    · simp [Feeds.act, Feeds.Allowed]
    · intro i
      cases i <;> simp_all [Feeds.act, channel]
  destroy := by
    intro F H
    simp [channel, Feeds.act, Feeds.Allowed]

end Lifetime

namespace RecorderKind

theorem sound (kind : RecorderKind) : kind.lifetime.Sound := by
  cases kind with
  | realsense => exact RealsenseRecorder.sound
  | uwb => exact UwbRecorder.sound
  | _ => exact Lifetime.channel_sound

/-- The classes without a destructor. -/
def Undestructed (kind : RecorderKind) : Prop := kind = .realsense ∨ kind = .uwb

/-- The destruction of a recorder that is running keeps the order exactly if its class has a destructor. -/
theorem allows_destroy {kind : RecorderKind} {F : Feeds Feed} (H : kind.lifetime.At true F) :
    F.Allows kind.lifetime.destroy ↔ ¬ kind.Undestructed := by
  have hd := H .depth
  have hr := H .row
  cases kind with
  | realsense =>
    simp_all [lifetime, RealsenseRecorder.lifetime, Undestructed, Feeds.Allowed]
  | uwb => simp_all [lifetime, UwbRecorder.lifetime, Undestructed, Feeds.Allowed]
  | lowstate | dex3 | lowcmd | dex3Cmd | motionToken =>
    refine iff_of_true ?_ (by simp [Undestructed])
    simp [lifetime, LowstateRecorder.lifetime, Dex3Recorder.lifetime, LowcmdRecorder.lifetime,
      Dex3CmdRecorder.lifetime, MotionTokenRecorder.lifetime, Lifetime.channel, Feeds.act,
      Feeds.Allowed]

/-- The recorder is not destroyed while it is running, unless its destructor stops it. -/
def StoppedFirst (kind : RecorderKind) (k : Lifetime.State) (c : Lifetime.Call) : Prop :=
  c = .destroy → k.running = true → ¬ kind.Undestructed

/-- A recorder on its own keeps the order exactly where `StoppedFirst` holds of each call. -/
theorem exactlyIf (kind : RecorderKind) : kind.lifetime.owner.ExactlyIf {} kind.StoppedFirst := by
  have hsound := kind.sound
  have hstart : kind.lifetime.At false .idle := fun i => rfl
  refine FeedOwner.exactlyIf (J := fun k F => k.gone = true ∨ kind.lifetime.At k.running F)
    (.inr hstart) ?_
  intro k F c p k' HJ hcall
  simp only [Lifetime.owner, Option.ite_none_left_eq_some] at hcall
  obtain ⟨hgone, hcall⟩ := hcall
  have H : kind.lifetime.At k.running F := HJ.resolve_left hgone
  unfold StoppedFirst
  cases c with
  | start ok =>
    dsimp only at hcall
    split at hcall <;> cases hcall
    · exact ⟨by simp, .inr H⟩
    · rename_i hrun
      rw [Bool.not_eq_true] at hrun
      rw [hrun] at H
      obtain ⟨hallows, H'⟩ := hsound.start H ok
      exact ⟨by simp [hallows], .inr H'⟩
  | stop =>
    cases hcall
    obtain ⟨hallows, H'⟩ := hsound.stop H
    exact ⟨by simp [hallows], .inr H'⟩
  | destroy =>
    cases hcall
    refine ⟨?_, .inl rfl⟩
    cases hrun : k.running with
    | false =>
      rw [hrun] at H
      simp [hsound.destroy H]
    | true =>
      rw [hrun] at H
      simp [allows_destroy H]

end RecorderKind

/-! ## The collector -/

/-- The recorders that `DataCollector::start` makes, in its order. -/
def DataCollector.Settings.recorders (settings : Settings) : List RecorderKind :=
  settings.cameras.map (fun _ => .realsense) ++
    (if settings.lowstateEnabled then [.lowstate] else []) ++
    (if settings.dex3Enabled then [.dex3, .dex3] else []) ++
    (if settings.uwbEnabled then [.uwb] else []) ++
    (if settings.lowcmdEnabled then [.lowcmd] else []) ++
    (if settings.armSdkEnabled then [.lowcmd] else []) ++
    (if settings.dex3CmdEnabled then [.dex3Cmd, .dex3Cmd] else []) ++
    (if settings.motionTokenEnabled then [.motionToken] else [])

/-- A recorder that a collector holds, numbered as it was made. -/
structure Held where
  id : Nat
  kind : RecorderKind
  deriving DecidableEq

/-- A collector and the recorders it holds. -/
structure Holder where
  running : Bool := false
  gone : Bool := false
  held : List Held := []
  made : Nat := 0

namespace Holder

open Feeds (onPart family)

/-- `created` is whether there is a session directory, and `ok i` what the recorder numbered `i` meets. -/
inductive Call where
  | start (settings : DataCollector.Settings) (created : Bool) (ok : Nat → Nat → Bool)
  | stop
  | destroy

/-- Make and start the recorders one after the other. Those that fail are destroyed again. -/
def startAll (ok : Nat → Nat → Bool) : List RecorderKind → Nat → List (Act (Nat × Feed)) × List Held
  | [], _ => ([], [])
  | kind :: kinds, i =>
    let (p, started) := kind.lifetime.start (ok i)
    let (rest, held) := startAll ok kinds (i + 1)
    if started then (onPart i p ++ rest, ⟨i, kind⟩ :: held)
    else (onPart i (p ++ kind.lifetime.destroy) ++ rest, held)

/-- The members from the last to the first. -/
def destroyOrder (held : List Held) : List Held :=
  [.motionToken, .dex3Cmd, .lowcmd, .uwb, .dex3, .lowstate, .realsense].flatMap fun kind =>
    held.filter fun o => o.kind = kind

def stopAll (held : List Held) : List (Act (Nat × Feed)) :=
  family (·.id) (fun o => o.kind.lifetime.stop) held

def destroyAll (held : List Held) : List (Act (Nat × Feed)) :=
  family (·.id) (fun o => o.kind.lifetime.destroy) held

/-- `DataCollector`. A `start` that makes no recorder, or of which none starts, fails. -/
def owner : FeedOwner (Nat × Feed) Holder Call where
  call k c :=
    if k.gone then none
    else match c with
    | .start settings created ok =>
      if k.running || !created then some ([], k)
      else
        let (p, held) := startAll ok settings.recorders k.made
        some (p, { k with
          running := !held.isEmpty
          held := held
          made := k.made + settings.recorders.length })
    | .stop =>
      if k.running then
        some (stopAll k.held ++ destroyAll k.held, { k with running := false, held := [] })
      else some ([], k)
    | .destroy => some (destroyAll (destroyOrder k.held), { k with gone := true })

/-- The collector is not destroyed while it is running with a camera or with UWB. -/
def StoppedFirst (k : Holder) (c : Call) : Prop :=
  c = .destroy → k.running = true → ∀ o ∈ k.held, ¬ o.kind.Undestructed

/-- Between the calls of a collector: those it holds are running, each under its own number, and numbers
not used yet are idle. -/
structure Holds (k : Holder) (F : Feeds (Nat × Feed)) : Prop where
  running : k.running = false → k.held = []
  held : ∀ o ∈ k.held, o.kind.lifetime.At true (F.part o.id)
  nodup : (k.held.map (·.id)).Nodup
  lt : ∀ o ∈ k.held, o.id < k.made
  fresh : ∀ i, k.made ≤ i → ∀ x, (F.part i).delivering x = false

variable {F : Feeds (Nat × Feed)}

theorem mem_destroyOrder {held : List Held} : o ∈ destroyOrder held ↔ o ∈ held := by
  rcases o with ⟨i, _ | _ | _ | _ | _ | _ | _⟩ <;> simp [destroyOrder]

theorem nodup_destroyOrder {held : List Held} (h : (held.map (·.id)).Nodup) :
    ((destroyOrder held).map (·.id)).Nodup := by
  refine List.Nodup.map_on ?_ ?_
  · intro x hx y hy
    exact List.inj_on_of_nodup_map h (mem_destroyOrder.mp hx) (mem_destroyOrder.mp hy)
  · refine List.nodup_flatMap.mpr ⟨fun kind _ => h.of_map.filter _, ?_⟩
    have hkinds : [RecorderKind.motionToken, .dex3Cmd, .lowcmd, .uwb, .dex3, .lowstate,
      .realsense].Nodup := by decide
    refine hkinds.imp fun {a b} hab o ha hb => hab ?_
    have hoa : o.kind = a := by simpa using (List.mem_filter.mp ha).2
    have hob : o.kind = b := by simpa using (List.mem_filter.mp hb).2
    exact hoa.symm.trans hob

/-- What starting `n` recorders from number `i` on leaves behind. -/
structure StartsAll (F F' : Feeds (Nat × Feed)) (os : List Held) (i n : Nat) : Prop where
  held : ∀ o ∈ os, o.kind.lifetime.At true (F'.part o.id)
  nodup : (os.map (·.id)).Nodup
  bounds : ∀ o ∈ os, i ≤ o.id ∧ o.id < i + n
  rest : ∀ j, j < i ∨ i + n ≤ j → F'.part j = F.part j

theorem startAll_spec (ok : Nat → Nat → Bool) (kinds : List RecorderKind) (i : Nat)
    (hfresh : ∀ j, i ≤ j → ∀ x, (F.part j).delivering x = false) :
    F.Allows (startAll ok kinds i).1 ∧
      StartsAll F (F.acts (startAll ok kinds i).1) (startAll ok kinds i).2 i kinds.length := by
  induction kinds generalizing F i with
  | nil => exact ⟨trivial, by simp [startAll], by simp [startAll], by simp [startAll], fun _ _ => rfl⟩
  | cons kind kinds ih =>
    have hidle : kind.lifetime.At false (F.part i) := hfresh i (Nat.le_refl i)
    obtain ⟨hstart, hat⟩ := kind.sound.start hidle (ok i)
    rcases hok : kind.lifetime.start (ok i) with ⟨p, started⟩
    rw [hok] at hstart hat
    have hlater : ∀ q, ∀ j, i + 1 ≤ j → ∀ x, ((F.acts (onPart i q)).part j).delivering x = false := by
      intro q j hj x
      rw [Feeds.part_onPart_of_ne (by omega)]
      exact hfresh j (by omega) x
    cases started with
    | true =>
      obtain ⟨hallows, H⟩ := ih (i + 1) (hlater p)
      simp only [startAll, hok, if_true, Feeds.acts_append, Feeds.allows_append,
        Feeds.allows_onPart, List.length_cons]
      refine ⟨⟨hstart, hallows⟩, ?_, ?_, ?_, ?_⟩
      · refine List.forall_mem_cons.mpr ⟨?_, H.held⟩
        rw [H.rest i (.inl (Nat.lt_succ_self i)), Feeds.part_onPart]
        exact hat
      · refine List.nodup_cons.mpr ⟨fun hmem => ?_, H.nodup⟩
        obtain ⟨o, ho, hid⟩ := List.mem_map.mp hmem
        have hbounds := H.bounds o ho
        dsimp only at hid
        omega
      · refine List.forall_mem_cons.mpr ⟨by dsimp only; omega, fun o ho => ?_⟩
        have hbounds := H.bounds o ho
        omega
      · intro j hj
        rw [H.rest j (by omega), Feeds.part_onPart_of_ne (by omega)]
    | false =>
      obtain ⟨hallows, H⟩ := ih (i + 1) (hlater (p ++ kind.lifetime.destroy))
      simp only [startAll, hok, Bool.false_eq_true, if_false, Feeds.acts_append,
        Feeds.allows_append, Feeds.allows_onPart, List.length_cons]
      refine ⟨⟨⟨hstart, kind.sound.destroy hat⟩, hallows⟩, H.held, H.nodup, fun o ho => ?_, ?_⟩
      · have hbounds := H.bounds o ho
        omega
      · intro j hj
        rw [H.rest j (by omega), Feeds.part_onPart_of_ne (by omega)]

theorem part_destroyAll_of_not_mem {os : List Held} (h : ∀ o ∈ os, o.id ≠ i) :
    (F.acts (destroyAll os)).part i = F.part i :=
  Feeds.part_family_of_not_mem h

/-- What is held is stopped and destroyed. -/
theorem Holds.stop (H : Holds k F) :
    F.Allows (stopAll k.held ++ destroyAll k.held) ∧
      ∀ i, k.made ≤ i → (F.acts (stopAll k.held ++ destroyAll k.held)).part i = F.part i := by
  constructor
  · refine Feeds.allows_append.mpr ⟨?_, ?_⟩
    · refine (Feeds.allows_family H.nodup).mpr fun o ho => ?_
      exact (o.kind.sound.stop (H.held o ho)).1
    · refine (Feeds.allows_family H.nodup).mpr fun o ho => ?_
      rw [stopAll, Feeds.part_family_of_mem H.nodup ho]
      exact o.kind.sound.destroy (o.kind.sound.stop (H.held o ho)).2
  · intro i hi
    have hne : ∀ o ∈ k.held, o.id ≠ i := fun o ho => by
      have := H.lt o ho
      omega
    rw [Feeds.acts_append, part_destroyAll_of_not_mem hne]
    exact Feeds.part_family_of_not_mem hne

theorem Holds.allows_destroy (H : Holds k F) :
    F.Allows (destroyAll (destroyOrder k.held)) ↔ ∀ o ∈ k.held, ¬ o.kind.Undestructed := by
  rw [destroyAll, Feeds.allows_family (nodup_destroyOrder H.nodup)]
  constructor
  · intro h o ho
    exact (RecorderKind.allows_destroy (H.held o ho)).mp (h o (mem_destroyOrder.mpr ho))
  · intro h o ho
    rw [mem_destroyOrder] at ho
    exact (RecorderKind.allows_destroy (H.held o ho)).mpr (h o ho)

/-- A collector keeps the order exactly where `StoppedFirst` holds of each call. -/
theorem exactlyIf : owner.ExactlyIf {} StoppedFirst := by
  have hstart : Holds {} (.idle : Feeds (Nat × Feed)) := by
    constructor <;> simp [Feeds.idle, Feeds.part, Feeds.comap]
  refine FeedOwner.exactlyIf (J := fun k F => k.gone = true ∨ Holds k F) (.inr hstart) ?_
  intro k F c p k' HJ hcall
  simp only [owner, Option.ite_none_left_eq_some] at hcall
  obtain ⟨hgone, hcall⟩ := hcall
  have H : Holds k F := HJ.resolve_left hgone
  unfold StoppedFirst
  cases c with
  | start settings created ok =>
    dsimp only at hcall
    split at hcall <;> cases hcall
    · exact ⟨by simp, .inr H⟩
    · obtain ⟨hallows, hall⟩ := startAll_spec ok settings.recorders k.made H.fresh
      refine ⟨by simp [hallows], .inr ⟨?_, hall.held, hall.nodup, fun o ho => (hall.bounds o ho).2, ?_⟩⟩
      · simp
      · intro i hi x
        rw [hall.rest i (.inr hi)]
        exact H.fresh i ((Nat.le_add_right ..).trans hi) x
  | stop =>
    dsimp only at hcall
    split at hcall <;> cases hcall
    · obtain ⟨hallows, hrest⟩ := H.stop
      refine ⟨by simp [hallows], .inr ⟨fun _ => rfl, by simp, by simp, by simp, ?_⟩⟩
      intro i hi x
      rw [hrest i hi]
      exact H.fresh i hi x
    · exact ⟨by simp, .inr H⟩
  | destroy =>
    cases hcall
    refine ⟨?_, .inl rfl⟩
    rw [H.allows_destroy]
    cases hrun : k.running with
    | false => simp [H.running hrun]
    | true => simp

end Holder

/-- The order is kept exactly by the lives in which no running camera and no running UWB recorder, alone or
held by a running collector, is destroyed before it is stopped. -/
theorem subscriber_first_iff (kind : RecorderKind) :
    kind.lifetime.owner.ExactlyIf {} kind.StoppedFirst ∧
      Holder.owner.ExactlyIf {} Holder.StoppedFirst :=
  ⟨kind.exactlyIf, Holder.exactlyIf⟩

/-- A camera that is destroyed while it is running, and one in a collector that is. -/
theorem subscriber_first_fails :
    (¬ ∀ (kind : RecorderKind) ls s es,
      kind.lifetime.owner.machine.run ⟨{}, [], .idle⟩ ls = some (s, es) → FeedOwner.Ordered es) ∧
    ¬ ∀ ls s es, Holder.owner.machine.run ⟨{}, [], .idle⟩ ls = some (s, es) → FeedOwner.Ordered es := by
  constructor
  · intro h
    have hordered := h .realsense [.call (.start fun _ => true), .act, .act, .act, .act, .call .destroy,
      .act] _ _ rfl
    exact Bool.noConfusion (hordered (.ends .depth true) List.mem_cons_self)
  · intro h
    have hordered := h [.call (.start { cameras := ["front".toList] } true fun _ _ => true), .act, .act,
      .act, .act, .call .destroy, .act] _ _ rfl
    exact Bool.noConfusion (hordered (.ends (0, .depth) true) List.mem_cons_self)

end Kist
