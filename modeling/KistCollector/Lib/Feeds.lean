import KistCollector.Lib.Machine
import Mathlib.Logic.Function.Basic

/-!
# Feeds, their sinks and their owner

A feed delivers into its sink, on a thread of its own, from its start until it has stopped. An owner
answers calls, and each call is a program of acts on feeds and sinks; deliveries come in at any point of
it. A sink that is closed or destroyed too early is delivered to afterwards. `FeedOwner.exactlyIf` reduces what
holds of every run to the programs of the single calls: whether `Feeds.Allows` them.
-/

/-- The sink of a feed, before it is opened and after it was closed, open, or destroyed. -/
inductive Feeds.Sink where
  | closed
  | opened
  | destroyed
  deriving DecidableEq

structure Feeds (ι : Type) where
  delivering : ι → Bool
  sink : ι → Feeds.Sink

/-- What an owner does to the feed or to the sink of `i`. A stop has returned when the act is done. -/
inductive Act (ι : Type) where
  | opens (i : ι)
  | starts (i : ι)
  | stops (i : ι)
  | closes (i : ι)
  | destroys (i : ι)
  deriving DecidableEq

namespace Act

variable {ι κ : Type}

def index : Act ι → ι
  | .opens i | .starts i | .stops i | .closes i | .destroys i => i

def map (f : ι → κ) : Act ι → Act κ
  | .opens i => .opens (f i)
  | .starts i => .starts (f i)
  | .stops i => .stops (f i)
  | .closes i => .closes (f i)
  | .destroys i => .destroys (f i)

end Act

namespace Feeds

variable {ι κ : Type}

/-- Nothing delivers, and nothing is open. -/
def idle : Feeds ι := ⟨fun _ => false, fun _ => .closed⟩

/-- What delivers has an open sink. -/
def Wired (F : Feeds ι) : Prop := ∀ i, F.delivering i = true → F.sink i = .opened

theorem wired_idle : (idle : Feeds ι).Wired := nofun

variable [DecidableEq ι]

def act (F : Feeds ι) : Act ι → Feeds ι
  | .opens i => { F with sink := Function.update F.sink i .opened }
  | .starts i => { F with delivering := Function.update F.delivering i true }
  | .stops i => { F with delivering := Function.update F.delivering i false }
  | .closes i => { F with sink := Function.update F.sink i .closed }
  | .destroys i => { F with sink := Function.update F.sink i .destroyed }

def acts (F : Feeds ι) (p : List (Act ι)) : Feeds ι := p.foldl act F

/-- A sink is open when its feed starts, and the feed has stopped when it is closed or destroyed. -/
def Allowed (F : Feeds ι) : Act ι → Prop
  | .starts i => F.sink i = .opened
  | .closes i | .destroys i => F.delivering i = false
  | .opens _ | .stops _ => True

/-- Each act of a program is allowed when its turn comes. -/
def Allows : Feeds ι → List (Act ι) → Prop
  | _, [] => True
  | F, a :: p => F.Allowed a ∧ (F.act a).Allows p

variable {F : Feeds ι}

@[simp] theorem acts_nil : F.acts [] = F := rfl

@[simp] theorem acts_cons (a : Act ι) (p : List (Act ι)) : F.acts (a :: p) = (F.act a).acts p := rfl

@[simp] theorem acts_append (p q : List (Act ι)) : F.acts (p ++ q) = (F.acts p).acts q :=
  List.foldl_append

@[simp] theorem allows_nil : F.Allows [] ↔ True := Iff.rfl

@[simp] theorem allows_cons : F.Allows (a :: p) ↔ F.Allowed a ∧ (F.act a).Allows p := Iff.rfl

theorem allows_append : F.Allows (p ++ q) ↔ F.Allows p ∧ (F.acts p).Allows q := by
  induction p generalizing F with
  | nil => simp
  | cons a p ih => simp [ih, and_assoc]

theorem Wired.act (H : F.Wired) (ha : F.Allowed a) : (F.act a).Wired := by
  intro i
  cases a with
  | opens j | starts j | stops j | closes j | destroys j =>
    simp only [Feeds.act, Function.update_apply]
    by_cases hi : i = j
    · subst hi
      simp_all [Allowed]
    · simpa [hi] using H i

theorem Wired.acts (H : F.Wired) (hp : F.Allows p) : (F.acts p).Wired := by
  induction p generalizing F with
  | nil => exact H
  | cons a p ih => exact ih (H.act hp.1) hp.2

/-! ## Parts -/

/-- The feeds that `f` names. -/
def comap (f : κ → ι) (F : Feeds ι) : Feeds κ := ⟨fun k => F.delivering (f k), fun k => F.sink (f k)⟩

theorem comap_act_of_ne {f : κ → ι} {a : Act ι} (h : ∀ k, f k ≠ a.index) :
    (F.act a).comap f = F.comap f := by
  cases a with
  | opens i | starts i | stops i | closes i | destroys i =>
    simp only [comap, act, Feeds.mk.injEq, true_and, and_true]
    funext k
    exact Function.update_of_ne (h k) ..

theorem comap_acts_of_ne {f : κ → ι} {p : List (Act ι)} (h : ∀ a ∈ p, ∀ k, f k ≠ a.index) :
    (F.acts p).comap f = F.comap f := by
  induction p generalizing F with
  | nil => rfl
  | cons a p ih =>
    obtain ⟨ha, hp⟩ := List.forall_mem_cons.mp h
    rw [acts_cons, ih hp, comap_act_of_ne ha]

variable [DecidableEq κ]

theorem comap_act_map {f : κ → ι} (hf : Function.Injective f) (a : Act κ) :
    (F.act (a.map f)).comap f = (F.comap f).act a := by
  cases a with
  | opens k | starts k | stops k | closes k | destroys k =>
    simp only [comap, act, Act.map, Feeds.mk.injEq, true_and, and_true]
    funext j
    simp [Function.update_apply, hf.eq_iff]

/-- A program on a part has the effect that it has on the part alone. -/
theorem comap_acts_map {f : κ → ι} (hf : Function.Injective f) (p : List (Act κ)) :
    (F.acts (p.map (Act.map f))).comap f = (F.comap f).acts p := by
  induction p generalizing F with
  | nil => rfl
  | cons a p ih => rw [List.map_cons, acts_cons, ih, comap_act_map hf, acts_cons]

theorem allows_map {f : κ → ι} (hf : Function.Injective f) {p : List (Act κ)} :
    F.Allows (p.map (Act.map f)) ↔ (F.comap f).Allows p := by
  induction p generalizing F with
  | nil => rfl
  | cons a p ih =>
    rw [List.map_cons, allows_cons, allows_cons, ih, comap_act_map hf]
    cases a <;> rfl

/-! ## Families -/

section
variable {ν α : Type} [DecidableEq ν]

/-- The feeds of member `k`. -/
def part (F : Feeds (ν × κ)) (k : ν) : Feeds κ := F.comap (Prod.mk k)

/-- A program on member `k`. -/
def onPart (k : ν) (p : List (Act κ)) : List (Act (ν × κ)) := p.map (Act.map (Prod.mk k))

/-- One program for each member, one after the other. -/
def family (key : α → ν) (p : α → List (Act κ)) (os : List α) : List (Act (ν × κ)) :=
  os.flatMap fun o => onPart (key o) (p o)

variable {F : Feeds (ν × κ)} {key : α → ν} {p : α → List (Act κ)} {os : List α}

@[simp] theorem part_onPart (k : ν) (q : List (Act κ)) :
    (F.acts (onPart k q)).part k = (F.part k).acts q :=
  comap_acts_map (Prod.mk_right_injective k) q

theorem part_onPart_of_ne (h : k ≠ l) (q : List (Act κ)) :
    (F.acts (onPart l q)).part k = F.part k := by
  refine comap_acts_of_ne (fun a ha j heq => h ?_)
  obtain ⟨b, -, rfl⟩ := List.mem_map.mp ha
  cases b <;> exact congrArg Prod.fst heq

@[simp] theorem allows_onPart {q : List (Act κ)} : F.Allows (onPart k q) ↔ (F.part k).Allows q :=
  allows_map (Prod.mk_right_injective k)

omit [DecidableEq κ] [DecidableEq ν] in
@[simp] theorem family_cons (o : α) (os : List α) :
    family key p (o :: os) = onPart (key o) (p o) ++ family key p os := List.flatMap_cons

/-- Other members are left alone. -/
theorem part_family_of_not_mem (h : ∀ o ∈ os, key o ≠ k) :
    (F.acts (family key p os)).part k = F.part k := by
  induction os generalizing F with
  | nil => rfl
  | cons o os ih =>
    obtain ⟨ho, hos⟩ := List.forall_mem_cons.mp h
    rw [family_cons, acts_append, ih hos, part_onPart_of_ne (Ne.symm ho)]

theorem part_family_of_mem (hnodup : (os.map key).Nodup) (h : o ∈ os) :
    (F.acts (family key p os)).part (key o) = (F.part (key o)).acts (p o) := by
  induction os generalizing F with
  | nil => cases h
  | cons o' os ih =>
    rw [List.map_cons, List.nodup_cons] at hnodup
    rw [family_cons, acts_append]
    rcases List.mem_cons.mp h with rfl | h
    · have hne : ∀ o' ∈ os, key o' ≠ key o := fun o' ho' heq =>
        hnodup.1 (heq ▸ List.mem_map_of_mem ho')
      rw [part_family_of_not_mem hne, part_onPart]
    · have hne : key o ≠ key o' := fun heq => hnodup.1 (heq ▸ List.mem_map_of_mem h)
      rw [ih hnodup.2 h, part_onPart_of_ne hne]

/-- The programs of a family are allowed one by one. -/
theorem allows_family (hnodup : (os.map key).Nodup) :
    F.Allows (family key p os) ↔ ∀ o ∈ os, (F.part (key o)).Allows (p o) := by
  induction os generalizing F with
  | nil => simp [family]
  | cons o os ih =>
    rw [List.map_cons, List.nodup_cons] at hnodup
    rw [family_cons, allows_append, allows_onPart, ih hnodup.2, List.forall_mem_cons]
    refine and_congr_right fun _ => forall₂_congr fun o' ho' => ?_
    have hne : key o' ≠ key o := fun heq => hnodup.1 (heq ▸ List.mem_map_of_mem ho')
    rw [part_onPart_of_ne hne]

end

end Feeds

/-! ## Owners -/

/-- What an owner does for a call, and its state afterwards; `none` where it takes no such call. -/
structure FeedOwner (ι κ ℓ : Type) where
  call : κ → ℓ → Option (List (Act ι) × κ)

namespace FeedOwner

variable {ι κ ℓ : Type} [DecidableEq ι]

structure State (ι κ : Type) where
  owner : κ
  todo : List (Act ι) := []
  feeds : Feeds ι

/-- A call begins, its program goes on by one act, or a feed delivers. -/
inductive Label (ι ℓ : Type) where
  | call (l : ℓ)
  | act
  | deliver (i : ι)

/-- A sink is about to be closed or destroyed, with whether its feed still delivers; or it is delivered
to, as it is then. -/
inductive Event (ι : Type) where
  | ends (i : ι) (delivering : Bool)
  | delivered (i : ι) (sink : Feeds.Sink)

def ends (F : Feeds ι) : Act ι → List (Event ι)
  | .closes i | .destroys i => [.ends i (F.delivering i)]
  | .opens _ | .starts _ | .stops _ => []

def machine (O : FeedOwner ι κ ℓ) : Machine (State ι κ) (Label ι ℓ) (Event ι) where
  step s l :=
    match l, s.todo with
    | .call l, [] => (O.call s.owner l).map fun (p, k) => ({ s with owner := k, todo := p }, [])
    | .call _, _ :: _ => none
    | .act, [] => none
    | .act, a :: p => some ({ s with todo := p, feeds := s.feeds.act a }, ends s.feeds a)
    | .deliver i, _ =>
      if s.feeds.delivering i then some (s, [.delivered i (s.feeds.sink i)]) else none

/-- A feed has stopped before its sink ends, and what is delivered to is open. -/
def Event.Ordered : Event ι → Prop
  | .ends _ delivering => delivering = false
  | .delivered _ sink => sink = .opened

def Ordered (es : List (Event ι)) : Prop := ∀ e ∈ es, e.Ordered

inductive Step (O : FeedOwner ι κ ℓ) (s : State ι κ) :
    Label ι ℓ → State ι κ → List (Event ι) → Prop where
  | call : s.todo = [] → O.call s.owner l = some (p, k) →
    Step O s (.call l) { s with owner := k, todo := p } []
  | act : s.todo = a :: p →
    Step O s .act { s with todo := p, feeds := s.feeds.act a } (ends s.feeds a)
  | deliver : s.feeds.delivering i = true →
    Step O s (.deliver i) s [.delivered i (s.feeds.sink i)]

variable {O : FeedOwner ι κ ℓ}

theorem Step.of_step (h : O.machine.step s l = some (s', e)) : Step O s l s' e := by
  cases l with
  | call l =>
    cases htodo : s.todo with
    | nil =>
      simp only [machine, htodo, Option.map_eq_some_iff] at h
      obtain ⟨⟨p, k⟩, hcall, heq⟩ := h
      cases heq
      exact .call htodo hcall
    | cons a p => simp [machine, htodo] at h
  | act =>
    cases htodo : s.todo with
    | nil => simp [machine, htodo] at h
    | cons a p =>
      simp only [machine, htodo] at h
      cases h
      exact .act htodo
  | deliver i =>
    have hdeliver : s.feeds.delivering i = true ∧ (s, [.delivered i (s.feeds.sink i)]) = (s', e) := by
      cases htodo : s.todo <;> simpa [machine, htodo] using h
    obtain ⟨hi, heq⟩ := hdeliver
    cases heq
    exact .deliver hi

omit [DecidableEq ι] in
theorem ordered_append {es es' : List (Event ι)} : Ordered (es ++ es') ↔ Ordered es ∧ Ordered es' :=
  List.forall_mem_append

theorem ordered_ends (h : F.Allowed a) : Ordered (ends F a) := by
  cases a with
  | closes i | destroys i => simpa [Ordered, ends, Event.Ordered, Feeds.Allowed] using h
  | opens i | starts i | stops i => simp [Ordered, ends]

/-- What is delivered to is open, and the rest of the current program is allowed. -/
structure Good (s : State ι κ) : Prop where
  wired : s.feeds.Wired
  allows : s.feeds.Allows s.todo

theorem Good.next (H : Good s) (h : Step O s l s' e)
    (hcall : ∀ c p k, l = .call c → s.todo = [] → O.call s.owner c = some (p, k) → s.feeds.Allows p) :
    Good s' ∧ Ordered e := by
  cases h with
  | call htodo hc => exact ⟨⟨H.wired, hcall _ _ _ rfl htodo hc⟩, by simp [Ordered]⟩
  | act htodo =>
    obtain ⟨ha, hp⟩ := Feeds.allows_cons.mp (htodo ▸ H.allows)
    exact ⟨⟨H.wired.act ha, hp⟩, ordered_ends ha⟩
  | deliver hi => exact ⟨H, by simpa [Ordered, Event.Ordered] using H.wired _ hi⟩

/-- Where the rest of the current program is not allowed, going on with it ends a sink too early, or starts
a feed that then delivers to a sink that is not open. -/
theorem disordered (h : ¬ s.feeds.Allows s.todo) :
    ∃ next s' e, O.machine.run s next = some (s', e) ∧ ¬ Ordered e := by
  obtain ⟨k, todo, F⟩ := s
  induction todo generalizing F with
  | nil => exact absurd trivial h
  | cons a p ih =>
    have hact : O.machine.step ⟨k, a :: p, F⟩ .act = some (⟨k, p, F.act a⟩, ends F a) := rfl
    by_cases ha : F.Allowed a
    · obtain ⟨next, s', e, hrun, hordered⟩ := ih (F.act a) fun hp => h ⟨ha, hp⟩
      refine ⟨.act :: next, s', _, Machine.run_cons.mpr ⟨_, _, e, hact, hrun, rfl⟩, fun H => ?_⟩
      exact hordered (ordered_append.mp H).2
    · cases a with
      | opens i | stops i => exact absurd trivial ha
      | closes i | destroys i =>
        refine ⟨[.act], _, _, Machine.run_singleton.trans hact, fun H => ha ?_⟩
        exact H (.ends i (F.delivering i)) List.mem_cons_self
      | starts i =>
        have hdeliver : O.machine.step ⟨k, p, F.act (.starts i)⟩ (.deliver i) =
            some (⟨k, p, F.act (.starts i)⟩, [.delivered i (F.sink i)]) := by
          cases p <;> simp [machine, Feeds.act]
        refine ⟨[.act, .deliver i], _, _, Machine.run_cons.mpr ⟨_, _, _, hact,
          Machine.run_singleton.trans hdeliver, rfl⟩, fun H => ha ?_⟩
        exact H (.delivered i (F.sink i)) (by simp)

/-! ## From calls to runs -/

/-- A condition on the calls of a run. -/
def Meets (φ : κ → ℓ → Prop) (_ : List (Event ι)) (s : State ι κ) (l : Label ι ℓ) : Prop :=
  ∀ c, l = .call c → φ s.owner c

/-- From an owner that has done nothing: where every call meets the condition, sinks end after their feeds
and are open when delivered to, and after each call that does not meet it, this can fail. -/
def ExactlyIf (O : FeedOwner ι κ ℓ) (k₀ : κ) (φ : κ → ℓ → Prop) : Prop :=
  ∀ ls s es, O.machine.run ⟨k₀, [], .idle⟩ ls = some (s, es) →
    (O.machine.Along (Meets φ) ⟨k₀, [], .idle⟩ ls →
        O.machine.Throughout (fun es _ => Ordered es) ⟨k₀, [], .idle⟩ ls) ∧
      ∀ pre c post, ls = pre ++ .call c :: post → ∀ s es,
        O.machine.run ⟨k₀, [], .idle⟩ pre = some (s, es) → ¬ φ s.owner c → ∃ next s' es',
          O.machine.run ⟨k₀, [], .idle⟩ (pre ++ .call c :: next) = some (s', es') ∧
            ¬ Ordered es'

section
variable {J : κ → Feeds ι → Prop} {φ : κ → ℓ → Prop}

/-- What every call leaves behind holds when a run's last call is done. -/
theorem settled_of_run (h₀ : J k₀ F₀)
    (next : ∀ {k F c p k'}, J k F → O.call k c = some (p, k') → J k' (F.acts p))
    (h : O.machine.run ⟨k₀, [], F₀⟩ ls = some (s, es)) : J s.owner (s.feeds.acts s.todo) := by
  refine Machine.invariant (P := fun _ s => J s.owner (s.feeds.acts s.todo)) h₀ ?_ h
  intro es s l s' e H hstep
  cases Step.of_step hstep with
  | call htodo hc =>
    rw [htodo] at H
    exact next H hc
  | act htodo =>
    rw [htodo] at H
    exact H
  | deliver _ => exact H

theorem good_of_along (h₀ : J k₀ F₀) (hwired : F₀.Wired)
    (next : ∀ {k F c p k'}, J k F → O.call k c = some (p, k') → J k' (F.acts p))
    (allows : ∀ {k F c p k'}, J k F → O.call k c = some (p, k') → φ k c → F.Allows p)
    (h : O.machine.run ⟨k₀, [], F₀⟩ ls = some (s, es))
    (H : O.machine.Along (Meets φ) ⟨k₀, [], F₀⟩ ls) : Good s ∧ Ordered es := by
  refine Machine.run_induction (P := fun ls es s => O.machine.Along (Meets φ) ⟨k₀, [], F₀⟩ ls →
    Good s ∧ Ordered es) ?nil ?snoc h H
  case nil => exact fun _ => ⟨⟨hwired, trivial⟩, by simp [Ordered]⟩
  case snoc =>
    intro ls es s l s' e hrun ih hstep H
    obtain ⟨hgood, hes⟩ := ih H.of_append
    have hsettled := settled_of_run h₀ next hrun
    obtain ⟨hgood', he⟩ := hgood.next (Step.of_step hstep) (by
      rintro c p k rfl htodo hc
      rw [htodo, Feeds.acts_nil] at hsettled
      exact allows hsettled hc (H.last hrun c rfl))
    exact ⟨hgood', ordered_append.mpr ⟨hes, he⟩⟩

/-- Where `J` holds between calls and decides which programs are allowed, it decides which runs are in
order. -/
theorem exactlyIf (h₀ : J k₀ .idle)
    (call : ∀ {k F c p k'}, J k F → O.call k c = some (p, k') →
      (F.Allows p ↔ φ k c) ∧ J k' (F.acts p)) : O.ExactlyIf k₀ φ := by
  have next : ∀ {k F c p k'}, J k F → O.call k c = some (p, k') → J k' (F.acts p) :=
    fun hJ hc => (call hJ hc).2
  intro ls s es h
  constructor
  · rintro H pre post rfl s es hrun
    exact (good_of_along h₀ Feeds.wired_idle next (fun hJ hc => (call hJ hc).1.mpr) hrun
      H.of_append).2
  · rintro pre c post rfl s es hrun hφ
    obtain ⟨s₁, e₁, e₂, hpre, hrest, rfl⟩ := Machine.run_append.mp h
    rw [hrun] at hpre
    cases hpre
    obtain ⟨s₂, e, e₃, hstep, -, rfl⟩ := Machine.run_cons.mp hrest
    have hsettled := settled_of_run h₀ next hrun
    cases hs : Step.of_step hstep with
    | call htodo hc =>
      rename_i p k
      rw [htodo, Feeds.acts_nil] at hsettled
      have hp : ¬ s.feeds.Allows p := fun hp => hφ ((call hsettled hc).1.mp hp)
      obtain ⟨next, s', e', hnext, hordered⟩ := disordered (O := O) (s := ⟨k, p, s.feeds⟩) hp
      refine ⟨next, s', es ++ ([] ++ e'), Machine.run_append.mpr ⟨s, es, _, hrun,
        Machine.run_cons.mpr ⟨_, _, e', hstep, hnext, rfl⟩, rfl⟩, fun H => ?_⟩
      exact hordered (ordered_append.mp H).2

end

end FeedOwner
