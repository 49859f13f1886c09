import KistCollector.Lib.Machine

/-!
# Signals and the label prompt

`main` leaves its loop on SIGINT or SIGTERM, stops the collector, and asks for a label if the last signal
stored was SIGINT. A handler makes two stores and may run at any point of `main`, on whichever thread takes
the signal, and both signals may come any number of times. The prompt replaces the handler of SIGINT by one
that does not restart a blocked `read`; the one of SIGTERM still restarts it. `keyboard_iff` says which
runs can leave a terminated collector waiting for a key.
-/

namespace Kist
namespace LabelPrompt

inductive Signal where
  | sigint
  | sigterm
  deriving DecidableEq

/-- Where `main` and `prompt_result` stand: before the call or the test of that name. `blocked` is a `read`
that found no key. -/
inductive Pc where
  | loop
  | sleep
  | collectorStop
  | testSignal
  | isatty
  | sigaction
  | tcgetattr
  | tcsetattr
  | printf
  | read
  | blocked
  | restore
  | writeResult
  | exit
  deriving DecidableEq

/-- A handler in progress. It stores its signal and then `g_stop`. -/
structure Handler where
  signal : Signal
  signalStored : Bool := false
  deriving DecidableEq

/-- `stop` and `stopSignal` are the globals; `replaced` says that SIGINT has the empty handler. -/
structure State where
  pc : Pc := .loop
  stop : Bool := false
  stopSignal : Option Signal := none
  replaced : Bool := false
  handlers : List Handler := []
  result : List Char := []
  deriving DecidableEq

/-- What a `read` of one byte from the terminal gives. -/
inductive Answer where
  | nothing
  | failed
  | key (c : Char)
  deriving DecidableEq

/-- A step of `main`, for `tcgetattr` and `read` with what the terminal answers, the delivery of a signal,
or the next store of a handler in progress. -/
inductive Move where
  | main
  | tcgetattr (ok : Bool)
  | read (answer : Answer)
  | deliver (signal : Signal)
  | store (i : Nat)
  deriving DecidableEq

inductive Event where
  | delivered (signal : Signal)
  deriving DecidableEq

/-- `main` up to its next call or test; `tty` is whether standard input is a terminal. -/
def advance (tty : Bool) (s : State) : Option State :=
  match s.pc with
  | .loop => some { s with pc := if s.stop then .collectorStop else .sleep }
  | .sleep => some { s with pc := .loop }
  | .collectorStop => some { s with pc := .testSignal }
  | .testSignal => some { s with pc := if s.stopSignal = some .sigint then .isatty else .exit }
  | .isatty => some { s with pc := if tty then .sigaction else .writeResult }
  | .sigaction => some { s with pc := .tcgetattr, replaced := true }
  | .tcsetattr => some { s with pc := .printf }
  | .printf => some { s with pc := .read }
  | .restore => some { s with pc := .writeResult }
  | .writeResult => some { s with pc := .exit }
  | .tcgetattr | .read | .blocked | .exit => none

/-- The loop around `read`. -/
def answered (s : State) : Answer → State
  | .nothing => { s with pc := .blocked }
  | .failed => { s with pc := .restore }
  | .key c =>
    if c = 's' ∨ c = 'S' then { s with pc := .restore, result := "success".toList }
    else if c = 'f' ∨ c = 'F' then { s with pc := .restore, result := "fail".toList }
    else { s with pc := .read }

/-- The handlers of `main` restart a `read`; the empty one that replaces that of SIGINT fails it. -/
def deliver (s : State) : Signal → State
  | .sigint =>
    if s.replaced then { s with pc := if s.pc = .blocked then .restore else s.pc }
    else { s with handlers := s.handlers ++ [{ signal := .sigint }] }
  | .sigterm => { s with handlers := s.handlers ++ [{ signal := .sigterm }] }

/-- One store of a handler. -/
def store (s : State) (i : Nat) : Option State :=
  s.handlers[i]?.map fun h =>
    if h.signalStored then { s with stop := true, handlers := s.handlers.eraseIdx i }
    else
      { s with
        stopSignal := some h.signal
        handlers := s.handlers.set i { h with signalStored := true } }

/-- The collector from the installation of the handlers on. -/
def machine (tty : Bool) : Machine State Move Event where
  step s l :=
    match l with
    | .main => (advance tty s).map fun s => (s, [])
    | .tcgetattr ok =>
      if s.pc = .tcgetattr then some ({ s with pc := if ok then .tcsetattr else .writeResult }, [])
      else none
    | .read answer =>
      if s.pc = .read ∨ s.pc = .blocked ∧ answer ≠ .nothing then some (answered s answer, []) else none
    | .deliver signal => some (deliver s signal, [.delivered signal])
    | .store i => (store s i).map fun s => (s, [])

/-- No delivered SIGTERM finds the collector at the keyboard. -/
def NotAtKeyboard (es : List Event) (s : State) : Prop :=
  .delivered .sigterm ∈ es → s.pc ≠ .blocked

/-- From the decision for the prompt to the end of its `read`. -/
def Pc.Prompting : Pc → Prop
  | .isatty | .sigaction | .tcgetattr | .tcsetattr | .printf | .read | .blocked => True
  | _ => False

/-- On a terminal, no SIGTERM is delivered before the prompt is decided for, and none from then to the
end of its `read`. -/
def Spared (tty : Bool) (es : List Event) (s : State) (l : Move) : Prop :=
  tty = true →
    (l = .main → s.pc = .testSignal → s.stopSignal = some .sigint → .delivered .sigterm ∉ es) ∧
      (l = .deliver .sigterm → ¬ s.pc.Prompting)

/-- Only a terminal is read, and where there is one and the prompt is decided for, no SIGTERM has been
delivered. -/
structure Inv (tty : Bool) (es : List Event) (pc : Pc) : Prop where
  terminal : pc.Prompting → pc ≠ .isatty → tty = true
  spared : tty = true → pc.Prompting → .delivered .sigterm ∉ es

theorem Inv.notAtKeyboard (H : Inv tty es s.pc) : NotAtKeyboard es s := by
  intro hterm hblocked
  rw [hblocked] at H
  exact H.spared (H.terminal trivial nofun) trivial hterm

/-! ## One step -/

/-- Where a step takes `main`, and what is delivered. -/
inductive Goes (tty : Bool) (s : State) : Move → Pc → List Event → Prop where
  | delivers signal : Goes tty s (.deliver signal) s.pc [.delivered signal]
  | interrupts : s.pc = .blocked → Goes tty s (.deliver .sigint) .restore [.delivered .sigint]
  | stores i : Goes tty s (.store i) s.pc []
  | decides : s.pc = .testSignal → s.stopSignal = some .sigint → Goes tty s .main .isatty []
  | asks : s.pc = .isatty → tty = true → Goes tty s .main .sigaction []
  | stays : s.pc.Prompting → s.pc ≠ .isatty → Goes tty s l pc []
  | leaves : ¬ pc.Prompting → Goes tty s l pc []

theorem goes_advance (h : advance tty s = some s') : Goes tty s .main s'.pc [] := by
  unfold advance at h
  cases hpc : s.pc <;> rw [hpc] at h <;> cases h
  case testSignal =>
    dsimp only
    split
    · rename_i hsignal
      exact .decides hpc hsignal
    · exact .leaves nofun
  case isatty =>
    cases tty with
    | true => exact .asks hpc rfl
    | false => exact .leaves nofun
  case loop =>
    dsimp only
    split <;> exact .leaves nofun
  case sigaction | tcsetattr | printf => exact .stays (by rw [hpc]; trivial) (by rw [hpc]; nofun)
  all_goals exact .leaves nofun

theorem goes_of_step (h : (machine tty).step s l = some (s', e)) : Goes tty s l s'.pc e := by
  cases l with
  | main =>
    obtain ⟨s₁, hs, heq⟩ := Option.map_eq_some_iff.mp h
    cases heq
    exact goes_advance hs
  | tcgetattr ok =>
    obtain ⟨hpc, heq⟩ := (Option.ite_none_right_eq_some).mp h
    cases heq
    exact .stays (by rw [hpc]; trivial) (by rw [hpc]; nofun)
  | read answer =>
    obtain ⟨hpc, heq⟩ := (Option.ite_none_right_eq_some).mp h
    cases heq
    rcases hpc with hpc | ⟨hpc, -⟩ <;> exact .stays (by rw [hpc]; trivial) (by rw [hpc]; nofun)
  | deliver signal =>
    cases h
    unfold deliver
    cases signal with
    | sigterm => exact .delivers _
    | sigint =>
      dsimp only
      split
      · dsimp only
        split
        · rename_i hpc
          exact .interrupts hpc
        · exact .delivers _
      · exact .delivers _
  | store i =>
    obtain ⟨s₁, hs, heq⟩ := Option.map_eq_some_iff.mp h
    cases heq
    obtain ⟨h, -, rfl⟩ := Option.map_eq_some_iff.mp hs
    split <;> exact .stores i

theorem Inv.next (H : Inv tty es s.pc) (hspared : Spared tty es s l) (h : Goes tty s l pc e) :
    Inv tty (es ++ e) pc := by
  cases h with
  | delivers signal =>
    refine ⟨H.terminal, fun htty hpc hmem => ?_⟩
    rcases List.mem_append.mp hmem with hmem | hmem
    · exact H.spared htty hpc hmem
    · cases List.mem_singleton.mp hmem
      exact (hspared htty).2 rfl hpc
  | interrupts => exact ⟨nofun, nofun⟩
  | stores i =>
    rw [List.append_nil]
    exact H
  | decides hpc hsignal =>
    rw [List.append_nil]
    exact ⟨fun _ hne => absurd rfl hne, fun htty _ => (hspared htty).1 rfl hpc hsignal⟩
  | asks hpc htty =>
    rw [List.append_nil]
    exact ⟨fun _ _ => htty, fun htty _ => H.spared htty (by rw [hpc]; trivial)⟩
  | stays hpc hne =>
    rw [List.append_nil]
    exact ⟨fun _ _ => H.terminal hpc hne, fun htty _ => H.spared htty hpc⟩
  | leaves hpc => exact ⟨fun h => absurd h hpc, fun _ h => absurd h hpc⟩

/-! ## Runs -/

/-- What is left of the prompt up to a `read` that finds no key. -/
def toRead : Pc → List Move
  | .isatty => [.main, .main, .tcgetattr true, .main, .main, .read .nothing]
  | .sigaction => [.main, .tcgetattr true, .main, .main, .read .nothing]
  | .tcgetattr => [.tcgetattr true, .main, .main, .read .nothing]
  | .tcsetattr => [.main, .main, .read .nothing]
  | .printf => [.main, .read .nothing]
  | .read => [.read .nothing]
  | _ => []

/-- On a terminal, a prompt that gets no signal and no key ends at the keyboard. -/
theorem run_toRead {s : State} (hpc : s.pc.Prompting) :
    ∃ s', (machine true).run s (toRead s.pc) = some (s', []) ∧ s'.pc = .blocked := by
  obtain ⟨pc, stop, stopSignal, replaced, handlers, result⟩ := s
  cases pc with
  | isatty | sigaction | tcgetattr | tcsetattr | printf | read | blocked => exact ⟨_, rfl, rfl⟩
  | _ => cases hpc

theorem toRead_delivers (hpc : s.pc.Prompting) (hmem : .delivered .sigterm ∈ es) :
    ∃ ls s' e, (machine true).run s ls = some (s', e) ∧ ¬ NotAtKeyboard (es ++ e) s' := by
  obtain ⟨s', hrun, hblocked⟩ := run_toRead hpc
  refine ⟨_, s', [], hrun, fun H => H ?_ hblocked⟩
  exact List.mem_append_left _ hmem

/-- After a step that does not spare SIGTERM, the collector can end at the keyboard. -/
theorem keyboard_of_not_spared (h : (machine tty).step s l = some (s', e))
    (hspared : ¬ Spared tty es s l) : ∃ ls s'' e', (machine tty).run s' ls = some (s'', e') ∧
      ¬ NotAtKeyboard (es ++ e ++ e') s'' := by
  obtain ⟨rfl, hwhy⟩ := Classical.not_imp.mp hspared
  rcases Classical.not_and_iff_not_or_not.mp hwhy with hdecides | hdelivers
  · -- `main` decides for the prompt
    simp only [Classical.not_imp, not_not] at hdecides
    obtain ⟨rfl, hpc, hsignal, hmem⟩ := hdecides
    have hadvance : advance true s = some { s with pc := .isatty } := by
      unfold advance
      simp [hpc, hsignal]
    obtain ⟨s₁, hs, heq⟩ := Option.map_eq_some_iff.mp h
    rw [hadvance] at hs
    cases hs
    cases heq
    exact toRead_delivers trivial (List.mem_append_left _ hmem)
  · -- SIGTERM is delivered to a prompt, which goes on
    obtain ⟨rfl, hpc⟩ := Classical.not_imp.mp hdelivers
    cases h
    exact toRead_delivers (not_not.mp hpc) (List.mem_append_right _ List.mem_cons_self)

theorem Inv.of_along (h : (machine tty).run {} ls = some (s, es))
    (H : (machine tty).Along (Spared tty) {} ls) : Inv tty es s.pc := by
  refine Machine.run_induction (P := fun ls es s => (machine tty).Along (Spared tty) {} ls →
    Inv tty es s.pc) ?nil ?snoc h H
  case nil => exact fun _ => ⟨nofun, nofun⟩
  case snoc =>
    intro ls es s l s' e hrun ih hstep H
    exact (ih H.of_append).next (H.last hrun) (goes_of_step hstep)

/-- Where every step spares SIGTERM, the collector is never at the keyboard after one was delivered. After
each step that does not, it can be. -/
theorem keyboard_iff (h : (machine tty).run {} ls = some (s, es)) :
    ((machine tty).Along (Spared tty) {} ls → (machine tty).Throughout NotAtKeyboard {} ls) ∧
      ∀ pre l post, ls = pre ++ l :: post → ∀ s es, (machine tty).run {} pre = some (s, es) →
        ¬ Spared tty es s l → ∃ next s' es',
          (machine tty).run {} (pre ++ l :: next) = some (s', es') ∧ ¬ NotAtKeyboard es' s' := by
  constructor
  · rintro H pre post rfl s es hrun
    exact (Inv.of_along hrun H.of_append).notAtKeyboard
  · rintro pre l post rfl s es hrun hspared
    obtain ⟨s₁, e₁, e₂, hpre, hrest, rfl⟩ := Machine.run_append.mp h
    rw [hrun] at hpre
    cases hpre
    obtain ⟨s₂, e, e₃, hstep, -, rfl⟩ := Machine.run_cons.mp hrest
    obtain ⟨next, s', e', hnext, hkeyboard⟩ := keyboard_of_not_spared hstep hspared
    refine ⟨next, s', es ++ (e ++ e'), Machine.run_append.mpr ⟨s, es, e ++ e', hrun, ?_, rfl⟩, ?_⟩
    · exact Machine.run_cons.mpr ⟨s₂, e, e', hstep, hnext, rfl⟩
    · rwa [← List.append_assoc]

/-- SIGINT stops the collector, and SIGTERM comes while it asks for the label. -/
def terminatedAtPrompt : List Move :=
  [.deliver .sigint, .store 0, .store 0, .main, .main, .main, .main, .main, .tcgetattr true, .main, .main,
    .read .nothing, .deliver .sigterm, .store 0, .store 0]

theorem run_terminatedAtPrompt : (machine true).run {} terminatedAtPrompt =
    some ({ pc := .blocked, stop := true, stopSignal := some .sigterm, replaced := true },
      [.delivered .sigint, .delivered .sigterm]) := rfl

theorem keyboard_iff_terminated :
    ((machine true).Along (Spared true) {} terminatedAtPrompt →
        (machine true).Throughout NotAtKeyboard {} terminatedAtPrompt) ∧
      ∀ pre l post, terminatedAtPrompt = pre ++ l :: post → ∀ s es,
        (machine true).run {} pre = some (s, es) → ¬ Spared true es s l → ∃ next s' es',
          (machine true).run {} (pre ++ l :: next) = some (s', es') ∧ ¬ NotAtKeyboard es' s' :=
  keyboard_iff run_terminatedAtPrompt

/-- A SIGTERM at the prompt does not end it. -/
theorem keyboard_reached : ¬ ∀ tty ls s es, (machine tty).run {} ls = some (s, es) →
    (machine tty).Throughout NotAtKeyboard {} ls := by
  intro h
  exact (h true _ _ _ run_terminatedAtPrompt).last run_terminatedAtPrompt (by simp) rfl

/-! ## What signals bring about -/

/-- The loop has been left. -/
def Pc.left : Pc → Bool
  | .loop | .sleep => false
  | _ => true

/-- From the decision for the prompt to the end of `write_result`. -/
def Pc.labels : Pc → Bool
  | .loop | .sleep | .collectorStop | .testSignal | .exit => false
  | _ => true

/-- The terminal is at hand. -/
def Pc.reads : Pc → Bool
  | .sigaction | .tcgetattr | .tcsetattr | .printf | .read | .blocked | .restore => true
  | _ => false

/-- Handlers store what was delivered, the loop is left for a signal and a label is asked for SIGINT; only
a terminal gives one. -/
structure Caused (tty : Bool) (es : List Event) (s : State) : Prop where
  handlers : ∀ h ∈ s.handlers, .delivered h.signal ∈ es
  stopSignal : ∀ signal, s.stopSignal = some signal → .delivered signal ∈ es
  stop : s.stop = true → ∃ signal, .delivered signal ∈ es
  left : s.pc.left = true → ∃ signal, .delivered signal ∈ es
  labels : s.pc.labels = true → .delivered .sigint ∈ es
  reads : s.pc.reads = true → tty = true
  result : s.result ∈ ["success".toList, "fail".toList, []]
  typed : s.result ≠ [] → tty = true

theorem Caused.more (h : Caused tty es s) (e : List Event) : Caused tty (es ++ e) s where
  handlers handler hmem := List.mem_append_left e (h.handlers handler hmem)
  stopSignal signal hsignal := List.mem_append_left e (h.stopSignal signal hsignal)
  stop hstop := (h.stop hstop).imp fun _ => List.mem_append_left e
  left hleft := (h.left hleft).imp fun _ => List.mem_append_left e
  labels hlabels := List.mem_append_left e (h.labels hlabels)
  reads := h.reads
  result := h.result
  typed := h.typed

/-- A step that only moves `main`. -/
theorem Caused.move (h : Caused tty es s) (replaced : Bool)
    (hleft : pc.left = true → ∃ signal, .delivered signal ∈ es)
    (hlabels : pc.labels = true → .delivered .sigint ∈ es) (hreads : pc.reads = true → tty = true) :
    Caused tty es { s with pc := pc, replaced := replaced } where
  handlers := h.handlers
  stopSignal := h.stopSignal
  stop := h.stop
  left := hleft
  labels := hlabels
  reads := hreads
  result := h.result
  typed := h.typed

theorem Caused.advance (h : Caused tty es s) (hs : advance tty s = some s') : Caused tty es s' := by
  have hleft := h.left
  have hlabels := h.labels
  have hreads := h.reads
  unfold LabelPrompt.advance at hs
  cases hpc : s.pc <;> rw [hpc] at hs hleft hlabels hreads <;> cases hs
  case loop =>
    by_cases hstop : s.stop = true
    · rw [if_pos hstop]
      exact h.move _ (fun _ => h.stop hstop) nofun nofun
    · rw [if_neg hstop]
      exact h.move _ nofun nofun nofun
  case testSignal =>
    by_cases hsignal : s.stopSignal = some .sigint
    · rw [if_pos hsignal]
      exact h.move _ (fun _ => hleft rfl) (fun _ => h.stopSignal _ hsignal) nofun
    · rw [if_neg hsignal]
      exact h.move _ (fun _ => hleft rfl) nofun nofun
  case isatty =>
    cases tty with
    | true => exact h.move _ (fun _ => hleft rfl) (fun _ => hlabels rfl) fun _ => rfl
    | false => exact h.move _ (fun _ => hleft rfl) (fun _ => hlabels rfl) nofun
  case sleep => exact h.move _ nofun nofun nofun
  case collectorStop | writeResult => exact h.move _ (fun _ => hleft rfl) nofun nofun
  case restore => exact h.move _ (fun _ => hleft rfl) (fun _ => hlabels rfl) nofun
  case sigaction | tcsetattr | printf =>
    exact h.move _ (fun _ => hleft rfl) (fun _ => hlabels rfl) fun _ => hreads rfl

theorem Caused.answered (h : Caused tty es s) (hpc : s.pc = .read ∨ s.pc = .blocked) (answer : Answer) :
    Caused tty es (answered s answer) := by
  have hleft : ∃ signal, .delivered signal ∈ es := h.left (by rcases hpc with hpc | hpc <;> rw [hpc] <;> rfl)
  have hlabels : .delivered .sigint ∈ es := h.labels (by rcases hpc with hpc | hpc <;> rw [hpc] <;> rfl)
  have htty : tty = true := h.reads (by rcases hpc with hpc | hpc <;> rw [hpc] <;> rfl)
  have hmove (pc : Pc) : Caused tty es { s with pc := pc } :=
    h.move s.replaced (fun _ => hleft) (fun _ => hlabels) fun _ => htty
  cases answer with
  | nothing => exact hmove .blocked
  | failed => exact hmove .restore
  | key c =>
    have hkey (result : List Char) (hresult : result ∈ ["success".toList, "fail".toList, []]) :
        Caused tty es { s with pc := .restore, result := result } :=
      { hmove .restore with
        result := hresult
        typed := fun _ => htty }
    simp only [LabelPrompt.answered]
    split_ifs
    · exact hkey _ (by simp)
    · exact hkey _ (by simp)
    · exact hmove .read

theorem Caused.deliver (h : Caused tty es s) (signal : Signal) :
    Caused tty (es ++ [.delivered signal]) (deliver s signal) := by
  have hmem : .delivered signal ∈ es ++ [.delivered signal] := List.mem_append_right es (.head _)
  have hhandler : Caused tty (es ++ [.delivered signal])
      { s with handlers := s.handlers ++ [{ signal := signal }] } :=
    { h.more [.delivered signal] with
      handlers := fun handler hh => by
        rcases List.mem_append.mp hh with hh | hh
        · exact List.mem_append_left _ (h.handlers handler hh)
        · rw [List.mem_singleton.mp hh]
          exact hmem }
  cases signal with
  | sigterm => exact hhandler
  | sigint =>
    simp only [LabelPrompt.deliver]
    split_ifs with _ hpc
    · have hblocked := (h.more [.delivered .sigint]).reads
      rw [hpc] at hblocked
      exact (h.more _).move _ (fun _ => ⟨_, hmem⟩) (fun _ => hmem) fun _ => hblocked rfl
    · exact h.more _
    · exact hhandler

theorem Caused.store (h : Caused tty es s) (hs : store s i = some s') : Caused tty es s' := by
  obtain ⟨handler, hget, rfl⟩ := Option.map_eq_some_iff.mp hs
  have hsignal := h.handlers handler (List.mem_of_getElem? hget)
  split
  · exact
      { h with
        handlers := fun handler' hh => h.handlers handler' (List.mem_of_mem_eraseIdx hh)
        stop := fun _ => ⟨_, hsignal⟩ }
  · exact
      { h with
        handlers := fun handler' hh => by
          rcases List.mem_or_eq_of_mem_set hh with hh | rfl
          · exact h.handlers handler' hh
          · exact hsignal
        stopSignal := fun signal heq => by
          cases heq
          exact hsignal }

theorem Caused.step (h : Caused tty es s) (hs : (machine tty).step s l = some (s', e)) :
    Caused tty (es ++ e) s' := by
  cases l with
  | main =>
    obtain ⟨s₁, hadvance, heq⟩ := Option.map_eq_some_iff.mp hs
    cases heq
    exact (h.advance hadvance).more []
  | tcgetattr ok =>
    obtain ⟨hpc, heq⟩ := Option.ite_none_right_eq_some.mp hs
    cases heq
    have hleft := h.left
    have hlabels := h.labels
    have hreads := h.reads
    rw [hpc] at hleft hlabels hreads
    exact (h.move s.replaced (fun _ => hleft rfl) (fun _ => hlabels rfl) fun _ => hreads rfl).more []
  | read answer =>
    obtain ⟨hpc, heq⟩ := Option.ite_none_right_eq_some.mp hs
    cases heq
    exact (h.answered (hpc.imp_right And.left) answer).more []
  | deliver signal =>
    cases hs
    exact h.deliver signal
  | store i =>
    obtain ⟨s₁, hstore, heq⟩ := Option.map_eq_some_iff.mp hs
    cases heq
    exact (h.store hstore).more []

theorem Caused.of_run (h : (machine tty).run {} ls = some (s, es)) : Caused tty es s :=
  Machine.invariant (P := Caused tty)
    ⟨by simp, by simp, by simp, by simp [Pc.left], by simp [Pc.labels], by simp [Pc.reads], by simp,
      fun h => absurd rfl h⟩
    (fun hc hs => hc.step hs) h

end LabelPrompt
end Kist
