import Wldroid.Foundation.Ledger

/-!
# Setting the compositor up, and tearing it down

Everything `compositor_server_create` acquires, under any outcome of the calls it makes, and what
its error exits and `compositor_server_destroy` release.  A ledger of descriptors, event sources,
the receiver's thread, linked listeners and library objects tells whether each is released once.

* **`compositorServerCreate`**, **`compositorServerDestroy`** — the two functions, with the init and
  destroy functions of the input and text-input handlers and of the buffer receiver;
* `settle_inputHandlerInit`, `settle_textInputHandlerInit` — an init leaves what its fields claim,
  or nothing when it fails; `claims_inputHandlerInit_failed`: but the input handler's fields still
  claim something then;
* **`tornDown_iff_releasesAll`** — exactly which outcomes are torn down.
-/

namespace Wldroid.Compositor

open Wldroid.Foundation

/-! ### Resources -/

/-- The event sources of the compositor. -/
inductive EventSource where
  | resize
  | pauseResume
  | input
  | textInput
  | frameTimer
  deriving DecidableEq

/-- The listeners the compositor links into signals, or initialises. -/
inductive ServerListener where
  | newOutput
  | clientCreated
  | newXdgToplevel
  | newXdgPopup
  | newXwaylandSurface
  | outputFrame
  | outputRequestState
  | focusedSurfaceDestroy
  deriving DecidableEq

/-- What is acquired and released.  A listener is acquired when it is linked or initialised, and
released when it is removed from its list. -/
inductive ServerResource where
  | display
  | backend
  | renderer
  | allocator
  | xwayland
  | receiverThread
  | fd (n : ℤ)
  | source (s : EventSource)
  | listener (l : ServerListener)
  deriving DecidableEq

/-- The calls of the server. -/
abbrev ServerLog := List (LedgerEntry ServerResource)

/-- Release a resource if there is one. -/
def releaseIf (c : Bool) (r : ServerResource) : ServerLog := if c then [.release r] else []

/-! ### Resize and pause pipes -/

/-- A pipe and its event source in `struct compositor_server`. -/
structure EventPipe where
  fds : ℤ × ℤ
  source : Bool

/-- What `pipe2` gives, if it succeeds, and whether `wl_event_loop_add_fd` does. -/
structure EventPipeOutcome where
  pipe : Option (ℕ × ℕ)
  source : Bool

/-- The creation of the resize and of the pause/resume pipe. -/
def createEventPipe (name : EventSource) (o : EventPipeOutcome) : EventPipe × ServerLog :=
  match o.pipe with
  | some (a, b) =>
      (⟨(a, b), o.source⟩,
        acquires ([.fd a, .fd b] ++ if o.source then [.source name] else []))
  | none => (⟨(-1, -1), false⟩, [])

/-- Their cleanup. -/
def cleanUpEventPipe (name : EventSource) (p : EventPipe) : ServerLog :=
  releaseIf p.source (.source name) ++
    (releaseIf (p.fds.1 ≥ 0) (.fd p.fds.1) ++ releaseIf (p.fds.2 ≥ 0) (.fd p.fds.2))

/-! ### The input handler -/

/-- The fields of the input handler; `calloc` leaves zeros. -/
structure InputFields where
  inputPipe : ℤ × ℤ
  inputEventSource : Bool
  keyboard : Bool

/-- The fields after `calloc`. -/
def InputFields.zero : InputFields := ⟨(0, 0), false, false⟩

/-- Which calls of `input_handler_init` succeed. -/
structure InputOutcome where
  pipe : Option (ℕ × ℕ)
  source : Bool
  keyboard : Bool

/-- `input_handler_init`: the fields, the calls, and whether it succeeds. -/
def inputHandlerInit (o : InputOutcome) (f : InputFields) : InputFields × ServerLog × Bool :=
  match o.pipe with
  | none => (f, [], false)
  | some (a, b) =>
      let f := { f with inputPipe := ((a : ℤ), (b : ℤ)), inputEventSource := o.source }
      if !o.source then (f, acquires [.fd a, .fd b] ++ releases [.fd a, .fd b], false)
      else if !o.keyboard then
        (f, acquires [.fd a, .fd b, .source .input] ++ releases [.source .input, .fd a, .fd b],
          false)
      else
        ({ f with keyboard := true },
          acquires [.fd a, .fd b, .source .input, .listener .focusedSurfaceDestroy], true)

/-- `input_handler_destroy`. -/
def inputHandlerDestroy (f : InputFields) : ServerLog :=
  releaseIf f.inputEventSource (.source .input) ++
    (releaseIf (f.inputPipe.1 ≥ 0) (.fd f.inputPipe.1) ++
      (releaseIf (f.inputPipe.2 ≥ 0) (.fd f.inputPipe.2) ++
        [.release (.listener .focusedSurfaceDestroy),
          .acquire (.listener .focusedSurfaceDestroy)]))

/-! ### The text-input handler -/

/-- The fields of the text-input handler. -/
structure TextInputFields where
  imeRequestPipe : ℤ × ℤ
  textInputPipe : ℤ × ℤ
  textInputEventSource : Bool
  textInputManager : Bool

/-- The fields as `text_input_handler_init` first sets them. -/
def TextInputFields.unset : TextInputFields := ⟨(-1, -1), (-1, -1), false, false⟩

/-- Which calls of `text_input_handler_init` succeed. -/
structure TextInputOutcome where
  imePipe : Option (ℕ × ℕ)
  textPipe : Option (ℕ × ℕ)
  source : Bool
  global : Bool

/-- `text_input_handler_init`: every failing exit closes what is open and resets the fields. -/
def textInputHandlerInit (o : TextInputOutcome) : TextInputFields × ServerLog × Bool :=
  match o.imePipe with
  | none => (.unset, [], false)
  | some (i, j) =>
      match o.textPipe with
      | none => (.unset, acquires [.fd i, .fd j] ++ releases [.fd i, .fd j], false)
      | some (a, b) =>
          if !o.source then
            (.unset, acquires [.fd i, .fd j, .fd a, .fd b] ++
              releases [.fd i, .fd j, .fd a, .fd b], false)
          else if !o.global then
            (.unset, acquires [.fd i, .fd j, .fd a, .fd b, .source .textInput] ++
              releases [.source .textInput, .fd i, .fd j, .fd a, .fd b], false)
          else
            (⟨(i, j), (a, b), true, true⟩,
              acquires [.fd i, .fd j, .fd a, .fd b, .source .textInput], true)

/-- `text_input_handler_destroy`, when no surface is focused: the listener of the focused surface is
only removed when it is linked. -/
def textInputHandlerDestroy (f : TextInputFields) : ServerLog :=
  (if f.imeRequestPipe.1 ≥ 0 then releases [.fd f.imeRequestPipe.1, .fd f.imeRequestPipe.2]
    else []) ++
  (releaseIf f.textInputEventSource (.source .textInput) ++
    if f.textInputPipe.1 ≥ 0 then releases [.fd f.textInputPipe.1, .fd f.textInputPipe.2]
    else [])

/-! ### The receiver of hardware buffers -/

/-- `g_running` and `g_server_fd`. -/
structure ReceiverFields where
  running : Bool
  serverFd : ℤ

/-- Whether `AHB_REGISTRY_SOCKET` is set, and which calls of `ahb_registry_receiver_start`
succeed. -/
structure ReceiverOutcome where
  enabled : Bool
  socket : Option ℕ
  bind : Bool
  listen : Bool
  thread : Bool

/-- `ahb_registry_receiver_start`, if it is called, while no receiver is running. -/
def ahbRegistryReceiverStart (o : ReceiverOutcome) : ReceiverFields × ServerLog :=
  if !o.enabled then (⟨false, -1⟩, [])
  else
    match o.socket with
    | none => (⟨false, -1⟩, [])
    | some fd =>
        if !o.bind || !o.listen || !o.thread then
          (⟨false, -1⟩, acquires [.fd fd] ++ releases [.fd fd])
        else (⟨true, fd⟩, acquires [.fd fd, .receiverThread])

/-- `ahb_registry_receiver_stop`. -/
def ahbRegistryReceiverStop (f : ReceiverFields) : ServerLog :=
  if !f.running then []
  else releaseIf (f.serverFd ≥ 0) (.fd f.serverFd) ++ [.release .receiverThread]

/-! ### The server -/

/-- The fields of the server that its teardown reads. -/
structure ServerFields where
  resize : EventPipe
  pauseResume : EventPipe
  input : InputFields
  textInput : TextInputFields
  receiver : ReceiverFields
  xwayland : Bool

/-- Which calls of `compositor_server_create` succeed. -/
structure CreateOutcome where
  server : Bool
  display : Bool
  backend : Bool
  renderer : Bool
  allocator : Bool
  output : Bool
  resize : EventPipeOutcome
  pauseResume : EventPipeOutcome
  input : InputOutcome
  textInput : TextInputOutcome
  receiver : ReceiverOutcome
  /-- XWayland is enabled and starts. -/
  xwayland : Bool
  /-- `wl_display_add_socket_auto`. -/
  socket : Bool
  /-- `wlr_backend_start`. -/
  started : Bool

/-- From the listener of new outputs to XWayland: nothing here is fatal. -/
def createHandlers (o : CreateOutcome) : ServerFields × ServerLog :=
  let resize := createEventPipe .resize o.resize
  let pauseResume := createEventPipe .pauseResume o.pauseResume
  let input := inputHandlerInit o.input .zero
  let textInput := textInputHandlerInit o.textInput
  let receiver := ahbRegistryReceiverStart o.receiver
  (⟨resize.1, pauseResume.1, input.1, textInput.1, receiver.1, o.xwayland⟩,
    acquires [ServerResource.listener .newOutput, .listener .clientCreated] ++
    (resize.2 ++ (pauseResume.2 ++
    (acquires [ServerResource.listener .newXdgToplevel, .listener .newXdgPopup] ++
    (input.2.1 ++ (textInput.2.1 ++ (receiver.2 ++
    acquires (if o.xwayland then [ServerResource.xwayland, .listener .newXwaylandSurface]
      else []))))))))

/-- `err_display`. -/
def errDisplay : ServerLog := releases [.display]

/-- `err_backend`; the backend destroys its output, and that removes the frame timer. -/
def errBackend (output : Bool) : ServerLog :=
  releaseIf output (.source .frameTimer) ++ (releases [.backend] ++ errDisplay)

/-- `err_renderer`. -/
def errRenderer (output : Bool) : ServerLog := releases [.renderer] ++ errBackend output

/-- `err_alloc`. -/
def errAlloc (output : Bool) : ServerLog := releases [.allocator] ++ errRenderer output

/-- `compositor_server_create`: the server, if there is one, and the calls. -/
def compositorServerCreate (o : CreateOutcome) : Option ServerFields × ServerLog :=
  if !o.server then (none, [])
  else if !o.display then (none, [])
  else if !o.backend then (none, acquires [ServerResource.display] ++ errDisplay)
  else if !o.renderer then (none, acquires [ServerResource.display, .backend] ++ errBackend false)
  else if !o.allocator then
    (none, acquires [ServerResource.display, .backend, .renderer] ++ errRenderer false)
  else if !o.output then
    (none, acquires [ServerResource.display, .backend, .renderer, .allocator] ++ errAlloc false)
  else
    let base :=
      acquires [ServerResource.display, .backend, .renderer, .allocator, .source .frameTimer]
    let handlers := createHandlers o
    if !o.socket || !o.started then (none, base ++ (handlers.2 ++ errAlloc true))
    else
      -- the backend's start runs `on_new_output`
      (some handlers.1, base ++ (handlers.2 ++
        acquires [ServerResource.listener .outputFrame, .listener .outputRequestState]))

/-- `compositor_server_destroy`. -/
def compositorServerDestroy (f : ServerFields) : ServerLog :=
  (if f.xwayland then releases [ServerResource.listener .newXwaylandSurface, .xwayland] else []) ++
  (releases [ServerResource.listener .clientCreated] ++
  (cleanUpEventPipe .resize f.resize ++
  (cleanUpEventPipe .pauseResume f.pauseResume ++
  (ahbRegistryReceiverStop f.receiver ++
  (textInputHandlerDestroy f.textInput ++
  (inputHandlerDestroy f.input ++
  (releases [ServerResource.listener .newOutput, .listener .newXdgToplevel,
      .listener .newXdgPopup, .listener .outputFrame, .listener .outputRequestState] ++
    errAlloc true)))))))

/-- Set up, and torn down by the failing exit or by the destroy that follows. -/
def lifeLog (o : CreateOutcome) : ServerLog :=
  (compositorServerCreate o).2 ++ ((compositorServerCreate o).1.map compositorServerDestroy).getD []

/-! ### What the fields claim -/

/-- The resources the cleanup of a pipe releases, in its order. -/
def EventPipe.claims (name : EventSource) (p : EventPipe) : List ServerResource :=
  (if p.source then [ServerResource.source name] else []) ++
    ((if p.fds.1 ≥ 0 then [ServerResource.fd p.fds.1] else []) ++
      if p.fds.2 ≥ 0 then [ServerResource.fd p.fds.2] else [])

/-- The resources `input_handler_destroy` releases, but for its listener. -/
def InputFields.claims (f : InputFields) : List ServerResource :=
  (if f.inputEventSource then [ServerResource.source .input] else []) ++
    ((if f.inputPipe.1 ≥ 0 then [ServerResource.fd f.inputPipe.1] else []) ++
      if f.inputPipe.2 ≥ 0 then [ServerResource.fd f.inputPipe.2] else [])

/-- The resources `text_input_handler_destroy` releases. -/
def TextInputFields.claims (f : TextInputFields) : List ServerResource :=
  (if f.imeRequestPipe.1 ≥ 0 then
      [ServerResource.fd f.imeRequestPipe.1, .fd f.imeRequestPipe.2] else []) ++
    ((if f.textInputEventSource then [ServerResource.source .textInput] else []) ++
      if f.textInputPipe.1 ≥ 0 then
        [ServerResource.fd f.textInputPipe.1, .fd f.textInputPipe.2] else [])

/-- The resources `ahb_registry_receiver_stop` releases. -/
def ReceiverFields.claims (f : ReceiverFields) : List ServerResource :=
  if f.running then (if f.serverFd ≥ 0 then [.fd f.serverFd] else []) ++ [.receiverThread] else []

theorem releases_append (rs rs' : List ServerResource) :
    releases (rs ++ rs') = releases rs ++ releases rs' := List.map_append

theorem releaseIf_eq (c : Bool) (r : ServerResource) :
    releaseIf c r = releases (if c then [r] else []) := by
  cases c with
  | true => rfl
  | false => rfl

theorem cleanUpEventPipe_eq (name : EventSource) (p : EventPipe) :
    cleanUpEventPipe name p = releases (p.claims name) := by
  simp only [cleanUpEventPipe, EventPipe.claims, releaseIf_eq, releases_append, decide_eq_true_eq]

theorem inputHandlerDestroy_eq (f : InputFields) : inputHandlerDestroy f = releases f.claims ++
    [.release (.listener .focusedSurfaceDestroy), .acquire (.listener .focusedSurfaceDestroy)] := by
  simp only [inputHandlerDestroy, InputFields.claims, releaseIf_eq, releases_append,
    decide_eq_true_eq, List.append_assoc]

theorem textInputHandlerDestroy_eq (f : TextInputFields) :
    textInputHandlerDestroy f = releases f.claims := by
  simp only [textInputHandlerDestroy, TextInputFields.claims, releaseIf_eq, releases_append]
  congr 1
  · split <;> rfl
  · congr 1
    split <;> rfl

theorem ahbRegistryReceiverStop_eq (f : ReceiverFields) :
    ahbRegistryReceiverStop f = releases f.claims := by
  unfold ahbRegistryReceiverStop ReceiverFields.claims
  cases f.running with
  | true =>
    simp only [releaseIf_eq, decide_eq_true_eq, Bool.not_true, Bool.false_eq_true, if_false,
      if_true, releases_append]
    rfl
  | false => rfl

/-! ### The inits -/

/-- An event pipe that could be created is held as its fields say. -/
theorem settle_createEventPipe (name : EventSource) (o : EventPipeOutcome)
    (held : Multiset ServerResource) :
    settle held (createEventPipe name o).2 =
      some (((createEventPipe name o).1.claims name : Multiset ServerResource) + held) := by
  unfold createEventPipe
  cases o.pipe with
  | none => exact congrArg some (zero_add held).symm
  | some fds =>
    obtain ⟨a, b⟩ := fds
    rw [settle_acquires]
    congr 2
    refine Multiset.coe_eq_coe.mpr ?_
    simp only [EventPipe.claims, ge_iff_le, Int.natCast_nonneg, if_true]
    exact List.perm_append_comm

theorem claims_createEventPipe (name : EventSource) (o : EventPipeOutcome) :
    (createEventPipe name o).1.claims name = [] ↔ o.pipe = none := by
  unfold createEventPipe
  cases o.pipe with
  | none => exact iff_of_true rfl rfl
  | some fds => simp [EventPipe.claims]

/-- Every call of `input_handler_init` succeeds. -/
def InputOutcome.succeeds (o : InputOutcome) : Bool := o.pipe.isSome && o.source && o.keyboard

/-- Every call of `text_input_handler_init` succeeds. -/
def TextInputOutcome.succeeds (o : TextInputOutcome) : Bool :=
  o.imePipe.isSome && o.textPipe.isSome && o.source && o.global

/-- The receiver is started. -/
def ReceiverOutcome.succeeds (o : ReceiverOutcome) : Bool :=
  o.enabled && o.socket.isSome && o.bind && o.listen && o.thread

/-- When the init of the input handler succeeds, what is held is what its fields claim, and its
listener; when it fails, nothing is. -/
theorem settle_inputHandlerInit (o : InputOutcome) (held : Multiset ServerResource) :
    settle held (inputHandlerInit o .zero).2.1 =
      if o.succeeds then
        some (.listener .focusedSurfaceDestroy ::ₘ
          (((inputHandlerInit o .zero).1.claims : Multiset ServerResource) + held))
      else some held := by
  unfold inputHandlerInit InputOutcome.succeeds
  cases o.pipe with
  | none => rfl
  | some fds =>
    obtain ⟨a, b⟩ := fds
    cases hsource : o.source with
    | false => exact settle_returned (List.Perm.refl _) held
    | true =>
      cases hkeyboard : o.keyboard with
      | false =>
        exact settle_returned
          (List.perm_append_singleton (ServerResource.source .input) [.fd a, .fd b]) held
      | true =>
        refine (settle_acquires _ held).trans (congrArg some ?_)
        rw [← Multiset.cons_add, Multiset.cons_coe]
        congr 1
        refine Multiset.coe_eq_coe.mpr ?_
        exact (List.perm_append_singleton (ServerResource.listener .focusedSurfaceDestroy)
          [.fd a, .fd b, .source .input]).trans
            ((List.perm_append_singleton (ServerResource.source .input) [.fd a, .fd b]).cons _)

/-- **The failed init leaves its claims behind.**  The fields still name a descriptor or an event
source. -/
theorem claims_inputHandlerInit_failed {o : InputOutcome} (hfailed : o.succeeds = false) :
    ∃ r rest, (inputHandlerInit o .zero).1.claims = r :: rest ∧
      (r = .source .input ∨ ∃ n, r = .fd n) := by
  unfold inputHandlerInit
  cases hpipe : o.pipe with
  | none => exact ⟨.fd 0, [.fd 0], rfl, .inr ⟨0, rfl⟩⟩
  | some fds =>
    obtain ⟨a, b⟩ := fds
    cases hsource : o.source with
    | false =>
      refine ⟨.fd a, [.fd b], ?_, .inr ⟨a, rfl⟩⟩
      simp [InputFields.claims]
    | true =>
      have hkeyboard : o.keyboard = false := by
        simpa [InputOutcome.succeeds, hpipe, hsource] using hfailed
      refine ⟨.source .input, [.fd a, .fd b], ?_, .inl rfl⟩
      simp [InputFields.claims, hkeyboard]

/-- The text-input handler holds what its fields claim, whether its init succeeds or not. -/
theorem settle_textInputHandlerInit (o : TextInputOutcome) (held : Multiset ServerResource) :
    settle held (textInputHandlerInit o).2.1 =
      some (((textInputHandlerInit o).1.claims : Multiset ServerResource) + held) := by
  have hunset : some held =
      some ((TextInputFields.unset.claims : Multiset ServerResource) + held) :=
    congrArg some (zero_add held).symm
  unfold textInputHandlerInit
  cases o.imePipe with
  | none => exact hunset
  | some ime =>
    obtain ⟨i, j⟩ := ime
    cases o.textPipe with
    | none => exact (settle_returned (List.Perm.refl _) held).trans hunset
    | some text =>
      obtain ⟨a, b⟩ := text
      cases o.source with
      | false => exact (settle_returned (List.Perm.refl _) held).trans hunset
      | true =>
        cases o.global with
        | false =>
          exact (settle_returned (List.perm_append_singleton (ServerResource.source .textInput)
            [.fd i, .fd j, .fd a, .fd b]) held).trans hunset
        | true =>
          refine (settle_acquires _ held).trans (congrArg some ?_)
          congr 1
          refine Multiset.coe_eq_coe.mpr ?_
          exact (List.perm_append_singleton (ServerResource.source .textInput)
            [.fd a, .fd b]).append_left [.fd i, .fd j]

theorem claims_textInputHandlerInit (o : TextInputOutcome) :
    (textInputHandlerInit o).1.claims = [] ↔ o.succeeds = false := by
  unfold textInputHandlerInit TextInputOutcome.succeeds
  cases o.imePipe with
  | none => exact iff_of_true rfl rfl
  | some ime =>
    obtain ⟨i, j⟩ := ime
    cases o.textPipe with
    | none => exact iff_of_true rfl rfl
    | some text =>
      obtain ⟨a, b⟩ := text
      cases o.source with
      | false => exact iff_of_true rfl rfl
      | true =>
        cases o.global with
        | false => exact iff_of_true rfl rfl
        | true => simp [TextInputFields.claims]

theorem settle_ahbRegistryReceiverStart (o : ReceiverOutcome) (held : Multiset ServerResource) :
    settle held (ahbRegistryReceiverStart o).2 =
      some (((ahbRegistryReceiverStart o).1.claims : Multiset ServerResource) + held) := by
  have hidle : some held =
      some (((⟨false, -1⟩ : ReceiverFields).claims : Multiset ServerResource) + held) :=
    congrArg some (zero_add held).symm
  unfold ahbRegistryReceiverStart
  cases o.enabled with
  | false => exact hidle
  | true =>
    cases o.socket with
    | none => exact hidle
    | some fd =>
      cases hstarted : (!o.bind || !o.listen || !o.thread) with
      | true => exact (settle_returned (List.Perm.refl _) held).trans hidle
      | false =>
        refine (settle_acquires _ held).trans ?_
        simp [ReceiverFields.claims]

theorem claims_ahbRegistryReceiverStart (o : ReceiverOutcome) :
    (ahbRegistryReceiverStart o).1.claims = [] ↔ o.succeeds = false := by
  unfold ahbRegistryReceiverStart ReceiverOutcome.succeeds
  cases o.enabled with
  | false => exact iff_of_true rfl rfl
  | true =>
    cases o.socket with
    | none => exact iff_of_true rfl rfl
    | some fd =>
      cases o.bind <;> cases o.listen <;> cases o.thread <;> simp [ReceiverFields.claims]

/-! ### The whole life -/

/-- XWayland and its listener, if it was started. -/
def xwaylandClaims (xwayland : Bool) : List ServerResource :=
  if xwayland then [.xwayland, .listener .newXwaylandSurface] else []

/-- The objects of the library that every exit after the output destroys. -/
def baseClaims : List ServerResource :=
  [.allocator, .renderer, .source .frameTimer, .backend, .display]

/-- What the handlers hold of the base and of each other. -/
def handlersHeld (o : CreateOutcome) (input : Multiset ServerResource) : Multiset ServerResource :=
  (xwaylandClaims o.xwayland : Multiset ServerResource) +
  ((ahbRegistryReceiverStart o.receiver).1.claims +
  ((textInputHandlerInit o.textInput).1.claims +
  (input +
  (([.listener .newXdgToplevel, .listener .newXdgPopup] : List ServerResource) +
  ((createEventPipe .pauseResume o.pauseResume).1.claims .pauseResume +
  ((createEventPipe .resize o.resize).1.claims .resize +
  (([.listener .newOutput, .listener .clientCreated] : List ServerResource) :
    Multiset ServerResource)))))))

/-- What the input handler holds: its claims and its listener, or nothing. -/
def inputHeld (o : InputOutcome) : Multiset ServerResource :=
  if o.succeeds then
    .listener .focusedSurfaceDestroy ::ₘ (inputHandlerInit o .zero).1.claims
  else 0

/-- What is held when the handlers have been created. -/
theorem settle_createHandlers (o : CreateOutcome) (held : Multiset ServerResource) :
    settle held (createHandlers o).2 = some (handlersHeld o (inputHeld o.input) + held) := by
  have hinput : ∀ held, settle held (inputHandlerInit o.input .zero).2.1 =
      some (inputHeld o.input + held) := by
    intro held
    rw [settle_inputHandlerInit, inputHeld]
    split
    · rw [Multiset.cons_add]
    · rw [zero_add]
  have hxwayland : (if o.xwayland then [.xwayland, .listener .newXwaylandSurface] else []) =
      xwaylandClaims o.xwayland := rfl
  simp only [createHandlers, settle_append, settle_acquires, settle_createEventPipe, hinput,
    settle_textInputHandlerInit, settle_ahbRegistryReceiverStart, hxwayland, Option.bind_some,
    handlersHeld, add_assoc]

/-- XWayland and its listener, in the order they are given up. -/
def xwaylandReleased (xwayland : Bool) : List ServerResource :=
  if xwayland then [.listener .newXwaylandSurface, .xwayland] else []

theorem xwaylandReleased_eq (xwayland : Bool) :
    (xwaylandReleased xwayland : Multiset ServerResource) = xwaylandClaims xwayland := by
  cases xwayland with
  | true => decide
  | false => rfl

/-- What `compositor_server_destroy` releases before the input handler. -/
def releasedFirst (f : ServerFields) : List ServerResource :=
  xwaylandReleased f.xwayland ++ ([.listener .clientCreated] ++
    (f.resize.claims .resize ++ (f.pauseResume.claims .pauseResume ++
      (f.receiver.claims ++ f.textInput.claims))))

/-- What it releases after the input handler. -/
def releasedLast : List ServerResource :=
  [ServerResource.listener .newOutput] ++
    ([ServerResource.listener .newXdgToplevel, .listener .newXdgPopup] ++
      ([ServerResource.listener .outputFrame, .listener .outputRequestState] ++ baseClaims))

theorem compositorServerDestroy_eq (f : ServerFields) :
    compositorServerDestroy f = releases (releasedFirst f) ++
      (inputHandlerDestroy f.input ++ releases releasedLast) := by
  have hxwayland :
      (if f.xwayland then releases [.listener .newXwaylandSurface, .xwayland] else []) =
        releases (xwaylandReleased f.xwayland) := by
    unfold xwaylandReleased
    cases f.xwayland with
    | true => rfl
    | false => rfl
  simp only [compositorServerDestroy, releasedFirst, releases_append, hxwayland,
    cleanUpEventPipe_eq, ahbRegistryReceiverStop_eq, textInputHandlerDestroy_eq, List.append_assoc]
  rfl

/-- What is held when the server has been created. -/
def createdHeld (o : CreateOutcome) (held : Multiset ServerResource) : Multiset ServerResource :=
  (([.listener .outputFrame, .listener .outputRequestState] : List ServerResource) :
    Multiset ServerResource) + (handlersHeld o (inputHeld o.input) + (baseClaims + held))

/-- Up to the input handler, the destroy releases what the handlers hold. -/
theorem createdHeld_eq (o : CreateOutcome) (held : Multiset ServerResource) :
    createdHeld o held = releasedFirst (createHandlers o).1 +
      (inputHeld o.input + (releasedLast + held)) := by
  have hfirst : (([.listener .newOutput, .listener .clientCreated] : List ServerResource) :
      Multiset ServerResource) =
        ([.listener .newOutput] : List ServerResource) +
          ([.listener .clientCreated] : List ServerResource) := rfl
  simp only [createdHeld, handlersHeld, releasedFirst, releasedLast, createHandlers, hfirst,
    ← Multiset.coe_add, xwaylandReleased_eq]
  abel

/-- The input handler whose init succeeded gives up what it holds. -/
theorem settle_inputHandlerDestroy {o : InputOutcome} (hinput : o.succeeds = true)
    (held : Multiset ServerResource) (rest : ServerLog) :
    settle (inputHeld o + held) (inputHandlerDestroy (inputHandlerInit o .zero).1 ++ rest) =
      settle (.listener .focusedSurfaceDestroy ::ₘ held) rest := by
  have hheld : inputHeld o + held =
      ((inputHandlerInit o .zero).1.claims : Multiset ServerResource) +
        (.listener .focusedSurfaceDestroy ::ₘ held) := by
    rw [inputHeld, if_pos hinput, Multiset.cons_add, Multiset.add_cons]
  rw [inputHandlerDestroy_eq, List.append_assoc, settle_append, hheld, settle_releases]
  show (if _ then settle (Multiset.erase _ _) (.acquire _ :: rest) else none) = _
  rw [if_pos (Multiset.mem_cons_self _ _), Multiset.erase_cons_head]
  rfl

/-- The input handler whose init failed gives up something that nobody holds. -/
theorem settle_inputHandlerDestroy_failed {o : InputOutcome} (hinput : o.succeeds = false)
    {held : Multiset ServerResource}
    (hnone : ∀ r ∈ held, r ≠ .source .input ∧ ∀ n, r ≠ .fd n) (rest : ServerLog) :
    settle held (inputHandlerDestroy (inputHandlerInit o .zero).1 ++ rest) = none := by
  obtain ⟨r, claims, hclaims, hr⟩ := claims_inputHandlerInit_failed hinput
  rw [inputHandlerDestroy_eq, hclaims]
  apply settle_release_of_notMem
  intro hmem
  rcases hr with rfl | ⟨n, rfl⟩
  · exact (hnone _ hmem).1 rfl
  · exact (hnone _ hmem).2 n rfl

/-! ### Exactly what is torn down -/

/-- What is held before: the listener of the focused surface, if an earlier server has initialised
it. -/
def startHeld (initialised : Bool) : Multiset ServerResource :=
  if initialised then {.listener .focusedSurfaceDestroy} else 0

/-- Every release was of something held, and only listeners are left. -/
def TornDown (initialised : Bool) (log : ServerLog) : Prop :=
  ∃ held, settle (startHeld initialised) log = some held ∧ ∀ r ∈ held, ∃ l, r = .listener l

/-- No descriptor, event source, thread or XWayland server has been acquired for good. -/
def AcquiresNothing (o : CreateOutcome) : Prop :=
  o.resize.pipe = none ∧ o.pauseResume.pipe = none ∧ o.input.succeeds = false ∧
    o.textInput.succeeds = false ∧ o.receiver.succeeds = false ∧ o.xwayland = false

/-- The creation gets as far as the listeners and pipes of the server. -/
def CreateOutcome.reachesHandlers (o : CreateOutcome) : Bool :=
  o.server && o.display && o.backend && o.renderer && o.allocator && o.output

/-- Nothing is left behind and nothing released twice: before the handlers, always; when the
creation fails after them, if they acquired nothing; when it succeeds, if the input handler's init
did. -/
def ReleasesAll (o : CreateOutcome) : Prop :=
  o.reachesHandlers = true →
    if o.socket && o.started then o.input.succeeds = true else AcquiresNothing o

theorem startHeld_listener {initialised : Bool} {r : ServerResource}
    (h : r ∈ startHeld initialised) : r = .listener .focusedSurfaceDestroy := by
  unfold startHeld at h
  split at h
  · exact Multiset.mem_singleton.mp h
  · simp at h

/-- Something that is not a listener is left exactly when there is something to leave. -/
theorem onlyListeners_iff {rs : List ServerResource} (hrs : ∀ l, .listener l ∉ rs) :
    (∀ r ∈ (rs : Multiset ServerResource), ∃ l, r = .listener l) ↔ rs = [] := by
  constructor
  · intro h
    refine List.eq_nil_iff_forall_not_mem.mpr fun r hr => ?_
    obtain ⟨l, rfl⟩ := h r hr
    exact hrs l hr
  · rintro rfl r hr
    simp at hr

/-- The input handler that could be set up holds its pipe. -/
theorem claims_inputHandlerInit_succeeded {o : InputOutcome} (hinput : o.succeeds = true) :
    ∃ n, .fd n ∈ (inputHandlerInit o .zero).1.claims := by
  unfold inputHandlerInit
  cases hpipe : o.pipe with
  | none => simp [InputOutcome.succeeds, hpipe] at hinput
  | some fds =>
    obtain ⟨a, b⟩ := fds
    obtain ⟨hsource, hkeyboard⟩ : o.source = true ∧ o.keyboard = true := by
      simpa [InputOutcome.succeeds, hpipe] using hinput
    exact ⟨a, by simp [InputFields.claims, hsource, hkeyboard]⟩

/-- What the handlers hold are only listeners exactly when they acquired nothing. -/
theorem handlersHeld_listeners_iff (o : CreateOutcome) :
    (∀ r ∈ handlersHeld o (inputHeld o.input), ∃ l, r = .listener l) ↔ AcquiresNothing o := by
  have hpipe : ∀ name (p : EventPipe) l, .listener l ∉ p.claims name := by
    intro name p l
    simp [EventPipe.claims]
  have htext : ∀ l, .listener l ∉ (textInputHandlerInit o.textInput).1.claims := by
    intro l
    simp [TextInputFields.claims]
  have hreceiver : ∀ l, .listener l ∉ (ahbRegistryReceiverStart o.receiver).1.claims := by
    intro l
    simp [ReceiverFields.claims]
  have hxwayland : (∀ r ∈ (xwaylandClaims o.xwayland : Multiset ServerResource),
      ∃ l, r = .listener l) ↔ o.xwayland = false := by
    cases o.xwayland with
    | true => simp [xwaylandClaims]
    | false => simp [xwaylandClaims]
  have hinput : (∀ r ∈ inputHeld o.input, ∃ l, r = .listener l) ↔ o.input.succeeds = false := by
    unfold inputHeld
    cases hsucceeds : o.input.succeeds with
    | true =>
      obtain ⟨n, hn⟩ := claims_inputHandlerInit_succeeded hsucceeds
      refine iff_of_false (fun h => ?_) (by simp)
      rw [if_pos rfl] at h
      obtain ⟨l, hl⟩ := h (.fd n) (Multiset.mem_cons_of_mem hn)
      simp at hl
    | false => simp
  simp only [handlersHeld, Multiset.mem_add, or_imp, forall_and, hxwayland, hinput,
    onlyListeners_iff hreceiver, onlyListeners_iff htext, onlyListeners_iff (hpipe _ _),
    claims_createEventPipe, claims_textInputHandlerInit, claims_ahbRegistryReceiverStart]
  unfold AcquiresNothing
  simp
  tauto

/-- A creation that reaches the handlers holds them and what it acquired before, and then fails or
is destroyed. -/
theorem settle_lifeLog {o : CreateOutcome} (hreaches : o.reachesHandlers = true)
    (held : Multiset ServerResource) :
    settle held (lifeLog o) =
      settle (handlersHeld o (inputHeld o.input) + ((baseClaims : Multiset ServerResource) + held))
        (if o.socket && o.started then
          acquires [ServerResource.listener .outputFrame, .listener .outputRequestState] ++
            compositorServerDestroy (createHandlers o).1
        else releases baseClaims) := by
  have hlog : lifeLog o =
      acquires [ServerResource.display, .backend, .renderer, .allocator, .source .frameTimer] ++
        ((createHandlers o).2 ++ if o.socket && o.started then
            acquires [ServerResource.listener .outputFrame, .listener .outputRequestState] ++
              compositorServerDestroy (createHandlers o).1
          else releases baseClaims) := by
    simp only [CreateOutcome.reachesHandlers, Bool.and_eq_true] at hreaches
    obtain ⟨⟨⟨⟨⟨hserver, hdisplay⟩, hbackend⟩, hrenderer⟩, hallocator⟩, houtput⟩ := hreaches
    simp only [lifeLog, compositorServerCreate, hserver, hdisplay, hbackend, hrenderer, hallocator,
      houtput, ← Bool.not_and, Bool.not_true, Bool.false_eq_true, if_false]
    cases o.socket && o.started with
    | true =>
      simp only [Bool.not_true, Bool.false_eq_true, if_false, if_true, Option.map_some,
        Option.getD_some, List.append_assoc]
    | false =>
      simp only [Bool.not_false, Bool.false_eq_true, if_false, if_true, Option.map_none,
        Option.getD_none, List.append_nil]
      rfl
  have hbase : (([.display, .backend, .renderer, .allocator, .source .frameTimer] :
      List ServerResource) : Multiset ServerResource) = baseClaims := by decide
  rw [hlog, settle_append, settle_acquires, hbase, Option.bind_some, settle_append,
    settle_createHandlers, Option.bind_some]

/-- The handlers are created and the creation fails then: they are all left behind. -/
theorem tornDown_of_lateFailure {o : CreateOutcome} (hreaches : o.reachesHandlers = true)
    (hlate : (o.socket && o.started) = false) (initialised : Bool) :
    TornDown initialised (lifeLog o) ↔ AcquiresNothing o := by
  have hsettle : settle (startHeld initialised) (lifeLog o) =
      some (handlersHeld o (inputHeld o.input) + startHeld initialised) := by
    rw [settle_lifeLog hreaches, hlate, if_neg Bool.false_ne_true, add_left_comm, settle_releases]
  unfold TornDown
  rw [hsettle, ← handlersHeld_listeners_iff]
  constructor
  · rintro ⟨held, heq, hall⟩ r hr
    obtain rfl := Option.some.inj heq
    exact hall r (Multiset.mem_add.mpr (.inl hr))
  · intro hall
    refine ⟨_, rfl, fun r hr => ?_⟩
    rcases Multiset.mem_add.mp hr with hr | hr
    · exact hall r hr
    · exact ⟨_, startHeld_listener hr⟩

/-- The server is created and destroyed: the input handler decides. -/
theorem tornDown_of_created {o : CreateOutcome} (hreaches : o.reachesHandlers = true)
    (hcreated : (o.socket && o.started) = true) (initialised : Bool) :
    TornDown initialised (lifeLog o) ↔ o.input.succeeds = true := by
  have hsettle : settle (startHeld initialised) (lifeLog o) =
      settle
        (inputHeld o.input + ((releasedLast : Multiset ServerResource) + startHeld initialised))
        (inputHandlerDestroy (inputHandlerInit o.input .zero).1 ++ releases releasedLast) := by
    rw [settle_lifeLog hreaches, hcreated, if_pos rfl, settle_append, settle_acquires,
      Option.bind_some]
    have hheld := createdHeld_eq o (startHeld initialised)
    unfold createdHeld at hheld
    rw [hheld, compositorServerDestroy_eq, settle_append, settle_releases]
    rfl
  unfold TornDown
  rw [hsettle]
  cases hinput : o.input.succeeds with
  | true =>
    refine iff_of_true ?_ rfl
    rw [settle_inputHandlerDestroy hinput, ← Multiset.add_cons, settle_releases]
    refine ⟨_, rfl, fun r hr => ?_⟩
    rcases Multiset.mem_cons.mp hr with rfl | hr
    · exact ⟨_, rfl⟩
    · exact ⟨_, startHeld_listener hr⟩
  | false =>
    refine iff_of_false ?_ (by simp)
    rintro ⟨held, heq, -⟩
    have hzero : inputHeld o.input = 0 := by rw [inputHeld, hinput]; rfl
    rw [hzero, zero_add, settle_inputHandlerDestroy_failed hinput] at heq
    · simp at heq
    · intro r hr
      rcases Multiset.mem_add.mp hr with hr | hr
      · simp only [releasedLast, baseClaims, List.cons_append, List.nil_append,
          Multiset.mem_coe, List.mem_cons, List.not_mem_nil, or_false] at hr
        rcases hr with rfl | rfl | rfl | rfl | rfl | rfl | rfl | rfl | rfl | rfl <;> simp
      · rw [startHeld_listener hr]
        simp

/-- A creation that fails before the handlers releases what it has acquired. -/
theorem tornDown_of_earlyFailure {o : CreateOutcome} (hreaches : o.reachesHandlers = false)
    (initialised : Bool) : TornDown initialised (lifeLog o) := by
  have hreturned : ∀ rs rs' : List ServerResource, rs.Perm rs' →
      TornDown initialised (acquires rs ++ releases rs' ++ []) := by
    intro rs rs' h
    rw [List.append_nil]
    exact ⟨_, settle_returned h _, fun r hr => ⟨_, startHeld_listener hr⟩⟩
  unfold lifeLog compositorServerCreate
  cases hserver : o.server with
  | false => exact hreturned [] _ (List.Perm.refl _)
  | true =>
    cases hdisplay : o.display with
    | false => exact hreturned [] _ (List.Perm.refl _)
    | true =>
      cases hbackend : o.backend with
      | false => exact hreturned [.display] _ (List.Perm.refl _)
      | true =>
        cases hrenderer : o.renderer with
        | false => exact hreturned [.display, .backend] [.backend, .display] (by decide)
        | true =>
          cases hallocator : o.allocator with
          | false =>
            exact hreturned [.display, .backend, .renderer] [.renderer, .backend, .display]
              (by decide)
          | true =>
            cases houtput : o.output with
            | false =>
              exact hreturned [.display, .backend, .renderer, .allocator]
                [.allocator, .renderer, .backend, .display] (by decide)
            | true =>
              simp [CreateOutcome.reachesHandlers, hserver, hdisplay, hbackend, hrenderer,
                hallocator, houtput] at hreaches

/-- **Exactly what is torn down.**  After a creation that fails, or one that succeeds and the
destroy that follows, everything acquired has been released once and nothing else has been, if and
only if the creation failed before its handlers, or the handlers acquired nothing and it failed
after them, or it succeeded together with the input handler's init. -/
theorem tornDown_iff_releasesAll (o : CreateOutcome) (initialised : Bool) :
    TornDown initialised (lifeLog o) ↔ ReleasesAll o := by
  unfold ReleasesAll
  cases hreaches : o.reachesHandlers with
  | false => exact iff_of_true (tornDown_of_earlyFailure hreaches initialised) (by simp)
  | true =>
    cases hcreated : (o.socket && o.started) with
    | true => simpa using tornDown_of_created hreaches hcreated initialised
    | false => simpa using tornDown_of_lateFailure hreaches hcreated initialised

/-- Every call succeeds but the first of the input handler: no pipe can be had. -/
def noInputPipe : CreateOutcome where
  server := true
  display := true
  backend := true
  renderer := true
  allocator := true
  output := true
  resize := ⟨some (10, 11), true⟩
  pauseResume := ⟨some (12, 13), true⟩
  input := ⟨none, true, true⟩
  textInput := ⟨some (14, 15), some (16, 17), true, true⟩
  receiver := ⟨true, some 18, true, true, true⟩
  xwayland := false
  socket := true
  started := true

/-- Descriptor 0 is closed, which the compositor has not opened. -/
theorem noInputPipe_closes_zero :
    ¬ ∀ (o : CreateOutcome) (initialised : Bool), TornDown initialised (lifeLog o) := by
  intro hall
  obtain ⟨held, hsettle, -⟩ := hall noInputPipe true
  have hnone : settle (startHeld true) (lifeLog noInputPipe) = none := by decide
  rw [hnone] at hsettle
  simp at hsettle

end Wldroid.Compositor
