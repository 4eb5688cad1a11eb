/-
This file says when requests and answers stay paired.

A wait that times out leaves its request in the resolver's hands. The answer comes
later, and its signal stays until a wait consumes it, so the next call takes it for
its own. If each call starts only when nothing is under way, and no heartbeat is
given up in between, the two sides take turns: the invariant is a table that says,
for each place the client can be at, where the resolver is, which event is
signalled and what is in the block.
-/

import Drace.ResolverLink

namespace Drace

open Machine

abbrev LinkStep := Machine.Step Link LinkEvent (Option Reply)

variable {link next : Link} {past front : List LinkStep} {step : LinkStep} {event : LinkEvent}
  {output : Option Reply} {request : MsrCall} {call : ℕ}

/-! ### Pairing -/

/-- A reply is the answer to this call, or says that the call has failed. -/
def Reply.Answers (call : ℕ) : Reply → Prop
  | timedOut => True
  | got content => content.origin = .answer (some call)
  | checked id => id.value = .confirm → id.origin = .answer (some call)

/-- The resolver does not put anything over a request it has not read. -/
def KeepsRequests (step : LinkStep) : Prop :=
  ∀ move call, step.event = .resolver move →
    (step.pre.id.origin = .request call → step.post.id ≠ step.pre.id →
      step.pre.resolver.job = some call) ∧
    (step.pre.buffer.origin = .request call → step.post.buffer ≠ step.pre.buffer →
      step.pre.resolver.job = some call)

/-- A step returns nothing but the answer to its call, and puts nothing over an unread request. -/
def Paired (step : LinkStep) : Prop :=
  (∀ reply, step.output = some reply → reply.Answers step.pre.calls) ∧ KeepsRequests step

/-! ### Taking turns -/

/-- Nothing is under way: the resolver is back in its wait, or has stopped. -/
def Link.AtRest (link : Link) : Prop :=
  link.eventIn = false ∧
    (link.resolver = .stopped ∨ link.resolver = .listening ∧ link.eventOut = false)

instance : Decidable link.AtRest := inferInstanceAs (Decidable (_ ∧ _))

/-- The client's call has returned, or is about to return. -/
def ClientPhase.gone : ClientPhase → Bool
  | idle | finishing _ => true
  | _ => false

/-- A call starts when nothing is under way, the client does not give up a wait while the message
id is its own confirmation, and the resolver does not give up the wait for one during a call. -/
def TakesTurns (step : LinkStep) : Prop :=
  match step.event with
  | .client (.call _) => step.pre.AtRest
  | .client .timeout => step.pre.id ≠ ⟨.confirm, .confirm step.pre.calls⟩
  | .resolver .timeout => step.pre.resolver ≠ .listening → step.pre.client.gone = true
  | _ => True

/-! ### Where both sides are -/

/-- The handler of a request. -/
def MsrCall.handler : MsrCall → Handler
  | lookupAddress _ => .resolveIP
  | searchSymbol .. => .searchSymbols
  | unloadSymbols _ => .unloadSymbols
  | requestSymbols .. => .loadSymbols

/-- The handler the resolver is in, until its answer is complete. -/
def ResolverPhase.handler : ResolverPhase → Option Handler
  | handling handler => some handler
  | resolving _ | filling _ => some .resolveIP
  | searching _ | writing .. => some .searchSymbols
  | unloading _ => some .unloadSymbols
  | loading _ | beating _ | awaiting _ | beaten _ | loaded _ => some .loadSymbols
  | _ => none

/-- The block holds the request of the latest call. -/
def Link.Asked (link : Link) : Prop :=
  (∃ request : MsrCall, link.id.value = request.id) ∧ link.id.origin = .request link.calls ∧
    link.buffer.origin = .request link.calls

/-- The message id is what the client has put there to confirm that it waits. -/
def Link.OwnConfirm (link : Link) : Prop := link.id = ⟨.confirm, .confirm link.calls⟩

/-- The message id is not that of a request. -/
def Link.Answering (link : Link) : Prop := ∀ call, link.id.origin ≠ .request call

/-- The resolver goes on with its rounds, unless the client has gone. -/
def Link.Running (link : Link) : Prop := link.keepRunning = false → link.client.gone = true

/-- What holds at each place of the resolver. -/
def Link.Serving (link : Link) : Prop :=
  match link.resolver with
  | .listening => link.keepRunning = true ∧ (link.eventOut = true → link.Asked)
  | .received | .handling _ => link.keepRunning = true ∧ link.eventOut = false ∧ link.Asked
  | .resolving job | .searching job | .unloading job | .loading job | .beating job | .beaten job =>
    link.keepRunning = true ∧ link.eventOut = false ∧ job = some link.calls
  | .awaiting job => link.keepRunning = true ∧ (link.eventOut = true → link.client.gone = false) ∧
      job = some link.calls
  | .filling job => link.keepRunning = true ∧ link.eventOut = false ∧
      job = some link.calls ∧ link.id = ⟨.ip, .answer job⟩
  | .writing job _ => link.keepRunning = true ∧ link.eventOut = false ∧
      job = some link.calls ∧ link.id = ⟨.searchsyms, .answer job⟩
  | .loaded job => link.Running ∧ link.eventOut = false ∧ job = some link.calls
  | .committing job => link.Running ∧ link.eventOut = false ∧ job = some link.calls ∧
      link.Answering
  | .stopping => link.client.gone = true ∧ link.eventOut = false ∧ link.Answering
  | .exiting => link.client.gone = true ∧ link.eventOut = false
  | .stopped => link.eventOut = true → link.Asked

/-- The answer to a request is in the block. -/
def Link.Final (link : Link) (request : MsrCall) : Prop :=
  match request with
  | .lookupAddress _ | .searchSymbol .. =>
    link.buffer.origin = .answer (some link.calls) ∧ link.id.value ≠ .confirm
  | .unloadSymbols _ | .requestSymbols .. => link.id = ⟨.confirm, .answer (some link.calls)⟩

/-- The resolver serves a request whose client waits. -/
def Link.Serves (link : Link) (request : MsrCall) : Prop :=
  (∀ handler, link.resolver.handler = some handler → handler = request.handler) ∧
  match link.resolver with
  | .listening => if link.eventOut then link.id.value = request.id ∧ link.eventIn = false
      else link.eventIn = true → link.Final request
  | .received => link.id.value = request.id ∧ link.eventIn = false
  | .awaiting _ => if link.eventIn then link.id.value = .wait ∧ link.eventOut = false
      else link.OwnConfirm ∧ link.eventOut = true
  | .beating _ => link.id.value = .wait ∧ link.eventIn = false
  | .beaten _ => link.OwnConfirm ∧ link.eventIn = false
  | .committing _ => link.Final request ∧ link.eventIn = false
  | _ => link.eventIn = false

/-- The client has the turn in a heartbeat. -/
def Link.Beats (link : Link) (request : MsrCall) : Prop :=
  link.eventIn = false ∧ link.eventOut = false ∧ request.handler = .loadSymbols ∧
    ∃ job, link.resolver = .awaiting job

/-- What holds at each place of the client. -/
def Link.Turns (link : Link) : Prop :=
  match link.client with
  | .idle | .finishing _ => ¬ link.OwnConfirm
  | .wrote request => link.AtRest ∧ link.Asked ∧ link.id.value = request.id
  | .waiting request => link.Serves request
  | .received request => link.Beats request ∧ link.id.value = .wait ∨
      link.eventIn = false ∧ link.eventOut = false ∧ link.resolver = .listening ∧
        link.Final request
  | .confirming request => link.Beats request
  | .confirmed request => link.Beats request ∧ link.OwnConfirm

/-- The link while the two sides take turns. -/
structure Link.InTurn (link : Link) : Prop where
  /-- A request in the block is that of the latest call. -/
  latest : ∀ call, link.id.origin = .request call ∨ link.buffer.origin = .request call →
    call = link.calls
  /-- A confirmation is the answer to the latest call, or the client's own. -/
  confirms : link.id.value = .confirm →
    link.id.origin = .answer (some link.calls) ∨ link.OwnConfirm
  serving : link.Serving
  turns : link.Turns

theorem MsrCall.id_ne_confirm : request.id ≠ .confirm := by
  cases request <;> exact fun same => by cases same

theorem Link.Final.not_ownConfirm (final : link.Final request) : ¬ link.OwnConfirm := by
  unfold Final at final
  intro own
  split at final
  · exact final.2 (congrArg Tagged.value own)
  · exact final.2 (congrArg Tagged.value own)
  · cases congrArg Tagged.origin (own.symm.trans final)
  · cases congrArg Tagged.origin (own.symm.trans final)

/-- A client whose wait is not signalled has no heartbeat to answer. -/
theorem Link.Serves.silent (serves : link.Serves request) (unsignalled : link.eventIn = false)
    (foreign : ¬ link.OwnConfirm) (job : Option ℕ) : link.resolver ≠ .awaiting job := by
  intro awaiting
  have here := serves.2
  simp only [awaiting, unsignalled] at here
  exact foreign here.1

/-- A client that goes away leaves the resolver to itself, except in a heartbeat. -/
theorem Link.InTurn.leave (inTurn : link.InTurn) {client : ClientPhase}
    (gone : client.gone = true) (foreign : ¬ link.OwnConfirm)
    (silent : link.eventOut = true → ∀ job, link.resolver ≠ .awaiting job) :
    Link.InTurn { link with client } := by
  obtain ⟨latest, confirms, serving, turns⟩ := inTurn
  refine ⟨latest, confirms, ?_, ?_⟩
  · unfold Serving Running at serving ⊢
    cases place : link.resolver <;> simp_all [Asked, Answering]
  · unfold Turns
    cases client <;> first | exact foreign | cases gone

/-- A client gives up its wait. -/
theorem Link.InTurn.giveUp (inTurn : link.InTurn) {client : ClientPhase}
    (place : link.client = .waiting request) (unsignalled : ¬ link.eventIn = true)
    (foreign : ¬ link.OwnConfirm) (gone : client.gone = true) :
    Link.InTurn { link with client } := by
  have turns := inTurn.turns
  simp only [Turns, place] at turns
  exact inTurn.leave gone foreign fun _ => turns.silent (by simpa using unsignalled) foreign

/-- A client has got its answer. -/
theorem Link.InTurn.answered (inTurn : link.InTurn) {client : ClientPhase}
    (place : link.client = .received request) (answered : link.id.value ≠ .wait ∨
      request.handler ≠ .loadSymbols) (gone : client.gone = true) :
    Link.InTurn { link with client } := by
  have turns := inTurn.turns
  simp only [Turns, place] at turns
  rcases turns with ⟨beats, wait⟩ | ⟨-, silent, -, final⟩
  · rcases answered with differs | differs
    · exact absurd wait differs
    · exact absurd beats.2.2.1 differs
  · exact inTurn.leave gone final.not_ownConfirm fun signalled => by simp [silent] at signalled

/-- A call begins: it is the latest one, and its request is in the block. -/
theorem Link.InTurn.begins (inTurn : link.InTurn) (rest : link.AtRest) (request : MsrCall) :
    Link.InTurn { link with
      calls := link.calls + 1
      client := .wrote request
      id := ⟨request.id, .request (link.calls + 1)⟩
      buffer := ⟨request.content, .request (link.calls + 1)⟩ } := by
  have serving := inTurn.serving
  obtain ⟨quiet, rest⟩ := rest
  refine ⟨?_, ?_, ?_, ?_⟩
  · rintro call (same | same) <;> exact (Origin.request.inj same).symm
  · exact fun same => absurd same MsrCall.id_ne_confirm
  · unfold Serving at serving ⊢
    rcases rest with stopped | ⟨listening, silent⟩
    · simp only [stopped]
      exact fun _ => ⟨⟨request, rfl⟩, rfl, rfl⟩
    · simp only [listening] at serving ⊢
      exact ⟨serving.1, fun _ => ⟨⟨request, rfl⟩, rfl, rfl⟩⟩
  · exact ⟨⟨quiet, rest⟩, ⟨⟨request, rfl⟩, rfl, rfl⟩, rfl⟩

/-- The request is committed. -/
theorem Link.InTurn.commits (inTurn : link.InTurn) (place : link.client = .wrote request) :
    Link.InTurn { link with eventOut := true, client := .waiting request } := by
  have ⟨latest, confirms, serving, turns⟩ := inTurn
  simp only [Turns, place] at turns
  obtain ⟨⟨quiet, rest⟩, asked, same⟩ := turns
  refine ⟨latest, confirms, ?_, ?_⟩
  · unfold Serving at serving ⊢
    rcases rest with stopped | ⟨listening, silent⟩
    · simp only [stopped]
      exact fun _ => asked
    · simp only [listening] at serving ⊢
      exact ⟨serving.1, fun _ => asked⟩
  · unfold Turns Serves
    rcases rest with stopped | ⟨listening, silent⟩
    · simp [stopped, quiet, ResolverPhase.handler]
    · simp [listening, quiet, same, ResolverPhase.handler]

/-- The wait is signalled: the resolver is back in its wait, or in a heartbeat. -/
theorem Link.InTurn.wakes (inTurn : link.InTurn) (place : link.client = .waiting request)
    (signalled : link.eventIn = true) :
    Link.InTurn { link with eventIn := false, client := .received request } := by
  have ⟨latest, confirms, serving, turns⟩ := inTurn
  simp only [Turns, place, Serves] at turns
  refine ⟨latest, confirms, ?_, ?_⟩
  · unfold Serving at serving ⊢
    cases atPlace : link.resolver <;> simp_all [Asked, Answering, Running, ClientPhase.gone]
  · unfold Turns
    cases atPlace : link.resolver <;> simp_all [Beats, ResolverPhase.handler, Final, OwnConfirm]

/-- A message that tells to wait is a heartbeat, since no answer does. -/
theorem Link.InTurn.beats (inTurn : link.InTurn) (place : link.client = .received request)
    (wait : link.id.value = .wait) (notLookup : ∀ pc, request ≠ .lookupAddress pc)
    (notSearch : ∀ base size path pattern full,
      request ≠ .searchSymbol base size path pattern full) :
    Link.InTurn { link with client := .confirming request } := by
  have ⟨latest, confirms, serving, turns⟩ := inTurn
  simp only [Turns, place] at turns
  rcases turns with ⟨beats, -⟩ | ⟨-, -, -, final⟩
  · refine ⟨latest, confirms, ?_, beats⟩
    obtain ⟨-, silent, -, job, awaiting⟩ := beats
    simp_all [Serving]
  · cases request with
    | lookupAddress pc => exact absurd rfl (notLookup pc)
    | searchSymbol => exact absurd rfl (notSearch _ _ _ _ _)
    | unloadSymbols | requestSymbols => cases (congrArg Tagged.value final).symm.trans wait

/-- The client puts its confirmation into the block. -/
theorem Link.InTurn.putsConfirm (inTurn : link.InTurn)
    (place : link.client = .confirming request) : Link.InTurn { link with
      id := ⟨.confirm, .confirm link.calls⟩, client := .confirmed request } := by
  have ⟨latest, confirms, serving, turns⟩ := inTurn
  simp only [Turns, place] at turns
  refine ⟨fun call same => latest call (same.imp_left fun own => by cases own),
    fun _ => Or.inr rfl, ?_, turns, rfl⟩
  obtain ⟨-, silent, -, job, awaiting⟩ := turns
  simp_all [Serving]

/-- The confirmation is committed, and the client waits again. -/
theorem Link.InTurn.commitsConfirm (inTurn : link.InTurn)
    (place : link.client = .confirmed request) :
    Link.InTurn { link with eventOut := true, client := .waiting request } := by
  have ⟨latest, confirms, serving, turns⟩ := inTurn
  simp only [Turns, place] at turns
  obtain ⟨⟨unsignalled, silent, handler, job, awaiting⟩, own⟩ := turns
  refine ⟨latest, confirms, ?_, ?_⟩
  · simp_all [Serving, ClientPhase.gone]
  · simpa [Turns, Serves, awaiting, unsignalled, handler, ResolverPhase.handler, OwnConfirm]
      using own

/-- The call returns. -/
theorem Link.InTurn.returns (inTurn : link.InTurn) (place : link.client = .finishing request) :
    Link.InTurn { link with client := .idle } := by
  have ⟨_, _, serving, turns⟩ := inTurn
  simp only [Turns, place] at turns
  refine inTurn.leave rfl turns fun signalled job awaiting => ?_
  simp_all [Serving, ClientPhase.gone]

/-- The client's steps keep the two sides in turn. -/
theorem Link.InTurn.clientStep (inTurn : link.InTurn) {move : ClientMove} {reply : Option Reply}
    (turn : TakesTurns ⟨link, .client move, next, reply⟩)
    (defined : link.clientStep move = some (next, reply)) : next.InTurn := by
  unfold Link.clientStep at defined
  split at defined
  · obtain ⟨rfl, rfl⟩ := Prod.mk.inj (Option.some.inj defined)
    exact inTurn.begins turn _
  · next place =>
    obtain ⟨rfl, rfl⟩ := Prod.mk.inj (Option.some.inj defined)
    exact inTurn.commits place
  · next place =>
    obtain ⟨signalled, same⟩ := Option.ite_none_right_eq_some.mp defined
    obtain ⟨rfl, rfl⟩ := Prod.mk.inj (Option.some.inj same)
    exact inTurn.wakes place signalled
  -- The wait is given up.
  iterate 3
    · next place =>
      obtain ⟨unsignalled, same⟩ := Option.ite_none_left_eq_some.mp defined
      obtain ⟨rfl, rfl⟩ := Prod.mk.inj (Option.some.inj same)
      exact inTurn.giveUp place unsignalled turn rfl
  -- The answer is read, or a heartbeat is answered.
  iterate 3
    · next place =>
      obtain ⟨rfl, rfl⟩ := Prod.mk.inj (Option.some.inj defined)
      exact inTurn.answered place (Or.inr fun same => by cases same) rfl
  · next request notLookup notSearch _ place =>
    split at defined
    · next wait =>
      obtain ⟨rfl, rfl⟩ := Prod.mk.inj (Option.some.inj defined)
      exact inTurn.beats place wait notLookup notSearch
    · next differs =>
      obtain ⟨rfl, rfl⟩ := Prod.mk.inj (Option.some.inj defined)
      exact inTurn.answered place (Or.inl differs) rfl
  · next place =>
    obtain ⟨rfl, rfl⟩ := Prod.mk.inj (Option.some.inj defined)
    exact inTurn.putsConfirm place
  · next place =>
    obtain ⟨rfl, rfl⟩ := Prod.mk.inj (Option.some.inj defined)
    exact inTurn.commitsConfirm place
  · next place =>
    obtain ⟨rfl, rfl⟩ := Prod.mk.inj (Option.some.inj defined)
    exact inTurn.returns place
  · cases defined

/-- The resolver is neither in one of its waits nor gone. -/
def ResolverPhase.busy : ResolverPhase → Bool
  | listening | awaiting _ | stopped => false
  | _ => true

/-- While the resolver is busy, the client has gone or waits. -/
theorem Link.Turns.of_busy (turns : link.Turns) (busy : link.resolver.busy = true)
    (client : next.client = link.client)
    (foreign : link.client.gone = true → ¬ link.OwnConfirm → ¬ next.OwnConfirm)
    (serves : ∀ request, link.client = .waiting request → link.Serves request →
      next.Serves request) : next.Turns := by
  unfold Turns at turns ⊢
  rw [client]
  cases place : link.client with
  | idle => exact foreign (by rw [place]; rfl) (by simpa only [place] using turns)
  | finishing => exact foreign (by rw [place]; rfl) (by simpa only [place] using turns)
  | waiting request => exact serves request place (by simpa only [place] using turns)
  | wrote =>
    simp only [place] at turns
    rcases turns.1.2 with stopped | ⟨listening, -⟩
    · rw [stopped] at busy; cases busy
    · rw [listening] at busy; cases busy
  | received =>
    simp only [place] at turns
    rcases turns with ⟨⟨-, -, -, job, awaiting⟩, -⟩ | ⟨-, -, listening, -⟩
    · rw [awaiting] at busy; cases busy
    · rw [listening] at busy; cases busy
  | confirming =>
    simp only [place] at turns
    obtain ⟨-, -, -, job, awaiting⟩ := turns
    rw [awaiting] at busy; cases busy
  | confirmed =>
    simp only [place] at turns
    obtain ⟨⟨-, -, -, job, awaiting⟩, -⟩ := turns
    rw [awaiting] at busy; cases busy

theorem Link.dispatch_of_asked (same : link.id.value = request.id) :
    link.dispatch = some { link with resolver := .handling request.handler } := by
  unfold dispatch
  rw [same]
  cases request <;> rfl

theorem MsrCall.handler_of_id {other : MsrCall} (same : request.id = other.id) :
    request.handler = other.handler := by
  cases request <;> cases other <;> first | rfl | cases same

theorem Link.running_of_keepRunning (keepRunning : link.keepRunning = true) : link.Running :=
  fun stopped => absurd (keepRunning.symm.trans stopped) (by decide)

/-- The resolver goes on and leaves the block as it is. -/
theorem Link.InTurn.goesOn (inTurn : link.InTurn) {phase : ResolverPhase}
    {keepRunning eventIn : Bool} (busy : link.resolver.busy = true)
    (serving : Link.Serving { link with resolver := phase, keepRunning, eventIn })
    (serves : ∀ request, link.client = .waiting request → link.Serves request →
      Link.Serves { link with resolver := phase, keepRunning, eventIn } request) :
    Link.InTurn { link with resolver := phase, keepRunning, eventIn } :=
  ⟨inTurn.latest, inTurn.confirms, serving,
    inTurn.turns.of_busy busy rfl (fun _ foreign => foreign) serves⟩

/-- A handler that drafts its answer overwrites the request. -/
theorem Link.InTurn.drafts (inTurn : link.InTurn) {id : SMDataID} {content : Content}
    {job : Option ℕ} {phase : ResolverPhase} (busy : link.resolver.busy = true)
    (differs : id ≠ .confirm)
    (serving : Link.Serving { link with
      id := ⟨id, .answer job⟩, buffer := ⟨content, .draft job⟩, resolver := phase })
    (serves : ∀ request, link.Serves request → Link.Serves { link with
      id := ⟨id, .answer job⟩, buffer := ⟨content, .draft job⟩, resolver := phase } request) :
    Link.InTurn { link with
      id := ⟨id, .answer job⟩, buffer := ⟨content, .draft job⟩, resolver := phase } := by
  refine ⟨?_, fun same => absurd same differs, serving,
    inTurn.turns.of_busy busy rfl (fun _ _ own => by cases own) fun other _ => serves other⟩
  rintro call (same | same) <;> cases same

/-- `resolveIP` or `searchSymbols` completes the answer that it has drafted. -/
theorem Link.InTurn.completes (inTurn : link.InTurn) {content : Content} {job : Option ℕ}
    (place : link.resolver = .filling job ∨ ∃ adresses, link.resolver = .writing job adresses) :
    Link.InTurn { link with buffer := ⟨content, .answer job⟩, resolver := .committing job } := by
  have drafted : (link.keepRunning = true ∧ link.eventOut = false ∧ job = some link.calls) ∧
      link.id.origin = .answer job ∧ link.id.value ≠ .confirm := by
    have here := inTurn.serving
    rcases place with place | ⟨adresses, place⟩ <;> simp only [Serving, place] at here <;>
      obtain ⟨keepRunning, silent, working, same⟩ := here
    all_goals exact ⟨⟨keepRunning, silent, working⟩, by rw [same], by rw [same]; nofun⟩
  have asked : ∀ request, link.Serves request → request.handler ≠ .unloadSymbols ∧
      request.handler ≠ .loadSymbols ∧ link.eventIn = false := by
    intro request serves
    rcases place with place | ⟨adresses, place⟩ <;> simp only [Serves, place] at serves <;>
      have handler := serves.1 _ rfl
    all_goals exact ⟨by rw [← handler]; decide, by rw [← handler]; decide, serves.2⟩
  obtain ⟨⟨keepRunning, silent, working⟩, origin, differs⟩ := drafted
  refine ⟨?_, inTurn.confirms, ⟨running_of_keepRunning keepRunning, silent, working, ?_⟩,
    inTurn.turns.of_busy (by rcases place with place | ⟨_, place⟩ <;> rw [place] <;> rfl) rfl
      (fun _ foreign => foreign) fun other _ served => ?_⟩
  · exact fun call asked => inTurn.latest call (asked.imp_right fun answer => by cases answer)
  · intro call asked
    cases origin.symm.trans asked
  · obtain ⟨notUnload, notLoad, unsignalled⟩ := asked other served
    refine ⟨fun handler here => (by cases here), ?_, unsignalled⟩
    cases other with
    | lookupAddress | searchSymbol => exact ⟨congrArg Origin.answer working, differs⟩
    | unloadSymbols => exact absurd rfl notUnload
    | requestSymbols => exact absurd rfl notLoad

/-- A handler confirms its request. -/
theorem Link.InTurn.confirmed (inTurn : link.InTurn) {job : Option ℕ}
    (place : link.resolver = .unloading job ∨ link.resolver = .loaded job) :
    Link.InTurn { link with id := ⟨.confirm, .answer job⟩, resolver := .committing job } := by
  have serving : link.Running ∧ link.eventOut = false ∧ job = some link.calls := by
    have here := inTurn.serving
    rcases place with place | place <;> simp only [Serving, place] at here
    · exact ⟨running_of_keepRunning here.1, here.2⟩
    · exact here
  obtain ⟨running, silent, rfl⟩ := serving
  refine ⟨?_, fun _ => Or.inl rfl, ⟨running, silent, rfl, fun call => by simp⟩,
    inTurn.turns.of_busy (by rcases place with place | place <;> rw [place] <;> rfl) rfl
      (fun _ _ own => by cases own) fun other _ serves => ?_⟩
  · exact fun call asked => inTurn.latest call (asked.imp_left fun answer => by cases answer)
  · rcases place with place | place <;> simp only [Serves, place] at serves <;>
      refine ⟨fun handler here => (by cases here), ?_, serves.2⟩
    all_goals
      have handler := serves.1 _ rfl
      cases other with
      | unloadSymbols | requestSymbols => rfl
      | _ => cases handler

/-- The wait of `process_msgs` is signalled. -/
theorem Link.InTurn.hears (inTurn : link.InTurn) (place : link.resolver = .listening)
    (signalled : link.eventOut = true) :
    Link.InTurn { link with eventOut := false, resolver := .received } := by
  have ⟨latest, confirms, serving, turns⟩ := inTurn
  simp only [Serving, place] at serving
  refine ⟨latest, confirms, ⟨serving.1, rfl, serving.2 signalled⟩, ?_⟩
  unfold Turns at turns ⊢
  cases client : link.client <;>
    simp_all [AtRest, Serves, Beats, ResolverPhase.handler, OwnConfirm]

/-- The wait of `process_msgs` is given up, and waited for again. -/
theorem Link.InTurn.listensAgain (inTurn : link.InTurn) (place : link.resolver = .listening) :
    Link.InTurn { link with resolver := link.nextRound } := by
  have serving := inTurn.serving
  simp only [Serving, place] at serving
  have same : link.nextRound = link.resolver := by
    simp only [nextRound, serving.1, place, if_true]
  simp only [same]
  exact inTurn

/-- The message is handed to its handler. -/
theorem Link.InTurn.dispatches (inTurn : link.InTurn) (place : link.resolver = .received)
    (defined : link.dispatch = some next) : next.InTurn := by
  have serving := inTurn.serving
  simp only [Serving, place] at serving
  obtain ⟨keepRunning, silent, ⟨request, same⟩, origins⟩ := serving
  rw [dispatch_of_asked same] at defined
  obtain rfl := Option.some.inj defined
  refine inTurn.goesOn (by rw [place]; rfl) ⟨keepRunning, silent, ⟨request, same⟩, origins⟩
    fun other _ serves => ?_
  simp only [Serves, place] at serves
  have sameHandler := MsrCall.handler_of_id (same.symm.trans serves.2.1)
  exact ⟨fun handler here => (Option.some.inj here).symm.trans sameHandler, serves.2.2⟩

/-- The handler reads the message. -/
theorem Link.InTurn.reads (inTurn : link.InTurn) {handler : Handler}
    (place : link.resolver = .handling handler) :
    Link.InTurn { link with resolver := link.readRequest handler } := by
  have serving := inTurn.serving
  simp only [Serving, place] at serving
  obtain ⟨keepRunning, silent, asked⟩ := serving
  have job : link.buffer.origin.asked = some link.calls := by rw [asked.2.2]; rfl
  refine inTurn.goesOn (by rw [place]; rfl) ?_ fun other _ serves => ?_
  · cases handler <;> exact ⟨keepRunning, silent, job⟩
  · simp only [Serves, place] at serves
    have same := serves.1 handler rfl
    cases handler <;>
      exact ⟨fun found here => (Option.some.inj here).symm.trans same, serves.2⟩

/-- `resolveIP` starts its answer. -/
theorem Link.InTurn.draftsInfo (inTurn : link.InTurn) {job : Option ℕ}
    (place : link.resolver = .resolving job) : Link.InTurn { link with
      id := ⟨.ip, .answer job⟩
      buffer := ⟨.symbolInfo {}, .draft job⟩
      resolver := .filling job } := by
  have serving := inTurn.serving
  simp only [Serving, place] at serving
  obtain ⟨keepRunning, silent, working⟩ := serving
  refine inTurn.drafts (by rw [place]; rfl) (by decide) ⟨keepRunning, silent, working, rfl⟩
    fun other serves => ?_
  simp only [Serves, place] at serves
  exact serves

/-- `searchSymbols` starts its answer. -/
theorem Link.InTurn.draftsFound (inTurn : link.InTurn) {job : Option ℕ} (adresses : List ℕ)
    (place : link.resolver = .searching job) : Link.InTurn { link with
      id := ⟨.searchsyms, .answer job⟩
      buffer := ⟨.symbolResponse {}, .draft job⟩
      resolver := .writing job adresses } := by
  have serving := inTurn.serving
  simp only [Serving, place] at serving
  obtain ⟨keepRunning, silent, working⟩ := serving
  refine inTurn.drafts (by rw [place]; rfl) (by decide) ⟨keepRunning, silent, working, rfl⟩
    fun other serves => ?_
  simp only [Serves, place] at serves
  exact serves

/-- `searchSymbols` does not find the module, and leaves the client to its timeout. -/
theorem Link.InTurn.missesModule (inTurn : link.InTurn) {job : Option ℕ}
    (place : link.resolver = .searching job) :
    Link.InTurn { link with resolver := link.nextRound } := by
  have serving := inTurn.serving
  simp only [Serving, place] at serving
  obtain ⟨keepRunning, silent, working⟩ := serving
  have round : link.nextRound = .listening := by rw [nextRound, keepRunning, if_pos rfl]
  simp only [round]
  refine inTurn.goesOn (by rw [place]; rfl) ⟨keepRunning, fun signalled => ?_⟩
    fun other _ serves => ?_
  · exact absurd (silent.symm.trans signalled) (by decide)
  · simp only [Serves, place] at serves
    refine ⟨fun handler here => (by cases here), ?_⟩
    simp [silent, serves.2]

/-! ### Heartbeats -/

/-- `loadSymbols` tells the client to wait. -/
theorem Link.InTurn.putsWait (inTurn : link.InTurn) {job : Option ℕ}
    (place : link.resolver = .loading job) :
    Link.InTurn { link with id := ⟨.wait, .beat job⟩, resolver := .beating job } := by
  have ⟨latest, _, serving, turns⟩ := inTurn
  simp only [Serving, place] at serving
  refine ⟨?_, fun same => (by cases same), serving,
    turns.of_busy (by rw [place]; rfl) rfl (fun _ _ own => by cases own) fun other _ serves => ?_⟩
  · exact fun call asked => latest call (asked.imp_left fun answer => by cases answer)
  · simp only [Serves, place] at serves
    exact ⟨serves.1, rfl, serves.2⟩

/-- `loadSymbols` has loaded the symbols. -/
theorem Link.InTurn.loads (inTurn : link.InTurn) {job : Option ℕ}
    (place : link.resolver = .loading job) : Link.InTurn { link with resolver := .loaded job } := by
  have serving := inTurn.serving
  simp only [Serving, place] at serving
  obtain ⟨keepRunning, silent, working⟩ := serving
  refine inTurn.goesOn (by rw [place]; rfl)
    ⟨running_of_keepRunning keepRunning, silent, working⟩ fun other _ serves => ?_
  simp only [Serves, place] at serves
  exact serves

/-- A heartbeat is committed. -/
theorem Link.InTurn.commitsWait (inTurn : link.InTurn) {job : Option ℕ}
    (place : link.resolver = .beating job) :
    Link.InTurn { link with eventIn := true, resolver := .awaiting job } := by
  have serving := inTurn.serving
  simp only [Serving, place] at serving
  obtain ⟨keepRunning, silent, working⟩ := serving
  refine inTurn.goesOn (by rw [place]; rfl) ⟨keepRunning, fun signalled => ?_, working⟩
    fun other _ serves => ?_
  · exact absurd (silent.symm.trans signalled) (by decide)
  · simp only [Serves, place] at serves
    exact ⟨serves.1, by simpa [silent] using serves.2.1⟩

/-- The client's confirmation of a heartbeat arrives. -/
theorem Link.InTurn.hearsConfirm (inTurn : link.InTurn) {job : Option ℕ}
    (place : link.resolver = .awaiting job) (signalled : link.eventOut = true) :
    Link.InTurn { link with eventOut := false, resolver := .beaten job } := by
  have ⟨latest, confirms, serving, turns⟩ := inTurn
  simp only [Serving, place] at serving
  obtain ⟨keepRunning, attentive, working⟩ := serving
  refine ⟨latest, confirms, ⟨keepRunning, rfl, working⟩, ?_⟩
  unfold Turns at turns ⊢
  cases client : link.client <;>
    simp_all [AtRest, Serves, Beats, ResolverPhase.handler, ClientPhase.gone, OwnConfirm]

/-- The wait for a confirmation is given up, when the client has gone. -/
theorem Link.InTurn.missesConfirm (inTurn : link.InTurn) {job : Option ℕ}
    (place : link.resolver = .awaiting job) (unsignalled : ¬ link.eventOut = true)
    (gone : link.client.gone = true) :
    Link.InTurn { link with keepRunning := false, resolver := .loaded job } := by
  have ⟨latest, confirms, serving, turns⟩ := inTurn
  simp only [Serving, place] at serving
  obtain ⟨keepRunning, attentive, working⟩ := serving
  refine ⟨latest, confirms, ⟨fun _ => gone, by simpa using unsignalled, working⟩, ?_⟩
  unfold Turns at turns ⊢
  cases client : link.client <;> simp_all [ClientPhase.gone, OwnConfirm]

/-- A heartbeat that is confirmed lets `loadSymbols` go on. -/
theorem Link.InTurn.loadsOn (inTurn : link.InTurn) {job : Option ℕ}
    (place : link.resolver = .beaten job) : Link.InTurn { link with resolver := .loading job } := by
  have serving := inTurn.serving
  simp only [Serving, place] at serving
  obtain ⟨keepRunning, silent, working⟩ := serving
  refine inTurn.goesOn (by rw [place]; rfl) ⟨keepRunning, silent, working⟩ fun other _ serves => ?_
  simp only [Serves, place] at serves
  exact ⟨serves.1, serves.2.2⟩

/-- What is not a confirmation comes from a client that has gone. -/
theorem Link.InTurn.loadsAlone (inTurn : link.InTurn) {job : Option ℕ}
    (place : link.resolver = .beaten job) (differs : link.id.value ≠ .confirm) :
    Link.InTurn { link with keepRunning := false, resolver := .loaded job } := by
  have ⟨_, _, serving, turns⟩ := inTurn
  simp only [Serving, place] at serving
  obtain ⟨keepRunning, silent, working⟩ := serving
  have notWaiting : ∀ request, link.client = .waiting request → ¬ link.Serves request := by
    intro request _ serves
    simp only [Serves, place] at serves
    exact differs (congrArg Tagged.value serves.2.1)
  refine inTurn.goesOn (by rw [place]; rfl) ⟨fun _ => ?_, silent, working⟩
    fun other client serves => absurd serves (notWaiting other client)
  unfold Turns at turns
  cases client : link.client <;> simp_all [AtRest, Beats, ClientPhase.gone]

/-! ### The end of a round -/

/-- The answer is committed. -/
theorem Link.InTurn.commitsAnswer (inTurn : link.InTurn) {job : Option ℕ}
    (place : link.resolver = .committing job) :
    Link.InTurn { link with eventIn := true, resolver := link.nextRound } := by
  have serving := inTurn.serving
  simp only [Serving, place] at serving
  obtain ⟨running, silent, working, answering⟩ := serving
  refine inTurn.goesOn (by rw [place]; rfl) ?_ fun other client serves => ?_
  · cases keepRunning : link.keepRunning with
    | true => simp [Serving, nextRound, keepRunning, silent]
    | false =>
      have gone := running keepRunning
      simp only [Serving, nextRound, keepRunning]
      exact ⟨gone, silent, answering⟩
  · have keepRunning : link.keepRunning = true := by
      by_contra stopped
      have gone := running (by simpa using stopped)
      rw [client] at gone
      cases gone
    simp only [Serves, place] at serves
    simp only [nextRound, keepRunning, if_true]
    refine ⟨fun handler here => (by cases here), ?_⟩
    simp only [silent, Bool.false_eq_true, if_false]
    exact fun _ => serves.2.1

/-- The resolver says that it leaves. -/
theorem Link.InTurn.putsExit (inTurn : link.InTurn) (place : link.resolver = .stopping) :
    Link.InTurn { link with id := ⟨.exit, .exit⟩, resolver := .exiting } := by
  have ⟨latest, _, serving, turns⟩ := inTurn
  simp only [Serving, place] at serving
  obtain ⟨gone, silent, answering⟩ := serving
  refine ⟨?_, fun same => (by cases same), ⟨gone, silent⟩, turns.of_busy (by rw [place]; rfl) rfl
    (fun _ _ own => by cases own) fun other client serves => ?_⟩
  · exact fun call asked => latest call (asked.imp_left fun answer => by cases answer)
  · rw [client] at gone
    cases gone

/-- The resolver leaves. -/
theorem Link.InTurn.stops (inTurn : link.InTurn) (place : link.resolver = .exiting) :
    Link.InTurn { link with eventIn := true, resolver := .stopped } := by
  have serving := inTurn.serving
  simp only [Serving, place] at serving
  obtain ⟨gone, silent⟩ := serving
  refine inTurn.goesOn (by rw [place]; rfl) (fun signalled => ?_) fun other client serves => ?_
  · exact absurd (silent.symm.trans signalled) (by decide)
  · rw [client] at gone
    cases gone

/-- The resolver's steps keep the two sides in turn. -/
theorem Link.InTurn.resolverStep (inTurn : link.InTurn) {move : ResolverMove}
    (turn : TakesTurns ⟨link, .resolver move, next, none⟩)
    (defined : link.resolverStep move = some next) : next.InTurn := by
  unfold Link.resolverStep at defined
  split at defined
  · next place =>
    obtain ⟨signalled, same⟩ := Option.ite_none_right_eq_some.mp defined
    exact Option.some.inj same ▸ inTurn.hears place signalled
  · next place =>
    obtain ⟨-, same⟩ := Option.ite_none_left_eq_some.mp defined
    exact Option.some.inj same ▸ inTurn.listensAgain place
  · next place => exact inTurn.dispatches place defined
  · next place => exact Option.some.inj defined ▸ inTurn.reads place
  -- `resolveIP` and `searchSymbols`
  · next place => exact Option.some.inj defined ▸ inTurn.draftsInfo place
  · next place => exact Option.some.inj defined ▸ inTurn.completes (Or.inl place)
  · next place => exact Option.some.inj defined ▸ inTurn.draftsFound _ place
  · next place => exact Option.some.inj defined ▸ inTurn.missesModule place
  · next place => exact Option.some.inj defined ▸ inTurn.completes (Or.inr ⟨_, place⟩)
  -- `unloadSymbols` and the end of `loadSymbols`
  · next place => exact Option.some.inj defined ▸ inTurn.confirmed (Or.inl place)
  · next place => exact Option.some.inj defined ▸ inTurn.confirmed (Or.inr place)
  -- `loadSymbols` and `waitHeartbeat`
  · next place => exact Option.some.inj defined ▸ inTurn.putsWait place
  · next place => exact Option.some.inj defined ▸ inTurn.loads place
  · next place => exact Option.some.inj defined ▸ inTurn.commitsWait place
  · next place =>
    obtain ⟨signalled, same⟩ := Option.ite_none_right_eq_some.mp defined
    exact Option.some.inj same ▸ inTurn.hearsConfirm place signalled
  · next place =>
    obtain ⟨unsignalled, same⟩ := Option.ite_none_left_eq_some.mp defined
    have gone : link.client.gone = true := turn (by rw [place]; exact fun same => by cases same)
    exact Option.some.inj same ▸ inTurn.missesConfirm place unsignalled gone
  · next place =>
    split at defined
    · exact Option.some.inj defined ▸ inTurn.loadsOn place
    · next differs => exact Option.some.inj defined ▸ inTurn.loadsAlone place differs
  -- The round ends, or the resolver leaves.
  · next place => exact Option.some.inj defined ▸ inTurn.commitsAnswer place
  · next place => exact Option.some.inj defined ▸ inTurn.putsExit place
  · next place => exact Option.some.inj defined ▸ inTurn.stops place
  · cases defined

theorem start_attached (info : BaseInfo) : resolverLink.start (Link.attached info) := ⟨info, rfl⟩

theorem Link.inTurn_attached (info : BaseInfo) : (Link.attached info).InTurn where
  latest := by rintro call (same | same) <;> cases same
  confirms := fun same => by cases same
  serving := ⟨rfl, fun signalled => by cases signalled⟩
  turns := fun own => by cases own

theorem inTurn_of_reaches (reaches : resolverLink.Reaches past link)
    (turns : Always (fun _ => TakesTurns) past) : link.InTurn := by
  refine Reaches.induct (fun _ link => link.InTurn) ?_ ?_ reaches turns
  · rintro link ⟨info, rfl⟩
    exact Link.inTurn_attached info
  · intro past link event next output _ defined turn inTurn
    cases event with
    | client move => exact inTurn.clientStep turn defined
    | resolver move =>
      obtain ⟨stepped, same, both⟩ := Option.map_eq_some_iff.mp defined
      obtain ⟨rfl, rfl⟩ := Prod.mk.inj both
      exact inTurn.resolverStep turn same

/-- While the two sides take turns, a call returns its answer or fails. -/
theorem Link.InTurn.answers (inTurn : link.InTurn) {move : ClientMove} {reply : Reply}
    (defined : link.clientStep move = some (next, some reply)) : reply.Answers link.calls := by
  obtain ⟨latest, confirms, serving, turns⟩ := inTurn
  have final : ∀ request, link.client = .received request → request.handler ≠ .loadSymbols →
      link.Final request := by
    intro request place handler
    simp only [Turns, place] at turns
    rcases turns with ⟨beats, -⟩ | ⟨-, -, -, final⟩
    · exact absurd beats.2.2.1 handler
    · exact final
  unfold Link.clientStep at defined
  split at defined <;> (try split at defined) <;>
    simp only [Option.some.injEq, Prod.mk.injEq, reduceCtorEq, and_false] at defined
  · obtain ⟨-, rfl⟩ := defined
    trivial
  · obtain ⟨-, rfl⟩ := defined
    trivial
  · next place =>
    obtain ⟨-, rfl⟩ := defined
    exact (final _ place fun same => by cases same).1
  · next place =>
    obtain ⟨-, rfl⟩ := defined
    exact (final _ place fun same => by cases same).1
  · next place =>
    obtain ⟨-, rfl⟩ := defined
    simp only [Turns, place] at turns
    exact fun same => (confirms same).resolve_right turns

/-- The resolver is in a handler that has read its request. -/
def ResolverPhase.working : ResolverPhase → Bool
  | listening | received | handling _ | stopping | exiting | stopped => false
  | _ => true

/-- A step that puts something into the block is one of a handler that has read its request, or
of a resolver that leaves. -/
theorem Link.puts_of_resolverStep {move : ResolverMove}
    (defined : link.resolverStep move = some next) :
    (next.id = link.id ∧ next.buffer = link.buffer) ∨ link.resolver.working = true ∨
      link.resolver = .stopping ∧ next.buffer = link.buffer := by
  unfold Link.resolverStep dispatch at defined
  split at defined <;> (try split at defined) <;>
    simp only [Option.some.injEq, reduceCtorEq] at defined <;> subst defined <;>
    simp_all [ResolverPhase.working]

theorem Link.Serving.job (serving : link.Serving) (working : link.resolver.working = true) :
    link.resolver.job = some link.calls := by
  unfold Serving at serving
  cases place : link.resolver <;> simp_all [ResolverPhase.working, ResolverPhase.job]

/-- While the two sides take turns, the resolver puts nothing over a request it has not read. -/
theorem Link.InTurn.keepsRequests (inTurn : link.InTurn) {move : ResolverMove}
    (defined : link.resolverStep move = some next) :
    KeepsRequests ⟨link, .resolver move, next, none⟩ := by
  intro _ call _
  rcases puts_of_resolverStep defined with ⟨sameId, sameBuffer⟩ | working | ⟨stopping, sameBuffer⟩
  · exact ⟨fun _ differs => absurd sameId differs, fun _ differs => absurd sameBuffer differs⟩
  · have job := inTurn.serving.job working
    exact ⟨fun asked _ => by rw [inTurn.latest call (Or.inl asked)]; exact job,
      fun asked _ => by rw [inTurn.latest call (Or.inr asked)]; exact job⟩
  · have serving := inTurn.serving
    simp only [Serving, stopping] at serving
    exact ⟨fun asked _ => absurd asked (serving.2.2 call),
      fun _ differs => absurd sameBuffer differs⟩

/-! ### Pairing -/

/-- Where each call starts with nothing under way and no heartbeat is given up in between, requests
and answers stay paired. -/
theorem answers_paired (reaches : resolverLink.Reaches past link)
    (turns : Always (fun _ => TakesTurns) past) : Always (fun _ => Paired) past := by
  intro front step initial
  obtain ⟨before, defined⟩ := reaches.step initial
  have inTurn := inTurn_of_reaches before
    (turns.before ((List.prefix_append _ _).trans initial))
  obtain ⟨pre, event, post, output⟩ := step
  cases event with
  | client move =>
    refine ⟨?_, fun _ _ same => (by cases same)⟩
    rintro reply rfl
    exact inTurn.answers defined
  | resolver move =>
    obtain ⟨next, same, both⟩ := Option.map_eq_some_iff.mp defined
    obtain ⟨rfl, rfl⟩ := Prod.mk.inj both
    exact ⟨fun reply nothing => (by cases nothing), inTurn.keepsRequests same⟩

/-- A lookup that is answered, and a request for symbols that is told to wait once. -/
def twoCalls : List LinkEvent :=
  [.client (.call (.lookupAddress 16)), .client .proceed, .resolver .proceed, .resolver .proceed,
    .resolver .proceed, .resolver .proceed, .resolver (.resolved { function := "Main" }),
    .resolver .proceed, .client .proceed, .client .proceed,
    .client (.call (.requestSymbols 256 64 "app.dll")), .client .proceed, .resolver .proceed,
    .resolver .proceed, .resolver .proceed, .resolver .pending, .resolver .proceed,
    .client .proceed, .client .proceed, .client .proceed, .client .proceed, .resolver .proceed,
    .resolver .proceed, .resolver .ready, .resolver .proceed, .resolver .proceed, .client .proceed,
    .client .proceed, .client .proceed]

instance : Decidable (TakesTurns step) :=
  match step with
  | ⟨pre, .client (.call _), _, _⟩ => inferInstanceAs (Decidable pre.AtRest)
  | ⟨pre, .client .timeout, _, _⟩ =>
    inferInstanceAs (Decidable (pre.id ≠ ⟨.confirm, .confirm pre.calls⟩))
  | ⟨pre, .resolver .timeout, _, _⟩ =>
    inferInstanceAs (Decidable (pre.resolver ≠ .listening → pre.client.gone = true))
  | ⟨_, .client .proceed, _, _⟩ | ⟨_, .resolver .proceed, _, _⟩
  | ⟨_, .resolver (.resolved _), _, _⟩ | ⟨_, .resolver (.found _), _, _⟩
  | ⟨_, .resolver .missing, _, _⟩ | ⟨_, .resolver .pending, _, _⟩
  | ⟨_, .resolver .ready, _, _⟩ => isTrue trivial

theorem answers_paired_two_calls :
    let past := (resolverLink.ran (Link.attached ⟨7, "clr.dll"⟩) twoCalls).1
    past.length = 29 ∧ Always (fun _ => Paired) past :=
  ⟨by decide, answers_paired (reaches_ran (start_attached _) twoCalls) (by decide)⟩

/-- The first lookup gives up its wait, and its late answer signals the wait of the second one,
which returns what is in the buffer: its own request. -/
theorem late_answer_mistaken :
    ¬ ∀ (link : Link) (past : List LinkStep), resolverLink.Reaches past link →
      Always (fun _ => Paired) past := by
  intro always
  let events : List LinkEvent :=
    [.client (.call (.lookupAddress 16)), .client .proceed, .resolver .proceed, .resolver .proceed,
      .resolver .proceed, .client .timeout, .resolver .proceed,
      .resolver (.resolved { function := "Main" }), .resolver .proceed,
      .client (.call (.lookupAddress 32)), .client .proceed, .client .proceed, .client .proceed]
  let past := (resolverLink.ran (Link.attached ⟨7, "clr.dll"⟩) events).1
  have paired := always _ past (reaches_ran (start_attached _) events)
  have returned : (past.get ⟨12, by decide⟩).output = some (.got ⟨.ip 32, .request 2⟩) := by decide
  have answers : Origin.request 2 = .answer _ :=
    (always_iff_forall_index.mp paired ⟨12, by decide⟩).1 _ returned
  cases answers

end Drace
