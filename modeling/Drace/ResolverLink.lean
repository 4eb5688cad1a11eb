/-
This file models the link between the client and the resolver of managed symbols.

Both sides share one block of memory with a message id and a buffer, and two
events that stay signalled until a wait consumes them. A call of the client puts
its request into the block, signals the resolver and waits. The resolver waits in
`process_msgs`, and its handlers read the block and put their answer there. Every
access to the block, every signal and every wait is a step of its own, and the
steps of the two sides come in any order.

What is put into the block carries a tag that says by whom and for which call. No
step looks at a tag. The answers of the debugger are part of the steps.
-/

import Drace.Machine

namespace Drace

/-! ### The shared block -/

/-- Protocol message ids. -/
inductive SMDataID where
  | ip | symbol | stack | ready | connect | attach | attached | loadsyms | unloadsyms | searchsyms
  | wait | confirm | exit
  deriving DecidableEq

/-- Resolved symbol information. -/
structure SymbolInfo where
  module : String := ""
  function : String := ""
  path : String := ""
  line : ℕ := 0
  offset : ℕ := 0
  deriving DecidableEq

/-- Basic information for attaching. -/
structure BaseInfo where
  pid : ℕ
  path : String
  deriving DecidableEq

/-- A request for the symbols of a module. -/
structure SymbolRequest where
  base : ℕ := 0
  size : ℕ := 0
  full : Bool := false
  path : String := ""
  pattern : String := ""
  deriving DecidableEq

structure SymbolResponse where
  size : ℕ := 0
  adresses : List ℕ := []
  deriving DecidableEq

/-- What was last put at the begin of the buffer. -/
inductive Content where
  | baseInfo (info : BaseInfo)
  | ip (pc : ℕ)
  | symbolRequest (request : SymbolRequest)
  | symbolInfo (info : SymbolInfo)
  | symbolResponse (response : SymbolResponse)
  deriving DecidableEq

/-- By whom and for which call something was put into the block. A handler works for the call
whose request it has read, if it has read one. -/
inductive Origin where
  /-- From attaching, before the calls. -/
  | attach
  | request (call : ℕ)
  /-- Put by the client when it is told to wait. -/
  | confirm (call : ℕ)
  /-- Put by the resolver to tell the client to wait. -/
  | beat (job : Option ℕ)
  /-- An answer of the resolver that is not filled in yet. -/
  | draft (job : Option ℕ)
  | answer (job : Option ℕ)
  | exit
  deriving DecidableEq

/-- The call whose request this is. -/
def Origin.asked : Origin → Option ℕ
  | .request call => some call
  | _ => none

structure Tagged (Value : Type) where
  value : Value
  origin : Origin
  deriving DecidableEq

/-! ### The two sides -/

/-- A call of the client with its arguments. -/
inductive MsrCall where
  | lookupAddress (pc : ℕ)
  | searchSymbol (base size : ℕ) (path pattern : String) (full : Bool)
  | unloadSymbols (modStart : ℕ)
  | requestSymbols (base size : ℕ) (path : String)
  deriving DecidableEq

namespace MsrCall

/-- The message id of a request. -/
def id : MsrCall → SMDataID
  | lookupAddress _ => .ip
  | searchSymbol .. => .searchsyms
  | unloadSymbols _ => .unloadsyms
  | requestSymbols .. => .loadsyms

/-- A path as far as it fits its array. -/
def arrayed (path : String) : String := String.ofList (path.toList.take 256)

/-- The buffer of a request. -/
def content : MsrCall → Content
  | lookupAddress pc => .ip pc
  | searchSymbol base size path pattern full =>
    .symbolRequest { base, size, full, path := arrayed path, pattern }
  | unloadSymbols modStart => .symbolRequest { base := modStart }
  | requestSymbols base size path => .symbolRequest { base, size, path := arrayed path }

end MsrCall

/-- Where the client is in a call. -/
inductive ClientPhase where
  | idle
  /-- The request is in the block. -/
  | wrote (request : MsrCall)
  /-- In `wait_receive`. -/
  | waiting (request : MsrCall)
  /-- The wait was signalled. -/
  | received (request : MsrCall)
  /-- In `wait_heart_beat`, told to wait. -/
  | confirming (request : MsrCall)
  | confirmed (request : MsrCall)
  /-- About to compare the message id with `CONFIRM`. -/
  | finishing (request : MsrCall)
  deriving DecidableEq

/-- What a call of the client returns. -/
inductive Reply where
  /-- The empty result, after a wait that timed out. -/
  | timedOut
  /-- What is in the buffer. -/
  | got (content : Tagged Content)
  /-- Whether the message id is `CONFIRM`. -/
  | checked (id : Tagged SMDataID)
  deriving DecidableEq

/-- The handlers of the requests. -/
inductive Handler where
  | resolveIP | loadSymbols | unloadSymbols | searchSymbols
  deriving DecidableEq

/-- Where the resolver is in `process_msgs`. -/
inductive ResolverPhase where
  /-- In the wait of `process_msgs`. -/
  | listening
  /-- The wait was signalled. -/
  | received
  /-- At the begin of a handler. -/
  | handling (handler : Handler)
  /-- In `resolveIP`, with the address read, and with an empty answer in the block. -/
  | resolving (job : Option ℕ)
  | filling (job : Option ℕ)
  /-- In `searchSymbols`, before and after the search. -/
  | searching (job : Option ℕ)
  | writing (job : Option ℕ) (adresses : List ℕ)
  /-- In `unloadSymbols`. -/
  | unloading (job : Option ℕ)
  /-- In the loop of `waitHeartbeat`, waiting for the symbols. -/
  | loading (job : Option ℕ)
  /-- `WAIT` is in the block. -/
  | beating (job : Option ℕ)
  /-- Waiting for the client to confirm. -/
  | awaiting (job : Option ℕ)
  /-- That wait was signalled. -/
  | beaten (job : Option ℕ)
  /-- In `loadSymbols`, with the symbols there. -/
  | loaded (job : Option ℕ)
  /-- The answer is in the block. -/
  | committing (job : Option ℕ)
  /-- Behind `process_msgs`, where the driver's destructor says `EXIT`. -/
  | stopping
  | exiting
  | stopped
  deriving DecidableEq

/-- The call a handler works for. -/
def ResolverPhase.job : ResolverPhase → Option ℕ
  | resolving job | filling job | searching job | writing job _ | unloading job | loading job
  | beating job | awaiting job | beaten job | loaded job | committing job => job
  | _ => none

/-- The client, the resolver and what they share. -/
structure Link where
  /-- The number of calls made so far. -/
  calls : ℕ := 0
  client : ClientPhase := .idle
  resolver : ResolverPhase := .listening
  keepRunning : Bool := true
  /-- The event that the client waits for. -/
  eventIn : Bool := false
  /-- The event that the resolver waits for. -/
  eventOut : Bool := false
  id : Tagged SMDataID
  buffer : Tagged Content
  deriving DecidableEq

/-! ### Steps -/

/-- What the client does next: begin a call, go on in it, or give up a wait. -/
inductive ClientMove where
  | call (request : MsrCall)
  | proceed
  | timeout

/-- What the resolver does next, with what the debugger tells it. -/
inductive ResolverMove where
  | proceed
  | timeout
  | resolved (info : SymbolInfo)
  | found (adresses : List ℕ)
  | missing
  /-- The symbols are not loaded after a second. -/
  | pending
  | ready

namespace Link

variable (link : Link)

/-- A step of the client; a wait goes on only if its event is signalled, and is given up only if
it is not. -/
def clientStep (move : ClientMove) : Option (Link × Option Reply) :=
  match link.client, move with
  | .idle, .call request =>
    let call := link.calls + 1
    some ({ link with
      calls := call
      client := .wrote request
      id := ⟨request.id, .request call⟩
      buffer := ⟨request.content, .request call⟩ }, none)
  | .wrote request, .proceed =>
    some ({ link with eventOut := true, client := .waiting request }, none)
  | .waiting request, .proceed =>
    if link.eventIn then some ({ link with eventIn := false, client := .received request }, none)
    else none
  | .waiting (.lookupAddress _), .timeout | .waiting (.searchSymbol ..), .timeout =>
    if link.eventIn then none else some ({ link with client := .idle }, some .timedOut)
  | .waiting request, .timeout =>
    if link.eventIn then none else some ({ link with client := .finishing request }, none)
  | .received (.lookupAddress _), .proceed | .received (.searchSymbol ..), .proceed =>
    some ({ link with client := .idle }, some (.got link.buffer))
  | .received (.unloadSymbols modStart), .proceed =>
    some ({ link with client := .finishing (.unloadSymbols modStart) }, none)
  | .received request, .proceed =>
    if link.id.value = .wait then some ({ link with client := .confirming request }, none)
    else some ({ link with client := .finishing request }, none)
  | .confirming request, .proceed =>
    some ({ link with id := ⟨.confirm, .confirm link.calls⟩, client := .confirmed request }, none)
  | .confirmed request, .proceed =>
    some ({ link with eventOut := true, client := .waiting request }, none)
  | .finishing _, .proceed => some ({ link with client := .idle }, some (.checked link.id))
  | _, _ => none

/-- Where the resolver goes from the end of a round of `process_msgs`. -/
def nextRound : ResolverPhase := if link.keepRunning then .listening else .stopping

/-- Start the handler of a message. The ids of the handlers left out (`CONNECT`, `ATTACH`, `STACK`
and `EXIT`) are not put by the calls modelled here. -/
def dispatch : Option Link :=
  match link.id.value with
  | .ip => some { link with resolver := .handling .resolveIP }
  | .loadsyms => some { link with resolver := .handling .loadSymbols }
  | .unloadsyms => some { link with resolver := .handling .unloadSymbols }
  | .searchsyms => some { link with resolver := .handling .searchSymbols }
  | .confirm => some { link with resolver := link.nextRound }
  | .symbol | .ready | .attached | .wait =>
    some { link with keepRunning := false, resolver := .stopping }
  | .connect | .attach | .stack | .exit => none

/-- A handler reads its request. -/
def readRequest (handler : Handler) : ResolverPhase :=
  let job := link.buffer.origin.asked
  match handler with
  | .resolveIP => .resolving job
  | .loadSymbols => .loading job
  | .unloadSymbols => .unloading job
  | .searchSymbols => .searching job

/-- A step of the resolver. -/
def resolverStep (move : ResolverMove) : Option Link :=
  match link.resolver, move with
  | .listening, .proceed =>
    if link.eventOut then some { link with eventOut := false, resolver := .received } else none
  | .listening, .timeout =>
    if link.eventOut then none else some { link with resolver := link.nextRound }
  | .received, .proceed => link.dispatch
  | .handling handler, .proceed => some { link with resolver := link.readRequest handler }
  | .resolving job, .proceed =>
    some { link with
      id := ⟨.ip, .answer job⟩
      buffer := ⟨.symbolInfo {}, .draft job⟩
      resolver := .filling job }
  | .filling job, .resolved info =>
    some { link with buffer := ⟨.symbolInfo info, .answer job⟩, resolver := .committing job }
  | .searching job, .found adresses =>
    some { link with
      id := ⟨.searchsyms, .answer job⟩
      buffer := ⟨.symbolResponse {}, .draft job⟩
      resolver := .writing job adresses }
  | .searching _, .missing => some { link with resolver := link.nextRound }
  | .writing job adresses, .proceed =>
    let response : SymbolResponse := { size := min adresses.length 64, adresses }
    some { link with
      buffer := ⟨.symbolResponse response, .answer job⟩
      resolver := .committing job }
  | .unloading job, .proceed | .loaded job, .proceed =>
    some { link with id := ⟨.confirm, .answer job⟩, resolver := .committing job }
  | .loading job, .pending =>
    some { link with id := ⟨.wait, .beat job⟩, resolver := .beating job }
  | .loading job, .ready => some { link with resolver := .loaded job }
  | .beating job, .proceed => some { link with eventIn := true, resolver := .awaiting job }
  | .awaiting job, .proceed =>
    if link.eventOut then some { link with eventOut := false, resolver := .beaten job } else none
  | .awaiting job, .timeout =>
    if link.eventOut then none else some { link with keepRunning := false, resolver := .loaded job }
  | .beaten job, .proceed =>
    if link.id.value = .confirm then some { link with resolver := .loading job }
    else some { link with keepRunning := false, resolver := .loaded job }
  | .committing _, .proceed => some { link with eventIn := true, resolver := link.nextRound }
  | .stopping, .proceed => some { link with id := ⟨.exit, .exit⟩, resolver := .exiting }
  | .exiting, .proceed => some { link with eventIn := true, resolver := .stopped }
  | _, _ => none

end Link

/-- A step of either side. -/
inductive LinkEvent where
  | client (move : ClientMove)
  | resolver (move : ResolverMove)

/-- The link after the resolver has attached. -/
def Link.attached (info : BaseInfo) : Link where
  id := ⟨.attached, .attach⟩
  buffer := ⟨.baseInfo info, .attach⟩

/-- The link as a machine; the end of a call puts out what it returns. -/
def resolverLink : Machine Link LinkEvent (Option Reply) where
  start link := ∃ info, link = Link.attached info
  call link
    | .client move => link.clientStep move
    | .resolver move => (link.resolverStep move).map (·, none)

end Drace
