import DddService.Basic
import DddService.Lib.Coroutine
import DddService.Logger

/- `app/middleware.py`: every request passes through `LoggingMiddleware`, which puts its own
   `receive` and `send` between the app and the server. For any app and any server, the two
   exchange with it what they would without it, message by message, as long as no message
   makes a wrapper raise; and when the app returns, one line says what was exchanged, unless
   the client did not say what it is (`logging_middleware`). -/
namespace DddService
open Hoare Coroutine
open JsonText (Value)

/-! ## Apps and servers -/

/-- The bytes of a body. -/
abbrev Bytes := List UInt8

/-- An ASGI message: the keys that the middleware reads, where it has them, and the others. -/
structure AsgiMessage where
  type : String
  body : Option Bytes
  status : Option Nat
  others : List (String × Bytes)

abbrev TokenFields := List (Text × Value)

/-- What an app does with its `receive` and `send`, to any answer; and it may set the token
    info. -/
inductive AsgiApp where
  | done (raised : Option Exc)
  | receive (next : Except Exc AsgiMessage → AsgiApp)
  | send (message : AsgiMessage) (next : Option Exc → AsgiApp)
  | setTokenInfo (tokenInfo : TokenFields) (next : AsgiApp)

/-- A server, which answers to `receive` and `send` as it likes. -/
structure AsgiServer (σ : Type) where
  receive : EStateM Exc σ AsgiMessage
  send : AsgiMessage → EStateM Exc σ Unit

/-- What an app is given. -/
structure AsgiInterface (τ : Type) where
  receive : EStateM Exc τ AsgiMessage
  send : AsgiMessage → EStateM Exc τ Unit
  setTokenInfo : TokenFields → τ → τ

def AsgiApp.run {τ : Type} (i : AsgiInterface τ) : AsgiApp → EStateM Exc τ Unit
  | .done raised, s => match raised with
    | none => .ok () s
    | some e => .error e s
  | .receive next, s => match i.receive s with
    | .ok message s' => (next (.ok message)).run i s'
    | .error e s' => (next (.error e)).run i s'
  | .send message next, s => match i.send message s with
    | .ok () s' => (next none).run i s'
    | .error e s' => (next (some e)).run i s'
  | .setTokenInfo tokenInfo next, s => next.run i (i.setTokenInfo tokenInfo s)

section
variable {τ : Type} {i : AsgiInterface τ} {s s' : τ} {message : AsgiMessage} {e : Exc}

theorem AsgiApp.run_receive_ok {k : Except Exc AsgiMessage → AsgiApp}
    (h : i.receive s = .ok message s') :
    (AsgiApp.receive k).run i s = (k (.ok message)).run i s' := by
  rw [AsgiApp.run, h]

theorem AsgiApp.run_receive_error {k : Except Exc AsgiMessage → AsgiApp}
    (h : i.receive s = .error e s') :
    (AsgiApp.receive k).run i s = (k (.error e)).run i s' := by
  rw [AsgiApp.run, h]

theorem AsgiApp.run_send_ok {k : Option Exc → AsgiApp} (h : i.send message s = .ok () s') :
    (AsgiApp.send message k).run i s = (k none).run i s' := by
  rw [AsgiApp.run, h]

theorem AsgiApp.run_send_error {k : Option Exc → AsgiApp}
    (h : i.send message s = .error e s') :
    (AsgiApp.send message k).run i s = (k (some e)).run i s' := by
  rw [AsgiApp.run, h]

end

/-- What was received, or given to the server. -/
inductive Exchange where
  | received (message : AsgiMessage)
  | sent (message : AsgiMessage)

/-- A server with the context of the request, and what was exchanged. -/
structure Connection (σ : Type) where
  server : σ
  tokenInfo : Option TokenFields
  exchange : List Exchange

section
variable {σ : Type}

def Connection.record (c : Connection σ) (e : Exchange) : Connection σ :=
  { c with exchange := c.exchange ++ [e] }

namespace AsgiServer
variable (srv : AsgiServer σ)

def receiveOn : EStateM Exc (Connection σ) AsgiMessage := fun c =>
  match srv.receive c.server with
  | .ok message s => .ok message ({ c with server := s }.record (.received message))
  | .error e s => .error e { c with server := s }

def sendOn (message : AsgiMessage) : EStateM Exc (Connection σ) Unit := fun c =>
  let c := c.record (.sent message)
  match srv.send message c.server with
  | .ok () s => .ok () { c with server := s }
  | .error e s => .error e { c with server := s }

/-- The app on the server, with nothing between them. -/
def interface : AsgiInterface (Connection σ) where
  receive := srv.receiveOn
  send := srv.sendOn
  setTokenInfo tokenInfo c := { c with tokenInfo := some tokenInfo }

end AsgiServer

end

/-! ## The middleware -/

/-- `extra_info` -/
structure ExtraInfo where
  body : Value
  status : Option Nat
  resp : Value

def ExtraInfo.init : ExtraInfo := ⟨.obj [], none, .obj []⟩

/-- What the middleware reads of a request. -/
structure AsgiRequest where
  method : Text
  path : Text
  client : Option Text
  httpVersion : Text
  userAgent : Option Text

/-- What `log_request` gives to the logger, under the token info that the formatter reads. -/
structure RequestLine where
  remoteAddr : Text
  method : Text
  url : Text
  protocol : Text
  status : Option Nat
  userAgent : Text
  latency : Option Text
  request : Value
  response : Value
  tokenInfo : Option TokenFields

/-- The outside world of a request: `json.loads` of a decoded body, and the texts of the times
    since the start, if that was set. -/
structure LoggingMiddleware where
  loads : Bytes → Except Exc Value
  latency : Option Text
  noLogPostUrls : List Text

namespace LoggingMiddleware

/-- `except (json.JSONDecodeError, UnicodeDecodeError)` -/
def IsDecodeError (e : Exc) : Prop :=
  e = .exception "JSONDecodeError" ∨ e = .exception "UnicodeDecodeError"

instance : DecidablePred IsDecodeError := fun _ => inferInstanceAs (Decidable (_ ∨ _))

variable {σ : Type} (m : LoggingMiddleware)

/-- `json.loads(message["body"].decode("utf-8"))` -/
def bodyOf (message : AsgiMessage) : Except Exc Value :=
  match message.body with
  | none => .error (.exception "KeyError")
  | some body => m.loads body

/-- A `try` over `bodyOf`: what it sets, or that it raises. -/
def setFrom (message : AsgiMessage) (set : Value → ExtraInfo) (x : ExtraInfo) :
    Except Exc ExtraInfo :=
  match m.bodyOf message with
  | .ok v => .ok (set v)
  | .error e => if IsDecodeError e then .ok x else .error e

/-- What `receive_wrapper` does after `receive`. -/
def noteReceived (message : AsgiMessage) (x : ExtraInfo) : Except Exc ExtraInfo :=
  if message.type = "http.request" then m.setFrom message (fun v => { x with body := v }) x
  else .ok x

/-- What `send_wrapper` does before `send`. -/
def noteSent (message : AsgiMessage) (x : ExtraInfo) : Except Exc ExtraInfo := do
  let x ← if message.type = "http.response.start" then match message.status with
      | none => .error (.exception "KeyError")
      | some status => .ok { x with status := some status }
    else .ok x
  if message.type = "http.response.body" then m.setFrom message (fun v => { x with resp := v }) x
  else .ok x

/-- `receive_wrapper` -/
def receiveWrapper (srv : AsgiServer σ) : EStateM Exc (Connection σ × ExtraInfo) AsgiMessage :=
  fun (c, x) => match srv.receiveOn c with
  | .error e c' => .error e (c', x)
  | .ok message c' => match m.noteReceived message x with
    | .ok x' => .ok message (c', x')
    | .error e => .error e (c', x)

/-- `send_wrapper` -/
def sendWrapper (srv : AsgiServer σ) (message : AsgiMessage) :
    EStateM Exc (Connection σ × ExtraInfo) Unit :=
  fun (c, x) => match m.noteSent message x with
  | .error e => .error e (c, x)
  | .ok x' => match srv.sendOn message c with
    | .ok () c' => .ok () (c', x')
    | .error e c' => .error e (c', x')

def interface (srv : AsgiServer σ) : AsgiInterface (Connection σ × ExtraInfo) where
  receive := m.receiveWrapper srv
  send := m.sendWrapper srv
  setTokenInfo tokenInfo s := ({ s.1 with tokenInfo := some tokenInfo }, s.2)

/-- `log_request`: the line, or what it raises. -/
def logRequest (request : AsgiRequest) (x : ExtraInfo) (tokenInfo : Option TokenFields) :
    Except Exc RequestLine :=
  match request.userAgent with
  | none => .error (.exception "KeyError")
  | some userAgent =>
    let logged := request.method = "POST".toList ∧ request.path ∉ m.noLogPostUrls
    let line (response : Value) : RequestLine :=
      { remoteAddr := request.client.getD "unknown".toList
        method := request.method
        url := request.path
        protocol := "HTTP/".toList ++ request.httpVersion
        status := x.status
        userAgent := userAgent
        latency := m.latency
        request := x.body
        response := response
        tokenInfo := tokenInfo }
    if logged then .ok (line x.resp)
    else match x.status with
      | none => .error (.typeError "'>=' not supported between instances of 'NoneType' and 'int'")
      | some status => .ok (line (if 400 ≤ status then x.resp else .obj []))

/-- `__call__` for a request: the connection, and the lines that were logged. -/
def call (request : AsgiRequest) (srv : AsgiServer σ) (app : AsgiApp) :
    EStateM Exc (Connection σ × List RequestLine) Unit := fun (c, lines) =>
  match app.run (m.interface srv) (c, .init) with
  | .error e (c', _) => .error e (c', lines)
  | .ok () (c', x) => match m.logRequest request x c'.tokenInfo with
    | .error e => .error e (c', lines)
    | .ok line => .ok () ({ c' with tokenInfo := none }, lines ++ [line])

end LoggingMiddleware

/-! ## What was exchanged -/

/-- The last value that `f` reads off an exchange. -/
def lastRead {α : Type} (f : Exchange → Option α) (es : List Exchange) : Option α :=
  (es.filterMap f).getLast?

theorem lastRead_append {α : Type} (f : Exchange → Option α) (es : List Exchange) (e : Exchange) :
    lastRead f (es ++ [e]) = (f e).or (lastRead f es) := by
  unfold lastRead
  rw [List.filterMap_append]
  cases hf : f e with
  | none =>
    rw [List.filterMap_cons_none hf, List.filterMap_nil, List.append_nil]
    rfl
  | some a =>
    rw [List.filterMap_cons_some hf, List.filterMap_nil, List.getLast?_concat]
    rfl

/-- The status of a response that starts. -/
def Exchange.status? : Exchange → Option Nat
  | .sent message => if message.type = "http.response.start" then message.status else none
  | .received _ => none

namespace LoggingMiddleware
variable {σ : Type} (m : LoggingMiddleware)

/-- The value of a part of the request's body that is JSON by itself. -/
def requestValue? : Exchange → Option Value
  | .received message => if message.type = "http.request" then (m.bodyOf message).toOption else none
  | .sent _ => none

/-- The value of a part of the response's body that is JSON by itself. -/
def responseValue? : Exchange → Option Value
  | .sent message =>
    if message.type = "http.response.body" then (m.bodyOf message).toOption else none
  | .received _ => none

/-- What the wrappers have kept of an exchange. -/
def extraInfoOf (es : List Exchange) : ExtraInfo where
  body := (lastRead m.requestValue? es).getD (.obj [])
  status := lastRead Exchange.status? es
  resp := (lastRead m.responseValue? es).getD (.obj [])

/-- The body is there, and what is no JSON raises what a wrapper expects. -/
def Decodes (message : AsgiMessage) : Prop := ∀ e, m.bodyOf message = .error e → IsDecodeError e

/-- No wrapper raises on the message. -/
def Tolerates : Exchange → Prop
  | .received message => message.type = "http.request" → m.Decodes message
  | .sent message => (message.type = "http.response.start" → message.status ≠ none) ∧
    (message.type = "http.response.body" → m.Decodes message)

variable {m}

theorem setFrom_ok {message : AsgiMessage} (h : m.Decodes message) (set : Value → ExtraInfo)
    (x : ExtraInfo) :
    m.setFrom message set x = .ok (((m.bodyOf message).toOption.map set).getD x) := by
  unfold setFrom
  cases hbody : m.bodyOf message with
  | ok v => rfl
  | error e => exact if_pos (h e hbody)

theorem noteReceived_ok {message : AsgiMessage} {es : List Exchange}
    (h : m.Tolerates (.received message)) :
    m.noteReceived message (m.extraInfoOf es) =
      .ok (m.extraInfoOf (es ++ [.received message])) := by
  unfold noteReceived extraInfoOf
  rw [lastRead_append, lastRead_append, lastRead_append]
  by_cases htype : message.type = "http.request"
  · rw [if_pos htype, setFrom_ok (h htype)]
    have hvalue : m.requestValue? (.received message) = (m.bodyOf message).toOption := if_pos htype
    rw [hvalue]
    cases (m.bodyOf message).toOption <;> rfl
  · have hvalue : m.requestValue? (.received message) = none := if_neg htype
    rw [if_neg htype, hvalue]
    rfl

theorem noteSent_ok {message : AsgiMessage} {es : List Exchange}
    (h : m.Tolerates (.sent message)) :
    m.noteSent message (m.extraInfoOf es) = .ok (m.extraInfoOf (es ++ [.sent message])) := by
  unfold noteSent extraInfoOf
  rw [lastRead_append, lastRead_append, lastRead_append]
  by_cases hstart : message.type = "http.response.start"
  · have hbody : ¬message.type = "http.response.body" := by
      rw [hstart]
      decide
    have hstatus : Exchange.status? (.sent message) = message.status := if_pos hstart
    have hvalue : m.responseValue? (.sent message) = none := if_neg hbody
    rw [if_pos hstart, hstatus, hvalue]
    cases hsome : message.status with
    | none => exact absurd hsome (h.1 hstart)
    | some status =>
      show (if message.type = "http.response.body" then _ else _) = _
      rw [if_neg hbody]
      rfl
  · have hstatus : Exchange.status? (.sent message) = none := if_neg hstart
    rw [if_neg hstart, hstatus]
    show (if message.type = "http.response.body" then _ else _) = _
    by_cases hbody : message.type = "http.response.body"
    · have hvalue : m.responseValue? (.sent message) = (m.bodyOf message).toOption :=
        if_pos hbody
      rw [if_pos hbody, setFrom_ok (h.2 hbody), hvalue]
      cases (m.bodyOf message).toOption <;> rfl
    · have hvalue : m.responseValue? (.sent message) = none := if_neg hbody
      rw [if_neg hbody, hvalue]
      rfl

end LoggingMiddleware

/-! ## The wrappers are not seen -/

section
variable {σ : Type} {srv : AsgiServer σ} {m : LoggingMiddleware}

theorem AsgiServer.receiveOn_ok {c c' : Connection σ} {message : AsgiMessage}
    (h : srv.receiveOn c = .ok message c') : c'.exchange = c.exchange ++ [.received message] := by
  unfold receiveOn at h
  cases hr : srv.receive c.server with
  | ok message' s =>
    rw [hr] at h
    cases h
    rfl
  | error e s => rw [hr] at h; cases h

theorem AsgiServer.receiveOn_error {c c' : Connection σ} {e : Exc}
    (h : srv.receiveOn c = .error e c') : c'.exchange = c.exchange := by
  unfold receiveOn at h
  cases hr : srv.receive c.server with
  | ok message s => rw [hr] at h; cases h
  | error e' s =>
    rw [hr] at h
    cases h
    rfl

theorem AsgiServer.sendOn_exchange (message : AsgiMessage) (c : Connection σ) :
    (stateOf (srv.sendOn message c)).exchange = c.exchange ++ [.sent message] := by
  unfold sendOn
  dsimp only
  cases srv.send message _ <;> rfl

/-- An app adds to what was exchanged. -/
theorem AsgiApp.run_exchange (app : AsgiApp) (c : Connection σ) :
    c.exchange <+: (stateOf (app.run srv.interface c)).exchange := by
  induction app generalizing c with
  | done raised => cases raised <;> exact List.prefix_rfl
  | receive next ih =>
    cases hr : srv.receiveOn c with
    | ok message c' =>
      rw [AsgiApp.run_receive_ok (i := srv.interface) hr]
      refine List.IsPrefix.trans ?_ (ih _ c')
      rw [AsgiServer.receiveOn_ok hr]
      exact List.prefix_append ..
    | error e c' =>
      rw [AsgiApp.run_receive_error (i := srv.interface) hr, ← AsgiServer.receiveOn_error hr]
      exact ih _ c'
  | send message next ih =>
    have hexchange := srv.sendOn_exchange message c
    cases hr : srv.sendOn message c with
    | ok u c' =>
      rw [hr] at hexchange
      rw [AsgiApp.run_send_ok (i := srv.interface) hr]
      refine List.IsPrefix.trans ?_ (ih _ c')
      exact hexchange ▸ List.prefix_append ..
    | error e c' =>
      rw [hr] at hexchange
      rw [AsgiApp.run_send_error (i := srv.interface) hr]
      refine List.IsPrefix.trans ?_ (ih _ c')
      exact hexchange ▸ List.prefix_append ..
  | setTokenInfo tokenInfo next ih => exact ih { c with tokenInfo := some tokenInfo }

/-- Any app, on any server: it goes as it would without the wrappers, and these keep what was
    exchanged. -/
theorem AsgiApp.run_wrapped (app : AsgiApp) (c : Connection σ)
    (h : ∀ e ∈ (stateOf (app.run srv.interface c)).exchange, m.Tolerates e) :
    app.run (m.interface srv) (c, m.extraInfoOf c.exchange) =
      mapState (fun c' => (c', m.extraInfoOf c'.exchange)) (app.run srv.interface c) := by
  induction app generalizing c with
  | done raised => cases raised <;> rfl
  | receive next ih =>
    cases hr : srv.receiveOn c with
    | ok message c' =>
      have hplain := AsgiApp.run_receive_ok (i := srv.interface) (k := next) hr
      rw [hplain] at h ⊢
      have hexchange := AsgiServer.receiveOn_ok hr
      have hmem : .received message ∈
          (stateOf ((next (.ok message)).run srv.interface c')).exchange :=
        (AsgiApp.run_exchange _ c').subset (by simp [hexchange])
      have hwrapper : (m.interface srv).receive (c, m.extraInfoOf c.exchange) =
          .ok message (c', m.extraInfoOf c'.exchange) := by
        show m.receiveWrapper srv (c, m.extraInfoOf c.exchange) = _
        unfold LoggingMiddleware.receiveWrapper
        dsimp only
        rw [hr]
        dsimp only
        rw [LoggingMiddleware.noteReceived_ok (h _ hmem), hexchange]
      rw [AsgiApp.run_receive_ok hwrapper]
      exact ih _ c' h
    | error e c' =>
      have hplain := AsgiApp.run_receive_error (i := srv.interface) (k := next) hr
      rw [hplain] at h ⊢
      have hwrapper : (m.interface srv).receive (c, m.extraInfoOf c.exchange) =
          .error e (c', m.extraInfoOf c'.exchange) := by
        show m.receiveWrapper srv (c, m.extraInfoOf c.exchange) = _
        unfold LoggingMiddleware.receiveWrapper
        dsimp only
        rw [hr, AsgiServer.receiveOn_error hr]
      rw [AsgiApp.run_receive_error hwrapper]
      exact ih _ c' h
  | send message next ih =>
    have hexchange := srv.sendOn_exchange message c
    -- the wrapper notes the message first, and then the server has it
    have hwrapper : m.Tolerates (.sent message) →
        (m.interface srv).send message (c, m.extraInfoOf c.exchange) =
          mapState (fun c' => (c', m.extraInfoOf c'.exchange)) (srv.sendOn message c) := by
      intro hm
      show m.sendWrapper srv message (c, m.extraInfoOf c.exchange) = _
      unfold LoggingMiddleware.sendWrapper
      dsimp only
      rw [LoggingMiddleware.noteSent_ok hm, ← hexchange]
      cases srv.sendOn message c <;> rfl
    cases hr : srv.sendOn message c with
    | ok u c' =>
      rw [hr] at hexchange hwrapper
      have hplain := AsgiApp.run_send_ok (i := srv.interface) (k := next) hr
      rw [hplain] at h ⊢
      have hexchange : c'.exchange = c.exchange ++ [.sent message] := hexchange
      have hmem : .sent message ∈ (stateOf ((next none).run srv.interface c')).exchange :=
        (AsgiApp.run_exchange _ c').subset (by simp [hexchange])
      rw [AsgiApp.run_send_ok (hwrapper (h _ hmem))]
      exact ih _ c' h
    | error e c' =>
      rw [hr] at hexchange hwrapper
      have hplain := AsgiApp.run_send_error (i := srv.interface) (k := next) hr
      rw [hplain] at h ⊢
      have hexchange : c'.exchange = c.exchange ++ [.sent message] := hexchange
      have hmem : .sent message ∈ (stateOf ((next (some e)).run srv.interface c')).exchange :=
        (AsgiApp.run_exchange _ c').subset (by simp [hexchange])
      rw [AsgiApp.run_send_error (hwrapper (h _ hmem))]
      exact ih _ c' h
  | setTokenInfo tokenInfo next ih => exact ih { c with tokenInfo := some tokenInfo } h

/-! ## Calls through the middleware -/

/-- What a line says: what was asked, what was answered, and for whom. -/
structure RequestLine.Tells (m : LoggingMiddleware) (request : AsgiRequest) (c : Connection σ)
    (line : RequestLine) : Prop where
  method : line.method = request.method
  url : line.url = request.path
  status : line.status = lastRead Exchange.status? c.exchange
  body : line.request = (lastRead m.requestValue? c.exchange).getD (.obj [])
  shown : (request.method = "POST".toList ∧ request.path ∉ m.noLogPostUrls) ∨
      (∃ status, line.status = some status ∧ 400 ≤ status) →
    line.response = (lastRead m.responseValue? c.exchange).getD (.obj [])
  tokenInfo : line.tokenInfo = c.tokenInfo

/-- The log of a request whose app has returned. -/
theorem LoggingMiddleware.logRequest_tells {request : AsgiRequest} {c : Connection σ}
    (hagent : request.userAgent ≠ none) (hstatus : lastRead Exchange.status? c.exchange ≠ none) :
    ∃ line, m.logRequest request (m.extraInfoOf c.exchange) c.tokenInfo = .ok line ∧
      line.Tells m request c := by
  obtain ⟨userAgent, huser⟩ := Option.ne_none_iff_exists'.mp hagent
  obtain ⟨status, hlast⟩ := Option.ne_none_iff_exists'.mp hstatus
  have hsent : (m.extraInfoOf c.exchange).status = some status := hlast
  unfold logRequest
  rw [huser]
  dsimp only
  by_cases hpost : request.method = "POST".toList ∧ request.path ∉ m.noLogPostUrls
  · rw [if_pos hpost]
    exact ⟨_, rfl, rfl, rfl, rfl, rfl, fun _ => rfl, rfl⟩
  · rw [if_neg hpost, hsent]
    refine ⟨_, rfl, rfl, rfl, hlast.symm, rfl, fun hshown => ?_, rfl⟩
    rcases hshown with hshown | ⟨status', hstatus', hlarge⟩
    · exact absurd hshown hpost
    · cases hstatus'
      exact if_pos hlarge

/-- A call through the middleware, next to the app alone, which came to `plain`. The server has
    the same messages in the same order, and so has the app. What the app raised comes out of
    it. If the app has returned, a line tells of the request, and the token info is gone; only
    where the client did not say what it is, is there an exception instead of a line. -/
structure LoggedCall (m : LoggingMiddleware) (request : AsgiRequest) (lines : List RequestLine)
    (plain : EStateM.Result Exc (Connection σ) Unit)
    (r : EStateM.Result Exc (Connection σ × List RequestLine) Unit) : Prop where
  server : (stateOf r).1.server = (stateOf plain).server
  exchange : (stateOf r).1.exchange = (stateOf plain).exchange
  failed : ∀ e, raised plain = some e → raised r = some e ∧ (stateOf r).2 = lines
  silent : raised plain = none → request.userAgent = none →
    raised r = some (.exception "KeyError") ∧ (stateOf r).2 = lines
  logged : raised plain = none → request.userAgent ≠ none →
    lastRead Exchange.status? (stateOf plain).exchange ≠ none →
    raised r = none ∧ (stateOf r).1.tokenInfo = none ∧
      ∃ line, (stateOf r).2 = lines ++ [line] ∧ line.Tells m request (stateOf plain)

end

/-- For every request, server and app, whatever either does, as long as the bodies that are
    exchanged are there and decode, or fail to with the errors that the wrappers expect. -/
theorem logging_middleware {σ : Type} (m : LoggingMiddleware) (request : AsgiRequest)
    (srv : AsgiServer σ) (app : AsgiApp) (c : Connection σ) (lines : List RequestLine)
    (hc : c.exchange = [])
    (h : ∀ e ∈ (stateOf (app.run srv.interface c)).exchange, m.Tolerates e) :
    LoggedCall m request lines (app.run srv.interface c) (m.call request srv app (c, lines)) := by
  have hwrapped := app.run_wrapped c h
  have hinit : m.extraInfoOf c.exchange = .init := by
    rw [hc]
    rfl
  rw [hinit] at hwrapped
  unfold LoggingMiddleware.call
  dsimp only
  rw [hwrapped]
  cases hplain : app.run srv.interface c with
  | error e c' =>
    refine ⟨rfl, rfl, fun e' he => ⟨he, rfl⟩, fun hnone => (nomatch hnone), fun hnone => ?_⟩
    cases hnone
  | ok u c' =>
    -- the app returned, and what is left is the line of the log
    let result := m.logRequest request (m.extraInfoOf c'.exchange) c'.tokenInfo
    show LoggedCall m request lines (.ok u c') (match result with
      | .error e => .error e (c', lines)
      | .ok line => .ok () ({ c' with tokenInfo := none }, lines ++ [line]))
    have hsilent : request.userAgent = none → result = .error (.exception "KeyError") := by
      intro hnone
      show LoggingMiddleware.logRequest .. = _
      unfold LoggingMiddleware.logRequest
      rw [hnone]
    have htells : request.userAgent ≠ none → lastRead Exchange.status? c'.exchange ≠ none →
        ∃ line, result = .ok line ∧ line.Tells m request c' :=
      LoggingMiddleware.logRequest_tells
    cases hresult : result with
    | error e =>
      refine ⟨rfl, rfl, fun e' he => (nomatch he), fun _ hnone => ?_, fun _ hagent hstatus => ?_⟩
      · rw [hsilent hnone] at hresult
        cases hresult
        exact ⟨rfl, rfl⟩
      · obtain ⟨line, hline, -⟩ := htells hagent hstatus
        rw [hline] at hresult
        cases hresult
    | ok line =>
      refine ⟨rfl, rfl, fun e' he => (nomatch he), fun _ hnone => ?_, fun _ hagent hstatus => ?_⟩
      · rw [hsilent hnone] at hresult
        cases hresult
      · obtain ⟨line', hline, hsays⟩ := htells hagent hstatus
        rw [hline] at hresult
        cases hresult
        exact ⟨rfl, rfl, line, rfl, hsays⟩

/-- A client posts an empty object, and the app answers with one. -/
theorem logging_middleware_posted :
    let braces : Bytes := [123, 125]
    let m : LoggingMiddleware :=
      { loads := fun body => if body = braces then .ok (.obj [])
          else .error (.exception "JSONDecodeError")
        latency := none, noLogPostUrls := [] }
    let request : AsgiRequest :=
      ⟨"POST".toList, "/api/your-aggregates".toList, none, "1.1".toList, some "curl".toList⟩
    let srv : AsgiServer Unit :=
      { receive := pure ⟨"http.request", some braces, none, []⟩, send := fun _ => pure () }
    let app : AsgiApp := .receive fun _ => .send ⟨"http.response.start", none, some 200, []⟩
      fun _ => .send ⟨"http.response.body", some braces, none, []⟩ fun _ => .done none
    LoggedCall m request [] (app.run srv.interface ⟨(), none, []⟩)
      (m.call request srv app (⟨(), none, []⟩, [])) := by
  intro braces m request srv app
  refine logging_middleware m request srv app _ [] rfl fun e he => ?_
  have hloads : ∀ message : AsgiMessage, message.body = some braces → m.Decodes message := by
    intro message hbody e he
    have hok : m.bodyOf message = .ok (.obj []) := by
      unfold LoggingMiddleware.bodyOf
      rw [hbody]
      rfl
    rw [hok] at he
    cases he
  rcases List.mem_cons.mp he with rfl | he
  · exact fun _ => hloads _ rfl
  · rcases List.mem_cons.mp he with rfl | he
    · exact ⟨fun _ => Option.some_ne_none _, fun hbody => absurd hbody (by decide)⟩
    · rw [List.mem_singleton.mp he]
      exact ⟨fun hstart => absurd hstart (by decide), fun _ => hloads _ rfl⟩

end DddService
