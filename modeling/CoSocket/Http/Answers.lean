import CoSocket.Http.Upgrade

/-!
# Http.Answers

What `HttpDispatch` answers: the accept header of a handshake, the handler that a url leads to, and
the connection after a response that announces its end.

Two of the three go through a C string, so that a zero byte cuts the digest (`accept_iff`) or the
url (`routing_exact_iff`). The third is about a field that nothing reads: the loop goes on after
every response that was written (`ends_after_close_iff`).
-/

namespace CoSocket
namespace Http

open Base Lts

/-! ## The handshake -/

/-- The digest behind `Sec-WebSocket-Accept`. -/
def acceptDigest (sha1 : Bytes → Bytes) (key : Bytes) : Bytes :=
  sha1 (key ++ bytesOf "258EAFA5-E914-47DA-95CA-C5AB0DC85B11")

theorem responseWebSocketHandshake_accept (sha1 : Bytes → Bytes) (httpResponse : HttpEncoder)
    (key : Bytes) :
    (responseWebSocketHandshake sha1 httpResponse key).headers[bytesOf "Sec-WebSocket-Accept"]? =
      some (Base64.encode b64Table (ascii '=') (cStr (acceptDigest sha1 key))) := by
  rw [← base64Encode_eq]
  exact Std.ExtTreeMap.getElem?_insert_self

/-- **The accept header.** It is the base64 encoding of the digest, and decodes to it, if and only
if the digest has no zero byte. -/
theorem accept_iff (sha1 : Bytes → Bytes) (httpResponse : HttpEncoder) (key : Bytes) :
    (∃ accept,
      (responseWebSocketHandshake sha1 httpResponse key).headers[bytesOf "Sec-WebSocket-Accept"]? =
        some accept ∧
      accept = Base64.encode b64Table (ascii '=') (acceptDigest sha1 key) ∧
      Base64.decode b64Value (ascii '=') accept = some (acceptDigest sha1 key)) ↔
    0 ∉ acceptDigest sha1 key := by
  have hdecode := Base64.decode_encode b64Value_b64Table b64Table_ne_pad
  rw [responseWebSocketHandshake_accept, ← cStr_eq_self_iff]
  constructor
  · rintro ⟨accept, haccept, -, hdigest⟩
    rw [← Option.some.inj haccept, hdecode] at hdigest
    exact Option.some.inj hdigest
  · intro hwhole
    exact ⟨_, rfl, by rw [hwhole], by rw [hdecode, hwhole]⟩

/-- The digest for the key `AgICAgICAgICAgICAgICAg==`. -/
def digestWithZero : Bytes :=
  [31, 20, 6, 185, 31, 252, 52, 217, 4, 147, 232, 0, 71, 176, 6, 69, 20, 20, 71, 146]

/-- Nine of its twenty bytes are lost. -/
theorem accept_cut :
    digestWithZero.length = 20 ∧
    (responseWebSocketHandshake (fun _ => digestWithZero) { closeConnection := false }
      (bytesOf "AgICAgICAgICAgICAgICAg==")).headers[bytesOf "Sec-WebSocket-Accept"]? =
        some (bytesOf "HxQGuR/8NNkEk+g=") ∧
    bytesOf "HxQGuR/8NNkEk+g=" ≠ Base64.encode b64Table (ascii '=') digestWithZero := by
  refine ⟨rfl, ?_, by decide +kernel⟩
  rw [responseWebSocketHandshake_accept]
  exact congrArg some (by decide +kernel)

/-! ## Routes -/

/-- Where a request goes. -/
inductive Route where
  | notFound
  | http (handler : Nat)
  | webSocket (handler : Nat)
deriving DecidableEq, Repr

def Handler.route (handler : Handler) (webSocket : Bool) : Route :=
  if webSocket then
    match handler.webSocketHandler with
    | none => .notFound
    | some h => .webSocket h
  else
    match handler.httpHandler with
    | none => .notFound
    | some h => .http h

namespace HttpDispatch

/-- Where `Dispatch` sends the request. -/
def route (d : HttpDispatch) (httpRequest : HttpParser) : Route :=
  match d.dispatch httpRequest with
  | (_, .notFound) => .notFound
  | (d, .handshake _) =>
    match d.wsHandler with
    | none => .notFound
    | some h => .webSocket h
  | (_, .call h) => .http h

/-- What is registered under the url, as a whole, for a request of that kind. -/
def registered (d : HttpDispatch) (url : Bytes) (webSocket : Bool) : Route :=
  match d.handlers[url]? with
  | none => .notFound
  | some handler => handler.route webSocket

theorem route_eq {d : HttpDispatch} (p : HttpParser) (hf : d.isWebSocketReq = false) :
    d.route p = d.registered (cStr p.url) (d.upgrades p) := by
  unfold route registered dispatch upgrades Handler.route
  cases he : d.enableWebSocket with
  | true =>
    simp only [if_true, Bool.true_and]
    cases d.handlers[cStr p.url]? with
    | none => rfl
    | some handler =>
      cases hk : (p.getHeader webSocketKeyName).isEmpty with
      | true => cases hh : handler.httpHandler <;> simp [hh]
      | false => cases hw : handler.webSocketHandler <;> simp [hw]
  | false =>
    simp only [Bool.false_eq_true, if_false, Bool.false_and]
    cases d.handlers[cStr p.url]? with
    | none => rfl
    | some handler => cases hh : handler.httpHandler <;> simp [hf, hh]

/-- No function is registered twice for one kind of request. -/
def Distinct (d : HttpDispatch) : Prop :=
  ∀ url url' webSocket, d.registered url webSocket ≠ .notFound →
    d.registered url webSocket = d.registered url' webSocket → url = url'

theorem registered_kind {d : HttpDispatch} {url url' : Bytes} {webSocket webSocket' : Bool}
    (hne : d.registered url webSocket ≠ .notFound)
    (heq : d.registered url webSocket = d.registered url' webSocket') :
    webSocket = webSocket' := by
  have hkind : ∀ (u : Bytes) (w : Bool), d.registered u w = .notFound ∨
      (w = true ∧ ∃ h, d.registered u w = .webSocket h) ∨
      (w = false ∧ ∃ h, d.registered u w = .http h) := by
    intro u w
    unfold registered Handler.route
    cases d.handlers[u]? with
    | none => exact .inl rfl
    | some handler =>
      cases w with
      | true => cases hw : handler.webSocketHandler <;> simp [hw]
      | false => cases hh : handler.httpHandler <;> simp [hh]
  obtain h | ⟨rfl, h, hh⟩ | ⟨rfl, h, hh⟩ := hkind url webSocket
  · exact absurd h hne
  · obtain h' | ⟨rfl, -⟩ | ⟨-, h', hh'⟩ := hkind url' webSocket'
    · exact absurd (heq.trans h') hne
    · rfl
    · rw [heq, hh'] at hh
      cases hh
  · obtain h' | ⟨-, h', hh'⟩ | ⟨rfl, -⟩ := hkind url' webSocket'
    · exact absurd (heq.trans h') hne
    · rw [heq, hh'] at hh
      cases hh
    · rfl

end HttpDispatch

/-- Whatever is registered, the request goes to what is registered under its url. `Dispatch` is
called outside WebSocket mode only. -/
def RoutedExactly (p : HttpParser) : Prop :=
  ∀ d : HttpDispatch, d.isWebSocketReq = false → d.route p = d.registered p.url (d.upgrades p)

/-- Requests with different urls do not go to one registration. -/
def RoutedApart (p q : HttpParser) : Prop :=
  p.url ≠ q.url → ∀ d : HttpDispatch, d.isWebSocketReq = false → d.Distinct →
    d.route p = d.route q → d.route p = .notFound

theorem routedExactly_iff (p : HttpParser) : RoutedExactly p ↔ 0 ∉ p.url := by
  rw [← cStr_eq_self_iff]
  constructor
  · intro hexact
    by_contra hne
    let d : HttpDispatch :=
      { enableWebSocket := false
        handlers := (∅ : Std.ExtTreeMap Bytes Handler).insert (cStr p.url)
          { httpHandler := some 0 } }
    have h := hexact d rfl
    rw [HttpDispatch.route_eq p rfl] at h
    simp [d, HttpDispatch.registered, HttpDispatch.upgrades, Handler.route, hne] at h
  · intro hwhole d hf
    rw [HttpDispatch.route_eq p hf, hwhole]

/-- **Routing.** Two requests go to what is registered under their urls, byte for byte, and apart
from each other, if and only if neither url has a zero byte. -/
theorem routing_exact_iff (p q : HttpParser) :
    (RoutedExactly p ∧ RoutedExactly q ∧ RoutedApart p q) ↔ 0 ∉ p.url ∧ 0 ∉ q.url := by
  rw [← routedExactly_iff, ← routedExactly_iff]
  constructor
  · rintro ⟨hp, hq, -⟩
    exact ⟨hp, hq⟩
  · rintro ⟨hp, hq⟩
    refine ⟨hp, hq, ?_⟩
    intro hne d hf hdistinct heq
    by_contra hfound
    rw [hp d hf, hq d hf] at heq
    rw [hp d hf] at hfound
    have hkind := HttpDispatch.registered_kind hfound heq
    rw [← hkind] at heq
    exact hne (hdistinct _ _ _ hfound heq)

/-- The request for the url, without headers. -/
def plainRequest (url : Bytes) : HttpParser :=
  HttpParser.onCallbacks {} [.url url, .messageComplete (bytesOf "GET") 0]

/-- One handler, registered under `/a`. -/
def oneHandler : HttpDispatch :=
  HttpDispatch.addHttpHandler { enableWebSocket := false } (bytesOf "/a") (some 0)

/-- The url `/a%00b` leads to the handler of `/a`. -/
theorem zero_byte_routed :
    oneHandler.isWebSocketReq = false ∧
    (plainRequest (bytesOf "/a%00b")).url = [47, 97, 0, 98] ∧
    (plainRequest (bytesOf "/a")).url = [47, 97] ∧
    oneHandler.registered [47, 97, 0, 98] false = .notFound ∧
    oneHandler.route (plainRequest (bytesOf "/a%00b")) = .http 0 ∧
    oneHandler.route (plainRequest (bytesOf "/a")) = .http 0 := by
  decide +kernel

/-! ## After a response -/

namespace Server

variable {σ : Type} {deps : Deps σ}

/-- The step writes a response that announces the end of the connection. -/
def writesClosing (deps : Deps σ) (s : Server σ) : HttpAct → Bool
  | .read data reply written =>
    match s.conn with
    | none => false
    | some c =>
      let (ok, httpRequest) := c.httpRequest.parse deps.http data
      readOk data && !s.dispatcher.isWebSocketReq && ok && httpRequest.fields.complete && written &&
        ((s.dispatcher.dispatch httpRequest.fields).2.response deps.sha1 reply).closeConnection
  | _ => false

/-- In the run, the loop has ended after each response that announces it. -/
def EndsAfterClose (deps : Deps σ) (enableWebSocket : Bool) (acts : List HttpAct) : Prop :=
  ∀ pre a s s', pre ++ [a] <+: acts → exec (step deps) (init enableWebSocket) pre = .next s →
    writesClosing deps s a = true → step deps s a = .next s' → s'.conn = none

theorem step_writesClosing {s : Server σ} {a : HttpAct} (h : writesClosing deps s a = true) :
    ∃ (s' : Server σ) (c : Conn σ) (httpResponse : HttpEncoder) (request : Request)
      (answer : Answer), step deps s a = .next s' ∧ s'.conn = some c ∧
        httpResponse.closeConnection = true ∧
        s'.log = s.log ++ [.answered request answer httpResponse.getReponseString] := by
  cases a with
  | read data reply written =>
    simp only [writesClosing] at h
    split at h
    · cases h
    rename_i c hc
    simp only [Bool.and_eq_true, Bool.not_eq_true'] at h
    obtain ⟨⟨⟨⟨⟨hread, hflag⟩, hok⟩, hcomp⟩, hwritten⟩, hclose⟩ := h
    have hparse : c.httpRequest.parse deps.http data =
        (true, (c.httpRequest.parse deps.http data).2) := by rw [← hok]
    refine ⟨s.parseHttpToDispatch deps c data reply written,
      { c with httpRequest := .init deps.http }, _,
      (c.httpRequest.parse deps.http data).2.fields.request,
      (s.dispatcher.dispatch (c.httpRequest.parse deps.http data).2.fields).2, ?_, ?_, hclose, ?_⟩
    · rw [step_read hc hread, hflag]
      rfl
    · rw [parseHttpToDispatch, hparse]
      simp [hcomp, hwritten]
    · rw [parseHttpToDispatch, hparse]
      simp [hcomp]
  | _ => cases h

/-- **The loop after a response that announces the end.** It ends after each such response of a run
if and only if the run has none: every read that follows one is parsed as before. -/
theorem ends_after_close_iff (deps : Deps σ) (enableWebSocket : Bool) (acts : List HttpAct) :
    EndsAfterClose deps enableWebSocket acts ↔
      Along (step deps) (init enableWebSocket)
        (fun s a => writesClosing deps s a = false) acts := by
  constructor
  · intro hends pre a s hp hs
    by_contra hw
    rw [Bool.not_eq_false] at hw
    obtain ⟨s', c, -, -, -, hstep, hconn, -⟩ := step_writesClosing hw
    have hnone := hends pre a s s' hp hs hw hstep
    rw [hnone] at hconn
    cases hconn
  · intro hnever pre a s s' hp hs hw _
    have hsilent : writesClosing deps s a = false := hnever pre a s hp hs
    rw [hw] at hsilent
    cases hsilent

/-- A library that knows one request, for a url without a handler. -/
def closedDeps : Deps Unit where
  http :=
    { init := ()
      execute := fun _ _ => ((), [.url (bytesOf "/x"), .messageComplete (bytesOf "GET") 0], true) }
  sha1 := fun _ => []

/-- The request is answered 404 with `Connection: close`, and the next one on the same connection is
answered too. -/
theorem answered_after_close :
    ∃ s, exec (step closedDeps) (init false) [.connect] = .next s ∧
      writesClosing closedDeps s (.read (bytesOf "GET /x HTTP/1.1\r\n\r\n") id true) = true ∧
      ∃ s', exec (step closedDeps) s
          [.read (bytesOf "GET /x HTTP/1.1\r\n\r\n") id true,
            .read (bytesOf "GET /x HTTP/1.1\r\n\r\n") id true] = .next s' ∧
        s'.log.length = 2 := by
  refine ⟨_, rfl, by decide +kernel, ?_⟩
  exact ⟨_, Outcome.eq_next_of_isNext (by decide +kernel) (init false), by decide +kernel⟩

end Server

end Http
end CoSocket
