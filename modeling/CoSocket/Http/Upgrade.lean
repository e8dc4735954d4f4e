import CoSocket.Http.HttpDispatch

/-!
# Http.Upgrade

The mode flag `m_isWebSocketReq` against the handler `m_wsHandler` that it promises. `Dispatch` sets
the flag before it has looked for the handler, and does not take it back when it answers 404; the
next complete frame then calls an empty function.

`upgrade_safe_iff` says when a run is safe: if and only if no request that asks for an upgrade is
dispatched to a url without a WebSocket handler.
-/

namespace CoSocket
namespace Http

open Base Lts

namespace HttpDispatch

/-- `Dispatch` takes the request for one that asks for a WebSocket. -/
def upgrades (d : HttpDispatch) (httpRequest : HttpParser) : Bool :=
  d.enableWebSocket && !(httpRequest.getHeader webSocketKeyName).isEmpty

/-- The WebSocket handler registered for the url of the request. -/
def webSocketHandlerFor (d : HttpDispatch) (httpRequest : HttpParser) : WebSocketHandler :=
  d.handlers[cStr httpRequest.url]?.bind (·.webSocketHandler)

theorem dispatch_of_upgrades {d : HttpDispatch} {p : HttpParser} (h : d.upgrades p = true) :
    d.dispatch p =
      ({ d with isWebSocketReq := true, wsHandler := (d.webSocketHandlerFor p).or d.wsHandler },
        match d.webSocketHandlerFor p with
        | none => .notFound
        | some _ => .handshake (p.getHeader webSocketKeyName)) := by
  simp only [upgrades, Bool.and_eq_true] at h
  unfold dispatch webSocketHandlerFor
  simp only [h.1, h.2, if_true]
  cases d.handlers[cStr p.url]? with
  | none => rfl
  | some handler => cases hw : handler.webSocketHandler <;> simp [hw]

theorem dispatch_upgrade {d : HttpDispatch} {p : HttpParser} (h : d.upgrades p = true) :
    (d.dispatch p).1.isWebSocketReq = true ∧
      (d.dispatch p).1.wsHandler = (d.webSocketHandlerFor p).or d.wsHandler := by
  rw [dispatch_of_upgrades h]
  exact ⟨rfl, rfl⟩

theorem dispatch_plain {d : HttpDispatch} {p : HttpParser} (h : d.upgrades p = false)
    (hf : d.isWebSocketReq = false) : (d.dispatch p).1 = d := by
  have hsame : (if d.enableWebSocket then
      { d with isWebSocketReq := !(p.getHeader webSocketKeyName).isEmpty } else d) = d := by
    split
    · rename_i he
      simp only [upgrades, he, Bool.true_and] at h
      rw [h, ← hf]
    · rfl
  unfold dispatch
  cases he : d.enableWebSocket with
  | true =>
    simp only [he, if_true] at hsame
    simp only [if_true, hsame, hf]
    cases d.handlers[cStr p.url]? with
    | none => rfl
    | some handler => cases hw : handler.httpHandler <;> simp [hw]
  | false =>
    simp only [Bool.false_eq_true, if_false, hf]
    cases d.handlers[cStr p.url]? with
    | none => rfl
    | some handler => cases hw : handler.httpHandler <;> simp [hw]

end HttpDispatch

namespace Server

variable {σ : Type} {deps : Deps σ}

/-- WebSocket mode is on only with a handler to call. -/
def safe (s : Server σ) : Bool := !s.dispatcher.isWebSocketReq || s.dispatcher.wsHandler.isSome

/-- The step dispatches a request that asks for a WebSocket to a url without a handler for it. -/
def refusesUpgrade (deps : Deps σ) (s : Server σ) : HttpAct → Bool
  | .read data _ _ =>
    match s.conn with
    | none => false
    | some c =>
      let (ok, httpRequest) := c.httpRequest.parse deps.http data
      readOk data && !s.dispatcher.isWebSocketReq && ok && httpRequest.fields.complete &&
        s.dispatcher.upgrades httpRequest.fields &&
        (s.dispatcher.webSocketHandlerFor httpRequest.fields).isNone
  | _ => false

/-- Before WebSocket mode no handler has been chosen: once the mode is on, `Dispatch` is not called
again. -/
def unchosen (s : Server σ) : Prop :=
  s.dispatcher.isWebSocketReq = false → s.dispatcher.wsHandler = none

theorem parseHttpToDispatch_dispatcher (s : Server σ) (c : Conn σ) (data : Bytes)
    (reply : HttpEncoder → HttpEncoder) (written : Bool) :
    (s.parseHttpToDispatch deps c data reply written).dispatcher =
      if (c.httpRequest.parse deps.http data).1 &&
          (c.httpRequest.parse deps.http data).2.fields.complete then
        (s.dispatcher.dispatch (c.httpRequest.parse deps.http data).2.fields).1
      else s.dispatcher := by
  unfold parseHttpToDispatch
  rcases c.httpRequest.parse deps.http data with ⟨ok, httpRequest⟩
  cases ok with
  | false => rfl
  | true =>
    dsimp only
    rw [Bool.true_and]
    split <;> rfl

theorem processWebSocketData_dispatcher {s s' : Server σ} {c : Conn σ} {data : Bytes}
    {written : Bool} (h : s.processWebSocketData c data written = .next s') :
    s'.dispatcher = s.dispatcher := by
  unfold processWebSocketData at h
  split at h
  · cases h
    rfl
  split at h
  · split at h
    · cases h
    · cases h
      rfl
  · cases h
    rfl

/-- What a step can do to the flag and the handler: nothing, or the dispatch of a request that has
just become complete. -/
theorem step_mode {s s' : Server σ} {a : HttpAct} (h : step deps s a = .next s') :
    (refusesUpgrade deps s a = false ∧
      s'.dispatcher.isWebSocketReq = s.dispatcher.isWebSocketReq ∧
      s'.dispatcher.wsHandler = s.dispatcher.wsHandler) ∨
    (s.dispatcher.isWebSocketReq = false ∧ s'.dispatcher.isWebSocketReq = true ∧
      ∃ chosen : WebSocketHandler, refusesUpgrade deps s a = chosen.isNone ∧
        s'.dispatcher.wsHandler = chosen.or s.dispatcher.wsHandler) := by
  cases a with
  | addHttpHandler url handler => cases h; exact .inl ⟨rfl, rfl, rfl⟩
  | addWebSocketHandler url handler => cases h; exact .inl ⟨rfl, rfl, rfl⟩
  | connect =>
    simp only [step] at h
    split at h
    · cases h; exact .inl ⟨rfl, rfl, rfl⟩
    · cases h
  | readFailed =>
    simp only [step] at h
    split at h
    · cases h
    · cases h; exact .inl ⟨rfl, rfl, rfl⟩
  | read data reply written =>
    simp only [step] at h
    split at h
    · cases h
    rename_i c hc
    split at h
    · rename_i hok
      cases hf : s.dispatcher.isWebSocketReq with
      | true =>
        simp only [hf, Bool.not_true, Bool.false_eq_true, if_false] at h
        rw [processWebSocketData_dispatcher h]
        exact .inl ⟨by simp [refusesUpgrade, hc, hf], hf, rfl⟩
      | false =>
        simp only [hf, Bool.not_false, if_true, Outcome.next.injEq] at h
        subst h
        simp only [refusesUpgrade, hc, hok, hf, parseHttpToDispatch_dispatcher]
        rcases c.httpRequest.parse deps.http data with ⟨ok, httpRequest⟩
        by_cases hdone : (ok && httpRequest.fields.complete) = true
        · rw [if_pos hdone]
          simp only [Bool.and_eq_true] at hdone
          cases hu : s.dispatcher.upgrades httpRequest.fields with
          | false =>
            rw [HttpDispatch.dispatch_plain hu hf]
            exact .inl ⟨by simp, hf, rfl⟩
          | true =>
            obtain ⟨hflag, hhandler⟩ := HttpDispatch.dispatch_upgrade hu
            exact .inr ⟨trivial, hflag, s.dispatcher.webSocketHandlerFor httpRequest.fields,
              by simp [hdone], hhandler⟩
        · rw [if_neg hdone]
          refine .inl ⟨?_, hf, rfl⟩
          rw [Bool.not_eq_true] at hdone
          simp [hdone]
    · cases h

theorem step_unchosen {s s' : Server σ} {a : HttpAct} (h : step deps s a = .next s')
    (hi : s.unchosen) : s'.unchosen := by
  intro hflag
  obtain ⟨-, hf, hw⟩ | ⟨-, hf, -⟩ := step_mode h
  · rw [hw]
    exact hi (hf ▸ hflag)
  · rw [hf] at hflag
    cases hflag

theorem reachable_unchosen {enable : Bool} {s : Server σ}
    (h : Reach (step deps) Any (init enable) s) : s.unchosen :=
  h.invariant (I := unchosen) (fun _ => rfl) fun _ _ _ _ hi _ hs => step_unchosen hs hi

/-- A step that refuses no upgrade keeps the promise of the flag. -/
theorem step_safe {s s' : Server σ} {a : HttpAct} (h : step deps s a = .next s')
    (hr : refusesUpgrade deps s a = false) (hi : s.safe = true) : s'.safe = true := by
  obtain ⟨-, hf, hw⟩ | ⟨-, -, chosen, hchosen, hw⟩ := step_mode h
  · rw [safe, hf, hw]
    exact hi
  · rw [hr] at hchosen
    rw [safe, hw]
    cases chosen with
    | none => cases hchosen
    | some handler => simp

/-- A step that refuses an upgrade is made, and breaks it. -/
theorem step_unsafe {s : Server σ} {a : HttpAct} (hr : refusesUpgrade deps s a = true)
    (hi : s.unchosen) : ∃ s', step deps s a = .next s' ∧ s'.safe = false := by
  have hnext : ∃ s', step deps s a = .next s' := by
    cases a with
    | read data reply written =>
      simp only [refusesUpgrade] at hr
      split at hr
      · cases hr
      rename_i c hc
      simp only [Bool.and_eq_true] at hr
      exact ⟨_, by simp only [step, hc, hr.1.1.1.1.1, hr.1.1.1.1.2, if_true]; rfl⟩
    | _ => cases hr
  obtain ⟨s', hs⟩ := hnext
  refine ⟨s', hs, ?_⟩
  obtain ⟨hr', -⟩ | ⟨hflag, hflag', chosen, hchosen, hw⟩ := step_mode hs
  · rw [hr] at hr'
    cases hr'
  · rw [hr] at hchosen
    rw [safe, hflag', hw, hi hflag]
    cases chosen with
    | none => rfl
    | some handler => cases hchosen

theorem step_ne_trapped {s : Server σ} (h : s.safe = true) (a : HttpAct) (t : HttpTrap) :
    step deps s a ≠ .trapped t := by
  intro ht
  cases a with
  | read data reply written =>
    simp only [step] at ht
    split at ht
    · cases ht
    split at ht
    · split at ht
      · cases ht
      rename_i hflag
      simp only [processWebSocketData] at ht
      split at ht
      · cases ht
      split at ht
      · split at ht
        · rename_i hnone
          simp [safe, hnone] at h
          simp [h] at hflag
        · cases ht
      · cases ht
    · cases ht
  | connect =>
    simp only [step] at ht
    split at ht <;> cases ht
  | readFailed =>
    simp only [step] at ht
    split at ht <;> cases ht
  | _ => cases ht

/-- **WebSocket mode and its handler.** A run keeps a handler behind the mode flag, and never calls
an empty function, if and only if none of its steps refuses an upgrade. -/
theorem upgrade_safe_iff (deps : Deps σ) (enableWebSocket : Bool) (acts : List HttpAct) :
    (∀ pre s, pre <+: acts → exec (step deps) (init enableWebSocket) pre = .next s →
      s.safe = true ∧ ∀ a, step deps s a ≠ .trapped .badFunctionCall) ↔
    Along (step deps) (init enableWebSocket) (fun s a => refusesUpgrade deps s a = false) acts := by
  constructor
  · intro hall pre a s hp hs
    by_contra hr
    rw [Bool.not_eq_false] at hr
    obtain ⟨s', hs', hbad⟩ := step_unsafe hr (reachable_unchosen (reach_of_exec hs))
    have hgood := (hall (pre ++ [a]) s' hp ((exec_snoc hs a).trans hs')).1
    rw [hbad] at hgood
    cases hgood
  · intro halong pre s hp hs
    have hsafe : s.safe = true := ((halong.take hp).reach hs).invariant (I := (·.safe = true)) rfl
      fun _ _ _ _ hi hr hstep => step_safe hstep hr hi
    exact ⟨hsafe, fun a => step_ne_trapped hsafe a _⟩

/-- A library that knows one request, in which a url without a handler is asked to upgrade. -/
def refusedRequest : Bytes := bytesOf "GET /x HTTP/1.1\r\nSec-WebSocket-Key: k\r\n\r\n"

def refusedDeps : Deps Unit where
  http :=
    { init := ()
      execute := fun _ data =>
        if data = refusedRequest then
          ((), [.url (bytesOf "/x"), .headerField (bytesOf "Sec-WebSocket-Key"),
            .headerValue (bytesOf "k"), .messageComplete (bytesOf "GET") 0], true)
        else ((), [], true) }
  sha1 := fun _ => []

/-- The request is answered 404, and the frame after it calls an empty function. -/
theorem empty_handler_called :
    ∃ s, exec (step refusedDeps) (init true) [.connect, .read refusedRequest id true] = .next s ∧
      s.safe = false ∧
      step refusedDeps s (.read [0x81, 0x81, 1, 2, 3, 4, 0x60] id true) =
        .trapped .badFunctionCall := by
  have hnext : (exec (step refusedDeps) (init true)
      [.connect, .read refusedRequest id true]).isNext = true := by decide +kernel
  refine ⟨_, Outcome.eq_next_of_isNext hnext (init true), by decide +kernel, ?_⟩
  exact Outcome.eq_trapped_of_trap (by decide +kernel)

end Server

end Http
end CoSocket
