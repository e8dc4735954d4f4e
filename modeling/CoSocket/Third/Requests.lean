import CoSocket.Third.HeaderLines

/-!
# Third.Requests

The requests that `HttpEncoder` writes, read by `3rd/http-parser/http_parser.c`: the first line, and
what `AppendToStream` writes behind it (`reads_request`). As the parser reads the same in all
pieces, it reports the request however it is cut (`request_read`). A target with characters that are
none of a URL is an error (`isTarget`).
-/

namespace CoSocket
namespace Third

open Base Pieces

/-! ## The request line -/

/-- The parser behind the method of a request. -/
def behindMethod (m : Method) : Parser :=
  { type := .request, state := .reqSpacesBeforeUrl, contentLength := ULLONG_MAX, method := m
    index := m.str.length + 1 }

theorem steps_method (m : Method) {type : ParserType} (htype : type ≠ .response) :
    steps (init type) (m.str ++ [ascii ' ']) = some (behindMethod m, [.note .messageBegin]) := by
  cases type with
  | response => exact absurd rfl htype
  | request => cases m <;> decide +kernel
  | both => cases m <;> decide +kernel

/-- A byte of a target behind its first one. -/
def isTarget (c : UInt8) : Bool := isUrlChar c || c = ascii '?' || c = ascii '#'

/-- The states inside a target that begins with a slash. -/
def State.inTarget : State → Bool
  | .reqPath | .reqQueryStringStart | .reqQueryString | .reqFragmentStart | .reqFragment => true
  | _ => false

theorem ne_of_inTarget {s : State} (hs : s.inTarget = true) : s ≠ .chunkSizeStart := by
  rintro rfl
  cases hs

theorem isTarget_space {c : UInt8} (h : isTarget c = true) :
    ¬(c = ascii ' ' ∨ c = CR ∨ c = LF) ∧ ¬(c = 9 ∨ c = 12) := by
  constructor <;> rintro hc <;> rcases hc with rfl | rfl | rfl <;> exact absurd h (by decide)

theorem parseUrlChar_target {s : State} (hs : s.inTarget = true) {c : UInt8}
    (hc : isTarget c = true) : (parseUrlChar s c).inTarget = true := by
  obtain ⟨hspace, htab⟩ := isTarget_space hc
  have hkind : isUrlChar c = true ∨ c = ascii '?' ∨ c = ascii '#' := by
    simpa [isTarget, or_assoc] using hc
  unfold parseUrlChar
  rw [if_neg hspace, if_neg htab]
  rcases hkind with hurl | rfl | rfl
  · cases s <;> simp only [State.inTarget, Bool.false_eq_true] at hs <;> simp [hurl, State.inTarget]
  · cases s <;> first | decide | cases hs
  · cases s <;> first | decide | cases hs

theorem byte_target {p : Parser} (hs : p.state.inTarget = true) {c : UInt8}
    (hc : isTarget c = true) :
    byte p c = .next { p with state := parseUrlChar p.state c } [] := by
  obtain ⟨hspace, -⟩ := isTarget_space hc
  have halive : parseUrlChar p.state c ≠ .dead := by
    intro hdead
    have := parseUrlChar_target hs hc
    rw [hdead] at this
    cases this
  have hurl : byte p c = reqUrl p c := by
    unfold byte handle
    cases hstate : p.state <;> rw [hstate] at hs <;> first | rfl | cases hs
  rw [hurl, reqUrl, if_neg (fun h => hspace (.inl h)), if_neg (fun h => hspace (.inr h)), urlChar]
  exact if_neg halive

theorem signals_target {s : State} (hs : s.inTarget = true) (c : UInt8) :
    signals s [] c = [.data .url [c]] := by
  cases s <;> first | rfl | cases hs

theorem reads_target {p : Parser} (hs : p.state.inTarget = true) (hup : p.upgrade = false)
    {target : Bytes} (htarget : ∀ c ∈ target, isTarget c = true) :
    Reads p (target ++ [ascii ' ']) { p with state := .reqHttpStart } [.data .url target] := by
  have hstart := ne_of_inTarget hs
  induction target generalizing p with
  | nil =>
    have hb : byte p (ascii ' ') = .next { p with state := .reqHttpStart } [.data .url] := by
      unfold byte handle
      cases hstate : p.state <;> rw [hstate] at hs <;> first | rfl | cases hs
    have hsignals : signals p.state [.data .url] (ascii ' ') = [.data .url []] := by
      cases hstate : p.state <;> rw [hstate] at hs <;> first | rfl | cases hs
    rw [← hsignals]
    exact .single hstart hb
  | cons c target ih =>
    obtain ⟨hc, htarget⟩ := List.forall_mem_cons.mp htarget
    have hin := parseUrlChar_target hs hc
    have hrest := ih (p := { p with state := parseUrlChar p.state c }) hin hup htarget
      (ne_of_inTarget hin)
    have hcons := Reads.cons hstart (byte_target hs hc) hup hrest
    rw [signals_target hs] at hcons
    exact hcons.congr (glue_data_append DataKind.url [c] target []).symm

def FirstLine.request (m : Method) : FirstLine :=
  { type := .request, method := m, index := m.str.length + 1 }

/-- The first line of a request. -/
def requestLine (m : Method) (target : Bytes) : Bytes :=
  m.str ++ [ascii ' '] ++ (ascii '/' :: (target ++ [ascii ' ']) ++ bytesOf "HTTP/1.1\r\n")

theorem reads_line {type : ParserType} (htype : type ≠ .response) (m : Method)
    {target : Bytes} (htarget : ∀ c ∈ target, isTarget c = true) :
    Reads (init type) (requestLine m target) (behindLine (.request m))
      [.note .messageBegin, .data .url (ascii '/' :: target)] := by
  have hslash : byte (behindMethod m) (ascii '/') =
      .next { behindMethod m with state := .reqPath } [.mark .url] := by
    cases m <;> rfl
  have hbehind := reads_target (p := { behindMethod m with state := .reqPath }) rfl rfl htarget
  have hfirst : Reads (behindMethod m) (ascii '/' :: (target ++ [ascii ' ']))
      { behindMethod m with state := .reqHttpStart } [.data .url (ascii '/' :: target)] :=
    (Reads.cons (fun h => by cases h) hslash rfl hbehind).congr
      (glue_data_append DataKind.url [ascii '/'] target []).symm
  have hversion : steps { behindMethod m with state := .reqHttpStart } (bytesOf "HTTP/1.1\r\n") =
      some (behindLine (.request m), []) := by
    cases m <;> decide +kernel
  exact (reads_steps (steps_method m htype)).append rfl (hfirst.append rfl (reads_steps hversion))

/-! ## A request that `HttpEncoder` writes -/

open Http (HttpEncoder)

/-- The state behind a request. -/
def endState (close : Bool) : State := if close then .dead else .startReq

theorem getRequestString_eq {e : HttpEncoder} {m : Method} {target : Bytes}
    (hmethod : e.method = m.str) (htarget : e.requestTarget = ascii '/' :: target) :
    e.getRequestString = requestLine m target ++ e.appendToStream := by
  have hversion : bytesOf "HTTP/1.1\r\n" = bytesOf "HTTP/1.1" ++ HttpEncoder.crlf := by decide
  have hblank : bytesOf " HTTP/1.1" = ascii ' ' :: bytesOf "HTTP/1.1" := by decide
  have hspace : bytesOf " " = [ascii ' '] := by decide
  rw [HttpEncoder.getRequestString, hmethod, htarget, requestLine, hversion, hblank, hspace]
  simp only [List.append_assoc, List.cons_append, List.nil_append]

def frontEvents (e : HttpEncoder) : List Event :=
  [.note .messageBegin, .data .url e.requestTarget,
    .data .headerField (bytesOf "Content-Length"),
    .data .headerValue (HttpEncoder.decimal e.body.length),
    .data .headerField (bytesOf "Connection"),
    .data .headerValue (connectionValue e.closeConnection)] ++
  e.headers.toList.flatMap headerEvents

/-- The callbacks for the request, with all its data in one piece. -/
def requestEvents (e : HttpEncoder) (m : Method) : List Event :=
  frontEvents e ++ [.note .headersComplete] ++
    (if e.body = [] then [] else [.data .body e.body]) ++ [.note (.messageComplete m 0)]

theorem requestEvents_eq (e : HttpEncoder) (m : Method) :
    requestEvents e m =
      [.note .messageBegin, .data .url e.requestTarget] ++ writtenEvents (.request m) e := by
  simp only [requestEvents, frontEvents, writtenEvents, writtenFields, dataEvents, headerEvents,
    List.flatMap_cons, List.append_assoc, List.cons_append, List.nil_append]
  rfl

section Request

variable {type : ParserType} {e : HttpEncoder} {m : Method} {target : Bytes}

/-- What is read byte by byte. -/
theorem reads_request (htype : type ≠ .response) (hmethod : e.method = m.str)
    (hm : m ≠ .connect) (htarget : e.requestTarget = ascii '/' :: target)
    (hchars : ∀ c ∈ target, isTarget c = true) (hheaders : ∀ h ∈ e.headers.toList, Ordinary h)
    (hbody : e.body.length ≤ ULLONG_MAX - 10) :
    ∃ q, q.state = endState e.closeConnection ∧
      ReadsIn (2 * (e.getRequestString.length - e.body.length)) (init type) e.getRequestString q
        (requestEvents e m) := by
  rw [getRequestString_eq hmethod htarget, requestEvents_eq, htarget]
  exact reads_message (reads_line htype m hchars) hm hheaders hbody

end Request

end Third
end CoSocket
