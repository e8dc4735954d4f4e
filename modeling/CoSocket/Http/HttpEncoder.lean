import CoSocket.Base.Codec

/-!
# Http.HttpEncoder

`net/http/HttpEncoder.h`, and the responses that `HttpDispatch` makes by itself. The function `SHA1`
of OpenSSL is a parameter.
-/

namespace CoSocket
namespace Http

open Base

inductive StatusCode where
  | StatusCode_Unknown
  | StatusCode_200Ok
  | StatusCode_301MovedPermanently
  | StatusCode_400BadRequest
  | StatusCode_404NotFound
  | StatusCode_500ServerErr
  | StatusCode_101WebSocket
deriving DecidableEq, Repr

def StatusCode.code : StatusCode → Nat
  | .StatusCode_Unknown => 0
  | .StatusCode_200Ok => 200
  | .StatusCode_301MovedPermanently => 301
  | .StatusCode_400BadRequest => 400
  | .StatusCode_404NotFound => 404
  | .StatusCode_500ServerErr => 500
  | .StatusCode_101WebSocket => 101

/-- `HttpEncoder(close)`; the last three fields are those of a request. -/
structure HttpEncoder where
  headers : Std.ExtTreeMap Bytes Bytes := ∅
  statusCode : StatusCode := .StatusCode_Unknown
  statusMessage : Bytes := []
  closeConnection : Bool
  body : Bytes := []
  method : Bytes := []
  url : Bytes := []
  parameters : Std.ExtTreeMap Bytes Bytes := ∅

namespace HttpEncoder

def addHeader (e : HttpEncoder) (key value : Bytes) : HttpEncoder :=
  { e with headers := e.headers.insert key value }

def setContentType (e : HttpEncoder) (contentType : Bytes) : HttpEncoder :=
  e.addHeader (bytesOf "Content-Type") contentType

def addParameter (e : HttpEncoder) (key value : Bytes) : HttpEncoder :=
  { e with parameters := e.parameters.insert key value }

def crlf : Bytes := bytesOf "\r\n"

/-- A number as `ostringstream` writes it. -/
def decimal (n : Nat) : Bytes := bytesOf (toString n)

/-- What `AppendToStream` adds. -/
def appendToStream (e : HttpEncoder) : Bytes :=
  bytesOf "Content-Length: " ++ decimal e.body.length ++ crlf ++
    (if e.closeConnection then bytesOf "Connection: close" else bytesOf "Connection: Keep-Alive") ++
    crlf ++
    e.headers.toList.flatMap (fun h => h.1 ++ bytesOf ": " ++ h.2 ++ crlf) ++
    crlf ++ e.body

def getReponseString (e : HttpEncoder) : Bytes :=
  bytesOf "HTTP/1.1 " ++ decimal e.statusCode.code ++ bytesOf " " ++ e.statusMessage ++ crlf ++
    e.appendToStream

/-- What the loop of `GetRequestString` writes for the parameters. -/
def parameterString (parameters : List (Bytes × Bytes)) : Bytes :=
  (parameters.mapIdx fun i h =>
    bytesOf (if i = 0 then "?" else "&") ++ (h.1 ++ bytesOf "=" ++ h.2)).flatten

/-- The part of the request line between the method and the version. -/
def requestTarget (e : HttpEncoder) : Bytes := e.url ++ parameterString e.parameters.toList

def getRequestString (e : HttpEncoder) : Bytes :=
  e.method ++ bytesOf " " ++ e.requestTarget ++ bytesOf " HTTP/1.1" ++ crlf ++ e.appendToStream

end HttpEncoder

/-- `ResponseHttpNotFound` -/
def responseHttpNotFound (httpResponse : HttpEncoder) : HttpEncoder :=
  { httpResponse with
    statusCode := .StatusCode_404NotFound
    body := bytesOf "\x7b\"code\": 1, \"message\": \"Not Found\"\x7d\n"
    closeConnection := true }

/-- `ResponseWebSocketHandshake`. The digest is handed to `base64_encode` as a C string. -/
def responseWebSocketHandshake (sha1 : Bytes → Bytes) (httpResponse : HttpEncoder) (key : Bytes) :
    HttpEncoder :=
  let key := key ++ bytesOf "258EAFA5-E914-47DA-95CA-C5AB0DC85B11"
  let acceptBase64 := base64Encode (cStr (sha1 key))
  let httpResponse := { httpResponse with
    statusCode := .StatusCode_101WebSocket
    statusMessage := bytesOf "Switching Protocols" }
  ((httpResponse.addHeader (bytesOf "Upgrade") (bytesOf "websocket")).addHeader
    (bytesOf "Connection") (bytesOf "Upgrade")).addHeader
      (bytesOf "Sec-WebSocket-Accept") acceptBase64

end Http
end CoSocket
