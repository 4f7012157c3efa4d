import Fswtch.Lib.Base64
import Fswtch.Lib.SocketReader

/-! One ESL connection of the brain (`brain/esl.py`): header blocks and bodies are read off the
socket's stream through the session's buffer, commands are written and the next block is taken
for the reply. -/

namespace Fswtch.Brain.Esl
open Fswtch.Lib Fswtch.Lib.PythonText Fswtch.Lib.SocketReader
open Fswtch.Lib.ByteReader (utf8)

inductive Error
  | eslError (message : String)
  /-- What `int` raises. -/
  | valueError
  deriving DecidableEq

abbrev Receive (α : Type) := Reader Error α

abbrev Headers := Dict String String

def closed : Error := .eslError "ESL socket closed"

def closedMidBody : Error := .eslError "ESL socket closed mid-body"

def colon : List UInt8 := utf8 ": "

def addHeader (value : List UInt8 → String) (headers : Headers) (line : List UInt8) : Headers :=
  match splitOnce colon line with
  | some (k, v) => headers.set (decode k) (value v)
  | none => headers

/-- The loop of `_read_headers`; every line takes a byte at least, so the fuel suffices. -/
def readHeaderLines : Nat → Headers → Receive Headers
  | 0, _ => throw closed
  | fuel + 1, headers => do
    let line ← readLine closed
    if line = [] then pure headers else readHeaderLines fuel (addHeader decode headers line)

def readHeaders : Receive Headers := do
  let s ← get
  readHeaderLines (s.unread.length + 1) []

/-- The body a `Content-Length` announces, as both `send_cmd` and `recv_event` read it. -/
def readBody (headers : Headers) : Receive (Option (List UInt8)) :=
  match headers.get "Content-Length" with
  | none => pure none
  | some text =>
    match int text with
    | none => throw .valueError
    | some n => do
      let body ← readSlice closedMidBody n
      pure (some body)

/-- What a call writes to the socket before it reads its answer. -/
structure Exchange (α : Type) where
  written : List UInt8
  answer : Receive α

def readReply : Receive Headers := do
  let headers ← readHeaders
  match ← readBody headers with
  | none => pure headers
  | some body => pure (headers.set "_body" (strip (decode body)))

def sendCmd (cmd : String) : Exchange Headers := ⟨utf8 (cmd ++ "\n\n"), readReply⟩

/-- The event serialization in the body of an `event plain` frame. -/
def parseEvent (data : List UInt8) : Headers × List UInt8 :=
  let parts := (splitOnce [newline, newline] data).getD (data, [])
  ((parts.1.splitOn newline).foldl (addHeader fun v => unquote (decode v)) [], parts.2)

def recvEvent : Receive (Headers × List UInt8) := do
  let top ← readHeaders
  let body ← readBody top
  pure (parseEvent (body.getD []))

def eventBytes (subclass : String) (headers : Headers) (body : List UInt8) : List UInt8 :=
  let lines := [utf8 "sendevent CUSTOM", utf8 ("Event-Subclass: " ++ subclass)] ++
    headers.map (fun entry => utf8 (entry.1 ++ ": " ++ entry.2)) ++
    (if body = [] then [] else [utf8 ("Content-Length: " ++ toString body.length)])
  [newline].intercalate lines ++ [newline, newline] ++ body

def sendEvent (subclass : String) (headers : Headers) (body : List UInt8) : Exchange Headers :=
  ⟨eventBytes subclass headers body, readHeaders⟩

def sendPcm (subclass targetUuid : String) (pcm : List UInt8) (sampleRate channels : Int) : Exchange Headers :=
  sendEvent subclass
    [("Target-UUID", targetUuid), ("Sample-Rate", toString sampleRate), ("Channels", toString channels),
      ("Bits-Per-Sample", "16"), ("Sample-Format", "S16LE")]
    (Base64.encode pcm)

end Fswtch.Brain.Esl
