import LocalSearch.Transport.Frame
import Mathlib.Logic.Function.Basic
import Mathlib.Logic.Relation

/-!
# One pipe and its clients

The server has one instance of the pipe and serves one client after another: it
reads a request frame, checks who the client is, runs the handler, writes the
reply and waits until the client acknowledges it. A client connects, writes its
frame, reads the reply and acknowledges it. Both sides read and write in pieces
of any size and can give up between any two of them. Other programs may open the
same endpoint and send what they like.
-/
namespace LocalSearch.Transport

set_option autoImplicit false

open Lib

/-- Who holds a client handle: a call of the library, or any other program. -/
inductive Program where
  | roundTrip (pipeName : String) (encoded : List UInt8)
  | foreign
  deriving DecidableEq, Repr

/-- Where a client handle stands; a foreign one is known by what it has sent. -/
inductive ClientPhase where
  | idle
  | connecting
  | writing (rest : List UInt8)
  | reading (got : List UInt8)
  | acking (frame : List UInt8)
  | returned (result : Except WindowsPipeError (List UInt8))
  | foreign (sent : List UInt8)
  | left (sent : List UInt8)

/-- Where the server stands in its loop over `serve_frame_cancellable`. -/
inductive ServerPhase where
  | listening
  | reading (got : List UInt8)
  | verifying (frame : List UInt8)
  | writing (rest : List UInt8)
  | acknowledging
  | stopped
  deriving DecidableEq, Repr

/-- The connected instance: the client that holds the other end, whether it has
closed its handle, and the bytes on their way. -/
structure Link (ι : Type) where
  client : ι
  closed : Bool
  toServer : List UInt8
  toClient : List UInt8

/-- One call of the handler. -/
structure Call (ι : Type) where
  client : ι
  frame : List UInt8
  reply : Except WindowsPipeError (List UInt8)

/-- The whole system. `calls` and `served` only record what has happened: the
calls of the handler, and the clients whose exchange the server ended well. -/
structure Net (σ ι : Type) where
  server : ServerPhase
  service : σ
  link : Option (Link ι)
  clients : ι → ClientPhase
  calls : List (Call ι)
  served : List ι

/-- What surrounds the pipe. The handler answers with a frame or an error and may
ask whether its client is still there; what it is told is part of `ε`. -/
structure Endpoint (σ ε ι : Type) where
  program : ι → Program
  sid : ι → String
  logonSid : String
  handler : ε → σ → List UInt8 → σ × Except WindowsPipeError (List UInt8)

variable {σ ε ι : Type}

def Net.initial (service : σ) : Net σ ι := ⟨.listening, service, none, fun _ => .idle, [], []⟩

/-- Failures that the clock, a cancellation or the system can bring about at any
read or write. -/
def WindowsPipeError.Outside : WindowsPipeError → Prop
  | .io _ | .cancelled | .deadlineExceeded => True
  | _ => False

/-- The loop of both services goes on after a served client and after a deadline;
any other failure ends the process. -/
def afterServing : Except WindowsPipeError Unit → ServerPhase
  | .ok () | .error .deadlineExceeded => .listening
  | .error _ => .stopped

/-- A party that has written a piece goes on with the rest. -/
def clientAfterWrite (rest : List UInt8) : ClientPhase :=
  if rest = [] then .reading [] else .writing rest

def serverAfterWrite (rest : List UInt8) : ServerPhase :=
  if rest = [] then .acknowledging else .writing rest

/-- A party that has read a piece goes on reading or has the whole frame. -/
def clientAfterRead (got : List UInt8) : ClientPhase :=
  if readNext got = .whole then .acking got else .reading got

def serverAfterRead (got : List UInt8) : ServerPhase :=
  if readNext got = .whole then .verifying got else .reading got

section Steps

variable [DecidableEq ι]

def Net.goto (s : Net σ ι) (c : ι) (phase : ClientPhase) : Net σ ι :=
  { s with clients := Function.update s.clients c phase }

/-- The client's handle is dropped. -/
def Link.drop (l : Link ι) (c : ι) : Link ι := if l.client = c then { l with closed := true } else l

/-- The client returns, and its handle is dropped. -/
def Net.leave (s : Net σ ι) (c : ι) (phase : ClientPhase) : Net σ ι :=
  { s.goto c phase with link := s.link.map (·.drop c) }

/-- An exchange ends: the instance is disconnected and what was on its way is
lost. -/
def Net.finish (s : Net σ ι) (result : Except WindowsPipeError Unit) : Net σ ι :=
  { s with server := afterServing result, link := none }

def Net.record (s : Net σ ι) (service : σ) (call : Call ι) : Net σ ι :=
  { s with service := service, calls := s.calls ++ [call] }

variable (E : Endpoint σ ε ι)

/-- What happens while nothing fails. -/
inductive Move : Net σ ι → Net σ ι → Prop
  | start {s : Net σ ι} {c : ι} {pipeName : String} {encoded : List UInt8}
      (hphase : s.clients c = .idle) (hprogram : E.program c = .roundTrip pipeName encoded)
      (hname : validatePipeName pipeName = .ok ())
      (hframe : validateEncodedFrame encoded = .ok ()) : Move s (s.goto c .connecting)
  | connect {s : Net σ ι} {c : ι} {pipeName : String} {encoded : List UInt8}
      (hphase : s.clients c = .connecting) (hprogram : E.program c = .roundTrip pipeName encoded)
      (hlink : s.link = none) (hserver : s.server ≠ .stopped) :
      Move s { s.goto c (.writing encoded) with link := some ⟨c, false, [], []⟩ }
  | clientWrite {s : Net σ ι} {l : Link ι} {rest : List UInt8} {count : Nat}
      (hlink : s.link = some l) (hphase : s.clients l.client = .writing rest)
      (hcount : count ≤ rest.length) :
      Move s { s.goto l.client (clientAfterWrite (rest.drop count)) with
        link := some { l with toServer := l.toServer ++ rest.take count } }
  | clientRead {s : Net σ ι} {l : Link ι} {got : List UInt8} {wanted count : Nat}
      (hlink : s.link = some l) (hphase : s.clients l.client = .reading got)
      (hwants : readNext got = .wants wanted) (hwanted : count ≤ wanted)
      (hcount : count ≤ l.toClient.length)
      (hsize : readNext (got ++ l.toClient.take count) ≠ .tooLarge) :
      Move s { s.goto l.client (clientAfterRead (got ++ l.toClient.take count)) with
        link := some { l with toClient := l.toClient.drop count } }
  | acknowledge {s : Net σ ι} {l : Link ι} {frame : List UInt8} (hlink : s.link = some l)
      (hphase : s.clients l.client = .acking frame) :
      Move s { s.goto l.client (.returned (.ok frame)) with
        link := some { l with toServer := l.toServer ++ [responseAck], closed := true } }
  | foreignConnect {s : Net σ ι} {c : ι} (hphase : s.clients c = .idle)
      (hprogram : E.program c = .foreign) (hlink : s.link = none) (hserver : s.server ≠ .stopped) :
      Move s { s.goto c (.foreign []) with link := some ⟨c, false, [], []⟩ }
  | foreignWrite {s : Net σ ι} {l : Link ι} {sent bytes : List UInt8} (hlink : s.link = some l)
      (hphase : s.clients l.client = .foreign sent) :
      Move s { s.goto l.client (.foreign (sent ++ bytes)) with
        link := some { l with toServer := l.toServer ++ bytes } }
  | foreignRead {s : Net σ ι} {l : Link ι} {sent : List UInt8} {count : Nat} (hlink : s.link = some l)
      (hphase : s.clients l.client = .foreign sent) :
      Move s { s with link := some { l with toClient := l.toClient.drop count } }
  | foreignLeave {s : Net σ ι} {c : ι} {sent : List UInt8} (hphase : s.clients c = .foreign sent) :
      Move s (s.leave c (.left sent))
  | accept {s : Net σ ι} {l : Link ι} (hserver : s.server = .listening) (hlink : s.link = some l)
      (hopen : l.closed = false) : Move s { s with server := .reading [] }
  | serverRead {s : Net σ ι} {l : Link ι} {got : List UInt8} {wanted count : Nat}
      (hserver : s.server = .reading got) (hlink : s.link = some l)
      (hwants : readNext got = .wants wanted) (hwanted : count ≤ wanted)
      (hcount : count ≤ l.toServer.length)
      (hsize : readNext (got ++ l.toServer.take count) ≠ .tooLarge) :
      Move s { s with
        server := serverAfterRead (got ++ l.toServer.take count)
        link := some { l with toServer := l.toServer.drop count } }
  | handle {s : Net σ ι} {l : Link ι} {frame reply : List UInt8} {around : ε} {service : σ}
      (hserver : s.server = .verifying frame) (hlink : s.link = some l)
      (hsid : E.sid l.client = E.logonSid)
      (hhandler : E.handler around s.service frame = (service, .ok reply))
      (hreply : validateEncodedFrame reply = .ok ()) :
      Move s { s.record service ⟨l.client, frame, .ok reply⟩ with server := .writing reply }
  | serverWrite {s : Net σ ι} {l : Link ι} {rest : List UInt8} {count : Nat}
      (hserver : s.server = .writing rest) (hlink : s.link = some l) (hopen : l.closed = false)
      (hcount : count ≤ rest.length) :
      Move s { s with
        server := serverAfterWrite (rest.drop count)
        link := some { l with toClient := l.toClient ++ rest.take count } }
  | readAck {s : Net σ ι} {l : Link ι} {more : List UInt8} (hserver : s.server = .acknowledging)
      (hlink : s.link = some l) (hack : l.toServer = responseAck :: more) :
      Move s { s.finish (.ok ()) with served := s.served ++ [l.client] }

/-- How an exchange is broken off. -/
inductive Failure : Net σ ι → Net σ ι → Prop
  | refuseName {s : Net σ ι} {c : ι} {pipeName : String} {encoded : List UInt8}
      {error : WindowsPipeError} (hphase : s.clients c = .idle)
      (hprogram : E.program c = .roundTrip pipeName encoded)
      (hname : validatePipeName pipeName = .error error) : Failure s (s.goto c (.returned (.error error)))
  | refuseFrame {s : Net σ ι} {c : ι} {pipeName : String} {encoded : List UInt8}
      {error : WindowsPipeError} (hphase : s.clients c = .idle)
      (hprogram : E.program c = .roundTrip pipeName encoded)
      (hname : validatePipeName pipeName = .ok ())
      (hframe : validateEncodedFrame encoded = .error error) :
      Failure s (s.goto c (.returned (.error error)))
  | notConnected {s : Net σ ι} {c : ι} {error : WindowsPipeError}
      (hphase : s.clients c = .connecting) (herror : error.Outside) :
      Failure s (s.goto c (.returned (.error error)))
  | stopWriting {s : Net σ ι} {c : ι} {rest : List UInt8} {error : WindowsPipeError}
      (hphase : s.clients c = .writing rest) (herror : error.Outside) :
      Failure s (s.leave c (.returned (.error error)))
  | stopReading {s : Net σ ι} {c : ι} {got : List UInt8} {error : WindowsPipeError}
      (hphase : s.clients c = .reading got) (herror : error.Outside) :
      Failure s (s.leave c (.returned (.error error)))
  | stopAcking {s : Net σ ι} {c : ι} {frame : List UInt8} {error : WindowsPipeError}
      (hphase : s.clients c = .acking frame) (herror : error.Outside) :
      Failure s (s.leave c (.returned (.error error)))
  | clientTooLarge {s : Net σ ι} {l : Link ι} {got : List UInt8} {wanted count : Nat}
      (hlink : s.link = some l) (hphase : s.clients l.client = .reading got)
      (hwants : readNext got = .wants wanted) (hwanted : count ≤ wanted)
      (hcount : count ≤ l.toClient.length)
      (hsize : readNext (got ++ l.toClient.take count) = .tooLarge) :
      Failure s (s.leave l.client (.returned (.error (.frame .tooLarge))))
  | keepListening {s : Net σ ι} (hserver : s.server = .listening) :
      Failure s s
  | stopListening {s : Net σ ι} {error : WindowsPipeError} (hserver : s.server = .listening)
      (herror : error.Outside) (hends : afterServing (.error error) = .stopped) :
      Failure s (s.finish (.error error))
  | stopServing {s : Net σ ι} {l : Link ι} {error : WindowsPipeError} (hserver : s.server ≠ .listening)
      (hlink : s.link = some l) (herror : error.Outside) : Failure s (s.finish (.error error))
  | serverTooLarge {s : Net σ ι} {l : Link ι} {got : List UInt8} {wanted count : Nat}
      (hserver : s.server = .reading got) (hlink : s.link = some l)
      (hwants : readNext got = .wants wanted) (hwanted : count ≤ wanted)
      (hcount : count ≤ l.toServer.length)
      (hsize : readNext (got ++ l.toServer.take count) = .tooLarge) :
      Failure s (s.finish (.error (.frame .tooLarge)))
  | unauthorized {s : Net σ ι} {l : Link ι} {frame : List UInt8}
      (hserver : s.server = .verifying frame) (hlink : s.link = some l)
      (hsid : E.sid l.client ≠ E.logonSid) : Failure s (s.finish (.error .unauthorized))
  | handlerFails {s : Net σ ι} {l : Link ι} {frame : List UInt8} {around : ε} {service : σ}
      {error : WindowsPipeError} (hserver : s.server = .verifying frame) (hlink : s.link = some l)
      (hsid : E.sid l.client = E.logonSid)
      (hhandler : E.handler around s.service frame = (service, .error error)) :
      Failure s ((s.record service ⟨l.client, frame, .error error⟩).finish (.error error))
  | replyRefused {s : Net σ ι} {l : Link ι} {frame reply : List UInt8} {around : ε} {service : σ}
      {error : WindowsPipeError} (hserver : s.server = .verifying frame) (hlink : s.link = some l)
      (hsid : E.sid l.client = E.logonSid)
      (hhandler : E.handler around s.service frame = (service, .ok reply))
      (hreply : validateEncodedFrame reply = .error error) :
      Failure s ((s.record service ⟨l.client, frame, .ok reply⟩).finish (.error error))
  | wrongAck {s : Net σ ι} {l : Link ι} {byte : UInt8} {more : List UInt8}
      (hserver : s.server = .acknowledging) (hlink : s.link = some l)
      (hack : l.toServer = byte :: more) (hbyte : byte ≠ responseAck) :
      Failure s (s.finish (.error (.frame .incomplete)))

def Step (s t : Net σ ι) : Prop := Move E s t ∨ Failure E s t

/-- The states a system that starts with this service can come to. -/
def Reachable (service : σ) (s : Net σ ι) : Prop :=
  Relation.ReflTransGen (Step E) (Net.initial service) s

variable {E} {service : σ} {s t : Net σ ι}

theorem Reachable.initial : Reachable E service (Net.initial service) := .refl

theorem Reachable.move (h : Reachable E service s) (hmove : Move E s t) : Reachable E service t :=
  h.tail (Or.inl hmove)

end Steps

end LocalSearch.Transport
