import Mathlib.Data.List.Sort
import BurnedChats.Backend.OfflineQueue

/-!
# Delivery of direct messages

A message goes to the recipient as an event when the user registry shows a live
connection, else into the offline queue; either way the sender is then told that
it was sent. A sync hands the queue out as one event and deletes it. The
recipient's client takes new messages into a buffer while the view is one of
handshake, verify and chat, moves them into the list of the open chat once both
sides are verified and the key is there, and merges a sync batch into that list.

A ledger beside the model keeps what was acknowledged and what became of it.
-/

namespace BurnedChats

open Interleave

namespace Custody

open OfflineQueue

/-! ## The recipient's client -/

/-- The views of the app; `home` stands for all that hold no direct message. -/
inductive View where
  | home
  | handshake
  | verify
  | chat
deriving DecidableEq

def isDmInboundBufferView : View → Bool
  | .home => false
  | _ => true

/-- An entry of the message list. -/
structure DecryptedMessage where
  id : String
  timestamp : Nat
deriving DecidableEq

/-- `sessionId` is the session of the active chat or handshake; `consumed` what
the flush of the buffer has finished and not yet reported. -/
structure Client (K : Type) where
  connected : Bool
  view : View
  sessionId : Option String
  bothVerified : Bool
  key : Option K
  hiddenIds : List String
  messageTtlSeconds : Nat
  buffered : List Message
  messages : List DecryptedMessage
  consumed : List String

def ttlAnchorMs (m : Message) (now : Nat) : Nat :=
  (m.serverTimestamp <|> m.clientTimestamp).getD now

def isTtlExpired (ttlAnchorMs ttlSeconds now : Nat) : Bool :=
  if ttlSeconds = 0 then false else ttlAnchorMs + ttlSeconds * 1000 ≤ now

def toEpochMs (m : Message) (now : Nat) : Nat :=
  (m.clientTimestamp <|> m.serverTimestamp).getD now

variable {K : Type}

namespace Client

variable (c : Client K) (sessionId : String)

def shownIds : List String := c.messages.map DecryptedMessage.id

/-- The subscription to new messages. -/
def enabled : Bool :=
  c.connected && c.sessionId == some sessionId && isDmInboundBufferView c.view

/-- The chat of the session is on screen. -/
def chatOpen : Bool := c.view == .chat && c.sessionId == some sessionId

def shouldSkipDecryptForTtl (m : Message) (now : Nat) : Bool :=
  if c.hiddenIds.contains m.messageId then true
  else isTtlExpired (ttlAnchorMs m now) c.messageTtlSeconds now

/-- `parseInboundWire` drops what has no content or no initialisation vector. -/
def takesInbound (m : Message) : Bool :=
  c.enabled sessionId && m.messageId != "" && m.encryptedContent != "" && m.iv != ""

def bufferInbound (m : Message) : Client K :=
  if (ids c.buffered).contains m.messageId then c
  else { c with buffered := c.buffered ++ [m] }

/-- Messages that are not in the list yet, sorted in by their time. -/
def mergeMessagesSorted (incoming : List DecryptedMessage) : List DecryptedMessage :=
  let new := incoming.filter fun d => !c.shownIds.contains d.id
  if new.isEmpty then c.messages
  else (c.messages ++ new).insertionSort fun a b => a.timestamp ≤ b.timestamp

end Client

/-- What becomes of a message that is about to be decrypted. -/
inductive Outcome where
  | hidden
  | shown
  | failed
deriving DecidableEq

variable (decrypts : K → Message → Bool)

def outcome (c : Client K) (key : K) (now : Nat) (m : Message) : Outcome :=
  if c.shouldSkipDecryptForTtl m now then .hidden
  else if decrypts key m then .shown
  else .failed

/-- Those of a batch with a given outcome. -/
def outcomes (c : Client K) (key : K) (now : Nat) (o : Outcome) (batch : List Message) :
    List Message :=
  batch.filter fun m => outcome decrypts c key now m == o

/-- The part that ingesting one message and merging a sync batch have in common. -/
def showBatch (c : Client K) (key : K) (now : Nat) (batch : List Message) : Client K :=
  { c with
    hiddenIds := c.hiddenIds ++ ids (outcomes decrypts c key now .hidden batch)
    messages := c.mergeMessagesSorted
      ((outcomes decrypts c key now .shown batch).map fun m => ⟨m.messageId, toEpochMs m now⟩) }

/-! ## Server and connection -/

inductive Event where
  | newMessage (m : Message)
  | syncMessages (messages : List Message)

def Event.messages : Event → List Message
  | .newMessage m => [m]
  | .syncMessages messages => messages

/-- `live` is what the user registry of the server shows; `events` are on their
way to the connected client. -/
structure World (K : Type) where
  sessionId : String
  queue : Queue
  live : Bool
  client : Client K
  events : List Event

/-- Requests, and where they stand; `sent` is the message that the sender of the
request is waiting to hear about. -/
inductive Request where
  | send (m : Message)
  | deliverMessageImmediately (m : Message)
  | operation (op : Op) (sent : Option Message)
  | acknowledge (m : Message)
  | finished

def Request.opens : Request → Bool
  | .send _ => true
  | .operation (.queueMessage _) _ => false
  | .operation op none => op.opens
  | _ => false

/-- An event for a client that is not connected goes nowhere. -/
def World.emit (w : World K) (es : List Event) : World K :=
  if w.client.connected then { w with events := w.events ++ es } else w

/-- A sync sends what it has read before it deletes the queue. -/
def emitted : Op → List Event
  | .size messages => [.syncMessages messages]
  | _ => []

def continued : Op → Option Message → Request
  | .done, some m => .acknowledge m
  | .done, none => .finished
  | op, sent => .operation op sent

def step (max : Nat) : Request → World K → Option (World K × Request)
  | .send m, w =>
      let m' := { m with serverTimestamp := some w.queue.now }
      some (w, if w.live then .deliverMessageImmediately m'
        else .operation (.queueMessage m') (some m'))
  | .deliverMessageImmediately m, w => some (w.emit [.newMessage m], .acknowledge m)
  | .operation op sent, w =>
      (OfflineQueue.step max op w.queue).map fun r =>
        ({ w with queue := r.1 }.emit (emitted op), continued r.2 sent)
  | .acknowledge _, w => some (w, .finished)
  | .finished, _ => none

/-- What the client, the connection and the rest of the server do. A re-key, a
burn and the end of the list's time to live are `dropQueue`; the client's side
of a burn is `setKey none` and `changeView`. `now` is the client's clock. -/
inductive Move (K : Type) where
  | connect
  | disconnect
  | unregister
  | changeView (view : View) (sessionId : Option String)
  | setVerified (bothVerified : Bool)
  | setKey (key : Option K)
  | setMessageTtl (seconds : Nat)
  | hide (messageId : String)
  | deliver (i now : Nat)
  | ingest (i now : Nat)
  | consume
  | cancel
  | deleted (messageId : String)
  | dropQueue
  | tick (ms : Nat)

/-- Leaving the views of the session clears the buffer; closing the chat clears
the list. -/
def Client.keepsBuffer (c : Client K) (view : View) (sessionId : Option String) : Bool :=
  c.sessionId == sessionId && isDmInboundBufferView view

def Client.keepsMessages (c : Client K) (view : View) (sessionId : Option String) : Bool :=
  c.view == .chat && view == .chat && c.sessionId == sessionId

def Client.changeView (c : Client K) (view : View) (sessionId : Option String) : Client K :=
  { c with
    view := view
    sessionId := sessionId
    buffered := if c.keepsBuffer view sessionId then c.buffered else []
    messages := if c.keepsMessages view sessionId then c.messages else []
    consumed := [] }

/-- An event reaches the client. -/
def Client.receive (c : Client K) (sessionId : String) (now : Nat) : Event → Client K
  | .newMessage m => if c.takesInbound sessionId m then c.bufferInbound m else c
  | .syncMessages messages =>
      if !c.chatOpen sessionId || !c.bothVerified then c
      else
        match c.key with
        | none => c
        | some key => showBatch decrypts c key now messages

def env : Move K → World K → Option (World K)
  | .connect, w => some { w with live := true, client := { w.client with connected := true } }
  | .disconnect, w =>
      some { w with client := { w.client with connected := false }, events := [] }
  | .unregister, w => some { w with live := false }
  | .changeView view sessionId, w =>
      some { w with client := w.client.changeView view sessionId }
  | .setVerified bothVerified, w =>
      some { w with client := { w.client with bothVerified := bothVerified } }
  | .setKey key, w => some { w with client := { w.client with key := key } }
  | .setMessageTtl seconds, w =>
      some { w with client := { w.client with messageTtlSeconds := seconds } }
  | .hide messageId, w =>
      some { w with
        client := { w.client with hiddenIds := w.client.hiddenIds ++ [messageId] } }
  | .deliver i now, w =>
      match w.events[i]? with
      | none => none
      | some e =>
          some { w with
            client := w.client.receive decrypts w.sessionId now e, events := w.events.eraseIdx i }
  | .ingest i now, w =>
      if !w.client.chatOpen w.sessionId || !w.client.bothVerified then none
      else
        match w.client.key, w.client.buffered[i]? with
        | some key, some m =>
            let shown := showBatch decrypts w.client key now [m]
            some { w with client := { shown with consumed := shown.consumed ++ [m.messageId] } }
        | _, _ => none
  | .consume, w =>
      some { w with
        client := { w.client with
          buffered := w.client.buffered.filter fun m => !w.client.consumed.contains m.messageId
          consumed := [] } }
  | .cancel, w => some { w with client := { w.client with consumed := [] } }
  | .deleted messageId, w =>
      some { w with
        client := { w.client with
          messages := w.client.messages.filter fun d => d.id != messageId } }
  | .dropQueue, w => some { w with queue := { w.queue with list := [] } }
  | .tick ms, w => some { w with queue := { w.queue with now := w.queue.now + ms } }

/-! ## What becomes of the messages -/

/-- `ended` holds the ids that were deleted, hidden, expired, trimmed or dropped
with the queue, `givenUp` those that were given up by design. -/
structure Ledger where
  log : Log
  acked : List String
  ended : List String
  givenUp : List String

/-- The ids that an operation on the queue takes out for good. -/
def ends (max : Nat) (q : Queue) : Op → List String
  | .trim => if max = 0 then [] else ids (q.list.take (q.list.length - max))
  | .remove target _ => [target.messageId]
  | .rewrite jsonList cutoff => ids (jsonList.filter (isExpired · cutoff))
  | _ => []

def eventIds (es : List Event) : List String := es.flatMap fun e => ids e.messages

/-- Events for a client that is not connected. -/
def unsent (w : World K) (es : List Event) : List String :=
  if w.client.connected then [] else eventIds es

def record (max : Nat) (r : Request) (w : World K) (l : Ledger) : Ledger :=
  match r with
  | .deliverMessageImmediately m =>
      { l with givenUp := l.givenUp ++ unsent w [.newMessage m] }
  | .operation op _ =>
      { l with
        log := OfflineQueue.record max op w.queue l.log
        ended := l.ended ++ ends max w.queue op
        givenUp := l.givenUp ++ unsent w (emitted op) }
  | .acknowledge m => { l with acked := l.acked ++ [m.messageId] }
  | _ => l

/-- A batch that was decrypted ends what is hidden and gives up what failed. -/
def Ledger.decrypted (l : Ledger) (c : Client K) (key : K) (now : Nat) (batch : List Message) :
    Ledger :=
  { l with
    ended := l.ended ++ ids (outcomes decrypts c key now .hidden batch)
    givenUp := l.givenUp ++ ids (outcomes decrypts c key now .failed batch) }

/-- A sync batch that reaches an open chat without verification or key is in no
account: nothing is promised of it. -/
def Ledger.received (l : Ledger) (c : Client K) (sessionId : String) (now : Nat) :
    Event → Ledger
  | .newMessage m =>
      if c.takesInbound sessionId m then l
      else { l with givenUp := l.givenUp ++ [m.messageId] }
  | .syncMessages messages =>
      if !c.chatOpen sessionId then { l with givenUp := l.givenUp ++ ids messages }
      else if !c.bothVerified then l
      else
        match c.key with
        | none => l
        | some key => l.decrypted decrypts c key now messages

def account (e : Move K) (w : World K) (l : Ledger) : Ledger :=
  match e with
  | .disconnect => { l with givenUp := l.givenUp ++ eventIds w.events }
  | .changeView view sessionId =>
      { l with
        givenUp := l.givenUp
          ++ (if w.client.keepsBuffer view sessionId then [] else ids w.client.buffered)
          ++ (if w.client.keepsMessages view sessionId then [] else w.client.shownIds) }
  | .deliver i now =>
      match w.events[i]? with
      | none => l
      | some e => l.received decrypts w.client w.sessionId now e
  | .ingest i now =>
      match w.client.key, w.client.buffered[i]? with
      | some key, some m => l.decrypted decrypts w.client key now [m]
      | _, _ => l
  | .deleted messageId => { l with ended := l.ended ++ [messageId] }
  | .dropQueue =>
      { l with
        log := { l.log with gone := l.log.gone ++ ids w.queue.list }
        ended := l.ended ++ ids w.queue.list }
  | _ => l

def relay (max : Nat) : Server (World K) Request (Move K) where
  opens := Request.opens
  step := step max
  env := env decrypts

def server (max : Nat) : Server (World K × Ledger) Request (Move K) :=
  (relay decrypts max).tracking (record max) (account decrypts)

end Custody

end BurnedChats
