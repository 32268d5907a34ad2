import SlmOs.Foundation.CString
import SlmOs.Foundation.Transition

/-!
# Mailboxes of the message router

One mailbox of `runtime/src/msg_router.rs` and everybody who works on it: any number
of publishers inside `publish_internal` or `publish_internal_nowait`, and the one
task that holds `MSG_ROUTER_LOCK` inside `msg_router_receive`, `msg_router_ack` or
`Mailbox::clear`.  Every load, store and compare-exchange is a step, and the copies
go byte by byte.
-/

namespace SlmOs.Router

open Function Foundation

inductive Ready where
  | idle
  | full
  | writing
  deriving DecidableEq, Repr

structure Mailbox where
  ready : Ready
  ack : Nat
  data : Nat → Byte
  topic : Nat → Byte
  priority : Nat

def maxMsgLen : Nat := 60
def topicNameLen : Nat := 16

/-- A message that meets the contract of `try_deliver`. -/
structure Message where
  topic : List Byte
  data : List Byte
  priority : Nat
  topic_text : 0#8 ∉ topic
  data_text : 0#8 ∉ data
  topic_fits : topic.length < topicNameLen
  data_fits : data.length < maxMsgLen
  priority_fits : priority < 256

/-- Where a publisher is; `waitAck` remembers which message it waits for. -/
inductive PublishPc where
  | claim
  | copyData (i : Nat)
  | copyTopic (i : Nat)
  | storeAck
  | storePriority
  | storeReady
  | waitAck (id : Nat)
  deriving DecidableEq, Repr

structure Publisher where
  msg : Message
  /-- `publish_internal` waits, `publish_internal_nowait` does not. -/
  waits : Bool
  pc : PublishPc

inductive Guarded where
  | receiveReady
  | receivePriority
  | receiveTopic (priority : Nat) (out : List Byte)
  | ackReady
  | ackIdle
  | ackFlag
  | clearReady
  | clearClaim (cur : Ready)
  | clearAck
  | clearData (i : Nat)
  | clearTopic (i : Nat)
  | clearPriority
  | clearIdle
  deriving DecidableEq, Repr

structure Receipt where
  id : Nat
  topic : List Byte
  priority : Nat
  data : List Byte
  /-- The mailbox has not been cleared while the subscriber was reading. -/
  intact : Bool

structure Exchange where
  mailbox : Mailbox
  publishers : Nat → Option Publisher
  guarded : Option Guarded
  /-- `msg_router_receive` has returned a pointer, through which data is read. -/
  reading : Option Receipt
  /-- All messages that were put into the mailbox, the last one first. -/
  accepted : List Message
  acked : List Nat
  receipts : List Receipt
  /-- The messages that their publishers count as delivered. -/
  counted : List Nat

namespace Exchange

def set (s : Exchange) (p : Nat) (pub : Option Publisher) : Exchange :=
  { s with publishers := update s.publishers p pub }

def last (s : Exchange) : Nat := s.accepted.length - 1

end Exchange

def publishStep (s : Exchange) (p : Nat) (pub : Publisher) : Exchange :=
  let mb := s.mailbox
  match pub.pc with
  | .claim =>
    if mb.ready = .idle then
      { s with mailbox := { mb with ready := .writing } }.set p
        (some { pub with pc := .copyData 0 })
    else if pub.waits then s
    else s.set p none
  | .copyData i =>
    match pub.msg.data[i]? with
    | some c =>
      { s with mailbox := { mb with data := update mb.data i c } }.set
        p (some { pub with pc := .copyData (i + 1) })
    | none =>
      { s with
        mailbox := { mb with data := update mb.data i 0#8 } }.set p
        (some { pub with pc := .copyTopic 0 })
  | .copyTopic i =>
    match pub.msg.topic[i]? with
    | some c =>
      { s with
        mailbox := { mb with topic := update mb.topic i c } }.set p
        (some { pub with pc := .copyTopic (i + 1) })
    | none =>
      { s with
        mailbox := { mb with topic := update mb.topic i 0#8 } }.set
        p (some { pub with pc := .storeAck })
  | .storeAck =>
    { s with mailbox := { mb with ack := 0 } }.set p
      (some { pub with pc := .storePriority })
  | .storePriority =>
    { s with mailbox := { mb with priority := pub.msg.priority } }.set p
      (some { pub with pc := .storeReady })
  | .storeReady =>
    { s with
      mailbox := { mb with ready := .full }
      accepted := pub.msg :: s.accepted }.set p
      (if pub.waits then
        some { pub with pc := .waitAck s.accepted.length }
      else none)
  | .waitAck id =>
    if mb.ack ≠ 0 then { s with counted := id :: s.counted }.set p none
    else s

def spoil (r : Receipt) : Receipt := { r with intact := false }

def guardedStep (s : Exchange) (g : Guarded) : Exchange :=
  let mb := s.mailbox
  match g with
  | .receiveReady =>
    if mb.ready = .full then { s with guarded := some .receivePriority }
    else { s with guarded := none }
  | .receivePriority =>
    { s with guarded := some (.receiveTopic (mb.priority % 256) []) }
  | .receiveTopic priority out =>
    if out.length < topicNameLen - 1 ∧ mb.topic out.length ≠ 0#8 then
      { s with
        guarded := some (.receiveTopic priority (out ++ [mb.topic out.length])) }
    else
      { s with
        guarded := none
        reading := some
          { id := s.last, topic := out, priority := priority, data := []
            intact := true } }
  | .ackReady =>
    if mb.ready = .full then { s with guarded := some .ackIdle }
    else { s with guarded := none }
  | .ackIdle =>
    { s with
      mailbox := { mb with ready := .idle }
      guarded := some .ackFlag
      acked := s.last :: s.acked }
  | .ackFlag => { s with mailbox := { mb with ack := 1 }, guarded := none }
  | .clearReady =>
    if mb.ready = .writing then s
    else { s with guarded := some (.clearClaim mb.ready) }
  | .clearClaim cur =>
    if mb.ready = cur then
      { s with
        mailbox := { mb with ready := .writing }
        guarded := some .clearAck
        reading := s.reading.map spoil }
    else { s with guarded := some .clearReady }
  | .clearAck =>
    { s with mailbox := { mb with ack := 0 }, guarded := some (.clearData 0) }
  | .clearData i =>
    if i < maxMsgLen then
      { s with
        mailbox := { mb with data := update mb.data i 0#8 }
        guarded := some (.clearData (i + 1)) }
    else { s with guarded := some (.clearTopic 0) }
  | .clearTopic i =>
    if i < topicNameLen then
      { s with
        mailbox := { mb with topic := update mb.topic i 0#8 }
        guarded := some (.clearTopic (i + 1)) }
    else { s with guarded := some .clearPriority }
  | .clearPriority =>
    { s with mailbox := { mb with priority := 0 }, guarded := some .clearIdle }
  | .clearIdle =>
    { s with mailbox := { mb with ready := .idle }, guarded := none }

inductive Action where
  | publish (p : Nat) (msg : Message) (waits : Bool)
  | publisher (p : Nat)
  | receive
  | ack
  | clear
  | guarded
  /-- `msg_router_receive` has found a mailbox that is more urgent. -/
  | passOver
  | read

def step (s : Exchange) : Action → Option Exchange
  | .publish p msg waits =>
    match s.publishers p with
    | some _ => none
    | none =>
      some (s.set p (some { msg := msg, waits := waits, pc := .claim }))
  | .publisher p => (s.publishers p).map (publishStep s p)
  | .receive =>
    if s.guarded = none then
      some { s with guarded := some .receiveReady, reading := none }
    else none
  | .ack =>
    if s.guarded = none then
      some { s with guarded := some .ackReady, reading := none }
    else none
  | .clear =>
    if s.guarded = none then some { s with guarded := some .clearReady }
    else none
  | .guarded => s.guarded.map (guardedStep s)
  | .passOver =>
    match s.guarded with
    | some (.receiveTopic _ []) => some { s with guarded := none }
    | _ => none
  | .read =>
    match s.reading with
    | none => none
    | some r =>
      if s.mailbox.data r.data.length = 0#8 then
        some { s with reading := none, receipts := r :: s.receipts }
      else
        some { s with
          reading := some
            { r with
              data := r.data ++ [s.mailbox.data r.data.length] } }

def Exchange.new : Exchange where
  mailbox :=
    { ready := .idle, ack := 0, data := fun _ => 0#8, topic := fun _ => 0#8
      priority := 0 }
  publishers := fun _ => none
  guarded := none
  reading := none
  accepted := []
  acked := []
  receipts := []
  counted := []

end SlmOs.Router
