import SlmOs.Foundation.Scan
import SlmOs.Router.Mailbox

/-!
# Topics and wildcard subscriptions

The two tables of `runtime/src/msg_router.rs`: `msg_router_subscribe`,
`msg_router_unsubscribe_all` and the part of `publish_internal` (the same in
`publish_internal_nowait`) that gathers the mailboxes of a topic.  Each of them runs
under `MSG_ROUTER_LOCK`, so each is one step of `Net`; a publisher then goes through
its targets without the lock.
-/

namespace SlmOs.Router

open Function Foundation List

/-- A C string: its bytes before the NUL. -/
abbrev Text := List Byte

def maxTopics : Nat := 16
def maxSubscribers : Nat := 4
def maxWildcardSubs : Nat := 8

def star : Byte := 42#8

/-- The `component_idx` of a subscription that is not in use. -/
def unused : Int := -1

structure Topic where
  name : Text
  /-- `component_idx` of each subscription. -/
  subs : Nat → Int
  subCount : Int

structure WildcardSub where
  pattern : Text
  componentIdx : Int

def Topic.new : Topic := ⟨[], fun _ => unused, 0⟩

def Topic.isActive (t : Topic) : Bool := !t.name.isEmpty

def WildcardSub.new : WildcardSub := ⟨[], unused⟩

def WildcardSub.isActive (w : WildcardSub) : Bool := !w.pattern.isEmpty

structure Table where
  topics : Nat → Topic
  wildcards : Nat → WildcardSub
  topicCount : Int

def Table.new : Table := ⟨fun _ => .new, fun _ => .new, 0⟩

/-! ## Names -/

def isWildcardPattern (name : Text) : Bool :=
  name.getLast? == some star

def wildcardMatches (pattern topic : Text) : Bool :=
  let prefixLen := (pattern.takeWhile (· != star)).length
  if pattern[prefixLen]? = some star then
    (range prefixLen).all fun i => topic[i]? == pattern[i]?
  else false

/-! ## Subscribing -/

def Table.findTopic (tb : Table) (name : Text) : Option Nat :=
  (range maxTopics).find? fun i =>
    (tb.topics i).isActive && (tb.topics i).name == name

def Topic.add (t : Topic) (c : Int) : Option Topic :=
  if (range maxSubscribers).any fun j => t.subs j == c then some t
  else
    ((range maxSubscribers).find? fun j => t.subs j == unused).map fun j =>
      { t with subs := update t.subs j c, subCount := t.subCount + 1 }

def Table.topicFor (tb : Table) (name : Text) : Table × Option Nat :=
  match tb.findTopic name with
  | some i => (tb, some i)
  | none =>
    match (range maxTopics).find? fun i => !(tb.topics i).isActive with
    | some i =>
      ({ tb with
          topics := update tb.topics i { tb.topics i with name := name, subCount := 0 }
          topicCount := tb.topicCount + 1 }, some i)
    | none => (tb, none)

def Table.subscribeExact (tb : Table) (name : Text) (c : Int) : Table × Bool :=
  match tb.topicFor name with
  | (tb, none) => (tb, false)
  | (tb, some i) =>
    match (tb.topics i).add c with
    | some t => ({ tb with topics := update tb.topics i t }, true)
    | none => (tb, false)

def Table.subscribeWildcard (tb : Table) (name : Text) (c : Int) : Table × Bool :=
  if (range maxWildcardSubs).any fun i =>
      (tb.wildcards i).isActive && (tb.wildcards i).componentIdx == c &&
        (tb.wildcards i).pattern == name then (tb, true)
  else
    match (range maxWildcardSubs).find? fun i => !(tb.wildcards i).isActive with
    | some i =>
      ({ tb with wildcards := update tb.wildcards i ⟨name, c⟩ }, true)
    | none => (tb, false)

/-- `msg_router_subscribe`, with `true` for the return value 0. -/
def Table.subscribe (tb : Table) (name : Text) (c : Int) : Table × Bool :=
  if topicNameLen ≤ name.length then (tb, false)
  else if isWildcardPattern name then tb.subscribeWildcard name c
  else tb.subscribeExact name c

/-! ## Unsubscribing -/

def Topic.removeAt (c : Int) (t : Topic) (j : Nat) : Topic :=
  if t.subs j = c then
    { t with subs := update t.subs j unused, subCount := t.subCount - 1 }
  else t

def Topic.remove (c : Int) (t : Topic) : Topic :=
  (range maxSubscribers).foldl (Topic.removeAt c) t

def Table.unsubscribeTopic (c : Int) (tb : Table) (i : Nat) : Table :=
  if (tb.topics i).isActive then
    let t := (tb.topics i).remove c
    if t.subCount ≤ 0 then
      { tb with
        topics := update tb.topics i .new
        topicCount := tb.topicCount - 1 }
    else { tb with topics := update tb.topics i t }
  else tb

def Table.unsubscribeWildcard (c : Int) (tb : Table) (i : Nat) : Table :=
  if (tb.wildcards i).componentIdx = c then
    { tb with wildcards := update tb.wildcards i .new }
  else tb

def Table.unsubscribeAll (tb : Table) (c : Int) : Table :=
  (range maxWildcardSubs).foldl (Table.unsubscribeWildcard c)
    ((range maxTopics).foldl (Table.unsubscribeTopic c) tb)

/-! ## Publishing -/

inductive Slot where
  | exact (i j : Nat)
  | wild (i : Nat)
  deriving DecidableEq, Repr

/-- The mailboxes that `publish_internal` gathers under the lock.  There are at most
`MAX_SUBSCRIBERS + MAX_WILDCARD_SUBS` of them, so its array never overflows. -/
def Table.gather (tb : Table) (topic : Text) : List Slot :=
  (match tb.findTopic topic with
    | some i =>
      ((range maxSubscribers).filter fun j =>
        (tb.topics i).subs j != unused).map (Slot.exact i)
    | none => []) ++
  ((range maxWildcardSubs).filter fun i =>
    (tb.wildcards i).isActive && (tb.wildcards i).componentIdx != unused &&
      wildcardMatches (tb.wildcards i).pattern topic).map Slot.wild

abbrev Sub := Int × Text

def Topic.sub (t : Topic) (j : Nat) : Option Sub :=
  if t.isActive ∧ t.subs j ≠ unused then some (t.subs j, t.name) else none

def WildcardSub.sub (w : WildcardSub) : Option Sub :=
  if w.isActive ∧ w.componentIdx ≠ unused then some (w.componentIdx, w.pattern)
  else none

def Table.owner (tb : Table) : Slot → Option Sub
  | .exact i j =>
    if i < maxTopics ∧ j < maxSubscribers then (tb.topics i).sub j else none
  | .wild i => if i < maxWildcardSubs then (tb.wildcards i).sub else none

structure Call where
  topic : Text
  targets : List Slot
  placed : List Slot
  /-- The mailboxes that were busy until the publisher gave up. -/
  skipped : List Slot
  /-- The owners of the mailboxes when the targets were gathered. -/
  owners : Slot → Option Sub
  /-- The subscriptions at the same time. -/
  subs : List Sub

structure Net where
  table : Table
  ready : Slot → Ready
  calls : Nat → Option Call
  /-- Who has subscribed to what, by the calls that returned 0. -/
  subs : List Sub

def Net.new : Net := ⟨.new, fun _ => .idle, fun _ => none, []⟩

inductive Move where
  | init
  | subscribe (name : Text) (c : Int)
  | unsubscribeAll (c : Int)
  | publish (p : Nat) (topic : Text)
  | deliver (p : Nat)
  | abandon (p : Nat)
  /-- Whatever `msg_router_ack`, `Mailbox::clear` or a publisher does to a mailbox. -/
  | mailbox (r : Slot) (v : Ready)
  deriving DecidableEq, Repr

def Net.setCall (s : Net) (p : Nat) (call : Call) : Net :=
  { s with calls := update s.calls p (some call) }

def netStep (s : Net) : Move → Option Net
  | .init => some { s with table := .new, subs := [] }
  | .subscribe name c =>
    some
      { s with
        table := (s.table.subscribe name c).1
        subs := if (s.table.subscribe name c).2 then (c, name) :: s.subs
          else s.subs }
  | .unsubscribeAll c =>
    some
      { s with
        table := s.table.unsubscribeAll c
        subs := s.subs.filter fun x => x.1 != c }
  | .publish p topic =>
    if s.calls p = none ∧ topic.length < topicNameLen then
      some (s.setCall p ⟨topic, s.table.gather topic, [], [], s.table.owner, s.subs⟩)
    else none
  | .deliver p =>
    match s.calls p with
    | some ⟨topic, r :: rest, placed, skipped, owners, subs⟩ =>
      if s.ready r = .idle then
        some ({ s with ready := update s.ready r .full }.setCall p
          ⟨topic, rest, r :: placed, skipped, owners, subs⟩)
      else none
    | _ => none
  | .abandon p =>
    match s.calls p with
    | some ⟨topic, r :: rest, placed, skipped, owners, subs⟩ =>
      if s.ready r = .idle then none
      else some (s.setCall p ⟨topic, rest, placed, r :: skipped, owners, subs⟩)
    | _ => none
  | .mailbox r v => some { s with ready := update s.ready r v }

/-- No empty names, and no calls in the name of an unused subscription. -/
def Move.proper : Move → Bool
  | .subscribe name c => !name.isEmpty && c != unused
  | .unsubscribeAll c => c != unused
  | _ => true

/-- What a subscription is for: a pattern that ends in `*` stands for the names that
begin with its text before the first `*`, any other for itself. -/
def patternMatches (pattern topic : Text) : Bool :=
  if isWildcardPattern pattern then
    (pattern.takeWhile (· != star)).isPrefixOf topic
  else pattern == topic

end SlmOs.Router
