import SlmOs.Foundation.Ring
import SlmOs.Foundation.Transition
import SlmOs.Telnet.Parser

/-!
# A remote shell session

The context of `shell_io_tcp.c`, with the two tasks that work on it.  The network task runs
`on_recv`, `on_err` and `shell_io_tcp_poll`; it is the only one that touches the pending
pbufs, the parser and the pcb.  The shell task reads from the receive ring and writes into
the transmit ring.  They meet under the ring locks, so a step of a task is one locked
region, or what lies between two of them; each task has a place in its code, `Pump` and
`Shell`.

A pbuf chain is a list of byte strings.  lwIP answers a call of `tcp_write` with all or
nothing, and how much it takes is up to it: every step of the network task is given the
size of the send buffer and the answers to `tcp_write`.  In the same way a step of a
waiting write is told whether its deadline has passed.

The last fields of the context are its history: what came in, how it was parsed, what the
shell read and wrote, and what was handed to TCP.
-/

namespace SlmOs.Telnet

open Foundation

def tcpShellTxRingSize : Nat := 16384
def tcpShellTxRingMask : Nat := tcpShellTxRingSize - 1
def tcpShellRxRingSize : Nat := 262144
def tcpShellRxRingMask : Nat := tcpShellRxRingSize - 1

/-! ## Ring arithmetic -/

def ringUsedMask (head tail mask : Nat) : Nat := (head + 2 ^ 32 - tail) % 2 ^ 32 &&& mask

def ringFreeMask (head tail mask : Nat) : Nat := mask - ringUsedMask head tail mask

abbrev RxRing := IndexRing UInt8 tcpShellRxRingSize
abbrev TxRing := IndexRing UInt8 tcpShellTxRingSize

theorem ringUsedMask_pow (head tail : Nat) (hk : k ≤ 32) :
    ringUsedMask head tail (2 ^ k - 1) = (head + 2 ^ 32 - tail) % 2 ^ k := by
  unfold ringUsedMask
  rw [Nat.and_two_pow_sub_one_eq_mod, Nat.mod_mod_of_dvd _ (Nat.pow_dvd_pow 2 hk)]

theorem ringUsedMask_eq {α : Type} (k : Nat) (hk : k ≤ 32) (r : IndexRing α (2 ^ k)) :
    ringUsedMask r.head r.tail (2 ^ k - 1) = r.used := by
  have htail := r.tail_lt
  have hdvd : 2 ^ k ∣ 2 ^ 32 := Nat.pow_dvd_pow 2 hk
  have hle : 2 ^ k ≤ 2 ^ 32 := Nat.le_of_dvd (by norm_num) hdvd
  have hsplit : r.head + 2 ^ 32 - r.tail = r.head + 2 ^ k - r.tail + (2 ^ 32 - 2 ^ k) := by
    omega
  have hzero : (2 ^ 32 - 2 ^ k) % 2 ^ k = 0 :=
    Nat.mod_eq_zero_of_dvd (Nat.dvd_sub hdvd (dvd_refl _))
  rw [ringUsedMask_pow _ _ hk, IndexRing.used, hsplit, Nat.add_mod, hzero, Nat.add_zero,
    Nat.mod_mod]

theorem rx_usedMask (r : RxRing) : ringUsedMask r.head r.tail tcpShellRxRingMask = r.used :=
  ringUsedMask_eq 18 (by decide) r

theorem rx_freeMask (r : RxRing) : ringFreeMask r.head r.tail tcpShellRxRingMask = r.free := by
  rw [ringFreeMask, rx_usedMask]
  rfl

theorem tx_usedMask (r : TxRing) : ringUsedMask r.head r.tail tcpShellTxRingMask = r.used :=
  ringUsedMask_eq 14 (by decide) r

theorem tx_freeMask (r : TxRing) : ringFreeMask r.head r.tail tcpShellTxRingMask = r.free := by
  rw [ringFreeMask, tx_usedMask]
  rfl

attribute [irreducible] ringUsedMask ringFreeMask

def emptyRing (size : Nat) (h : 0 < size) : IndexRing UInt8 size where
  cell := fun _ => 0
  head := 0
  tail := 0
  head_lt := h
  tail_lt := h

theorem emptyRing_contents (size : Nat) (h : 0 < size) : (emptyRing size h).contents = [] := by
  rw [← IndexRing.head_eq_tail_iff]
  rfl

/-! ## The context -/

structure SessionInfo where
  windowCols : Nat
  windowRows : Nat
  termType : Bytes
  interruptRequested : Bool
  deriving DecidableEq, Repr

/-- The two write functions of the shell: `tcp_write_buf` and `tcp_write_raw_buf`. -/
inductive WriteKind
  | text | raw
  deriving DecidableEq, Repr

/-- What the network task does once `recved_pending` returns. -/
inductive Caller
  | onRecv | onFin | poll
  deriving DecidableEq, Repr

inductive Pump
  | idle
  /-- at the head of the loops of `drain_pending_pbuf` -/
  | drain (caller : Caller) (consumed : Nat)
  /-- the ring had a free cell, and the next byte is about to be parsed -/
  | feed (caller : Caller) (consumed : Nat) (byte : UInt8)
  /-- in the `tcp_recved` loop -/
  | recved (caller : Caller) (consumed : Nat)
  /-- in the loop that drains the transmit ring -/
  | drainTx
  /-- where a closed session gives up its pcb -/
  | close
  deriving DecidableEq, Repr

inductive Shell
  | idle
  /-- at the head of the loop of a write, with the bytes that are left -/
  | write (kind : WriteKind) (rest : Bytes)
  /-- the session was open, and the ring is about to be locked -/
  | enqueue (kind : WriteKind) (rest : Bytes)
  deriving DecidableEq, Repr

structure Ctx where
  closed : Bool
  shellDone : Bool
  writeDegraded : Bool
  closeReason : Option String
  /-- whether `pcb` is not NULL -/
  pcb : Bool
  session : Option SessionInfo
  rx : RxRing
  pendingPbuf : List Bytes
  pendingOffset : Nat
  tx : TxRing
  txPrevWasCr : Bool
  telnet : TelnetParser
  pump : Pump
  shell : Shell
  /-- all bytes of the segments that came in -/
  received : Bytes
  /-- the bytes that were parsed, with the mode at that time -/
  fed : List (UInt8 × Bool)
  /-- what the ring-full branch of `telnet_inject_rx` lost -/
  dropped : Bytes
  /-- the sum of the calls of `tcp_recved` -/
  acked : Nat
  /-- what the shell task got -/
  read : Bytes
  /-- the calls of the write functions -/
  written : List (WriteKind × Bytes)
  /-- the payload bytes that were put into the transmit ring -/
  enqueued : List (WriteKind × UInt8)
  /-- the bytes that left the transmit ring -/
  drained : Bytes
  /-- the responses that TCP accepted -/
  responses : List Bytes
  /-- the stream handed to TCP -/
  handed : Bytes

structure Lwip where
  sndbuf : Nat
  tcpWrite : Bytes → Bool

inductive Event
  /-- `on_recv` with a pbuf chain -/
  | recv (p : Bytes) (next : List Bytes)
  /-- `on_recv` with an error -/
  | recvErr (p : List Bytes)
  /-- `on_recv` without a pbuf -/
  | fin
  | err
  | poll
  /-- the network task goes on -/
  | pump (lwip : Lwip)
  | readChar
  | tryReadChar
  | readBuf (maxLen : Int)
  | write (kind : WriteKind) (buf : Bytes)
  /-- the shell task goes on with its write -/
  | shell (expired : Bool)
  | setBinaryMode (on : Bool)
  | attachSession (session : SessionInfo)
  | destroy
  /-- from any task -/
  | kick

namespace Ctx

def markClosed (c : Ctx) (reason : String) : Ctx :=
  { c with closed := true, closeReason := c.closeReason.orElse fun _ => some reason }

/-! ## Telnet callbacks -/

def telnetInjectRx (c : Ctx) (byte : UInt8) : Ctx :=
  if ringFreeMask c.rx.head c.rx.tail tcpShellRxRingMask > 0 then
    { c with rx := c.rx.push byte }
  else { c with dropped := c.dropped ++ [byte] }

def telnetSendToPeer (c : Ctx) (lwip : Lwip) (data : Bytes) : Ctx :=
  if !c.pcb || data.length = 0 then c
  else
    let data := data.take 0xFFFF
    if lwip.tcpWrite data then
      { c with handed := c.handed ++ data, responses := c.responses ++ [data] }
    else c

def telnetOnNaws (c : Ctx) (cols rows : Nat) : Ctx :=
  { c with session := c.session.map fun s => { s with windowCols := cols, windowRows := rows } }

def shellTermTypeMax : Nat := 32

def telnetOnTermType (c : Ctx) (term : Bytes) : Ctx :=
  { c with
    session := c.session.map fun s =>
      { s with termType := (term.takeWhile (· ≠ nul)).take (shellTermTypeMax - 1) } }

def telnetOnInterrupt (c : Ctx) : Ctx :=
  telnetInjectRx
    { c with session := c.session.map fun s => { s with interruptRequested := true } } 0x03

def callback (lwip : Lwip) (c : Ctx) : Effect → Ctx
  | .injectRx byte => c.telnetInjectRx byte
  | .sendToPeer data => c.telnetSendToPeer lwip data
  | .onNaws cols rows => c.telnetOnNaws cols rows
  | .onTermType term => c.telnetOnTermType term
  | .onInterrupt => c.telnetOnInterrupt

/-! ## The network task: input -/

/-- The part of `drain_pending_pbuf` up to the call of the parser. -/
def drainPendingPbuf (c : Ctx) (caller : Caller) (consumed : Nat) : Ctx :=
  match c.pendingPbuf with
  | [] => { c with pump := .recved caller consumed }
  | head :: next =>
    if h : c.pendingOffset < head.length then
      if ringFreeMask c.rx.head c.rx.tail tcpShellRxRingMask = 0 then
        { c with pump := .recved caller consumed }
      else { c with pump := .feed caller consumed head[c.pendingOffset] }
    else { c with pendingPbuf := next, pendingOffset := 0 }

def feedByte (c : Ctx) (lwip : Lwip) (caller : Caller) (consumed : Nat) (byte : UInt8) : Ctx :=
  let r := telnetRxByte c.telnet byte
  let parsed := { c with telnet := r.1, fed := c.fed ++ [(byte, c.telnet.binaryMode)] }
  let called := r.2.foldl (callback lwip) parsed
  { called with
    pendingOffset := called.pendingOffset + 1
    pump := .drain caller (consumed + 1) }

def recvedReturn (c : Ctx) : Caller → Ctx
  | .onRecv => { c with pump := .idle }
  | .onFin => { c.markClosed "peer_fin" with pump := .idle }
  | .poll => { c with pump := if c.pcb then .drainTx else .close }

def recvedPending (c : Ctx) (caller : Caller) (consumed : Nat) : Ctx :=
  if consumed = 0 then c.recvedReturn caller
  else
    let step := min consumed 0xFFFF
    { c with acked := c.acked + step, pump := .recved caller (consumed - step) }

def onRecv (c : Ctx) (p : Bytes) (next : List Bytes) : Ctx :=
  let c := { c with received := c.received ++ (p :: next).flatten }
  match c.pendingPbuf with
  | [] =>
    { c with pendingPbuf := p :: next, pendingOffset := 0, pump := .drain .onRecv 0 }
  | head :: rest =>
    { c with pendingPbuf := head :: rest ++ p :: next, pump := .drain .onRecv 0 }

def onRecvErr (c : Ctx) (p : List Bytes) : Ctx :=
  { c.markClosed "rx_err" with received := c.received ++ p.flatten }

def onFin (c : Ctx) : Ctx :=
  match c.pendingPbuf with
  | [] => c.markClosed "peer_fin"
  | _ :: _ => { c with pump := .drain .onFin 0 }

def onErr (c : Ctx) : Ctx := { c with pcb := false }.markClosed "peer_rst"

/-! ## The network task: polls -/

def shellIoTcpPoll (c : Ctx) : Ctx :=
  if c.pcb then
    match c.pendingPbuf with
    | [] => { c with pump := .drainTx }
    | _ :: _ => { c with pump := .drain .poll 0 }
  else { c with pump := .close }

def txChunk (used sndbuf contiguous : Nat) : Nat :=
  let chunk := if used < sndbuf then used else sndbuf
  if chunk > contiguous then contiguous else chunk

def drainTxRing (c : Ctx) (lwip : Lwip) : Ctx :=
  let used := ringUsedMask c.tx.head c.tx.tail tcpShellTxRingMask
  if used = 0 then { c with pump := .close }
  else if lwip.sndbuf = 0 then { c with pump := .close }
  else
    let chunk := txChunk used lwip.sndbuf (tcpShellTxRingSize - c.tx.tail)
    let data := (List.range chunk).map fun i => c.tx.cell (c.tx.tail + i)
    if lwip.tcpWrite data then
      { c with
        tx := c.tx.advance chunk
        drained := c.drained ++ data
        handed := c.handed ++ data }
    else { c with pump := .close }

def closePcb (c : Ctx) : Ctx :=
  if c.closed && c.pcb && c.tx.head = c.tx.tail then { c with pcb := false, pump := .idle }
  else { c with pump := .idle }

def pumpStep (c : Ctx) (lwip : Lwip) : Option Ctx :=
  match c.pump with
  | .idle => none
  | .drain caller consumed => some (c.drainPendingPbuf caller consumed)
  | .feed caller consumed byte => some (c.feedByte lwip caller consumed byte)
  | .recved caller consumed => some (c.recvedPending caller consumed)
  | .drainTx => some (c.drainTxRing lwip)
  | .close => some c.closePcb

/-! ## The shell task: reads -/

/-- A round of `tcp_read_char`, and `tcp_try_read_char`: with an empty ring the one waits
or reports the end of the session, the other returns. -/
def tcpReadChar (c : Ctx) : Ctx :=
  if c.rx.head ≠ c.rx.tail then
    { c with rx := c.rx.advance 1, read := c.read ++ [c.rx.cell c.rx.tail] }
  else c

/-- A round of `tcp_read_buf`, with its copy in two parts. -/
def tcpReadBuf (c : Ctx) (maxLen : Int) : Ctx :=
  if maxLen ≤ 0 then c
  else
    let used := ringUsedMask c.rx.head c.rx.tail tcpShellRxRingMask
    if used > 0 then
      let want := if used < maxLen.toNat then used else maxLen.toNat
      let contiguous := tcpShellRxRingSize - c.rx.tail
      let first := if want < contiguous then want else contiguous
      let second := want - first
      let dst := ((List.range first).map fun i => c.rx.cell (c.rx.tail + i)) ++
        (List.range second).map c.rx.cell
      { c with rx := c.rx.advance want, read := c.read ++ dst }
    else c

end Ctx

/-! ## The shell task: writes -/

def encodeByte (kind : WriteKind) (prev : Bool) (c : UInt8) : Bytes :=
  match kind with
  | .text => if c = lf ∧ !prev then [cr, c] else [c]
  | .raw => if c = telnetIac then [telnetIac, telnetIac] else [c]

def nextPrev (kind : WriteKind) (c : UInt8) : Bool :=
  match kind with
  | .text => c = cr
  | .raw => false

/-- The loop under the lock, common to the two write functions: the rings after it, and
the bytes that are left.  A byte that needs two cells is not cut. -/
def enqueueLoop (kind : WriteKind) (avail : Nat) :
    Nat → TxRing → Bool → Bytes → TxRing × Bool × Bytes
  | _, tx, prev, [] => (tx, prev, [])
  | queued, tx, prev, c :: rest =>
    if queued < avail then
      let cells := encodeByte kind prev c
      if queued + cells.length > avail then (tx, prev, c :: rest)
      else
        enqueueLoop kind avail (queued + cells.length) (cells.foldl IndexRing.push tx)
          (nextPrev kind c) rest
    else (tx, prev, c :: rest)

structure OutputView where
  closed : Bool
  writeDegraded : Bool
  tx : TxRing
  txPrevWasCr : Bool
  shell : Shell
  written : List (WriteKind × Bytes)
  enqueued : List (WriteKind × UInt8)
  drained : Bytes
  responses : List Bytes
  handed : Bytes

def Ctx.output (c : Ctx) : OutputView where
  closed := c.closed
  writeDegraded := c.writeDegraded
  tx := c.tx
  txPrevWasCr := c.txPrevWasCr
  shell := c.shell
  written := c.written
  enqueued := c.enqueued
  drained := c.drained
  responses := c.responses
  handed := c.handed

namespace Ctx

def timeoutBail (c : Ctx) : Ctx :=
  { c with writeDegraded := true, shell := .idle }.markClosed "write_timeout"

def beginWrite (c : Ctx) (kind : WriteKind) (buf : Bytes) : Ctx :=
  let c := { c with written := c.written ++ [(kind, buf)] }
  if c.writeDegraded || c.closed then c else { c with shell := .write kind buf }

/-- The end of a round that has queued nothing: wait, unless the deadline has passed. -/
def writeStalled (c : Ctx) (kind : WriteKind) (rest : Bytes) (expired : Bool) : Ctx :=
  if expired then c.timeoutBail else { c with shell := .write kind rest }

def enqueueLocked (c : Ctx) (kind : WriteKind) (avail : Nat) (rest : Bytes) : Ctx × Bytes :=
  let r := enqueueLoop kind avail 0 c.tx c.txPrevWasCr rest
  let taken := rest.take (rest.length - r.2.2.length)
  ({ c with
      tx := r.1
      -- a raw write clears the flag of the text path, whatever it has queued
      txPrevWasCr := if kind = .raw then false else r.2.1
      enqueued := c.enqueued ++ taken.map fun b => (kind, b) },
    r.2.2)

/-- One round of the outer loop of a write, with `avail` free cells. -/
def enqueueRound (c : Ctx) (kind : WriteKind) (avail : Nat) (rest : Bytes) (expired : Bool) :
    Ctx :=
  if avail = 0 then c.writeStalled kind rest expired
  else
    let r := c.enqueueLocked kind avail rest
    if r.2.length = rest.length then r.1.writeStalled kind rest expired
    else { r.1 with shell := .write kind r.2 }

def shellStep (c : Ctx) (expired : Bool) : Option Ctx :=
  match c.shell with
  | .idle => none
  | .write kind rest =>
    if rest = [] then some { c with shell := .idle }
    else if c.closed then some { c with shell := .idle }
    else some { c with shell := .enqueue kind rest }
  | .enqueue kind rest =>
    let avail := ringFreeMask c.tx.head c.tx.tail tcpShellTxRingMask
    some (c.enqueueRound kind avail rest expired)

/-! ## Steps -/

/-- A callback of lwIP or a poll: the network task is at rest, and the pcb is there. -/
def fromNet (c : Ctx) (f : Ctx → Ctx) : Option Ctx :=
  if c.pump = .idle ∧ c.pcb then some (f c) else none

/-- A call by the shell task, which is not in a write and has not given up the session. -/
def fromShell (c : Ctx) (f : Ctx → Ctx) : Option Ctx :=
  if c.shell = .idle ∧ !c.shellDone then some (f c) else none

def shellIoTcpDestroy (c : Ctx) : Ctx :=
  { { c with session := none }.markClosed "shell_exit" with shellDone := true }

def step (c : Ctx) : Event → Option Ctx
  | .recv p next => c.fromNet (·.onRecv p next)
  | .recvErr p => c.fromNet (·.onRecvErr p)
  | .fin => c.fromNet onFin
  | .err => c.fromNet onErr
  | .poll => if c.pump = .idle then some c.shellIoTcpPoll else none
  | .pump lwip => c.pumpStep lwip
  | .readChar => c.fromShell tcpReadChar
  | .tryReadChar => c.fromShell tcpReadChar
  | .readBuf maxLen => c.fromShell (·.tcpReadBuf maxLen)
  | .write kind buf => c.fromShell (·.beginWrite kind buf)
  | .shell expired => c.shellStep expired
  | .setBinaryMode on =>
    c.fromShell fun c => { c with telnet := { c.telnet with binaryMode := on } }
  | .attachSession session => some { c with session := some session }
  | .destroy => c.fromShell shellIoTcpDestroy
  | .kick => some (c.markClosed "kicked")

/-! ## A closed session stays closed -/

theorem telnetSendToPeer_closed (c : Ctx) (lwip : Lwip) (data : Bytes) :
    (c.telnetSendToPeer lwip data).closed = c.closed := by
  unfold telnetSendToPeer
  split
  · rfl
  dsimp only
  split <;> rfl

theorem telnetInjectRx_closed (c : Ctx) (byte : UInt8) :
    (c.telnetInjectRx byte).closed = c.closed := by
  unfold telnetInjectRx
  split <;> rfl

theorem callbacks_closed (lwip : Lwip) (effects : List Effect) (c : Ctx) :
    (effects.foldl (callback lwip) c).closed = c.closed := by
  induction effects generalizing c with
  | nil => rfl
  | cons e es ih =>
    rw [List.foldl_cons, ih]
    cases e with
    | injectRx byte => exact c.telnetInjectRx_closed byte
    | sendToPeer data => exact c.telnetSendToPeer_closed lwip data
    | onNaws cols rows | onTermType term => rfl
    | onInterrupt => exact telnetInjectRx_closed _ 0x03

theorem txChunk_le (used sndbuf contiguous : Nat) :
    txChunk used sndbuf contiguous ≤ used ∧ txChunk used sndbuf contiguous ≤ contiguous := by
  unfold txChunk
  dsimp only
  split_ifs <;> omega

theorem drainTxRing_cases (c : Ctx) (lwip : Lwip) : c.drainTxRing lwip = { c with pump := .close } ∨
      ∃ n bytes, n ≤ c.tx.used ∧ bytes = ringList c.tx.cell tcpShellTxRingSize c.tx.tail n ∧
        c.drainTxRing lwip =
          { c with
            tx := c.tx.advance n
            drained := c.drained ++ bytes
            handed := c.handed ++ bytes } := by
  have htail := c.tx.tail_lt
  unfold drainTxRing
  rw [tx_usedMask]
  obtain ⟨hused, hcontiguous⟩ := txChunk_le c.tx.used lwip.sndbuf (tcpShellTxRingSize - c.tx.tail)
  by_cases hzero : c.tx.used = 0
  · exact .inl (if_pos hzero)
  by_cases hbuf : lwip.sndbuf = 0
  · exact .inl ((if_neg hzero).trans (if_pos hbuf))
  rw [if_neg hzero, if_neg hbuf]
  dsimp only
  split
  case isFalse => exact .inl rfl
  case isTrue =>
    refine .inr ⟨_, _, hused, ?_, rfl⟩
    rw [ringList_contiguous _ (by omega)]

variable {c d : Ctx}

theorem pumpStep_closed (h : c.pumpStep lwip = some d)
    (hc : c.closed = true) : d.closed = true := by
  unfold pumpStep at h
  split at h <;> cases h
  case h_2 =>
    unfold drainPendingPbuf
    split
    · exact hc
    · split_ifs <;> exact hc
  case h_3 => exact (callbacks_closed lwip _ _).trans hc
  case h_4 caller consumed _ =>
    unfold recvedPending
    split
    · cases caller with
      | onRecv | poll => exact hc
      | onFin => rfl
    · exact hc
  case h_5 => rcases c.drainTxRing_cases lwip with h | ⟨n, bytes, -, -, h⟩ <;> rw [h, hc]
  case h_6 => unfold closePcb; split_ifs <;> exact hc

/-- A round of a write leaves the rest of the session alone, and does not open it. -/
theorem shellStep_frame (h : c.shellStep expired = some d) :
    ∃ shell closed reason degraded tx prev enqueued, (c.closed = true → closed = true) ∧
      d = { c with
        shell := shell, closed := closed, closeReason := reason, writeDegraded := degraded
        tx := tx, txPrevWasCr := prev, enqueued := enqueued } := by
  unfold shellStep at h
  split at h
  · cases h
  · split_ifs at h <;> cases h <;> exact ⟨_, _, _, _, _, _, _, id, rfl⟩
  cases h
  unfold enqueueRound writeStalled
  dsimp only [enqueueLocked]
  split_ifs
  all_goals first
    | exact ⟨_, _, _, _, _, _, _, id, rfl⟩
    | exact ⟨_, _, _, _, _, _, _, fun _ => rfl, rfl⟩

theorem fromNet_eq_some {f : Ctx → Ctx} (h : c.fromNet f = some d) :
    c.pump = .idle ∧ c.pcb ∧ d = f c := by
  unfold fromNet at h
  split_ifs at h with hidle
  cases h
  exact ⟨hidle.1, hidle.2, rfl⟩

theorem fromShell_eq_some {f : Ctx → Ctx} (h : c.fromShell f = some d) :
    c.shell = .idle ∧ d = f c := by
  unfold fromShell at h
  split_ifs at h with hidle
  cases h
  exact ⟨hidle.1, rfl⟩

theorem tcpReadBuf_frame (c : Ctx) (maxLen : Int) :
    ∃ rx read, c.tcpReadBuf maxLen = { c with rx := rx, read := read } := by
  unfold tcpReadBuf
  dsimp only
  split_ifs
  · exact ⟨c.rx, c.read, rfl⟩
  all_goals exact ⟨_, _, rfl⟩

/-- A step of the pump, of a write, or one that closes the output side at most. -/
theorem step_cases (h : c.step e = some d) :
    (∃ lwip, e = .pump lwip ∧ c.pumpStep lwip = some d) ∨
      (∃ expired, e = .shell expired ∧ c.shellStep expired = some d) ∨
      (∃ kind buf, e = .write kind buf ∧ c.shell = .idle ∧ d = c.beginWrite kind buf) ∨
      d.output = c.output ∨ d.output = { c.output with closed := true } := by
  cases e <;> simp only [step] at h
  case pump lwip => exact .inl ⟨lwip, rfl, h⟩
  case shell expired => exact .inr (.inl ⟨expired, rfl, h⟩)
  case write kind buf =>
    obtain ⟨hidle, rfl⟩ := fromShell_eq_some h
    exact .inr (.inr (.inl ⟨kind, buf, rfl, hidle, rfl⟩))
  all_goals refine .inr (.inr (.inr ?_))
  case recv p next =>
    obtain ⟨-, -, rfl⟩ := fromNet_eq_some h
    unfold onRecv
    dsimp only
    split <;> exact .inl rfl
  case fin =>
    obtain ⟨-, -, rfl⟩ := fromNet_eq_some h
    unfold onFin
    split
    · exact .inr rfl
    · exact .inl rfl
  case recvErr | err =>
    obtain ⟨-, -, rfl⟩ := fromNet_eq_some h
    exact .inr rfl
  case poll =>
    split_ifs at h
    cases h
    unfold shellIoTcpPoll
    split
    · split <;> exact .inl rfl
    · exact .inl rfl
  case readChar | tryReadChar =>
    obtain ⟨-, rfl⟩ := fromShell_eq_some h
    unfold tcpReadChar
    split <;> exact .inl rfl
  case readBuf maxLen =>
    obtain ⟨-, rfl⟩ := fromShell_eq_some h
    obtain ⟨rx, read, hread⟩ := c.tcpReadBuf_frame maxLen
    rw [hread]
    exact .inl rfl
  case setBinaryMode on =>
    obtain ⟨-, rfl⟩ := fromShell_eq_some h
    exact .inl rfl
  case attachSession session =>
    cases h
    exact .inl rfl
  case destroy =>
    obtain ⟨-, rfl⟩ := fromShell_eq_some h
    exact .inr rfl
  case kick =>
    cases h
    exact .inr rfl

theorem step_closed (h : c.step e = some d) (hc : c.closed = true) : d.closed = true := by
  obtain ⟨lwip, -, h⟩ | ⟨expired, -, h⟩ | ⟨kind, buf, -, -, rfl⟩ | h | h := step_cases h
  · exact pumpStep_closed h hc
  · obtain ⟨_, _, _, _, _, _, _, hclosed, rfl⟩ := shellStep_frame h
    exact hclosed hc
  · unfold beginWrite
    dsimp only
    split <;> exact hc
  · exact (congrArg OutputView.closed h).trans hc
  · exact congrArg OutputView.closed h

def acceptAll : Lwip := ⟨65535, fun _ => true⟩

def parserAtOpen : TelnetParser := (telnetSendInitialNegotiation telnetInit).1

/-- `shell_io_tcp_create`; lwIP may refuse the initial negotiation. -/
def create (lwip : Lwip) : Ctx :=
  let fresh : Ctx :=
    { closed := false
      shellDone := false
      writeDegraded := false
      closeReason := none
      pcb := true
      session := none
      rx := emptyRing tcpShellRxRingSize (by decide)
      pendingPbuf := []
      pendingOffset := 0
      tx := emptyRing tcpShellTxRingSize (by decide)
      txPrevWasCr := false
      telnet := parserAtOpen
      pump := .idle
      shell := .idle
      received := []
      fed := []
      dropped := []
      acked := 0
      read := []
      written := []
      enqueued := []
      drained := []
      responses := []
      handed := [] }
  (telnetSendInitialNegotiation telnetInit).2.foldl (callback lwip) fresh

end Ctx

end SlmOs.Telnet
