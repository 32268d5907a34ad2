import SlmOs.Telnet.Session

/-!
# Remote shell input is lossless

What the shell has read, followed by what waits in the receive ring, is what the parser
makes of the bytes fed to it, and these are the bytes that came in up to the ones still
pending.  The argument is the one in the comment of `drain_pending_pbuf`: a byte is parsed
only after the ring was seen with a free cell, one byte gives the ring at most one, and
between the look and the parse the shell can only make more room.
-/

namespace SlmOs.Telnet

open Foundation IndexRing List
open Prod (fst)

/-! ## The reference: a parser with an unbounded buffer -/

/-- Feed bytes to the parser, each in its mode; the bytes injected are collected. -/
def feed : TelnetParser → List (UInt8 × Bool) → TelnetParser × Bytes
  | tp, [] => (tp, [])
  | tp, (b, mode) :: rest =>
    let r := telnetRxByte { tp with binaryMode := mode } b
    let t := feed r.1 rest
    (t.1, injected r.2 ++ t.2)

section

variable (tp : TelnetParser)

theorem feed_append (xs ys : List (UInt8 × Bool)) : feed tp (xs ++ ys) =
      ((feed (feed tp xs).1 ys).1, (feed tp xs).2 ++ (feed (feed tp xs).1 ys).2) := by
  induction xs generalizing tp with
  | nil => rfl
  | cons x xs ih => simp [feed, ih]

theorem feed_monotone (xs ys : List (UInt8 × Bool)) :
    (feed tp xs).2 <+: (feed tp (xs ++ ys)).2 := by
  rw [feed_append]
  exact prefix_append _ _

theorem TelnetParser.with_mode (h : tp.binaryMode = mode) :
    { tp with binaryMode := mode } = tp := by
  subst h
  rfl

theorem feed_of_mode (mode : Bool) (xs : List (UInt8 × Bool)) (h : ∀ x ∈ xs, x.2 = mode) :
    (feed tp xs).2 = injected (telnetRx { tp with binaryMode := mode } (xs.map fst)).2 := by
  induction xs generalizing tp with
  | nil => rfl
  | cons x xs ih =>
    obtain ⟨b, m⟩ := x
    obtain rfl : m = mode := h _ mem_cons_self
    have hrest := ih (telnetRxByte { tp with binaryMode := m } b).1
      fun y hy => h y (mem_cons_of_mem _ hy)
    rw [TelnetParser.with_mode _ (telnetRxByte_binaryMode _ _)] at hrest
    simp [feed, telnetRx, hrest]

end

/-! ## The input side of a session -/

structure InputView where
  rx : RxRing
  pendingPbuf : List Bytes
  pendingOffset : Nat
  telnet : TelnetParser
  pump : Pump
  received : Bytes
  fed : List (UInt8 × Bool)
  dropped : Bytes
  acked : Nat
  read : Bytes

def Ctx.input (c : Ctx) : InputView where
  rx := c.rx
  pendingPbuf := c.pendingPbuf
  pendingOffset := c.pendingOffset
  telnet := c.telnet
  pump := c.pump
  received := c.received
  fed := c.fed
  dropped := c.dropped
  acked := c.acked
  read := c.read

def InputView.pending (v : InputView) : Bytes := v.pendingPbuf.flatten.drop v.pendingOffset

/-- The bytes that the running `drain_pending_pbuf` has consumed and not acknowledged yet. -/
def Pump.consumed : Pump → Nat
  | .drain _ consumed => consumed
  | .feed _ consumed _ => consumed
  | .recved _ consumed => consumed
  | .idle => 0
  | .drainTx => 0
  | .close => 0

structure Lossless (v : InputView) : Prop where
  stream : v.fed.map fst ++ v.pending = v.received
  offset_le : ∀ head ∈ v.pendingPbuf.head?, v.pendingOffset ≤ head.length
  parser : { (feed Ctx.parserAtOpen v.fed).1 with binaryMode := v.telnet.binaryMode } = v.telnet
  injected : v.read ++ v.rx.contents = (feed Ctx.parserAtOpen v.fed).2
  dropped : v.dropped = []
  acked : v.acked + v.pump.consumed = v.fed.length
  room : ∀ caller consumed byte, v.pump = .feed caller consumed byte →
    0 < v.rx.free ∧ ∃ head next, v.pendingPbuf = head :: next ∧ head[v.pendingOffset]? = some byte

theorem Lossless.goto (h : Lossless v) (hconsumed : pump.consumed = v.pump.consumed)
    (hfeed : ∀ caller consumed byte, pump ≠ .feed caller consumed byte) :
    Lossless { v with pump := pump } where
  stream := h.stream
  offset_le := h.offset_le
  parser := h.parser
  injected := h.injected
  dropped := h.dropped
  acked := by
    rw [hconsumed, h.acked]
  room := fun caller consumed byte hpump => absurd hpump (hfeed caller consumed byte)

namespace Ctx

/-! ## The callbacks -/

theorem telnetSendToPeer_input (c : Ctx) (lwip : Lwip) (data : Bytes) :
    (c.telnetSendToPeer lwip data).input = c.input := by
  unfold telnetSendToPeer
  split
  · rfl
  dsimp only
  split <;> rfl

/-- With room for what it injects, a callback appends it to the ring and leaves the rest of
the input side as it is. -/
theorem callback_input (lwip : Lwip) (c : Ctx) (e : Effect)
    (hroom : e.injected.length ≤ c.rx.free) :
    ∃ rx, (c.callback lwip e).input = { c.input with rx := rx } ∧
      rx.contents = c.rx.contents ++ e.injected ∧ rx.free = c.rx.free - e.injected.length := by
  have hpush : ∀ (d : Ctx) (byte : UInt8), d.input = c.input → e.injected = [byte] →
      ∃ rx, (d.telnetInjectRx byte).input = { c.input with rx := rx } ∧
        rx.contents = c.rx.contents ++ e.injected ∧
        rx.free = c.rx.free - e.injected.length := by
    intro d byte hd he
    rw [he] at hroom ⊢
    have hrx : d.rx = c.rx := congrArg InputView.rx hd
    have hfree : 0 < d.rx.free := hrx ▸ hroom
    refine ⟨d.rx.push byte, ?_, ?_, ?_⟩
    · rw [telnetInjectRx, if_pos (by rwa [rx_freeMask]), ← hd]
      rfl
    · rw [contents_push byte hfree, hrx]
    · rw [free_push byte hfree, hrx, length_singleton]
  cases e with
  | injectRx byte => exact hpush c byte rfl rfl
  | onInterrupt =>
    exact hpush { c with session := c.session.map fun s => { s with interruptRequested := true } }
      0x03 rfl rfl
  | sendToPeer data =>
    refine ⟨c.rx, c.telnetSendToPeer_input lwip data, ?_, ?_⟩ <;> simp [Effect.injected]
  | onNaws cols rows | onTermType term => refine ⟨c.rx, rfl, ?_, ?_⟩ <;> simp [Effect.injected]

theorem callbacks_input (lwip : Lwip) (effects : List Effect) (c : Ctx)
    (hroom : (Telnet.injected effects).length ≤ c.rx.free) :
    ∃ rx, (effects.foldl (callback lwip) c).input = { c.input with rx := rx } ∧
      rx.contents = c.rx.contents ++ Telnet.injected effects := by
  induction effects generalizing c with
  | nil => exact ⟨c.rx, rfl, by simp⟩
  | cons e es ih =>
    rw [injected_cons, length_append] at hroom
    obtain ⟨rx, hinput, hcontents, hfree⟩ := c.callback_input lwip e (by omega)
    have hrx : (c.callback lwip e).rx = rx := congrArg InputView.rx hinput
    obtain ⟨rx', hinput', hcontents'⟩ := ih (c.callback lwip e) (by rw [hrx, hfree]; omega)
    refine ⟨rx', ?_, ?_⟩
    · rw [foldl_cons, hinput', hinput]
    · rw [hcontents', hrx, hcontents, injected_cons, append_assoc]

/-! ## What each step keeps -/

theorem drop_eq_cons {α : Type} {l : List α} {n : Nat} {a : α} (h : l[n]? = some a) :
    l.drop n = a :: l.drop (n + 1) := by
  obtain ⟨hlt, rfl⟩ := List.getElem?_eq_some_iff.mp h
  exact List.drop_eq_getElem_cons hlt

variable {c : Ctx}

theorem acked_of_pump {pump : Pump} (h : Lossless c.input) (hpump : c.pump = pump) :
    c.acked + pump.consumed = c.fed.length := by
  subst hpump
  exact h.acked

theorem create_lossless (lwip : Lwip) : Lossless (create lwip).input := by
  unfold create
  simp only [telnetSendInitialNegotiation, foldl_cons, foldl_nil, callback]
  rw [telnetSendToPeer_input]
  refine ⟨rfl, nofun, rfl, ?_, rfl, rfl, nofun⟩
  exact emptyRing_contents _ _

variable {caller : Caller} {consumed : Nat}

section

variable (h : Lossless c.input)
include h

theorem drainPendingPbuf_lossless (hpump : c.pump = .drain caller consumed) :
    Lossless (c.drainPendingPbuf caller consumed).input := by
  have hacked : c.acked + consumed = c.fed.length := acked_of_pump h hpump
  unfold drainPendingPbuf
  split
  case h_1 hnil => exact h.goto (by rw [input, hpump]; rfl) nofun
  case h_2 head next hpending =>
    split_ifs with hlt hfree
    · exact h.goto (by rw [input, hpump]; rfl) nofun
    · refine ⟨h.stream, h.offset_le, h.parser, h.injected, h.dropped, hacked, ?_⟩
      rintro _ _ _ ⟨⟩
      rw [rx_freeMask] at hfree
      exact ⟨Nat.pos_of_ne_zero hfree, head, next, hpending, by simp [input, hlt]⟩
    -- the head segment is parsed to its end
    have hle : c.pendingOffset ≤ head.length := h.offset_le head (by simp [input, hpending])
    have heq : c.pendingOffset = head.length := by omega
    refine ⟨?_, ?_, h.parser, h.injected, h.dropped, ?_, ?_⟩
    · have hstream := h.stream
      simp only [InputView.pending, input, hpending, heq, flatten_cons, drop_left] at hstream
      simpa [InputView.pending, input] using hstream
    · exact fun _ _ => Nat.zero_le _
    · exact h.acked
    intro caller' consumed' byte hfeed
    rw [hpump] at hfeed
    cases hfeed

theorem feedByte_lossless {lwip : Lwip}
    {byte : UInt8} (hpump : c.pump = .feed caller consumed byte) :
    Lossless (c.feedByte lwip caller consumed byte).input := by
  obtain ⟨hfree, head, next, hpending, hbyte⟩ := h.room caller consumed byte hpump
  have hacked : c.acked + consumed = c.fed.length := acked_of_pump h hpump
  have hlt : c.pendingOffset < head.length := (List.getElem?_eq_some_iff.mp hbyte).1
  have hdrop : c.input.pending = byte :: c.pendingPbuf.flatten.drop (c.pendingOffset + 1) := by
    apply drop_eq_cons
    change c.pendingPbuf = head :: next at hpending
    change c.pendingPbuf.flatten[c.pendingOffset]? = some byte
    rw [hpending, List.flatten_cons, List.getElem?_append_left hlt]
    exact hbyte
  -- the parser of the session and that of the reference take the same step
  have hfeed : feed parserAtOpen (c.fed ++ [(byte, c.telnet.binaryMode)]) =
      ((telnetRxByte c.telnet byte).1,
        (feed parserAtOpen c.fed).2 ++ Telnet.injected (telnetRxByte c.telnet byte).2) := by
    have hparser : { (feed parserAtOpen c.fed).1 with binaryMode := c.telnet.binaryMode } =
        c.telnet := h.parser
    rw [feed_append]
    simp [feed, hparser]
  have hone := (telnetRxByte_answers c.telnet byte).injected_le
  obtain ⟨rx, hinput, hcontents⟩ := callbacks_input lwip (telnetRxByte c.telnet byte).2
    { c with
      telnet := (telnetRxByte c.telnet byte).1
      fed := c.fed ++ [(byte, c.telnet.binaryMode)] }
    (Nat.le_trans hone hfree)
  have hview : (c.feedByte lwip caller consumed byte).input =
      { c.input with
        rx := rx
        telnet := (telnetRxByte c.telnet byte).1
        fed := c.fed ++ [(byte, c.telnet.binaryMode)]
        pendingOffset := c.pendingOffset + 1
        pump := .drain caller (consumed + 1) } :=
    congrArg (fun v : InputView =>
      { v with
        pendingOffset := v.pendingOffset + 1
        pump := .drain caller (consumed + 1) }) hinput
  rw [hview]
  refine ⟨?_, ?_, ?_, ?_, h.dropped, ?_, nofun⟩
  · have hstream : c.fed.map fst ++ c.input.pending = c.received := h.stream
    rw [hdrop] at hstream
    simpa [InputView.pending, input] using hstream
  · intro head' hhead'
    obtain rfl : head = head' := by
      change c.pendingPbuf = head :: next at hpending
      simpa [input, hpending] using hhead'
    exact hlt
  · exact congrArg (fun p : TelnetParser × Bytes =>
      { p.1 with binaryMode := (telnetRxByte c.telnet byte).1.binaryMode }) hfeed
  · have hinjected : c.read ++ c.rx.contents = (feed parserAtOpen c.fed).2 := h.injected
    change c.read ++ rx.contents = (feed parserAtOpen (c.fed ++ [(byte, c.telnet.binaryMode)])).2
    rw [hfeed, hcontents, ← hinjected, List.append_assoc]
  change c.acked + (consumed + 1) = (c.fed ++ [(byte, c.telnet.binaryMode)]).length
  rw [List.length_append, List.length_singleton]
  omega

theorem recvedReturn_lossless
    (hpump : c.pump.consumed = 0) : Lossless (c.recvedReturn caller).input := by
  cases caller with
  | onRecv | onFin => exact h.goto hpump.symm nofun
  | poll =>
    unfold recvedReturn
    dsimp only
    split <;> exact h.goto hpump.symm nofun

theorem recvedPending_lossless (hpump : c.pump = .recved caller consumed) :
    Lossless (c.recvedPending caller consumed).input := by
  have hacked : c.acked + consumed = c.fed.length := acked_of_pump h hpump
  unfold recvedPending
  split
  case isTrue hzero => exact recvedReturn_lossless h (by rw [hpump]; exact hzero)
  case isFalse hpos =>
    refine ⟨h.stream, h.offset_le, h.parser, h.injected, h.dropped, ?_, nofun⟩
    change c.acked + min consumed 0xFFFF + (consumed - min consumed 0xFFFF) = c.fed.length
    omega

theorem onRecv_lossless {p : Bytes} {next : List Bytes}
    (hpump : c.pump = .idle) : Lossless (c.onRecv p next).input := by
  have hacked : c.acked + 0 = c.fed.length := acked_of_pump h hpump
  have hstream : c.fed.map fst ++ c.pendingPbuf.flatten.drop c.pendingOffset =
      c.received := h.stream
  unfold onRecv
  dsimp only
  split
  case h_1 hnil =>
    refine ⟨?_, fun _ _ => Nat.zero_le _, h.parser, h.injected, h.dropped, hacked, nofun⟩
    rw [hnil] at hstream
    simp [InputView.pending, input, ← hstream]
  case h_2 head rest hpending =>
    have hle : c.pendingOffset ≤ head.length := h.offset_le head (by simp [input, hpending])
    refine ⟨?_, ?_, h.parser, h.injected, h.dropped, hacked, nofun⟩
    · rw [hpending] at hstream
      have hlong : c.pendingOffset ≤ ((head :: rest).flatten).length := by
        rw [flatten_cons, length_append]
        omega
      simp only [InputView.pending, input]
      rw [cons_append, ← cons_append, flatten_append,
        drop_append_of_le_length hlong, ← append_assoc, hstream]
    intro head' hhead'
    obtain rfl : head = head' := by simpa [input] using hhead'
    exact hle

theorem take_lossless (hn : n ≤ c.rx.used)
    (hbytes : bytes = ringList c.rx.cell tcpShellRxRingSize c.rx.tail n) :
    Lossless { c with rx := c.rx.advance n, read := c.read ++ bytes }.input := by
  subst hbytes
  refine ⟨h.stream, h.offset_le, h.parser, ?_, h.dropped, h.acked, ?_⟩
  · have hinjected : c.read ++ c.rx.contents = (feed parserAtOpen c.fed).2 := h.injected
    rw [contents_advance hn, ← append_assoc] at hinjected
    exact hinjected
  -- a read in between the look at the ring and the parse makes more room
  intro caller consumed byte hpump
  obtain ⟨hfree, hhead⟩ := h.room caller consumed byte hpump
  exact ⟨Nat.lt_of_lt_of_le hfree (free_le_advance hn), hhead⟩

theorem tcpReadChar_lossless : Lossless c.tcpReadChar.input := by
  unfold tcpReadChar
  split
  case isFalse => exact h
  case isTrue hne =>
    have hused : 1 ≤ c.rx.used := by
      rw [ne_eq, head_eq_tail_iff, ← length_eq_zero_iff, length_contents] at hne
      omega
    apply take_lossless h hused
    rw [ringList_contiguous _ c.rx.tail_lt]
    rfl

end

theorem copy_eq_ringList (r : RxRing) (hwant : want ≤ r.used) :
    ((List.range (if want < tcpShellRxRingSize - r.tail then want
          else tcpShellRxRingSize - r.tail)).map fun i => r.cell (r.tail + i)) ++
        (List.range (want - if want < tcpShellRxRingSize - r.tail then want
          else tcpShellRxRingSize - r.tail)).map r.cell =
      ringList r.cell tcpShellRxRingSize r.tail want := by
  have htail := r.tail_lt
  have hused := r.used_lt
  split
  case isTrue hlt =>
    rw [ringList_contiguous _ (by omega), Nat.sub_self]
    simp
  case isFalse hge =>
    have hsplit : want = tcpShellRxRingSize - r.tail +
        (want - (tcpShellRxRingSize - r.tail)) := by omega
    conv_rhs => rw [hsplit, ringList_add]
    rw [show r.tail + (tcpShellRxRingSize - r.tail) = tcpShellRxRingSize by omega,
      Nat.mod_self, ringList_contiguous _ (by omega), ringList_contiguous _ (by omega)]
    simp

theorem tcpReadBuf_lossless (h : Lossless c.input) : Lossless (c.tcpReadBuf maxLen).input := by
  unfold tcpReadBuf
  rw [rx_usedMask]
  split
  · exact h
  dsimp only
  split
  · apply take_lossless h
    · split <;> omega
    · exact copy_eq_ringList c.rx (by split <;> omega)
  · exact h

/-! ## Runs -/

variable {d : Ctx}

theorem pumpStep_lossless (h : Lossless c.input)
    (hstep : c.pumpStep lwip = some d) : Lossless d.input := by
  unfold pumpStep at hstep
  split at hstep <;> cases hstep
  case h_2 caller consumed hpump => exact drainPendingPbuf_lossless h hpump
  case h_3 caller consumed byte hpump => exact feedByte_lossless h hpump
  case h_4 caller consumed hpump => exact recvedPending_lossless h hpump
  case h_5 hpump =>
    rcases c.drainTxRing_cases lwip with hround | ⟨n, bytes, -, -, hround⟩
    · rw [hround]
      exact h.goto (by rw [input, hpump]; rfl) nofun
    rw [hround]
    exact h
  case h_6 hpump =>
    unfold closePcb
    split <;> exact h.goto (by rw [input, hpump]; rfl) nofun

theorem step_lossless {e : Event} (h : Lossless c.input)
    (hstep : c.step e = some d) (hopen : d.closed = false) : Lossless d.input := by
  cases e <;> simp only [step] at hstep
  case recv p next =>
    obtain ⟨hidle, -, rfl⟩ := fromNet_eq_some hstep
    exact onRecv_lossless h hidle
  case recvErr p =>
    -- the only step that loses input, and it closes the session
    obtain ⟨-, -, rfl⟩ := fromNet_eq_some hstep
    cases hopen
  case fin =>
    obtain ⟨hidle, -, rfl⟩ := fromNet_eq_some hstep
    unfold onFin
    split
    · exact h
    · exact h.goto (by rw [input, hidle]; rfl) (by simp)
  case err =>
    obtain ⟨-, -, rfl⟩ := fromNet_eq_some hstep
    exact h
  case poll =>
    split_ifs at hstep with hidle
    cases hstep
    unfold shellIoTcpPoll
    split
    · split <;> exact h.goto (by rw [input, hidle]; rfl) (by simp)
    · exact h.goto (by rw [input, hidle]; rfl) (by simp)
  case pump lwip => exact pumpStep_lossless h hstep
  case readChar | tryReadChar =>
    obtain ⟨-, rfl⟩ := fromShell_eq_some hstep
    exact tcpReadChar_lossless h
  case readBuf maxLen =>
    obtain ⟨-, rfl⟩ := fromShell_eq_some hstep
    exact tcpReadBuf_lossless h
  case write kind buf =>
    obtain ⟨-, rfl⟩ := fromShell_eq_some hstep
    unfold beginWrite
    dsimp only
    split <;> exact h
  case shell expired =>
    obtain ⟨_, _, _, _, _, _, _, -, rfl⟩ := shellStep_frame hstep
    exact h
  case setBinaryMode on =>
    obtain ⟨-, rfl⟩ := fromShell_eq_some hstep
    have hparser : { (feed parserAtOpen c.fed).1 with binaryMode := on } =
        { c.telnet with binaryMode := on } :=
      congrArg (fun tp : TelnetParser => { tp with binaryMode := on }) h.parser
    exact ⟨h.stream, h.offset_le, hparser, h.injected, h.dropped, h.acked, h.room⟩
  case destroy =>
    obtain ⟨-, rfl⟩ := fromShell_eq_some hstep
    exact h
  case attachSession | kick =>
    cases hstep
    exact h

/-- The whole input, with the mode in which a byte was parsed; bytes that are not parsed yet
have the mode now in force. -/
def stream (c : Ctx) : List (UInt8 × Bool) :=
  c.fed ++ c.input.pending.map fun b => (b, c.telnet.binaryMode)

/-- Until the session is closed: the shell has read, in order and without loss or
duplication, a first part of what the parser makes of the whole input, each byte in its
mode, which is what `telnet_rx` makes of it if the mode never changes; the ring has never
been full at an injection; and `tcp_recved` was told the number of bytes consumed, up to
those of a call that is still running. -/
theorem input_lossless (lwip : Lwip) (c : Ctx)
    (hrun : Run step (fun _ _ => True) (create lwip) c) (hopen : c.closed = false) :
    c.stream.map fst = c.received ∧ c.read <+: (feed parserAtOpen c.stream).2 ∧
      (∀ mode, (∀ x ∈ c.stream, x.2 = mode) → c.read <+: Telnet.injected
          (telnetRx { parserAtOpen with binaryMode := mode } c.received).2) ∧
      c.dropped = [] ∧
      c.acked + c.pump.consumed = c.fed.length := by
  have hinv : c.closed = true ∨ Lossless c.input := by
    refine hrun.invariant (I := fun c => c.closed = true ∨ Lossless c.input) ?_ ?_
    · intro c e d hc _ hstep
      rcases hc with hclosed | hlossless
      · exact .inl (step_closed hstep hclosed)
      cases hd : d.closed with
      | true => exact .inl rfl
      | false => exact .inr (step_lossless hlossless hstep hd)
    · exact .inr (create_lossless lwip)
  have h : Lossless c.input := hinv.resolve_left (by simp [hopen])
  have hmap : c.stream.map fst = c.received := by
    rw [← show c.fed.map fst ++ c.input.pending = c.received from h.stream]
    simp [stream, Function.comp_def]
  have hread : c.read <+: (feed parserAtOpen c.stream).2 := by
    have hfed : c.read <+: (feed parserAtOpen c.fed).2 := ⟨c.rx.contents, h.injected⟩
    exact hfed.trans (feed_monotone _ _ _)
  refine ⟨hmap, hread, ?_, h.dropped, h.acked⟩
  intro mode hmode
  rwa [feed_of_mode _ mode _ hmode, hmap] at hread

/-- A chain of two pbufs with an escaped `0xFF` cut between them, drained and read. -/
def escapeAcrossPbufs : List Event :=
  .recv [0x61, 0xFF] [[0xFF]] :: List.replicate 11 (.pump acceptAll) ++ [.readBuf 10]

theorem input_lossless_escape :
    ∃ c, Run step (fun _ _ => True) (create acceptAll) c ∧ c.closed = false ∧
      c.read = [0x61, 0xFF] ∧ c.acked = 3 ∧
      c.read <+: (feed parserAtOpen c.stream).2 ∧ c.dropped = [] := by
  have hexec : (exec step (create acceptAll) escapeAcrossPbufs).map
      (fun c => (c.closed, c.read, c.acked)) = some (false, [0x61, 0xFF], 3) := by
    decide +kernel
  obtain ⟨c, hc, hview⟩ := Option.map_eq_some_iff.mp hexec
  obtain ⟨hopen, hread, hacked⟩ : c.closed = false ∧ c.read = [0x61, 0xFF] ∧ c.acked = 3 := by
    simpa using hview
  have hrun := run_exec escapeAcrossPbufs hc
  obtain ⟨-, hprefix, -, hdropped, -⟩ := input_lossless acceptAll c hrun hopen
  exact ⟨c, hrun, hopen, hread, hacked, hprefix, hdropped⟩

end Ctx

end SlmOs.Telnet
