import SlmOs.Telnet.Decoder

/-!
# What the reader of a remote shell gets

The bytes that leave the transmit ring are those of the payload, with the line ends and the
escapes of the two write functions, and a decoder reads the payload back from them.  The
responses of the parser do not go through the ring: they are handed to TCP between two
chunks of it.  A chunk may end between the two bytes of an escaped `0xFF`, at the wrap point
or at the limit of the send buffer; a response that is handed over there is not read as one.
In the runs where that does not happen the reader gets the payload in write order, with the
responses between its bytes: as commands, and the answer to "Are You There" as text.
-/

namespace SlmOs.Telnet

open Foundation List

/-! ## Text -/

def ValidUtf8 (bytes : Bytes) : Prop :=
  ∃ text : List Char, bytes = text.flatMap String.utf8EncodeChar

theorem utf8EncodeChar_lt (c : Char) :
    ∀ b ∈ String.utf8EncodeChar c, ∃ n < 255, b = UInt8.ofNat n := by
  unfold String.utf8EncodeChar
  dsimp only
  split_ifs <;> simp only [forall_mem_cons, not_mem_nil, false_implies, implies_true]
  · exact ⟨⟨_, by omega, rfl⟩, trivial⟩
  · exact ⟨⟨_, by omega, rfl⟩, ⟨_, by omega, rfl⟩, trivial⟩
  · exact ⟨⟨_, by omega, rfl⟩, ⟨_, by omega, rfl⟩, ⟨_, by omega, rfl⟩, trivial⟩
  exact ⟨⟨_, by omega, rfl⟩, ⟨_, by omega, rfl⟩, ⟨_, by omega, rfl⟩, ⟨_, by omega, rfl⟩,
    trivial⟩

theorem ValidUtf8.no_iac (h : ValidUtf8 bytes) : telnetIac ∉ bytes := by
  obtain ⟨text, rfl⟩ := h
  intro hmem
  obtain ⟨c, -, hc⟩ := mem_flatMap.mp hmem
  obtain ⟨n, hn, heq⟩ := utf8EncodeChar_lt c _ hc
  have htoNat : 255 = n % 256 := congrArg UInt8.toNat heq
  omega

/-! ## The output side of a session -/

def payloadOf (written : List (WriteKind × Bytes)) : List (WriteKind × UInt8) :=
  written.flatMap fun w => w.2.map fun b => (w.1, b)

theorem payloadOf_append (ws ws' : List (WriteKind × Bytes)) :
    payloadOf (ws ++ ws') = payloadOf ws ++ payloadOf ws' := flatMap_append

def Shell.rest : Shell → List (WriteKind × UInt8)
  | .idle => []
  | .write kind rest => rest.map fun b => (kind, b)
  | .enqueue kind rest => rest.map fun b => (kind, b)

/-- Whether `tx_prev_was_cr` tells how the payload so far ends.  A raw write that has not
queued anything yet may have cleared it, and it no longer matters once the session is
closed. -/
inductive PrevOk (v : OutputView) : Prop
  | exact (h : v.txPrevWasCr = prevAfter false v.enqueued)
  | raw (b : UInt8) (rest : List (WriteKind × UInt8)) (h : v.shell.rest = (.raw, b) :: rest)
  | ended (hclosed : v.closed = true) (hrest : v.shell.rest = [])

/-- The ring holds the payload that was queued and has not left it; what is queued and what
the running write has left is what was written. -/
structure Queued (v : OutputView) : Prop where
  ring : v.drained ++ v.tx.contents = wire false v.enqueued
  text : TextOk (v.enqueued ++ v.shell.rest)
  prev : PrevOk v
  payload : v.enqueued ++ v.shell.rest <+: payloadOf v.written
  complete : v.closed = false → v.enqueued ++ v.shell.rest = payloadOf v.written
  degraded : v.writeDegraded = true → v.closed = true
  busy : ∀ kind rest, v.shell = .enqueue kind rest → rest ≠ []

/-- The reader sees what left the ring, with the responses between its bytes. -/
structure Streamed (v : OutputView) : Prop where
  state : (decode .data v.handed).1 = (decode .data v.drained).1
  tokens : Interleaved (decode .data v.drained).2
    (v.responses.map fun r => (decode .data r).2) (decode .data v.handed).2
  responses : ∀ r ∈ v.responses, IsResponse r

variable {v : OutputView}

theorem PrevOk.close (h : PrevOk v) : PrevOk { v with closed := true } := by
  cases h with
  | exact h => exact .exact h
  | raw b rest h => exact .raw b rest h
  | ended _ hrest => exact .ended rfl hrest

theorem Queued.close (h : Queued v) : Queued { v with closed := true } :=
  ⟨h.ring, h.text, h.prev.close, h.payload, nofun, fun _ => rfl, h.busy⟩

theorem Queued.respond (h : Queued v) (handed : Bytes) (responses : List Bytes) :
    Queued { v with handed := handed, responses := responses } where
  ring := h.ring
  text := h.text
  prev := by
    cases h.prev with
    | exact hexact => exact .exact hexact
    | raw b rest hraw => exact .raw b rest hraw
    | ended hclosed hnil => exact .ended hclosed hnil
  payload := h.payload
  complete := h.complete
  degraded := h.degraded
  busy := h.busy

theorem TextOk.left (h : TextOk (xs ++ ys)) : TextOk xs := fun hmem => h (mem_append_left ys hmem)

theorem Queued.goto (h : Queued v) (hrest : shell.rest = v.shell.rest)
    (hbusy : ∀ kind rest, shell = .enqueue kind rest → rest ≠ []) :
    Queued { v with shell := shell } where
  ring := h.ring
  text := by
    rw [hrest]
    exact h.text
  prev := by
    cases h.prev with
    | exact hexact => exact .exact hexact
    | raw b rest hraw => exact .raw b rest (hrest.trans hraw)
    | ended hclosed hnil => exact .ended hclosed (hrest.trans hnil)
  payload := by
    rw [hrest]
    exact h.payload
  complete := by
    rw [hrest]
    exact h.complete
  degraded := h.degraded
  busy := hbusy

theorem Queued.abandon (h : Queued v) (hclosed : v.closed = true)
    (degraded : Bool) : Queued { v with shell := .idle, writeDegraded := degraded } where
  ring := h.ring
  text := by simpa [Shell.rest] using h.text.left
  prev := .ended hclosed rfl
  payload := by
    simpa [Shell.rest] using (prefix_append v.enqueued v.shell.rest).trans h.payload
  complete := fun hopen => absurd hclosed (by simp [show v.closed = false from hopen])
  degraded := fun _ => hclosed
  busy := nofun

theorem wire_raw (prev prev' : Bool) (bytes : Bytes) :
    wire prev (bytes.map fun b => (.raw, b)) = wire prev' (bytes.map fun b => (.raw, b)) := by
  cases bytes with
  | nil | cons b bytes => rfl

theorem prevAfter_raw (prev : Bool) (b : UInt8) (bytes : Bytes) :
    prevAfter prev ((b :: bytes).map fun b => (.raw, b)) = false := by
  induction bytes generalizing b with
  | nil => rfl
  | cons b' bytes ih => exact ih b'

namespace Ctx

/-! ## The write loop -/

theorem enqueueLoop_spec (kind : WriteKind) (avail queued : Nat) (tx : TxRing) (prev : Bool)
    (rest : Bytes) (hfree : tx.free = avail - queued) (hle : queued ≤ avail) :
    ∃ taken, rest = taken ++ (enqueueLoop kind avail queued tx prev rest).2.2 ∧
      (enqueueLoop kind avail queued tx prev rest).1.contents =
        tx.contents ++ wire prev (taken.map fun b => (kind, b)) ∧
      (enqueueLoop kind avail queued tx prev rest).2.1 =
        prevAfter prev (taken.map fun b => (kind, b)) := by
  induction rest generalizing queued tx prev with
  | nil => exact ⟨[], rfl, by simp [enqueueLoop, wire], rfl⟩
  | cons c rest ih =>
    have hstop : ∃ taken, c :: rest = taken ++ c :: rest ∧
        tx.contents = tx.contents ++ wire prev (taken.map fun b => (kind, b)) ∧
        prev = prevAfter prev (taken.map fun b => (kind, b)) :=
      ⟨[], rfl, by simp [wire], rfl⟩
    rw [enqueueLoop]
    dsimp only
    split_ifs with hlt hcut
    · exact hstop
    · obtain ⟨hcontents, hfree'⟩ :=
        IndexRing.contents_pushAll (encodeByte kind prev c) (r := tx) (by omega)
      obtain ⟨taken, hrest, hring, hprev⟩ := ih (queued + (encodeByte kind prev c).length)
          ((encodeByte kind prev c).foldl IndexRing.push tx) (nextPrev kind c)
          (by omega) (by omega)
      refine ⟨c :: taken, ?_, ?_, ?_⟩
      · rw [cons_append, ← hrest]
      · rw [hring, hcontents, append_assoc]
        rfl
      · exact hprev
    · exact hstop

variable {c : Ctx} {kind : WriteKind}

theorem enqueueLocked_queued (h : Queued c.output) (hshell : c.shell = .enqueue kind rest) :
    Queued { (c.enqueueLocked kind c.tx.free rest).1 with
      shell := .write kind (c.enqueueLocked kind c.tx.free rest).2 }.output := by
  obtain ⟨taken, hrest, hring, hprev⟩ :=
    enqueueLoop_spec kind c.tx.free 0 c.tx c.txPrevWasCr rest rfl (Nat.zero_le _)
  unfold enqueueLocked
  generalize enqueueLoop kind c.tx.free 0 c.tx c.txPrevWasCr rest = r at *
  obtain ⟨tx, prev, left⟩ := r
  dsimp only at *
  subst hrest
  have htake : (taken ++ left).take ((taken ++ left).length - left.length) = taken := by
    rw [length_append, Nat.add_sub_cancel, take_left']
    rfl
  rw [htake]
  -- the bytes that are taken pass from the running write to the ring
  have hrunning : c.output.shell.rest = (taken ++ left).map fun b => (kind, b) := by
    rw [output, hshell]
    rfl
  have hmove : c.enqueued ++ (taken.map fun b => (kind, b)) ++ (left.map fun b => (kind, b)) =
      c.output.enqueued ++ c.output.shell.rest := by
    rw [hrunning, map_append, append_assoc]
    rfl
  have hflag : kind = .text → c.txPrevWasCr = prevAfter false c.enqueued := by
    rintro rfl
    cases h.prev with
    | exact hexact => exact hexact
    | raw b rest hraw =>
      rw [hrunning] at hraw
      cases htl : taken ++ left <;> simp [htl] at hraw
    | ended _ hnil =>
      rw [hrunning, map_eq_nil_iff] at hnil
      exact absurd hnil (h.busy _ _ hshell)
  have hwire : wire c.txPrevWasCr (taken.map fun b => (kind, b)) =
      wire (prevAfter false c.enqueued) (taken.map fun b => (kind, b)) := by
    cases kind with
    | text => rw [hflag rfl]
    | raw => exact wire_raw _ _ taken
  refine ⟨?_, ?_, ?_, ?_, ?_, h.degraded, nofun⟩
  · change c.drained ++ tx.contents = wire false (c.enqueued ++ taken.map fun b => (kind, b))
    rw [hring, ← append_assoc, show c.drained ++ c.tx.contents = _ from h.ring, wire_append, hwire]
    rfl
  · have htext := h.text
    rw [← hmove] at htext
    exact htext
  · cases kind with
    | text =>
      apply PrevOk.exact
      change prev = prevAfter false (c.enqueued ++ taken.map fun b => (.text, b))
      rw [prevAfter_append, ← hflag rfl, hprev]
    | raw =>
      cases taken with
      | nil =>
        cases left with
        | nil => exact absurd rfl (h.busy .raw _ hshell)
        | cons b left => exact .raw b _ rfl
      | cons b taken =>
        apply PrevOk.exact
        change false = prevAfter false (c.enqueued ++ (b :: taken).map fun b => (.raw, b))
        rw [prevAfter_append, prevAfter_raw]
  · have hpayload := h.payload
    rw [← hmove] at hpayload
    exact hpayload
  intro hopen
  have hcomplete := h.complete hopen
  rw [← hmove] at hcomplete
  exact hcomplete

variable {expired : Bool}

theorem writeStalled_queued (h : Queued { c with shell := .write kind rest }.output) :
    Queued (c.writeStalled kind rest expired).output := by
  unfold writeStalled
  split
  · exact h.close.abandon rfl true
  · exact h

theorem enqueueRound_queued (h : Queued c.output) (hshell : c.shell = .enqueue kind rest) :
    Queued (c.enqueueRound kind c.tx.free rest expired).output := by
  have hlocked := enqueueLocked_queued h hshell
  obtain ⟨taken, hrest, -, -⟩ :=
    enqueueLoop_spec kind c.tx.free 0 c.tx c.txPrevWasCr rest rfl (Nat.zero_le _)
  have hsuffix : (c.enqueueLocked kind c.tx.free rest).2.length = rest.length →
      (c.enqueueLocked kind c.tx.free rest).2 = rest := by
    intro hlength
    exact List.IsSuffix.eq_of_length ⟨taken, hrest.symm⟩ hlength
  unfold enqueueRound
  generalize c.enqueueLocked kind c.tx.free rest = r at *
  dsimp only
  split
  · -- the ring is full
    apply writeStalled_queued
    exact h.goto (by rw [output, hshell]; rfl) nofun
  split
  case isTrue hlength =>
    apply writeStalled_queued
    rwa [hsuffix hlength] at hlocked
  case isFalse => exact hlocked

variable {d : Ctx}

theorem shellStep_queued (h : Queued c.output)
    (hstep : c.shellStep expired = some d) : Queued d.output := by
  unfold shellStep at hstep
  split at hstep
  case h_1 => cases hstep
  case h_2 kind rest hshell =>
    split_ifs at hstep with hnil hclosed <;> cases hstep
    · subst hnil
      exact h.goto (by rw [output, hshell]; rfl) nofun
    · exact h.abandon hclosed c.writeDegraded
    apply h.goto (by rw [output, hshell]; rfl)
    rintro _ _ ⟨⟩
    exact hnil
  case h_3 kind rest hshell =>
    cases hstep
    rw [tx_freeMask]
    exact enqueueRound_queued h hshell

theorem beginWrite_queued (h : Queued c.output) (hidle : c.shell = .idle)
    (htext : kind = .text → telnetIac ∉ buf) : Queued (c.beginWrite kind buf).output := by
  have hrest : c.output.shell.rest = [] := by rw [output, hidle]; rfl
  have hwritten : payloadOf (c.written ++ [(kind, buf)]) =
      payloadOf c.written ++ buf.map fun b => (kind, b) := by
    rw [payloadOf_append]
    simp [payloadOf]
  unfold beginWrite
  dsimp only
  split
  case isTrue hrefused =>
    have hclosed : c.closed = true := by
      rcases Bool.or_eq_true_iff.mp hrefused with hdegraded | hclosed
      · exact h.degraded hdegraded
      · exact hclosed
    refine ⟨h.ring, h.text, .ended hclosed hrest, ?_, ?_, h.degraded, h.busy⟩
    · exact h.payload.trans (hwritten ▸ prefix_append _ _)
    · exact fun hopen => absurd hclosed (by simp [show c.closed = false from hopen])
  case isFalse haccepted =>
    have hopen : c.closed = false := by simp_all
    have hcomplete : c.enqueued = payloadOf c.written := by
      have hcomplete := h.complete hopen
      rwa [hrest, append_nil] at hcomplete
    have hall : c.enqueued ++ (Shell.write kind buf).rest =
        payloadOf (c.written ++ [(kind, buf)]) := by
      rw [hwritten, ← hcomplete]
      rfl
    refine ⟨h.ring, ?_, ?_, hall ▸ prefix_rfl, fun _ => hall, h.degraded, nofun⟩
    · intro hmem
      rcases mem_append.mp hmem with hold | hnew
      · exact h.text.left hold
      obtain ⟨b, hb, heq⟩ := mem_map.mp hnew
      cases heq
      exact htext rfl hb
    cases h.prev with
    | exact hexact => exact .exact hexact
    | raw b rest hraw => cases hrest.symm.trans hraw
    | ended hclosed _ => exact absurd hclosed (by simp [show c.output.closed = false from hopen])

/-! ## Handing over to TCP -/

variable {lwip : Lwip}

theorem drainTxRing_queued (h : Queued c.output) : Queued (c.drainTxRing lwip).output := by
  rcases c.drainTxRing_cases lwip with hround | ⟨n, bytes, hn, hbytes, hround⟩
  · rw [hround]
    exact h
  rw [hround]
  refine ⟨?_, h.text, ?_, h.payload, h.complete, h.degraded, h.busy⟩
  · have hring : c.drained ++ c.tx.contents = wire false c.enqueued := h.ring
    rw [IndexRing.contents_advance hn, ← hbytes, ← append_assoc] at hring
    exact hring
  cases h.prev with
  | exact hexact => exact .exact hexact
  | raw b rest hraw => exact .raw b rest hraw
  | ended hclosed hnil => exact .ended hclosed hnil

theorem drainTxRing_streamed (h : Streamed c.output) : Streamed (c.drainTxRing lwip).output := by
  rcases c.drainTxRing_cases lwip with hround | ⟨n, bytes, -, -, hround⟩
  · rw [hround]
    exact h
  rw [hround]
  have hstate : (decode .data c.handed).1 = (decode .data c.drained).1 := h.state
  refine ⟨?_, ?_, h.responses⟩
  · change (decode .data (c.handed ++ bytes)).1 = (decode .data (c.drained ++ bytes)).1
    rw [decode_append, decode_append, hstate]
  change Interleaved (decode .data (c.drained ++ bytes)).2 _ (decode .data (c.handed ++ bytes)).2
  rw [decode_append, decode_append, hstate]
  exact h.tokens.append_elements _

def responds (c : Ctx) (lwip : Lwip) (effects : List Effect) : Prop :=
  c.pcb = true ∧ ∃ data ∈ sent effects, lwip.tcpWrite data = true

def betweenBytes (c : Ctx) : Prop := (decode .data c.handed).1 = .data

structure Responded (c d : Ctx) : Prop where
  pcb : d.pcb = c.pcb
  output : ∃ handed responses, d.output = { c.output with handed := handed, responses := responses }
  streamed : Streamed d.output
  between : c.betweenBytes → d.betweenBytes

theorem telnetSendToPeer_responded (lwip : Lwip)
    (h : Streamed c.output) (hresponse : IsResponse data)
    (hbetween : c.pcb = true → lwip.tcpWrite data = true → c.betweenBytes) :
    Responded c (c.telnetSendToPeer lwip data) := by
  have hshort : data.take 0xFFFF = data :=
    take_of_length_le (Nat.le_trans hresponse.length_le (by decide))
  unfold telnetSendToPeer
  rw [hshort]
  dsimp only
  split
  case isTrue => exact ⟨rfl, ⟨_, _, rfl⟩, h, id⟩
  case isFalse hpcb =>
    split
    case isFalse => exact ⟨rfl, ⟨_, _, rfl⟩, h, id⟩
    case isTrue haccepted =>
      have hstate : (decode .data c.handed).1 = .data := hbetween (by simp_all) haccepted
      have hnext : (decode .data (c.handed ++ data)).1 = .data := by
        rw [decode_append, hstate]
        exact hresponse.decode_state
      refine ⟨rfl, ⟨_, _, rfl⟩, ⟨?_, ?_, ?_⟩, fun _ => hnext⟩
      · exact hnext.trans (hstate.symm.trans h.state)
      · change Interleaved _ ((c.responses ++ [data]).map _) (decode .data (c.handed ++ data)).2
        rw [decode_append, hstate, map_append]
        exact h.tokens.append_block _
      intro r hr
      rcases mem_append.mp hr with hold | hnew
      · exact h.responses r hold
      rw [mem_singleton.mp hnew]
      exact hresponse

theorem Responded.refl (hpcb : d.pcb = c.pcb) (houtput : d.output = c.output)
    (h : Streamed c.output) : Responded c d where
  pcb := hpcb
  output := ⟨_, _, houtput⟩
  streamed := houtput ▸ h
  between := by
    have hhanded : d.handed = c.handed := congrArg OutputView.handed houtput
    unfold betweenBytes
    rw [hhanded]
    exact id

theorem telnetInjectRx_output (c : Ctx) (byte : UInt8) :
    (c.telnetInjectRx byte).pcb = c.pcb ∧ (c.telnetInjectRx byte).output = c.output := by
  unfold telnetInjectRx
  split <;> exact ⟨rfl, rfl⟩

theorem callbacks_responded (lwip : Lwip)
    (h : Streamed c.output) (hresponses : ∀ data ∈ sent effects, IsResponse data)
    (hbetween : c.responds lwip effects → c.betweenBytes) :
    Responded c (effects.foldl (callback lwip) c) := by
  induction effects generalizing c with
  | nil => exact .refl rfl rfl h
  | cons e es ih =>
    have hone : Responded c (c.callback lwip e) := by
      cases e with
      | injectRx byte =>
        exact .refl (c.telnetInjectRx_output byte).1 (c.telnetInjectRx_output byte).2 h
      | onNaws cols rows | onTermType term => exact .refl rfl rfl h
      | onInterrupt =>
        have hinject := telnetInjectRx_output { c with
          session := c.session.map fun s => { s with interruptRequested := true } } 0x03
        exact .refl hinject.1 hinject.2 h
      | sendToPeer data =>
        apply telnetSendToPeer_responded lwip h
        · exact hresponses data (by simp [Effect.sent])
        · exact fun hpcb haccepted => hbetween ⟨hpcb, data, by simp [Effect.sent], haccepted⟩
    have hrest : Responded (c.callback lwip e) (es.foldl (callback lwip) (c.callback lwip e)) := by
      apply ih hone.streamed
      · exact fun data hdata => hresponses data (by simp [hdata])
      rintro ⟨hpcb, data, hdata, haccepted⟩
      apply hone.between
      exact hbetween ⟨hone.pcb ▸ hpcb, data, by simp [hdata], haccepted⟩
    obtain ⟨handed, responses, houtput⟩ := hone.output
    obtain ⟨handed', responses', houtput'⟩ := hrest.output
    exact ⟨hrest.pcb.trans hone.pcb, ⟨handed', responses', by rw [foldl_cons, houtput', houtput]⟩,
      hrest.streamed, hrest.between ∘ hone.between⟩

/-! ## Runs -/

/-- Text is valid UTF-8, and no response is handed to TCP inside an escape. -/
def Undisturbed (c : Ctx) : Event → Prop
  | .write kind buf => kind = .text → ValidUtf8 buf
  | .pump lwip => ∀ caller consumed byte, c.pump = .feed caller consumed byte →
      c.responds lwip (telnetRxByte c.telnet byte).2 → c.betweenBytes
  | _ => True

structure Transparent (v : OutputView) : Prop where
  queued : Queued v
  streamed : Streamed v

theorem Transparent.close (h : Transparent v) : Transparent { v with closed := true } :=
  ⟨h.queued.close, ⟨h.streamed.state, h.streamed.tokens, h.streamed.responses⟩⟩

theorem create_transparent (lwip : Lwip) : Transparent (create lwip).output := by
  unfold create
  simp only [telnetSendInitialNegotiation, foldl_cons, foldl_nil, callback]
  generalize hfresh : (Ctx.mk _ _ _ _ _ _ _ _ _ _ _ _ _ _ _ _ _ _ _ _ _ _ _ _) = fresh
  have hstreamed : Streamed fresh.output := by
    subst hfresh
    exact ⟨rfl, .nil, nofun⟩
  have hqueued : Queued fresh.output := by
    subst hfresh
    refine ⟨?_, nofun, .exact rfl, prefix_rfl, fun _ => rfl, nofun, nofun⟩
    exact emptyRing_contents _ _
  have hresponded := telnetSendToPeer_responded lwip hstreamed .initial
    (by subst hfresh; exact fun _ _ => rfl)
  obtain ⟨handed, responses, houtput⟩ := hresponded.output
  exact ⟨houtput ▸ hqueued.respond handed responses, hresponded.streamed⟩

theorem feedByte_transparent (h : Transparent c.output)
    (hbetween : c.responds lwip (telnetRxByte c.telnet byte).2 → c.betweenBytes) :
    Transparent (c.feedByte lwip caller consumed byte).output := by
  have hresponded := callbacks_responded lwip (c := { c with
      telnet := (telnetRxByte c.telnet byte).1
      fed := c.fed ++ [(byte, c.telnet.binaryMode)] })
    h.streamed (telnetRxByte_answers c.telnet byte).sent_isResponse hbetween
  obtain ⟨handed, responses, houtput⟩ := hresponded.output
  refine ⟨?_, hresponded.streamed⟩
  have hqueued := h.queued.respond handed responses
  exact (houtput ▸ hqueued :)

theorem pumpStep_transparent (h : Transparent c.output) (hok : c.Undisturbed (.pump lwip))
    (hstep : c.pumpStep lwip = some d) : Transparent d.output := by
  unfold pumpStep at hstep
  split at hstep <;> cases hstep
  case h_2 caller consumed hpump =>
    unfold drainPendingPbuf
    split
    · exact h
    · split_ifs <;> exact h
  case h_3 caller consumed byte hpump =>
    exact feedByte_transparent h (hok caller consumed byte hpump)
  case h_4 caller consumed hpump =>
    unfold recvedPending
    split
    · cases caller with
      | onRecv | poll => exact h
      | onFin => exact h.close
    · exact h
  case h_5 hpump => exact ⟨drainTxRing_queued h.queued, drainTxRing_streamed h.streamed⟩
  case h_6 hpump =>
    unfold closePcb
    split <;> exact h

theorem step_transparent (h : Transparent c.output)
    (hok : c.Undisturbed e) (hstep : c.step e = some d) : Transparent d.output := by
  obtain ⟨lwip, rfl, hstep⟩ | ⟨expired, rfl, hstep⟩ | ⟨kind, buf, rfl, hidle, rfl⟩ | heq | heq :=
    step_cases hstep
  · exact pumpStep_transparent h hok hstep
  · have hqueued := shellStep_queued h.queued hstep
    obtain ⟨_, _, _, _, _, _, _, -, rfl⟩ := shellStep_frame hstep
    exact ⟨hqueued, h.streamed.state, h.streamed.tokens, h.streamed.responses⟩
  · refine ⟨beginWrite_queued h.queued hidle fun hkind => (hok hkind).no_iac, ?_⟩
    unfold beginWrite
    dsimp only
    split <;> exact ⟨h.streamed.state, h.streamed.tokens, h.streamed.responses⟩
  · rwa [heq]
  · rw [heq]
    exact h.close

/-- In a run where text is valid UTF-8 and no response is handed to TCP inside an escape, a
decoder reads from the stream handed to TCP a first part of the payload, in write order,
with the responses between its bytes.  All but the answer to "Are You There" are read as
commands.  The payload is complete once the session is open, no write is running and the
transmit ring is empty. -/
theorem output_transparent (lwip : Lwip) (c : Ctx) (hrun : Run step Undisturbed (create lwip) c) :
    ∃ payload, payload <+: rendered false (payloadOf c.written) ∧
      Interleaved (payload.map .data) (c.responses.map fun r => (decode .data r).2)
        (decode .data c.handed).2 ∧
      (∀ r ∈ c.responses, r = aytMarker ∨ ∀ t ∈ (decode .data r).2, t.isData = false) ∧
      (c.closed = false → c.shell = .idle → c.tx.contents = [] →
        payload = rendered false (payloadOf c.written)) := by
  have h : Transparent c.output := hrun.invariant (I := fun c => Transparent c.output)
      (fun c e d hc hok hstep => step_transparent hc hok hstep) (create_transparent lwip)
  have hring : c.drained ++ c.tx.contents = wire false c.enqueued := h.queued.ring
  have htokens : decode .data (wire false c.enqueued) =
      (.data, (rendered false c.enqueued).map .data) :=
    decode_wire false _ h.queued.text.left
  have hdrained : (decode .data c.drained).2 <+: (rendered false c.enqueued).map .data := by
    have hsplit := congrArg Prod.snd htokens
    rw [← hring, decode_append] at hsplit
    exact ⟨_, hsplit⟩
  obtain ⟨payload, hpayload, hmap⟩ := prefix_map_iff.mp hdrained
  have hwritten : c.enqueued <+: payloadOf c.written :=
    (prefix_append c.enqueued c.shell.rest).trans h.queued.payload
  refine ⟨payload, hpayload.trans (rendered_monotone false hwritten), ?_, ?_, ?_⟩
  · rw [← hmap]
    exact h.streamed.tokens
  · intro r hr
    by_cases hayt : r = aytMarker
    · exact .inl hayt
    · exact .inr ((h.streamed.responses r hr).commands hayt)
  intro hopen hidle hempty
  have hall : c.enqueued = payloadOf c.written := by
    have hcomplete : c.enqueued ++ c.shell.rest = payloadOf c.written := h.queued.complete hopen
    rwa [hidle, Shell.rest, append_nil] at hcomplete
  have hwhole : payload.map Token.data = (rendered false c.enqueued).map .data := by
    rw [hempty, append_nil] at hring
    rw [← hmap, hring, htokens]
  rw [← hall]
  exact map_injective_iff.mpr (fun _ _ h => Token.data.inj h) hwhole

def greeting : Bytes := [0x68, 0x69, 0x0A]

def calm (c : Ctx) : Event → Bool
  | .write kind buf => kind = .raw || buf = greeting
  | .pump _ => (decode .data c.handed).1 = .data
  | _ => true

theorem undisturbed_of_calm (h : c.calm e = true) : c.Undisturbed e := by
  cases e with
  | write kind buf =>
    rintro rfl
    obtain rfl : buf = greeting := by simpa [calm] using h
    exact ⟨['h', 'i', '\n'], by decide⟩
  | pump lwip =>
    intro _ _ _ _ _
    have hstate : (decode .data c.handed).1 = .data := of_decide_eq_true h
    exact hstate
  | _ => trivial

def pollWith (answers : List Lwip) : List Event := .poll :: answers.map .pump

def segment (p : Bytes) : List Event :=
  .recv p [] :: List.replicate (2 * p.length + 4) (.pump acceptAll)

def greetingAndRefusal : List Event :=
  .write .text greeting :: List.replicate 3 (.shell false) ++
    pollWith [acceptAll, acceptAll, acceptAll] ++ segment [telnetIac, telnetDo, 0x05]

theorem output_transparent_greeting : ∃ c, Run step Undisturbed (create acceptAll) c ∧
      c.responses = [telnetInitialBytes, [telnetIac, telnetWont, 0x05]] ∧
      Interleaved ([0x68, 0x69, cr, lf].map Token.data)
        (c.responses.map fun r => (decode .data r).2) (decode .data c.handed).2 := by
  have hexec : (exec step (create acceptAll) greetingAndRefusal).any (fun c =>
      c.closed = false ∧ c.shell = .idle ∧ c.tx.contents = [] ∧ c.written = [(.text, greeting)] ∧
        c.responses = [telnetInitialBytes, [telnetIac, telnetWont, 0x05]]) = true := by
    decide +kernel
  have hcalm : Along step (fun c e => c.calm e = true) (create acceptAll) greetingAndRefusal := by
    decide +kernel
  obtain ⟨c, hc, hview⟩ := (Option.any_eq_true _ _).mp hexec
  obtain ⟨hopen, hidle, hempty, hwritten, hresponses⟩ := of_decide_eq_true hview
  have hrun : Run step Undisturbed (create acceptAll) c :=
    (run_of_exec step _ greetingAndRefusal _ c hcalm hc).mono fun _ _ => undisturbed_of_calm
  obtain ⟨payload, -, htokens, -, hall⟩ := output_transparent acceptAll c hrun
  rw [hall hopen hidle hempty, hwritten] at htokens
  exact ⟨c, hrun, hresponses, htokens⟩

def areYouThere : List Event := segment [telnetIac, telnetAyt]

/-- A raw `0xFF` whose two bytes are handed over one by one, with the refusal of an option
between them. -/
def refusalInsideEscape : List Event :=
  .write .raw [0xFF] :: List.replicate 3 (.shell false) ++
    pollWith [⟨1, fun _ => true⟩, ⟨0, fun _ => true⟩, acceptAll] ++
    segment [telnetIac, telnetDo, 0x05] ++ pollWith [acceptAll, acceptAll, acceptAll]

/-- Not all responses are read as commands.  The answer to "Are You There" is text; and a
response that is handed to TCP between the two bytes of an escaped `0xFF` becomes data, and
takes the next byte with it. -/
theorem responses_read_as_data :
    (∃ c, Run step (fun _ _ => True) (create acceptAll) c ∧ c.written = [] ∧
      (decode .data c.handed).2.filter Token.isData = aytMarker.map .data) ∧
    (∃ c, Run step (fun _ _ => True) (create acceptAll) c ∧ c.written = [(.raw, [0xFF])] ∧
      c.closed = false ∧ c.shell = .idle ∧ c.tx.contents = [] ∧
      (decode .data c.handed).2.filter Token.isData =
        [.data 0xFF, .data telnetWont, .data 0x05]) := by
  constructor
  · have hexec : (exec step (create acceptAll) areYouThere).any (fun c =>
        c.written = [] ∧
          (decode .data c.handed).2.filter Token.isData = aytMarker.map .data) = true := by
      decide +kernel
    obtain ⟨c, hc, hview⟩ := (Option.any_eq_true _ _).mp hexec
    exact ⟨c, run_exec areYouThere hc, of_decide_eq_true hview⟩
  have hexec : (exec step (create acceptAll) refusalInsideEscape).any (fun c =>
      c.written = [(.raw, [0xFF])] ∧ c.closed = false ∧ c.shell = .idle ∧
        c.tx.contents = [] ∧ (decode .data c.handed).2.filter Token.isData =
          [.data 0xFF, .data telnetWont, .data 0x05]) = true := by
    decide +kernel
  obtain ⟨c, hc, hview⟩ := (Option.any_eq_true _ _).mp hexec
  exact ⟨c, run_exec refusalInsideEscape hc, of_decide_eq_true hview⟩

end Ctx

end SlmOs.Telnet
