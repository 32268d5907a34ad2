import SlmOs.Foundation.Wire

/-!
# The telnet parser

The state machine of `telnet.c`, which stands between the TCP connection of a remote shell
and its receive ring.  It takes one byte at a time and answers with what the callbacks of
`telnet_ops` are called with: data for the shell, responses for the peer, and notices about
the window, the terminal and an interrupt.

One byte from the peer gives the shell at most one byte, and what the parser sends is an
option command, the request for the terminal type, or the marker that answers "Are You
There".
-/

namespace SlmOs.Telnet

open Foundation

def telnetIac : UInt8 := 0xFF
def telnetSe : UInt8 := 0xF0
def telnetIp : UInt8 := 0xF4
def telnetAyt : UInt8 := 0xF6
def telnetSb : UInt8 := 0xFA
def telnetWill : UInt8 := 0xFB
def telnetWont : UInt8 := 0xFC
def telnetDo : UInt8 := 0xFD
def telnetDont : UInt8 := 0xFE

def telnetOptEcho : UInt8 := 0x01
def telnetOptSga : UInt8 := 0x03
def telnetOptTtype : UInt8 := 0x18
def telnetOptNaws : UInt8 := 0x1F

def telnetTtypeIs : UInt8 := 0x00
def telnetTtypeSend : UInt8 := 0x01

def telnetSbBufSize : Nat := 64
def telnetTtypeMax : Nat := 32

def cr : UInt8 := 0x0D
def lf : UInt8 := 0x0A
def nul : UInt8 := 0x00

inductive TelnetState
  | data | cr | iac | optWill | optWont | optDo | optDont | sb | sbIac
  deriving DecidableEq, Repr

structure NegotiatedFlags where
  willEcho : Bool
  willSga : Bool
  doNaws : Bool
  doTtype : Bool
  deriving DecidableEq, Repr

/-- The bytes `subneg[0 .. subneg_len)`. -/
abbrev Subneg := { bytes : Bytes // bytes.length ≤ telnetSbBufSize }

structure TelnetParser where
  state : TelnetState
  subneg : Subneg
  negotiatedFlags : NegotiatedFlags
  binaryMode : Bool
  deriving DecidableEq

/-- A call of one of the `telnet_ops`. -/
inductive Effect
  | injectRx (byte : UInt8)
  | sendToPeer (data : Bytes)
  | onNaws (cols rows : Nat)
  | onTermType (term : Bytes)
  | onInterrupt
  deriving DecidableEq, Repr

/-! ## Options -/

def sendIac3 (cmd opt : UInt8) : Effect := .sendToPeer [telnetIac, cmd, opt]

def sendTtypeRequest : Effect :=
  .sendToPeer [telnetIac, telnetSb, telnetOptTtype, telnetTtypeSend, telnetIac, telnetSe]

def handleOptDo (flags : NegotiatedFlags) (opt : UInt8) : NegotiatedFlags × List Effect :=
  if opt = telnetOptEcho then
    if flags.willEcho then (flags, [])
    else ({ flags with willEcho := true }, [sendIac3 telnetWill telnetOptEcho])
  else if opt = telnetOptSga then
    if flags.willSga then (flags, [])
    else ({ flags with willSga := true }, [sendIac3 telnetWill telnetOptSga])
  else (flags, [sendIac3 telnetWont opt])

def handleOptDont (flags : NegotiatedFlags) (opt : UInt8) : NegotiatedFlags × List Effect :=
  if opt = telnetOptEcho then
    if flags.willEcho then
      ({ flags with willEcho := false }, [sendIac3 telnetWont telnetOptEcho])
    else (flags, [])
  else if opt = telnetOptSga then
    if flags.willSga then
      ({ flags with willSga := false }, [sendIac3 telnetWont telnetOptSga])
    else (flags, [])
  else (flags, [])

def handleOptWill (flags : NegotiatedFlags) (opt : UInt8) : NegotiatedFlags × List Effect :=
  if opt = telnetOptNaws then
    if flags.doNaws then (flags, [])
    else ({ flags with doNaws := true }, [sendIac3 telnetDo telnetOptNaws])
  else if opt = telnetOptTtype then
    if flags.doTtype then (flags, [])
    else
      ({ flags with doTtype := true },
        [sendIac3 telnetDo telnetOptTtype, sendTtypeRequest])
  else (flags, [sendIac3 telnetDont opt])

def handleOptWont (flags : NegotiatedFlags) (opt : UInt8) : NegotiatedFlags × List Effect :=
  if opt = telnetOptNaws then
    if flags.doNaws then
      ({ flags with doNaws := false }, [sendIac3 telnetDont telnetOptNaws])
    else (flags, [])
  else if opt = telnetOptTtype then
    if flags.doTtype then
      ({ flags with doTtype := false }, [sendIac3 telnetDont telnetOptTtype])
    else (flags, [])
  else (flags, [])

/-! ## Subnegotiation -/

def nawsSubnegLen : Nat := 5
def ttypeSubnegMinLen : Nat := 2
def ttypeOffsetString : Nat := 2

def Subneg.push (subneg : Subneg) (byte : UInt8) : Subneg :=
  if h : subneg.1.length < telnetSbBufSize then
    ⟨subneg.1 ++ [byte], by simpa using h⟩
  else subneg

def be16 (bytes : Bytes) (high : Nat) : Nat :=
  (bytes.getD high 0).toNat * 256 + (bytes.getD (high + 1) 0).toNat

def handleSubneg (subneg : Bytes) : List Effect :=
  match subneg with
  | [] => []
  | opt :: _ =>
    if opt = telnetOptNaws then
      if nawsSubnegLen ≤ subneg.length then [.onNaws (be16 subneg 1) (be16 subneg 3)]
      else []
    else if opt = telnetOptTtype then
      if ttypeSubnegMinLen ≤ subneg.length ∧ subneg.getD 1 0 = telnetTtypeIs then
        -- the characters are copied into a buffer that keeps one place for the NUL
        [.onTermType ((subneg.drop ttypeOffsetString).take (telnetTtypeMax - 1))]
      else []
    else []

/-! ## Commands and the state machine -/

def aytMarker : Bytes := [0x5B, 0x53, 0x4C, 0x4D, 0x2D, 0x4F, 0x53, 0x5D]

def handleIacCmd (tp : TelnetParser) (cmd : UInt8) : TelnetParser × List Effect :=
  if cmd = telnetIac then ({ tp with state := .data }, [.injectRx 0xFF])
  else if cmd = telnetWill then ({ tp with state := .optWill }, [])
  else if cmd = telnetWont then ({ tp with state := .optWont }, [])
  else if cmd = telnetDo then ({ tp with state := .optDo }, [])
  else if cmd = telnetDont then ({ tp with state := .optDont }, [])
  else if cmd = telnetSb then ({ tp with state := .sb, subneg := ⟨[], Nat.zero_le _⟩ }, [])
  else if cmd = telnetIp then ({ tp with state := .data }, [.onInterrupt])
  else if cmd = telnetAyt then ({ tp with state := .data }, [.sendToPeer aytMarker])
  -- NOP, DM, BRK, AO, EC, EL, GA, and whatever is no command at all
  else ({ tp with state := .data }, [])

def TelnetParser.optDone (tp : TelnetParser) (r : NegotiatedFlags × List Effect) :
    TelnetParser × List Effect :=
  ({ tp with negotiatedFlags := r.1, state := .data }, r.2)

def telnetRxByte (tp : TelnetParser) (b : UInt8) : TelnetParser × List Effect :=
  match tp.state with
  | .data =>
    if b = telnetIac then ({ tp with state := .iac }, [])
    else if b = cr ∧ !tp.binaryMode then ({ tp with state := .cr }, [.injectRx cr])
    else (tp, [.injectRx b])
  | .cr =>
    if (b = lf ∨ b = nul) ∧ !tp.binaryMode then ({ tp with state := .data }, [])
    else if b = telnetIac then ({ tp with state := .iac }, [])
    else ({ tp with state := .data }, [.injectRx b])
  | .iac => handleIacCmd tp b
  | .optWill => tp.optDone (handleOptWill tp.negotiatedFlags b)
  | .optWont => tp.optDone (handleOptWont tp.negotiatedFlags b)
  | .optDo => tp.optDone (handleOptDo tp.negotiatedFlags b)
  | .optDont => tp.optDone (handleOptDont tp.negotiatedFlags b)
  | .sb =>
    if b = telnetIac then ({ tp with state := .sbIac }, [])
    else ({ tp with subneg := tp.subneg.push b }, [])
  | .sbIac =>
    if b = telnetSe then ({ tp with state := .data }, handleSubneg tp.subneg.1)
    else if b = telnetIac then
      ({ tp with state := .sb, subneg := tp.subneg.push 0xFF }, [])
    else ({ tp with state := .data }, [])

def telnetRx (tp : TelnetParser) : Bytes → TelnetParser × List Effect
  | [] => (tp, [])
  | b :: bs =>
    let r := telnetRxByte tp b
    let rest := telnetRx r.1 bs
    (rest.1, r.2 ++ rest.2)

def telnetInit : TelnetParser where
  state := .data
  subneg := ⟨[], Nat.zero_le _⟩
  negotiatedFlags := ⟨false, false, false, false⟩
  binaryMode := false

def telnetInitialBytes : Bytes :=
  [telnetIac, telnetWill, telnetOptEcho, telnetIac, telnetWill, telnetOptSga,
    telnetIac, telnetDo, telnetOptNaws,
    telnetIac, telnetDo, telnetOptTtype]

def telnetSendInitialNegotiation (tp : TelnetParser) : TelnetParser × List Effect :=
  ({ tp with negotiatedFlags := ⟨true, true, true, true⟩ }, [.sendToPeer telnetInitialBytes])

/-! ## What one byte can cause -/

def Effect.injected : Effect → Bytes
  | .injectRx byte => [byte]
  | .sendToPeer _ => []
  | .onNaws _ _ => []
  | .onTermType _ => []
  | .onInterrupt => [0x03]

def Effect.sent : Effect → List Bytes
  | .injectRx _ => []
  | .sendToPeer data => [data]
  | .onNaws _ _ => []
  | .onTermType _ => []
  | .onInterrupt => []

def injected (effects : List Effect) : Bytes := effects.flatMap Effect.injected

def sent (effects : List Effect) : List Bytes := effects.flatMap Effect.sent

@[simp] theorem injected_nil : injected [] = [] := rfl

@[simp] theorem injected_cons (e : Effect) (es : List Effect) :
    injected (e :: es) = e.injected ++ injected es := List.flatMap_cons

@[simp] theorem injected_append (es es' : List Effect) :
    injected (es ++ es') = injected es ++ injected es' := List.flatMap_append

@[simp] theorem sent_nil : sent [] = [] := rfl

@[simp] theorem sent_cons (e : Effect) (es : List Effect) :
    sent (e :: es) = e.sent ++ sent es := List.flatMap_cons

inductive IsResponse : Bytes → Prop
  | option (cmd opt : UInt8)
      (h : cmd = telnetWill ∨ cmd = telnetWont ∨ cmd = telnetDo ∨ cmd = telnetDont) :
      IsResponse [telnetIac, cmd, opt]
  | ttypeRequest :
      IsResponse [telnetIac, telnetSb, telnetOptTtype, telnetTtypeSend, telnetIac, telnetSe]
  | initial : IsResponse telnetInitialBytes
  | ayt : IsResponse aytMarker

/-- An answer to a command of the peer: no data, and responses only. -/
structure Answers (effects : List Effect) : Prop where
  injected_le : (injected effects).length ≤ 1
  sent_isResponse : ∀ data ∈ sent effects, IsResponse data

theorem Answers.nil : Answers [] := ⟨by simp, by simp⟩

theorem Answers.inject (b : UInt8) : Answers [.injectRx b] :=
  ⟨by simp [Effect.injected], by simp [Effect.sent]⟩

theorem Answers.iac3 (opt : UInt8)
    (h : cmd = telnetWill ∨ cmd = telnetWont ∨ cmd = telnetDo ∨ cmd = telnetDont) :
    Answers [sendIac3 cmd opt] := by
  refine ⟨by simp [sendIac3, Effect.injected], ?_⟩
  intro data hdata
  obtain rfl : data = [telnetIac, cmd, opt] := by
    simpa [sendIac3, Effect.sent] using hdata
  exact .option cmd opt h

section

variable (flags : NegotiatedFlags)

theorem handleOptDo_answers (opt : UInt8) : Answers (handleOptDo flags opt).2 := by
  unfold handleOptDo
  split_ifs <;> first | exact .nil | exact .iac3 _ (by simp)

theorem handleOptDont_answers (opt : UInt8) : Answers (handleOptDont flags opt).2 := by
  unfold handleOptDont
  split_ifs <;> first | exact .nil | exact .iac3 _ (by simp)

theorem handleOptWont_answers (opt : UInt8) : Answers (handleOptWont flags opt).2 := by
  unfold handleOptWont
  split_ifs <;> first | exact .nil | exact .iac3 _ (by simp)

theorem handleOptWill_answers (opt : UInt8) : Answers (handleOptWill flags opt).2 := by
  unfold handleOptWill
  split_ifs
  · exact .nil
  · exact .iac3 _ (by simp)
  · exact .nil
  · -- the only answer of two messages
    refine ⟨by simp [sendIac3, sendTtypeRequest, Effect.injected], ?_⟩
    intro data hdata
    have hcases : data = [telnetIac, telnetDo, telnetOptTtype] ∨
        data = [telnetIac, telnetSb, telnetOptTtype, telnetTtypeSend, telnetIac, telnetSe] := by
      simpa [sendIac3, sendTtypeRequest, Effect.sent] using hdata
    rcases hcases with rfl | rfl
    · exact .option _ _ (by simp)
    · exact .ttypeRequest
  · exact .iac3 _ (by simp)

end

theorem handleSubneg_answers (subneg : Bytes) : Answers (handleSubneg subneg) := by
  unfold handleSubneg
  split
  · exact .nil
  · split_ifs <;> first | exact .nil | exact ⟨by simp [Effect.injected], by simp [Effect.sent]⟩

theorem handleIacCmd_answers (tp : TelnetParser) (cmd : UInt8) :
    Answers (handleIacCmd tp cmd).2 := by
  unfold handleIacCmd
  split_ifs
  any_goals exact .nil
  · exact .inject _
  · exact ⟨by simp [Effect.injected], by simp [Effect.sent]⟩
  · refine ⟨by simp [Effect.injected], ?_⟩
    intro data hdata
    obtain rfl : data = aytMarker := by simpa [Effect.sent] using hdata
    exact .ayt

theorem telnetRxByte_answers (tp : TelnetParser) (b : UInt8) : Answers (telnetRxByte tp b).2 := by
  unfold telnetRxByte
  split
  case h_1 => split_ifs <;> first | exact .nil | exact .inject _
  case h_2 => split_ifs <;> first | exact .nil | exact .inject _
  case h_3 => exact handleIacCmd_answers tp b
  case h_4 => exact handleOptWill_answers _ b
  case h_5 => exact handleOptWont_answers _ b
  case h_6 => exact handleOptDo_answers _ b
  case h_7 => exact handleOptDont_answers _ b
  case h_8 => split_ifs <;> exact .nil
  case h_9 =>
    split_ifs
    · exact handleSubneg_answers _
    · exact .nil
    · exact .nil

theorem telnetRxByte_binaryMode (tp : TelnetParser) (b : UInt8) :
    (telnetRxByte tp b).1.binaryMode = tp.binaryMode := by
  unfold telnetRxByte
  split
  case h_3 => unfold handleIacCmd; split_ifs <;> rfl
  case h_4 | h_5 | h_6 | h_7 => rfl
  all_goals split_ifs <;> rfl

end SlmOs.Telnet
